import Chip8.Proofs.Machine.Loading

/-! # Starting over

A machine that is reset is a new machine with its program loaded again. Whatever was done to it
before leaves no trace but the name of the file.
-/

namespace Chip8

theorem Memory.create_size (m : Memory) : create m.size = .ok m.clear := dif_pos m.size_pos

namespace Machine

variable {c : Config} {entropy entropy' : Random.Key} {m n : Machine} {files : Files}
  {name : String}

def withRom (m : Machine) (rom : Option String) : Machine := { m with rom }

/-- What loading comes to if only a success overwrites the name of the file. -/
def keepingRom (m : Machine) (rom : Option String) (loaded : Reply Unit) : Reply Unit :=
  match loaded.result with
  | .ok _ => loaded
  | .error _ => { loaded with machine := m.withRom rom }

theorem keepingRom_of_ok {rom : Option String} {loaded : Reply Unit}
    (h : loaded.result = .ok ()) : m.keepingRom rom loaded = loaded := by
  simp only [keepingRom, h]

theorem keepingRom_of_error {rom : Option String} {loaded : Reply Unit} {e : Fault}
    (h : loaded.result = .error e) :
    m.keepingRom rom loaded = { loaded with machine := m.withRom rom } := by
  simp only [keepingRom, h]

theorem result_keepingRom {rom : Option String} {loaded : Reply Unit} :
    (m.keepingRom rom loaded).result = loaded.result := by
  unfold keepingRom
  split <;> rfl

theorem rom_of_create (h : create c entropy = .ok m) : m.rom = none := by
  obtain ⟨_, memory, _, rfl⟩ := create_eq_ok_iff.mp h
  rfl

theorem WellFormed.restart_eq (h : m.WellFormed c) (hn : create c entropy = .ok n) :
    m.restart entropy = n.withRom m.rom := by
  obtain ⟨_, memory, hmemory, rfl⟩ := create_eq_ok_iff.mp hn
  -- The sizes of the memory and of the display are all that is left of the old machine.
  have hclear : m.memory.clear = memory := by
    have hcreate := Memory.create_size m.memory
    rw [h.memory, hmemory] at hcreate
    exact (Except.ok.inj hcreate).symm
  simp only [Machine.restart, withRom, h.config, hclear, Display.initialise, h.planes]

theorem loadRom_withRom (rom : Option String) (bytes : List UInt8) :
    (m.withRom rom).loadRom bytes = m.keepingRom rom (m.loadRom bytes) := by
  have hlimit : (m.withRom rom).romLimit = m.romLimit := rfl
  unfold loadRom
  rw [hlimit]
  by_cases hlarge : m.romLimit < (Rom.program bytes).length
  · simp only [if_pos hlarge, keepingRom]
  · simp only [if_neg hlarge, keepingRom, withRom]

theorem loadFile_withRom (rom : Option String) :
    (m.withRom rom).loadFile files name = m.keepingRom rom (m.loadFile files name) := by
  unfold loadFile
  cases files name with
  | error e => rfl
  | ok bytes =>
    simp only [loadRom_withRom]
    cases hr : (m.loadRom bytes).result with
    | error e => simp only [keepingRom_of_error hr, hr]
    | ok _ => simp only [keepingRom, hr]

theorem rom_loadFile (h : m.rom = some name) :
    (m.loadFile files name).machine.rom = some name := by
  unfold loadFile
  cases files name with
  | error e => exact h
  | ok bytes =>
    rcases Nat.lt_or_ge m.romLimit (Rom.program bytes).length with hlarge | hfits
    · obtain ⟨hresult, hmachine⟩ := loadRom_of_lt hlarge
      simp only [hresult, hmachine, h]
    · simp only [(loadRom_of_le hfits).1]

theorem rom_restart : (m.restart entropy).rom = m.rom := by
  simp only [restart]

@[simp] theorem rom_reset : (m.reset files entropy).machine.rom = m.rom := by
  unfold reset
  cases hr : m.rom with
  | none => exact rom_restart.trans hr
  | some name => exact rom_loadFile (rom_restart.trans hr)

theorem WellFormed.reset_of_none (h : m.WellFormed c) (hn : create c entropy = .ok n)
    (hr : m.rom = none) : m.reset files entropy = ⟨.ok (), n, #[]⟩ := by
  have hrestart : m.restart entropy = n := calc
    m.restart entropy = n.withRom m.rom := h.restart_eq hn
    _ = n.withRom n.rom := by rw [hr, rom_of_create hn]
    _ = n := rfl
  simp only [Machine.reset, hr, hrestart]

theorem WellFormed.reset_of_some (h : m.WellFormed c) (hn : create c entropy = .ok n)
    (hr : m.rom = some name) :
    m.reset files entropy = n.keepingRom (some name) (n.loadFile files name) := by
  simp only [Machine.reset, hr, h.restart_eq hn, loadFile_withRom]

/-- Neither the history of a machine nor its state matters to a reset, apart from the
configuration and the name of the file; nor does chance, if there is a seed. -/
theorem WellFormed.reset_congr (hm : m.WellFormed c) (hn : n.WellFormed c) (hr : n.rom = m.rom)
    (he : c.seed = none → entropy' = entropy) :
    n.reset files entropy' = m.reset files entropy := by
  obtain ⟨new, hnew⟩ : ∃ new, create c entropy = .ok new := exists_create_iff.mpr hm.accepted
  have hnew' : create c entropy' = .ok new := (create_congr he).trans hnew
  cases hrom : m.rom with
  | none => rw [hm.reset_of_none hnew hrom, hn.reset_of_none hnew' (hr.trans hrom)]
  | some name => rw [hm.reset_of_some hnew hrom, hn.reset_of_some hnew' (hr.trans hrom)]

/-- A reset comes to the same as making a new machine and loading the file again, and so does a
second one. If there is a seed, new machines are all the same, and the entropy of no reset
matters. -/
theorem reset_is_new (hn : create c entropy = .ok n) (ops : List Operation) (files : Files)
    {new : Machine} (hnew : create c entropy' = .ok new) :
    let m := Operation.run n ops
    let reply := m.reset files entropy'
    (c.seed ≠ none → new = n) ∧
    (m.rom = none → reply.result = .ok () ∧ reply.machine = new) ∧
    (∀ name, m.rom = some name →
      let loaded := new.loadFile files name
      reply.result = loaded.result ∧
        (loaded.result = .ok () → reply.machine = loaded.machine) ∧
        ∀ e, loaded.result = .error e → reply.machine = { new with rom := some name }) ∧
    ∀ later, (c.seed = none → later = entropy') →
      (∀ m' : Machine, m'.Reachable → m'.config = m.config → m'.rom = m.rom →
        m'.reset files later = reply) ∧
      reply.machine.reset files later = reply := by
  intro m reply
  have hm : m.WellFormed c := (wellFormed_of_create hn).run ops
  refine ⟨fun hseed => ?_, fun hr => ?_, fun name hr => ?_, fun later he => ⟨?_, ?_⟩⟩
  · have hsame : create c entropy' = create c entropy := create_congr fun h => absurd h hseed
    exact Except.ok.inj (hnew.symm.trans (hsame.trans hn))
  · have hreply : reply = ⟨.ok (), new, #[]⟩ := hm.reset_of_none hnew hr
    rw [hreply]
    exact ⟨rfl, rfl⟩
  · have hreply : reply = new.keepingRom (some name) (new.loadFile files name) :=
      hm.reset_of_some hnew hr
    refine ⟨?_, fun hl => ?_, fun e hl => ?_⟩
    · rw [hreply, result_keepingRom]
    · rw [hreply, keepingRom_of_ok hl]
    · rw [hreply, keepingRom_of_error hl]
      rfl
  · intro m' hm' hc hr
    have hw : m'.WellFormed c := by
      have hw := hm'.wellFormed
      rwa [hc, hm.config] at hw
    exact hm.reset_congr hw hr he
  · exact hm.reset_congr (hm.reset files entropy') rom_reset he

/-- A machine with a seed that was never given a file, and one whose file is still there, or gone.
Its resets have other entropy than it had when it was new. -/
theorem reset_is_new_after_tick :
    let c := { Config.standard .chip8 with seed := some 1 }
    ∃ n, create c default = .ok n ∧
      let entropy : Random.Key := Vector.replicate 8 1
      let game : Files := fun _ => .ok [0x12, 0x00]
      let gone : Files := fun _ => .error .notFound
      let m := Operation.run n [.loadFile game "game", .tick]
      ((Operation.run n [.tick]).reset gone entropy).machine = n ∧
        (m.reset game entropy).machine = (n.loadFile game "game").machine ∧
        (m.reset gone entropy).result = .error (.unreadable .notFound) ∧
        (m.reset gone entropy).machine = { n with rom := some "game" } ∧
        (Operation.run n [.loadFile game "game"]).reset gone default = m.reset gone entropy := by
  intro c
  have hplaces : c.Places [0x12, 0x00] := ⟨rfl, by decide, by decide, by decide⟩
  obtain ⟨n, hn⟩ := exists_create_iff.mpr (rfl : c.Accepted)
  refine ⟨n, hn, ?_⟩
  intro entropy game gone m
  have hseeded {a b : Random.Key} (h : c.seed = none) : a = b := absurd h (by decide)
  have hnew : create c entropy = .ok n := (create_congr hseeded).trans hn
  have hload : n.loadFile game "game" = _ := loadFile_of_places hn hplaces rfl
  have hresult : (n.loadFile game "game").result = .ok () := by rw [hload]
  have hrom : m.rom = some "game" := by
    have hloaded : (n.loadFile game "game").machine.rom = some "game" := by rw [hload]
    exact hloaded
  have hnone : (Operation.run n [.tick]).rom = none := (rom_of_create hn : n.rom = none)
  have hgone : (n.loadFile gone "game").result = .error (.unreadable .notFound) := rfl
  obtain ⟨_, htick, _⟩ := reset_is_new hn [.tick] gone hnew
  obtain ⟨_, _, hkept, _⟩ := reset_is_new hn [.loadFile game "game", .tick] game hnew
  obtain ⟨_, _, hlost, hany⟩ := reset_is_new hn [.loadFile game "game", .tick] gone hnew
  refine ⟨(htick hnone).2, (hkept "game" hrom).2.1 hresult, ?_, ?_, ?_⟩
  · exact (hlost "game" hrom).1.trans hgone
  · exact (hlost "game" hrom).2.2 _ hgone
  · exact (hany default hseeded).1 _ ⟨_, _, n, [.loadFile game "game"], hn, rfl⟩ rfl rfl

end Machine

end Chip8
