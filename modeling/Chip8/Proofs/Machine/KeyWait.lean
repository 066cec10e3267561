import Mathlib.Data.List.FinRange
import Mathlib.Order.Bounds.Basic
import Mathlib.Order.WellFounded
import Chip8.Proofs.Machine.Timers

/-! # Waiting for a key

A machine that waits for a key does nothing else. However often it looks for one in vain, only the
ticks in between leave a trace, and they leave it on the timers. The first time that a key is down,
the lowest one ends the wait.
-/

namespace Chip8

namespace Keypad

variable {pad : Keypad} {key : Fin 16}

def Idle (pad : Keypad) : Prop := ∀ key, pad.held.get key = false

instance : Decidable pad.Idle := inferInstanceAs (Decidable (∀ key, pad.held.get key = false))

def down (pad : Keypad) : Set (Fin 16) := {key | pad.held.get key = true}

theorem first?_eq_find? :
    pad.first? = ((List.finRange 16).find? pad.held.get).map fun key => UInt8.ofNat key := by
  unfold first? keys
  rw [List.head?_filter]

theorem Idle.first? (h : pad.Idle) : pad.first? = none := by
  rw [first?_eq_find?, List.find?_eq_none.mpr fun key _ => ne_true_of_eq_false (h key)]
  rfl

theorem first?_of_isLeast (h : IsLeast pad.down key) : pad.first? = some (UInt8.ofNat key) := by
  have hfind : (List.finRange 16).find? pad.held.get = some key := by
    refine List.find?_eq_some_iff_getElem.mpr ⟨h.1, key, by simp, by simp, fun j hj => ?_⟩
    have hdown : pad.held.get ⟨j, by omega⟩ ≠ true := fun hdown =>
      absurd (h.2 hdown) (not_le.mpr hj)
    simpa using hdown
  rw [first?_eq_find?, hfind]
  rfl

theorem exists_isLeast_down (h : ¬ pad.Idle) : ∃ key, IsLeast pad.down key := by
  have hdown : pad.down.Nonempty := by
    unfold Idle at h
    push Not at h
    obtain ⟨key, hkey⟩ := h
    exact ⟨key, Bool.eq_true_of_not_eq_false hkey⟩
  obtain ⟨key, hkey, hleast⟩ := wellFounded_lt.has_min pad.down hdown
  exact ⟨key, hkey, fun other hother => not_lt.mp (hleast other hother)⟩

end Keypad

namespace Machine

variable {m n : Machine} {keys : Keyboard} {x : Register} {next : UInt16} {τ : Timers}

/-! ## The beginning of a wait -/

theorem cycle_of_awaitKey {t : Trace} (h : (m.cycle keys).result = .ok (.executed t))
    (hi : t.instruction = .awaitKey x) :
    t.pc = m.pc ∧
      m.cycle keys =
        ⟨.ok (.executed t), { m.advance 2 with waiting := true, keyRegister := x },
          #[.event (.executed t)]⟩ := by
  obtain ⟨hready, hfetch⟩ := cycle_of_executed h
  refine ⟨(fetch_eq_ok_iff.mp hfetch).2.2.1, ?_⟩
  rw [cycle_of_fetch hready hfetch, hi]
  rfl

/-- An instruction that waits for a key in `x` has been executed just now, and the machine stands
at `next`, behind it. -/
inductive BeginsWait (x : Register) : UInt16 → Machine → Prop
  | cycle {m : Machine} {keys : Keyboard} {t : Trace}
      (h : (m.cycle keys).result = .ok (.executed t)) (hi : t.instruction = .awaitKey x) :
      BeginsWait x (t.pc + 2) (m.cycle keys).machine
  | opcode {m : Machine} {keys : Keyboard} {o : UInt16}
      (h : (m.executeOpcode keys o).result = .ok (.awaitKey x)) :
      BeginsWait x m.pc (m.executeOpcode keys o).machine
  | instruction (m : Machine) (keys : Keyboard) :
      BeginsWait x m.pc (m.perform keys (.awaitKey x)).machine

theorem BeginsWait.state (h : BeginsWait x next n) :
    n.waiting = true ∧ n.keyRegister = x ∧ n.pc = next := by
  cases h with
  | cycle h hi =>
    obtain ⟨hpc, hcycle⟩ := cycle_of_awaitKey h hi
    rw [hcycle, hpc]
    exact ⟨rfl, rfl, rfl⟩
  | @opcode m keys o h =>
    unfold executeOpcode at h ⊢
    split at h
    · cases h
    · cases h
      have hsize : (Instruction.awaitKey x).size - 2 = 0 := UInt16.sub_self 2
      rw [hsize]
      exact ⟨rfl, rfl, UInt16.add_zero m.pc⟩
  | instruction => exact ⟨rfl, rfl, rfl⟩

/-! ## Looking for a key in vain -/

theorem polls_of_idle (hw : n.waiting = true) {pads : List Keypad}
    (hidle : ∀ pad ∈ pads, pad.Idle) :
    let polls := (pads.map Keypad.keyboard).map Beat.cycle
    Beat.Throughout Timeless n polls ∧ Beat.run n polls = n ∧
      Beat.outcomes n polls = pads.map (fun _ => .ok .awaitingKey) ∧ Beat.told n polls = #[] := by
  induction pads with
  | nil => exact ⟨trivial, rfl, rfl, rfl⟩
  | cons pad pads ih =>
    have hcycle : n.cycle pad.keyboard = ⟨.ok .awaitingKey, n, #[]⟩ :=
      (CyclesTo.await hw (hidle pad List.mem_cons_self).first?).eq
    have hmachine : (n.cycle pad.keyboard).machine = n := by rw [hcycle]
    have hresult : (n.cycle pad.keyboard).result = .ok .awaitingKey := by rw [hcycle]
    have hnotices : (n.cycle pad.keyboard).notices = #[] := by rw [hcycle]
    obtain ⟨hthroughout, hrun, houtcomes, htold⟩ :=
      ih fun pad hpad => hidle pad (List.mem_cons_of_mem _ hpad)
    rw [← hmachine] at hthroughout hrun houtcomes htold
    refine ⟨⟨?_, hthroughout⟩, hrun.trans hmachine, congrArg₂ List.cons hresult houtcomes,
      congrArg₂ Array.append hnotices htold⟩
    rintro _ t ⟨⟩ ht
    rw [hresult] at ht
    cases ht

/-- Nothing but the ticks has an effect on a machine that looks for a key in vain. -/
theorem wait_of_idle (hw : n.waiting = true) {pads : List Keypad} {k : Nat} {beats : List Beat}
    (hb : Beat.Interleaves (pads.map Keypad.keyboard) k beats)
    (hidle : ∀ pad ∈ pads, pad.Idle) :
    Beat.run n beats = n.withTimers (Timers.tick^[k] n.timers) ∧
      Beat.outcomes n beats = pads.map (fun _ => .ok .awaitingKey) ∧
      Notice.beeps (Beat.told n beats) = n.timers.beeps k ∧
      Notice.others (Beat.told n beats) = [] := by
  obtain ⟨hthroughout, hrun, houtcomes, htold⟩ := polls_of_idle hw hidle
  obtain ⟨hrun', houtcomes', hbeeps, hothers⟩ := hb.factor hthroughout
  rw [hrun] at hrun'
  rw [htold] at hothers
  exact ⟨hrun', houtcomes'.trans houtcomes, hbeeps, hothers⟩

/-! ## The end of a wait -/

def receive (m : Machine) (x : Register) (key : UInt8) : Machine :=
  { m with waiting := false, v := m.v.update x key }

theorem cycle_of_key {key : UInt8} (hw : n.waiting = true) (hx : n.keyRegister = x)
    (hk : keys.pressed? = some key) :
    n.cycle keys = ⟨.ok (.keyReceived key), n.receive x key, #[]⟩ := by
  subst hx
  exact (CyclesTo.receive hw hk).eq

theorem result_cycle (hw : m.waiting = false) :
    (m.cycle keys).result = m.fetch.map Outcome.executed := by
  cases hf : m.fetch with
  | error e => rw [(CyclesTo.fault hw hf).eq]; rfl
  | ok t => rw [cycle_of_fetch hw hf]; rfl

theorem run_ticks (n : Machine) (k : Nat) :
    Beat.run n (List.replicate k .tick) = n.withTimers (Timers.tick^[k] n.timers) := by
  have hb : Beat.Interleaves [] k (List.replicate k .tick) := by
    induction k with
    | zero => exact .nil
    | succ k ih => exact .tick ih
  exact (hb.factor (m := n) trivial).1

/-- Between an instruction that waits for a key in `x` and the first key that is down, cycles and
ticks in any order come to the ticks alone: each cycle looks for a key and leaves all as it is,
wherever the program counter points and whatever stands there. The lowest key that is down goes to
`x` and ends the wait, and the next cycle is the first to fetch, from behind the instruction. What
the wait leaves behind depends on the number of ticks, but not on the number of cycles. -/
theorem key_wait_stutters (h : BeginsWait x next n) {pads : List Keypad} {k : Nat}
    {beats : List Beat} (hb : Beat.Interleaves (pads.map Keypad.keyboard) k beats)
    (hidle : ∀ pad ∈ pads, pad.Idle) :
    let waited := Beat.run n beats
    let ticked := Timers.tick^[k] n.timers
    waited = n.withTimers ticked ∧
      Beat.outcomes n beats = pads.map (fun _ => .ok .awaitingKey) ∧
      Notice.beeps (Beat.told n beats) = n.timers.beeps k ∧
      Notice.others (Beat.told n beats) = [] ∧
      (∀ pad : Keypad, pad.Idle → ∀ memory pc,
        let m := { waited with memory, pc }
        m.cycle pad.keyboard = ⟨.ok .awaitingKey, m, #[]⟩) ∧
      ∀ pad : Keypad, ¬ pad.Idle → ∃ key, IsLeast pad.down key ∧
        let received := (n.receive x (UInt8.ofNat key)).withTimers ticked
        waited.cycle pad.keyboard = ⟨.ok (.keyReceived (UInt8.ofNat key)), received, #[]⟩ ∧
          ∀ (later : Nat) (keys : Keyboard),
            let m := Beat.run received (List.replicate later .tick)
            m.pc = next ∧ m.fetch = n.fetch ∧
              (m.cycle keys).result = m.fetch.map Outcome.executed := by
  obtain ⟨hw, hx, hpc⟩ := h.state
  obtain ⟨hrun, houtcomes, hbeeps, hothers⟩ := wait_of_idle hw hb hidle
  refine ⟨hrun, houtcomes, hbeeps, hothers, fun pad hpad memory pc => ?_, fun pad hpad => ?_⟩
  · have hwaiting : (Beat.run n beats).waiting = true := by
      rw [hrun]
      exact hw
    exact (CyclesTo.await (m := { Beat.run n beats with memory, pc }) hwaiting hpad.first?).eq
  · obtain ⟨key, hkey⟩ := Keypad.exists_isLeast_down hpad
    refine ⟨key, hkey, ?_, fun later keys => ?_⟩
    · rw [hrun]
      exact cycle_of_key hw hx (Keypad.first?_of_isLeast hkey)
    · rw [run_ticks]
      exact ⟨hpc, rfl, result_cycle rfl⟩

/-- `F30A`, and a tick between two looks at idle keypads, before two keys are down at once. -/
theorem key_wait_stutters_on_program :
    ∃ new, create (.standard .chip8) default = .ok new ∧
      let idle := Keypad.released
      let pad := (Keypad.released.set 0xB true).set 0x5 true
      let n := ((new.loadRom [0xF3, 0x0A]).machine.cycle idle.keyboard).machine
      let waited := Beat.run n [.cycle idle.keyboard, .tick, .cycle idle.keyboard]
      BeginsWait 3 0x202 n ∧ waited = n.tick.machine ∧
        (waited.cycle pad.keyboard).result = .ok (.keyReceived 0x5) ∧
        (waited.cycle pad.keyboard).machine = (n.receive 3 0x5).tick.machine := by
  obtain ⟨new, hnew⟩ := exists_create_iff.mpr (rfl : (Config.standard .chip8).Accepted)
  have hplaces : (Config.standard .chip8).Places [0xF3, 0x0A] :=
    ⟨rfl, by decide, by decide, by decide⟩
  have hstarting := starting_loadRom (i := .awaitKey 3) hnew hplaces fun _ => rfl
  refine ⟨new, hnew, ?_⟩
  intro idle pad n waited
  have hbegins : BeginsWait 3 0x202 n := by
    have hexecuted : ((new.loadRom [0xF3, 0x0A]).machine.cycle idle.keyboard).result =
        .ok (.executed ⟨0x200, 0xF30A, .awaitKey 3⟩) := by
      rw [cycle_of_fetch hstarting.waiting hstarting.fetch]
      rfl
    exact .cycle hexecuted rfl
  have hidle : ∀ p ∈ [idle, idle], p.Idle := by
    have hreleased : Keypad.released.Idle := by decide
    simp [idle, hreleased]
  have hbeats : Beat.Interleaves ([idle, idle].map Keypad.keyboard) 1
      [.cycle idle.keyboard, .tick, .cycle idle.keyboard] :=
    .cycle _ (.tick (.cycle _ .nil))
  have hpad : ¬ pad.Idle := by decide
  have hlow : ∀ key, pad.held.get key = true → 0x5 ≤ key := by decide
  have hleast : IsLeast pad.down 0x5 := ⟨rfl, hlow⟩
  obtain ⟨hrun, _, _, _, _, hkey⟩ := key_wait_stutters hbegins hbeats hidle
  obtain ⟨key, hkey, hcycle, _⟩ := hkey pad hpad
  obtain rfl := hkey.unique hleast
  exact ⟨hbegins, hrun, by rw [hcycle]; rfl, by rw [hcycle]; rfl⟩

end Machine

end Chip8
