import Chip8.Proofs.Machine.Operation

/-! # Steps

Whatever a host has a machine do comes down to a few kinds of steps. What each step keeps, every
operation keeps, frames included; a reset alone is no sequence of steps, since it begins with a
restart.
-/

namespace Chip8

namespace Machine

/-- One thing that happens to a machine in the course of an operation: what it tells, and the
machine it leaves behind. Instructions are executed only if `A` holds of them. -/
inductive Step (A : Instruction → Prop) (m : Machine) : Array Notice → Machine → Prop
  | advance (n : UInt16) : Step A m #[] (m.advance n)
  | execute (keys : Keyboard) {i : Instruction} (h : A i) :
      Step A m (i.notices m.pc) (m.execute keys i)
  | record (t : Trace) : Step A m #[.event (.executed t)] m
  | receive (x : Register) (key : UInt8) :
      Step A m #[] { m with waiting := false, v := m.v.update x key }
  | tick : Step A m (beepNotices m.beeping m.soundOn) m.tick.machine
  | load (memory : Memory) (rom : Option String) (hsize : memory.size = m.memory.size) :
      Step A m #[] { m with memory, rom }
  | remark (r : Remark) : Step A m #[.remark r] m
  | push (address : UInt16) : Step A m #[] (m.push address)
  | pop : Step A m #[] m.pop.2

inductive Steps (A : Instruction → Prop) : Machine → Array Notice → Machine → Prop
  | refl (m : Machine) : Steps A m #[] m
  | cons {m n k : Machine} {told more : Array Notice} (head : Step A m told n)
      (tail : Steps A n more k) : Steps A m (told ++ more) k

/-- `A` holds of all that the decoder lets the machine execute. -/
def Obeys (A : Instruction → Prop) (m : Machine) : Prop :=
  ∀ o next i, Instruction.decode m.config.variant o next = .ok i → A i

variable {A : Instruction → Prop} {m n k : Machine} {told more : Array Notice} {keys : Keyboard}

@[simp] theorem config_execute (keys : Keyboard) (i : Instruction) :
    (m.execute keys i).config = m.config := by
  cases i <;> simp [execute, present, drawSprite]

theorem beeping_execute (keys : Keyboard) (i : Instruction) :
    (m.execute keys i).beeping = m.beeping := by
  cases i <;> simp [execute, present, drawSprite]

theorem Step.config (h : Step A m told n) : n.config = m.config := by
  cases h with
  | execute keys => exact config_execute keys _
  | _ => rfl

theorem config_restart (entropy : Random.Key) : (m.restart entropy).config = m.config := by
  simp only [restart]

theorem Step.steps (h : Step A m told n) : Steps A m told n := by
  simpa using Steps.cons h (.refl n)

theorem Steps.trans (h : Steps A m told n) (h' : Steps A n more k) :
    Steps A m (told ++ more) k := by
  induction h with
  | refl m => simpa using h'
  | cons head _ ih =>
    rw [Array.append_assoc]
    exact .cons head (ih h')

theorem Steps.config (h : Steps A m told n) : n.config = m.config := by
  induction h with
  | refl m => rfl
  | cons head _ ih => exact ih.trans head.config

theorem obeys_true : Obeys (fun _ => True) m := fun _ _ _ _ => trivial

theorem Obeys.of_config (h : Obeys A m) (hc : n.config = m.config) : Obeys A n := by
  unfold Obeys
  rwa [hc]

theorem Steps.keep {P : Machine → Prop} (h : Steps A m told n)
    (step : ∀ {m told n}, Step A m told n → P m → P n) (hm : P m) : P n := by
  induction h with
  | refl m => exact hm
  | cons head _ ih => exact ih (step head hm)

/-- What every step keeps of a machine and of all that was told before, all steps together keep. -/
theorem Steps.keep_told {P : Array Notice → Machine → Prop} (h : Steps A m more n)
    (step : ∀ {told m more n}, Step A m more n → P told m → P (told ++ more) n) (hm : P told m) :
    P (told ++ more) n := by
  induction h generalizing told with
  | refl m => simpa using hm
  | cons head _ ih =>
    rw [← Array.append_assoc]
    exact ih (step head hm)

/-! ## Operations as steps -/

theorem obeys_of_decode {o next pc : UInt16} {i : Instruction} (hA : Obeys A m)
    (h : m.decode o next pc = .ok i) : A i := by
  unfold Machine.decode at h
  cases hd : Instruction.decode m.config.variant o next with
  | error e => rw [hd] at h; cases h
  | ok j =>
    rw [hd] at h
    cases h
    exact hA o next i hd

theorem obeys_of_fetch {t : Trace} (hA : Obeys A m) (h : m.fetch = .ok t) : A t.instruction := by
  unfold fetch at h
  split at h
  · cases h
  · cases hd : m.decode (m.memory.word m.pc.toNat) (m.memory.word (m.pc.toNat + 2)) m.pc with
    | error e => simp [hd, Except.map] at h
    | ok i =>
      simp only [hd, Except.map, Except.ok.injEq] at h
      subst h
      exact obeys_of_decode hA hd

theorem steps_perform (keys : Keyboard) {i : Instruction} (h : A i) :
    Steps A m (m.perform keys i).notices (m.perform keys i).machine :=
  (Step.execute keys h).steps

theorem steps_pollKey (keys : Keyboard) :
    Steps A m (m.pollKey keys).notices (m.pollKey keys).machine := by
  unfold pollKey
  split
  · exact .refl m
  · next key _ =>
    exact (Step.receive m.keyRegister key).steps

theorem steps_cycle (hA : Obeys A m) (keys : Keyboard) :
    Steps A m (m.cycle keys).notices (m.cycle keys).machine := by
  unfold cycle
  split
  · exact steps_pollKey keys
  · split
    · exact .refl m
    · next t ht =>
      have hadvance : Steps A m #[] (m.advance t.instruction.size) := (Step.advance _).steps
      have hexecute := hadvance.trans (steps_perform keys (obeys_of_fetch hA ht))
      have hrecord := hexecute.trans (Step.record t).steps
      simpa only [Array.empty_append, Array.push_eq_append] using hrecord

theorem steps_executeOpcode (hA : Obeys A m) (keys : Keyboard) (o : UInt16) :
    Steps A m (m.executeOpcode keys o).notices (m.executeOpcode keys o).machine := by
  unfold executeOpcode
  split
  · exact .refl m
  · next i hi =>
    have hadvance : Steps A m #[] (m.advance (i.size - 2)) := (Step.advance _).steps
    simpa using hadvance.trans (steps_perform keys (obeys_of_decode hA hi))

theorem steps_tick : Steps A m m.tick.notices m.tick.machine := Step.tick.steps

/-- The cycles of a frame, after steps that have told what is told so far. -/
theorem steps_runCycles {new : Machine} (hA : Obeys A m) (keys : Nat → Keyboard) (budget ran : Nat)
    (h : Steps A new told m) :
    Steps A new (runCycles keys budget ran m told).notices
      (runCycles keys budget ran m told).machine := by
  induction budget generalizing m ran told with
  | zero => exact h
  | succ budget ih =>
    have hcycle := steps_cycle hA (keys ran)
    unfold runCycles
    split
    · exact h
    · simp only
      split
      · exact h.trans hcycle
      · exact ih (hA.of_config hcycle.config) (ran + 1) (h.trans hcycle)

theorem steps_frame (hA : Obeys A m) (keys : Nat → Keyboard) :
    Steps A m (m.frame keys).notices (m.frame keys).machine := by
  have hcycles := steps_runCycles hA keys m.config.cyclesPerFrame 0 (.refl m)
  unfold frame
  simp only
  split
  · exact hcycles
  · exact hcycles.trans steps_tick

theorem steps_loadRom (bytes : List UInt8) :
    Steps A m (m.loadRom bytes).notices (m.loadRom bytes).machine := by
  have hheader : Steps A m (if Rom.hasHeader bytes then #[.remark (.headerSkipped Rom.headerSize)]
      else #[]) m := by
    split
    · exact (Step.remark _).steps
    · exact .refl m
  unfold loadRom
  simp only
  split
  · exact hheader
  · rw [Array.push_eq_append]
    exact hheader.trans (.cons (.load _ _ (Memory.size_load _ _ _)) (Step.remark _).steps)

theorem steps_loadFile (files : Files) (name : String) :
    Steps A m (m.loadFile files name).notices (m.loadFile files name).machine := by
  unfold loadFile
  split
  · exact .refl m
  · next bytes _ =>
    have hload : Steps A m (m.loadRom bytes).notices (m.loadRom bytes).machine :=
      steps_loadRom bytes
    simp only
    split
    · exact hload
    · simpa using hload.trans (Step.load _ (some name) rfl).steps

theorem exists_machine_loadFile (m : Machine) (files : Files) (name : String) :
    ∃ memory rom, (m.loadFile files name).machine = { m with memory, rom } := by
  unfold loadFile
  split
  · exact ⟨m.memory, m.rom, rfl⟩
  · next bytes _ =>
    rcases Nat.lt_or_ge m.romLimit (Rom.program bytes).length with hlarge | hfits
    · obtain ⟨hresult, hmachine⟩ := loadRom_of_lt hlarge
      simp only [hresult, hmachine]
      exact ⟨m.memory, m.rom, rfl⟩
    · obtain ⟨hresult, hmachine⟩ := loadRom_of_le hfits
      simp only [hresult, hmachine]
      exact ⟨m.memory.load m.config.loadAddress.toNat (Rom.program bytes), some name, rfl⟩

theorem steps_reset (files : Files) (entropy : Random.Key) :
    Steps A (m.restart entropy) (m.reset files entropy).notices
      (m.reset files entropy).machine := by
  unfold reset
  split
  · exact .refl _
  · exact steps_loadFile files _

end Machine

namespace Operation

open Machine

variable {A : Instruction → Prop} {m : Machine} {op : Operation} {ops : List Operation}

theorem steps_apply (hA : Obeys A m) (hi : ∀ keys i, op = .instruction keys i → A i)
    (hr : ∀ files entropy, op ≠ .reset files entropy) :
    Steps A m (op.apply m).notices (op.apply m).machine := by
  cases op with
  | cycle keys => exact steps_cycle hA keys
  | opcode keys o => exact steps_executeOpcode hA keys o
  | instruction keys i => exact steps_perform keys (hi keys i rfl)
  | tick => exact steps_tick
  | frame keys => exact steps_frame hA keys
  | loadRom bytes => exact steps_loadRom bytes
  | loadFile files name => exact steps_loadFile files name
  | reset files entropy => exact absurd rfl (hr files entropy)
  | loadFonts => exact (Step.load _ m.rom (Memory.size_loadFonts _)).steps
  | push address => exact (Step.push address).steps
  | pop => exact Step.pop.steps
  | dump => exact .refl m

def told (m : Machine) : List Operation → Array Notice
  | [] => #[]
  | op :: ops => (op.apply m).notices ++ told (op.apply m).machine ops

theorem steps_run (hA : Obeys A m) (hi : ∀ op ∈ ops, ∀ keys i, op = .instruction keys i → A i)
    (hr : ∀ op ∈ ops, ∀ files entropy, op ≠ .reset files entropy) :
    Steps A m (told m ops) (run m ops) := by
  induction ops generalizing m with
  | nil => exact .refl m
  | cons op ops ih =>
    have hfirst : Steps A m (op.apply m).notices (op.apply m).machine :=
      steps_apply hA (hi op List.mem_cons_self) (hr op List.mem_cons_self)
    exact hfirst.trans (ih (hA.of_config hfirst.config)
      (fun op hop => hi op (List.mem_cons_of_mem _ hop))
      fun op hop => hr op (List.mem_cons_of_mem _ hop))

/-- What every step and a restart keep, every operation keeps, resets included. -/
theorem keep_apply {P : Machine → Prop} (hA : Obeys A m)
    (hi : ∀ keys i, op = .instruction keys i → A i)
    (step : ∀ {m told n}, Step A m told n → P m → P n)
    (restart : ∀ entropy, P m → P (m.restart entropy)) (hm : P m) : P (op.apply m).machine := by
  by_cases hr : ∃ files entropy, op = .reset files entropy
  · obtain ⟨files, entropy, rfl⟩ := hr
    exact (steps_reset files entropy).keep step (restart entropy hm)
  · have hr : ∀ files entropy, op ≠ .reset files entropy :=
      fun files entropy h => hr ⟨files, entropy, h⟩
    exact (steps_apply hA hi hr).keep step hm

theorem config_apply : (op.apply m).machine.config = m.config :=
  keep_apply (P := fun n => n.config = m.config) obeys_true (fun _ _ _ => trivial)
    (fun h hn => h.config.trans hn) (fun entropy => (config_restart entropy).trans) rfl

theorem keep_run {P : Machine → Prop} (hA : Obeys A m)
    (hi : ∀ op ∈ ops, ∀ keys i, op = .instruction keys i → A i)
    (step : ∀ {m told n}, Step A m told n → P m → P n)
    (restart : ∀ {m} entropy, P m → P (m.restart entropy)) (hm : P m) : P (run m ops) := by
  have hrun : Obeys A (run m ops) ∧ P (run m ops) := by
    refine run_induction (P := fun m => Obeys A m ∧ P m) ⟨hA, hm⟩ ?_
    rintro n ⟨hA, hn⟩ op hop
    exact ⟨hA.of_config config_apply, keep_apply hA (hi op hop) step restart hn⟩
  exact hrun.2

end Operation

end Chip8
