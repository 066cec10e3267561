import Mathlib.Data.List.Basic
import Chip8.Proofs.Machine.Steps

/-! # Cycles

The ways in which a cycle can end, and a frame as the list of its cycles.
-/

namespace Chip8.Machine

variable {m : Machine} {keys : Keyboard} {r : Reply Outcome}

inductive CyclesTo (m : Machine) (keys : Keyboard) : Reply Outcome → Prop
  | await (hw : m.waiting = true) (hk : keys.pressed? = none) :
      CyclesTo m keys ⟨.ok .awaitingKey, m, #[]⟩
  | receive {key : UInt8} (hw : m.waiting = true) (hk : keys.pressed? = some key) :
      CyclesTo m keys ⟨.ok (.keyReceived key),
        { m with waiting := false, v := m.v.update m.keyRegister key }, #[]⟩
  | fault {e : Fault} (hw : m.waiting = false) (hf : m.fetch = .error e) :
      CyclesTo m keys ⟨.error e, m, #[]⟩
  | execute {t : Trace} (hw : m.waiting = false) (hf : m.fetch = .ok t) :
      CyclesTo m keys
        ⟨.ok (.executed t), (m.advance t.instruction.size).execute keys t.instruction,
          (t.instruction.notices (m.advance t.instruction.size).pc).push (.event (.executed t))⟩

theorem CyclesTo.eq (h : m.CyclesTo keys r) : m.cycle keys = r := by
  cases h with
  | await hw hk => simp only [cycle, hw, if_true, pollKey, hk]
  | receive hw hk => simp only [cycle, hw, if_true, pollKey, hk]
  | fault hw hf => simp only [cycle, hw, Bool.false_eq_true, if_false, hf]
  | execute hw hf => simp only [cycle, hw, Bool.false_eq_true, if_false, hf, perform]

theorem exists_cyclesTo (m : Machine) (keys : Keyboard) : ∃ r, m.CyclesTo keys r := by
  cases hw : m.waiting with
  | true =>
    cases hk : keys.pressed? with
    | none => exact ⟨_, .await hw hk⟩
    | some key => exact ⟨_, .receive hw hk⟩
  | false =>
    cases hf : m.fetch with
    | error e => exact ⟨_, .fault hw hf⟩
    | ok t => exact ⟨_, .execute hw hf⟩

theorem cycle_of_fetch {t : Trace} (hw : m.waiting = false) (hf : m.fetch = .ok t) :
    m.cycle keys =
      ⟨.ok (.executed t), (m.advance t.instruction.size).execute keys t.instruction,
        (t.instruction.notices (m.advance t.instruction.size).pc).push (.event (.executed t))⟩ :=
  (CyclesTo.execute hw hf).eq

theorem cycle_of_error {e : Fault} (h : (m.cycle keys).result = .error e) :
    m.cycle keys = ⟨.error e, m, #[]⟩ := by
  obtain ⟨r, hr⟩ := exists_cyclesTo m keys
  rw [hr.eq] at h ⊢
  cases hr with
  | fault =>
    cases h
    rfl
  | await | receive | execute => cases h

theorem cycle_of_executed {t : Trace} (h : (m.cycle keys).result = .ok (.executed t)) :
    m.waiting = false ∧ m.fetch = .ok t := by
  obtain ⟨r, hr⟩ := exists_cyclesTo m keys
  rw [hr.eq] at h
  cases hr with
  | await | receive | fault => cases h
  | execute hw hf =>
    cases h
    exact ⟨hw, hf⟩

/-- A change to machines that a cycle neither sees nor undoes, unless the instruction that it
executes has to do with it. -/
structure Aside (f : Machine → Machine) : Prop where
  waiting (m : Machine) : (f m).waiting = m.waiting
  keyRegister (m : Machine) : (f m).keyRegister = m.keyRegister
  pc (m : Machine) : (f m).pc = m.pc
  fetch (m : Machine) : (f m).fetch = m.fetch
  advance (m : Machine) (n : UInt16) : (f m).advance n = f (m.advance n)
  receive (m : Machine) (x : Register) (key : UInt8) :
    { f m with waiting := false, v := (f m).v.update x key } =
      f { m with waiting := false, v := m.v.update x key }

theorem Aside.cycle {f : Machine → Machine} (hf : Aside f)
    (hi : ∀ t, (m.cycle keys).result = .ok (.executed t) →
      (f (m.advance t.instruction.size)).execute keys t.instruction =
        f ((m.advance t.instruction.size).execute keys t.instruction)) :
    (f m).cycle keys =
      ⟨(m.cycle keys).result, f (m.cycle keys).machine, (m.cycle keys).notices⟩ := by
  obtain ⟨r, hr⟩ := exists_cyclesTo m keys
  rw [hr.eq] at hi ⊢
  cases hr with
  | await hw hk => exact (CyclesTo.await ((hf.waiting m).trans hw) hk).eq
  | receive hw hk =>
    rw [(CyclesTo.receive ((hf.waiting m).trans hw) hk).eq, hf.receive, hf.keyRegister]
  | fault hw he => exact (CyclesTo.fault ((hf.waiting m).trans hw) ((hf.fetch m).trans he)).eq
  | @execute t hw ht =>
    rw [cycle_of_fetch ((hf.waiting m).trans hw) ((hf.fetch m).trans ht), hf.advance, hi t rfl,
      hf.pc]

/-! ## Frames -/

def cycles (keys : Nat → Keyboard) : (budget ran : Nat) → Machine → List (Reply Outcome)
  | 0, _, _ => []
  | budget + 1, ran, m =>
    if m.resting then []
    else
      let reply := m.cycle (keys ran)
      reply :: match reply.result with
        | .error _ => []
        | .ok _ => cycles keys budget (ran + 1) reply.machine

variable {keys : Nat → Keyboard} {budget ran : Nat} {told : Array Notice}

theorem cycles_of_error {e : Fault} (hm : m.resting = false)
    (hr : (m.cycle (keys ran)).result = .error e) :
    cycles keys (budget + 1) ran m = [m.cycle (keys ran)] := by
  simp only [cycles, hm, Bool.false_eq_true, if_false, hr]

theorem cycles_of_ok {o : Outcome} (hm : m.resting = false)
    (hr : (m.cycle (keys ran)).result = .ok o) :
    cycles keys (budget + 1) ran m =
      m.cycle (keys ran) :: cycles keys budget (ran + 1) (m.cycle (keys ran)).machine := by
  simp only [cycles, hm, Bool.false_eq_true, if_false, hr]

theorem runCycles_of_ok {o : Outcome} (hm : m.resting = false)
    (hr : (m.cycle (keys ran)).result = .ok o) :
    runCycles keys (budget + 1) ran m told =
      runCycles keys budget (ran + 1) (m.cycle (keys ran)).machine
        (told ++ (m.cycle (keys ran)).notices) := by
  simp only [runCycles, hm, Bool.false_eq_true, if_false, hr]

theorem runCycles_counts {k : Nat} (h : (runCycles keys budget ran m told).result = .ok k) :
    k = ran + (cycles keys budget ran m).length := by
  induction budget generalizing m ran told with
  | zero =>
    cases h
    rfl
  | succ budget ih =>
    cases hm : m.resting with
    | true =>
      simp only [runCycles, hm, if_true, Except.ok.injEq] at h
      simp [cycles, hm, h]
    | false =>
      cases hr : (m.cycle (keys ran)).result with
      | error e => simp [runCycles, hm, hr] at h
      | ok o =>
        rw [runCycles_of_ok hm hr] at h
        rw [ih h, cycles_of_ok hm hr, List.length_cons]
        omega

theorem exists_cycles_eq_cons (hm : m.resting = false) (hb : 0 < budget) :
    ∃ rest, cycles keys budget ran m = m.cycle (keys ran) :: rest := by
  cases budget with
  | zero => cases hb
  | succ budget =>
    simp only [cycles, hm, Bool.false_eq_true, if_false]
    exact ⟨_, rfl⟩

theorem length_cycles_le : (cycles keys budget ran m).length ≤ budget := by
  induction budget generalizing m ran with
  | zero => exact Nat.le_refl 0
  | succ budget ih =>
    cases hm : m.resting with
    | true => simp [cycles, hm]
    | false =>
      cases hr : (m.cycle (keys ran)).result with
      | error e => simp [cycles_of_error hm hr]
      | ok o =>
        rw [cycles_of_ok hm hr, List.length_cons]
        exact Nat.succ_le_succ ih

/-- From each of its cycles on, a frame is a frame of its own with what is left of the budget. -/
theorem exists_runCycles_of_append {before after : List (Reply Outcome)}
    (h : cycles keys budget ran m = before ++ r :: after) :
    ∃ n left earlier, n.resting = false ∧ n.cycle (keys (ran + before.length)) = r ∧
      cycles keys (left + 1) (ran + before.length) n = r :: after ∧
      before.length + (left + 1) = budget ∧
      ∀ told,
        runCycles keys budget ran m told =
          runCycles keys (left + 1) (ran + before.length) n (told ++ earlier) := by
  induction before generalizing budget ran m with
  | nil =>
    cases budget with
    | zero => cases h
    | succ budget =>
      cases hm : m.resting with
      | true => simp [cycles, hm] at h
      | false =>
        obtain ⟨_, hfirst⟩ := exists_cycles_eq_cons hm (Nat.succ_pos budget)
        exact ⟨m, budget, #[], hm, (List.cons.inj (hfirst.symm.trans h)).1, h, Nat.zero_add _,
          fun _ => by rw [Array.append_empty]; rfl⟩
  | cons first before ih =>
    cases budget with
    | zero => cases h
    | succ budget =>
      cases hm : m.resting with
      | true => simp [cycles, hm] at h
      | false =>
        cases hr : (m.cycle (keys ran)).result with
        | error e => simp [cycles_of_error hm hr] at h
        | ok o =>
          rw [cycles_of_ok hm hr] at h
          obtain ⟨n, left, earlier, hn, hcycle, hafter, hlength, hrun⟩ := ih (List.cons.inj h).2
          rw [Nat.add_right_comm, Nat.add_assoc] at hcycle hafter
          refine ⟨n, left, (m.cycle (keys ran)).notices ++ earlier, hn, hcycle, hafter, ?_,
            fun told => ?_⟩
          · rw [List.length_cons, Nat.succ_add, hlength]
          · rw [runCycles_of_ok hm hr, hrun, List.length_cons, Array.append_assoc,
              Nat.add_right_comm, Nat.add_assoc]

theorem cycles_of_waiting (hw : m.waiting = true) (hm : m.resting = false)
    (hk : ∀ i, (keys i).pressed? = none) (budget ran : Nat) (told : Array Notice) :
    cycles keys budget ran m = List.replicate budget ⟨.ok .awaitingKey, m, #[]⟩ ∧
      runCycles keys budget ran m told = ⟨.ok (ran + budget), m, told⟩ := by
  induction budget generalizing ran with
  | zero => exact ⟨rfl, rfl⟩
  | succ budget ih =>
    have hcycle : m.cycle (keys ran) = ⟨.ok .awaitingKey, m, #[]⟩ :=
      (CyclesTo.await hw (hk ran)).eq
    have hr : (m.cycle (keys ran)).result = .ok .awaitingKey := by rw [hcycle]
    obtain ⟨hcycles, hrun⟩ := ih (ran + 1)
    constructor
    · rw [cycles_of_ok hm hr, hcycle, hcycles, List.replicate_succ]
    · rw [runCycles_of_ok hm hr, hcycle, Array.append_empty, hrun, Nat.add_right_comm,
        Nat.add_assoc]

end Chip8.Machine
