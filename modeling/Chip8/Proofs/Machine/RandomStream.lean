import Chip8.Proofs.Machine.Cycles
import Chip8.Proofs.Machine.Footprint
import Chip8.Proofs.Machine.Loading

/-! # The stream of random bytes

Each `CXNN` takes one byte of the stream that the machine was switched on or last reset with, and
nothing else does. So the bytes that a run takes can be told from the number of these instructions,
counted from then. With a seed, it is the same stream each time.
-/

namespace Chip8

namespace Instruction

def takesByte : Instruction → Bool
  | .random .. => true
  | _ => false

theorem exists_of_takesByte {i : Instruction} (h : i.takesByte = true) :
    ∃ x mask, i = .random x mask := by
  cases i with
  | random x mask => exact ⟨x, mask, rfl⟩
  | _ => cases h

end Instruction

structure Execution where
  instruction : Instruction
  machine : Machine

namespace Execution

def taken (past : List Execution) : Nat := past.countP fun e => e.instruction.takesByte

/-- What was executed after `before` got the next byte, if it took one, and left the generator
right behind the bytes taken so far. -/
def InTurn (key : Random.Key) (before : List Execution) (e : Execution) : Prop :=
  (∀ x mask, e.instruction = .random x mask →
    e.machine.v.get x = Random.byteAt key (taken before) &&& mask) ∧
  e.machine.random = ⟨key, taken (before ++ [e])⟩

theorem taken_concat (past : List Execution) (e : Execution) :
    taken (past ++ [e]) = taken past + if e.instruction.takesByte then 1 else 0 := by
  rw [taken, List.countP_append, List.countP_singleton]
  rfl

end Execution

open Execution

def Reply.executions (r : Reply Outcome) : List Execution :=
  match r.result with
  | .ok (.executed t) => [⟨t.instruction, r.machine⟩]
  | _ => []

namespace Operation

def executions (m : Machine) : Operation → List Execution
  | .cycle keys => (m.cycle keys).executions
  | .opcode keys o =>
    match (m.executeOpcode keys o).result with
    | .ok i => [⟨i, (m.executeOpcode keys o).machine⟩]
    | .error _ => []
  | .instruction keys i => [⟨i, (m.perform keys i).machine⟩]
  | .frame keys => (Machine.cycles keys m.config.cyclesPerFrame 0 m).flatMap Reply.executions
  | _ => []

/-- What has been executed since the last reset, once an operation follows on `past`. -/
def extend (m : Machine) (past : List Execution) : Operation → List Execution
  | .reset .. => []
  | op => past ++ op.executions m

def history (m : Machine) (past : List Execution) : List Operation → List Execution
  | [] => past
  | op :: ops => history (op.apply m).machine (op.extend m past) ops

/-- The entropy that the machine had last, once an operation follows on `entropy`. -/
def renew (entropy : Random.Key) : Operation → Random.Key
  | .reset _ entropy => entropy
  | _ => entropy

end Operation

namespace Machine

variable {m n : Machine} {seed : Option UInt64} {entropy : Random.Key} {past : List Execution}
  {told : Array Notice}

/-- The bytes that the machine has taken since the last reset, when it had `entropy`, are accounted
for by what it has executed since. -/
structure Tallied (seed : Option UInt64) (entropy : Random.Key) (past : List Execution)
    (m : Machine) : Prop where
  config : m.config.seed = seed
  random : m.random = ⟨Random.startKey seed entropy, taken past⟩
  inTurn : ∀ before e after, past = before ++ e :: after →
    e.InTurn (Random.startKey seed entropy) before

theorem random_execute {i : Instruction} (keys : Keyboard) (h : i.takesByte = false) :
    (m.execute keys i).random = m.random := by
  apply sameAt_execute keys (p := .random)
  intro hw
  cases i with
  | random => cases h
  | _ => exact hw

theorem Tallied.idle (h : Tallied seed entropy past m) (hs : Steps (fun _ => False) m told n) :
    Tallied seed entropy past n := by
  refine hs.keep (fun hs h => ?_) h
  cases hs with
  | execute _ hi => exact hi.elim
  | _ => exact ⟨h.config, h.random, h.inTurn⟩

theorem Tallied.silent (h : Tallied seed entropy past m) (hs : Steps (fun _ => False) m told n) :
    Tallied seed entropy (past ++ []) n := by
  rw [List.append_nil]
  exact h.idle hs

theorem Tallied.execute (h : Tallied seed entropy past m) (keys : Keyboard) (i : Instruction) :
    Tallied seed entropy (past ++ [⟨i, m.execute keys i⟩]) (m.execute keys i) := by
  have hrandom : (m.execute keys i).random =
      ⟨Random.startKey seed entropy, taken (past ++ [⟨i, m.execute keys i⟩])⟩ := by
    rw [taken_concat]
    cases hi : i.takesByte with
    | false => exact (random_execute keys hi).trans h.random
    | true =>
      obtain ⟨x, mask, rfl⟩ := Instruction.exists_of_takesByte hi
      exact congrArg Random.next h.random
  refine ⟨(congrArg Config.seed (config_execute keys i)).trans h.config, hrandom, ?_⟩
  intro before e after hpast
  -- What was executed just now is the last of all, or else it is not what is asked about.
  rcases List.eq_nil_or_concat' after with rfl | ⟨rest, last, rfl⟩
  · obtain ⟨rfl, hlast⟩ := List.append_inj' hpast rfl
    obtain rfl := (List.cons.inj hlast).1
    refine ⟨?_, hrandom⟩
    rintro x mask ⟨⟩
    have hbyte : m.random.byte =
        Random.byteAt (Random.startKey seed entropy) (taken past) := by
      rw [Random.byte, h.random]
    rw [← hbyte]
    exact Registers.get_update_self
  · rw [← List.cons_append, ← List.append_assoc] at hpast
    exact h.inTurn before e rest (List.append_inj' hpast rfl).1

theorem Tallied.cycle (h : Tallied seed entropy past m) (keys : Keyboard) :
    Tallied seed entropy (past ++ (m.cycle keys).executions) (m.cycle keys).machine := by
  obtain ⟨r, hr⟩ := exists_cyclesTo m keys
  rw [hr.eq]
  cases hr with
  | await | fault => exact h.silent (.refl m)
  | receive => exact h.silent (Step.receive m.keyRegister _).steps
  | @execute t => exact (h.idle (Step.advance t.instruction.size).steps).execute keys t.instruction

theorem Tallied.runCycles (h : Tallied seed entropy past m) (keys : Nat → Keyboard)
    (budget ran : Nat) (told : Array Notice) :
    Tallied seed entropy (past ++ (cycles keys budget ran m).flatMap Reply.executions)
      (runCycles keys budget ran m told).machine := by
  induction budget generalizing past m ran told with
  | zero => simpa [cycles, Machine.runCycles] using h
  | succ budget ih =>
    have hcycle := h.cycle (keys ran)
    cases hm : m.resting with
    | true => simpa [cycles, Machine.runCycles, hm] using h
    | false =>
      cases hr : (m.cycle (keys ran)).result with
      | error e =>
        simpa only [cycles_of_error hm hr, Machine.runCycles, hm, hr, List.flatMap_singleton,
          Bool.false_eq_true, if_false] using hcycle
      | ok o =>
        rw [cycles_of_ok hm hr, runCycles_of_ok hm hr, List.flatMap_cons, ← List.append_assoc]
        exact ih hcycle _ _

theorem Tallied.frame (h : Tallied seed entropy past m) (keys : Nat → Keyboard) :
    Tallied seed entropy (past ++ (Operation.frame keys).executions m) (m.frame keys).machine := by
  have hcycles := h.runCycles keys m.config.cyclesPerFrame 0 #[]
  unfold Machine.frame
  simp only
  split
  · exact hcycles
  · exact hcycles.idle steps_tick

theorem Tallied.executeOpcode (h : Tallied seed entropy past m) (keys : Keyboard) (o : UInt16) :
    Tallied seed entropy (past ++ (Operation.opcode keys o).executions m)
      (m.executeOpcode keys o).machine := by
  unfold Operation.executions
  simp only [Machine.executeOpcode]
  cases m.decode o (m.memory.word m.pc.toNat) (m.pc - 2) with
  | error e => exact h.silent (.refl m)
  | ok i => exact (h.idle (Step.advance (i.size - 2)).steps).execute keys i

/-- A reset takes the generator back to the start of the stream before it looks for the file. -/
theorem Tallied.reset (h : Tallied seed entropy past m) (files : Files) (entropy' : Random.Key) :
    Tallied seed entropy' [] (m.reset files entropy').machine := by
  have hrestart : Tallied seed entropy' [] (m.restart entropy') := by
    refine ⟨(congrArg Config.seed (config_restart entropy')).trans h.config, ?_, ?_⟩
    · rw [← h.config]
      rfl
    · intro before e after hpast
      simp at hpast
  exact hrestart.idle (steps_reset files entropy')

theorem Tallied.apply (h : Tallied seed entropy past m) (op : Operation) :
    Tallied seed (op.renew entropy) (op.extend m past) (op.apply m).machine := by
  cases op with
  | cycle keys => exact h.cycle keys
  | opcode keys o => exact h.executeOpcode keys o
  | instruction keys i => exact h.execute keys i
  | frame keys => exact h.frame keys
  | reset files entropy => exact h.reset files entropy
  | tick => exact h.silent steps_tick
  | loadRom bytes => exact h.silent (steps_loadRom bytes)
  | loadFile files name => exact h.silent (steps_loadFile files name)
  | loadFonts => exact h.silent (Step.load _ m.rom (Memory.size_loadFonts _)).steps
  | push address => exact h.silent (Step.push address).steps
  | pop => exact h.silent Step.pop.steps
  | dump => exact h.silent (.refl m)

theorem Tallied.run (h : Tallied seed entropy past m) (ops : List Operation) :
    Tallied seed (ops.foldl Operation.renew entropy) (Operation.history m past ops)
      (Operation.run m ops) := by
  induction ops generalizing past m entropy with
  | nil => exact h
  | cons op ops ih => exact ih (h.apply op)

theorem tallied_of_create {c : Config} (h : create c entropy = .ok m) :
    Tallied c.seed entropy [] m := by
  obtain ⟨_, memory, _, rfl⟩ := create_eq_ok_iff.mp h
  refine ⟨rfl, rfl, ?_⟩
  intro before e after hpast
  simp at hpast

/-- Random bytes are those of one stream, one for each `CXNN`: an instruction gets the byte whose
number is that of the `CXNN` executed before it since the machine was switched on or last reset, and
after every instruction and every run the generator stands behind the bytes that these have taken.
The stream is that of the seed, if there is one. -/
theorem random_bytes_in_turn {c : Config} {new : Machine} (h : create c entropy = .ok new)
    (ops : List Operation) :
    let past := Operation.history new [] ops
    let key := Random.startKey c.seed (ops.foldl Operation.renew entropy)
    (∀ seed, c.seed = some seed → key = Random.keyOf seed) ∧
    (∀ before e after, past = before ++ e :: after →
      (∀ x mask, e.instruction = .random x mask →
        e.machine.v.get x = Random.byteAt key (taken before) &&& mask) ∧
      e.machine.random = ⟨key, taken (before ++ [e])⟩) ∧
    (Operation.run new ops).random = ⟨key, taken past⟩ := by
  have hrun : Tallied c.seed _ _ (Operation.run new ops) := (tallied_of_create h).run ops
  refine ⟨fun seed hseed => ?_, hrun.inTurn, hrun.random⟩
  rw [hseed]
  rfl

/-- Two bytes after a reset, which takes the generator back to the start. -/
theorem random_bytes_in_turn_after_reset :
    let c := { Config.standard .chip8 with seed := some 7 }
    ∃ new, create c default = .ok new ∧
      let keys := Keypad.released.keyboard
      let gone : Files := fun _ => .error .notFound
      let ops : List Operation :=
        [.opcode keys 0xC3FF, .reset gone (Vector.replicate 8 1), .opcode keys 0xC0FF, .tick,
          .opcode keys 0xC10F]
      ∃ first second, Operation.history new [] ops = [first, second] ∧
        first.instruction = .random 0 0xFF ∧
        first.machine.v.get 0 = Random.byteAt (Random.keyOf 7) 0 &&& 0xFF ∧
        second.instruction = .random 1 0x0F ∧
        second.machine.v.get 1 = Random.byteAt (Random.keyOf 7) 1 &&& 0x0F ∧
        (Operation.run new ops).random = ⟨Random.keyOf 7, 2⟩ := by
  intro c
  obtain ⟨new, hnew⟩ := exists_create_iff.mpr (rfl : c.Accepted)
  refine ⟨new, hnew, ?_⟩
  intro keys gone ops
  have hhistory : ∃ m n, Operation.history new [] ops =
      [⟨.random 0 0xFF, m⟩, ⟨.random 1 0x0F, n⟩] := by
    obtain ⟨_, memory, _, rfl⟩ := create_eq_ok_iff.mp hnew
    exact ⟨_, _, rfl⟩
  obtain ⟨m, n, hpast⟩ := hhistory
  obtain ⟨hkey, hturn, hrandom⟩ := random_bytes_in_turn hnew ops
  rw [hkey 7 rfl] at hturn hrandom
  rw [hpast] at hrandom
  have hfirst := (hturn [] _ _ hpast).1 0 0xFF rfl
  have hsecond := (hturn [_] _ [] hpast).1 1 0x0F rfl
  exact ⟨_, _, hpast, rfl, hfirst, rfl, hsecond, hrandom⟩

end Machine

end Chip8
