import Chip8.Proofs.Machine.Beat
import Chip8.Proofs.Machine.Loading

/-! # Keys and random numbers

Only the instructions made for it let a program see the keys or the random numbers. Until one of
them is executed, two machines that differ in their random numbers alone reply the same, whatever
keys are held down in front of each.
-/

namespace Chip8

/-- What an instruction does may be up to the keys or to the random numbers. `CX00` draws a number
too, but keeps no bit of it. -/
def Instruction.consults : Instruction → Bool
  | .random _ mask => mask != 0
  | .skip (.keyDown _) | .skip (.keyUp _) | .awaitKey _ => true
  | _ => false

namespace Machine

variable {m n : Machine} {keys keys' : Keyboard} {i : Instruction}

def reseeded (m : Machine) (seed : Option UInt64) (random : Random) : Machine :=
  { m with config := { m.config with seed }, random }

/-- Two machines that wait for no key and differ in their random numbers alone. -/
structure SameButRandom (m n : Machine) : Prop where
  waiting : m.waiting = false
  fields : n = m.reseeded n.config.seed n.random

/-- A reply from which neither the keys nor the random numbers can be told: it is not that of a
cycle that executes an instruction made to consult them. -/
def Blind (r : Reply Answer) : Prop :=
  ∀ t, r.result = .ok (.outcome (.executed t)) → t.instruction.consults = false

theorem fetch_reseeded (seed : Option UInt64) (random : Random) :
    (m.reseeded seed random).fetch = m.fetch :=
  rfl

theorem holds_of_not_consults {c : Condition} (h : (Instruction.skip c).consults = false)
    (v : Registers) : c.holds v keys' = c.holds v keys := by
  cases c with
  | isByte | isNotByte | same | different => rfl
  | keyDown | keyUp => cases h

theorem execute_reseeded (hi : i.consults = false) (keys keys' : Keyboard)
    (seed : Option UInt64) (random : Random) : ∃ random', (m.reseeded seed random).execute keys' i =
      (m.execute keys i).reseeded seed random' := by
  cases i with
  | random x mask =>
    -- The byte is masked away, but each generator has moved on from where it stood.
    have hmask : mask = 0 := by simpa [Instruction.consults] using hi
    subst hmask
    refine ⟨random.next, ?_⟩
    simp only [execute, reseeded, UInt8.and_zero]
  | skip c =>
    have hc : c.holds m.v keys' = c.holds m.v keys := holds_of_not_consults hi m.v
    refine ⟨random, ?_⟩
    simp only [execute, reseeded, hc]
  | loadFlags x => exact ⟨random, by simp only [execute, loadedFlags, reseeded]⟩
  | loadAudio => exact ⟨random, by simp only [execute, reseeded]⟩
  | awaitKey => cases hi
  | _ => exact ⟨random, rfl⟩

theorem waiting_execute (hi : i.consults = false) :
    (m.execute keys i).waiting = m.waiting := by
  cases i with
  | loadFlags | loadAudio => simp only [execute]
  | awaitKey => cases hi
  | _ => rfl

theorem SameButRandom.execute (h : SameButRandom m n) (hi : i.consults = false) :
    SameButRandom (m.execute keys i) (n.execute keys' i) := by
  obtain ⟨random, he⟩ := execute_reseeded hi keys keys' n.config.seed n.random
  rw [← h.fields] at he
  exact ⟨(waiting_execute hi).trans h.waiting, by rw [he]; rfl⟩

theorem SameButRandom.advance (h : SameButRandom m n) (k : UInt16) :
    SameButRandom (m.advance k) (n.advance k) :=
  ⟨h.waiting, congrArg (Machine.advance · k) h.fields⟩

theorem SameButRandom.fetch (h : SameButRandom m n) : n.fetch = m.fetch := by
  rw [h.fields, fetch_reseeded]

theorem SameButRandom.cycle (h : SameButRandom m n)
    (hi : ∀ t, (m.cycle keys).result = .ok (.executed t) → t.instruction.consults = false) :
    (m.cycle keys).Related SameButRandom (n.cycle keys') := by
  have hn : n.waiting = false := by rw [h.fields]; exact h.waiting
  simp only [Machine.cycle, h.waiting, hn, h.fetch, Bool.false_eq_true, if_false] at hi ⊢
  cases hf : m.fetch with
  | error e => exact ⟨rfl, rfl, h⟩
  | ok t =>
    have ht : t.instruction.consults = false := hi t (by rw [hf])
    have hadvance := h.advance t.instruction.size
    have hpc : (n.advance t.instruction.size).pc = (m.advance t.instruction.size).pc := by
      rw [hadvance.fields]
      rfl
    simp only [perform, hpc]
    exact ⟨rfl, rfl, hadvance.execute ht⟩

theorem SameButRandom.tick (h : SameButRandom m n) : m.tick.Related SameButRandom n.tick := by
  rw [h.fields]
  exact ⟨rfl, rfl, h.waiting, rfl⟩

theorem SameButRandom.beat (h : SameButRandom m n) {a b : Beat} (hb : a.UpToKeys b)
    (ha : Blind (a.operation.apply m)) :
    (a.operation.apply m).Related SameButRandom (b.operation.apply n) := by
  cases hb with
  | tick => exact h.tick.map _
  | cycle keys keys' =>
    refine (h.cycle fun t ht => ha t ?_).map _
    simp only [Beat.operation, Operation.apply, Reply.map, ht, Except.map]

/-- Until the first machine executes an instruction that consults them, neither the keys nor the
random numbers make a difference to replies, notices and machines. Every run ends before that
instruction or has a beginning that does. -/
theorem blind_runs_agree {beats beats' : List Beat} (h : SameButRandom m n)
    (hb : List.Forall₂ Beat.UpToKeys beats beats') (hr : ∀ r ∈ Beat.replies m beats, Blind r) :
    List.Forall₂ (Reply.Related SameButRandom) (Beat.replies m beats) (Beat.replies n beats') ∧
      SameButRandom (Beat.run m beats) (Beat.run n beats') :=
  Beat.lockstep (fun h => h.beat) hb h hr

/-- A machine without a seed and one with a seed, two keyboards, and a program that draws a number
of which it keeps nothing. -/
theorem blind_runs_agree_on_empty_mask :
    ∃ m n, create (.standard .chip8) default = .ok m ∧
      create { Config.standard .chip8 with seed := some 1 } default = .ok n ∧
      SameButRandom
        (Beat.run (m.loadRom [0xC0, 0x00]).machine [.cycle Keypad.released.keyboard, .tick])
        (Beat.run (n.loadRom [0xC0, 0x00]).machine
          [.cycle (Keypad.released.set 5 true).keyboard, .tick]) := by
  have haccepted (seed : Option UInt64) :
      Config.Accepted { Config.standard .chip8 with seed } := rfl
  have hplaces : (Config.standard .chip8).Places [0xC0, 0x00] :=
    ⟨rfl, by decide, by decide, by decide⟩
  have hplaces' : Config.Places { Config.standard .chip8 with seed := some 1 } [0xC0, 0x00] :=
    { hplaces with }
  obtain ⟨m, hm⟩ := exists_create_iff.mpr (haccepted none)
  obtain ⟨n, hn⟩ := exists_create_iff.mpr (haccepted (some 1))
  have hstarting := starting_loadRom (i := .random 0 0) hm hplaces fun _ => rfl
  have hsame : SameButRandom (m.loadRom [0xC0, 0x00]).machine (n.loadRom [0xC0, 0x00]).machine := by
    refine ⟨hstarting.waiting, ?_⟩
    obtain ⟨_, memory, hmemory, rfl⟩ := create_eq_ok_iff.mp hm
    obtain ⟨_, memory', hmemory', rfl⟩ := create_eq_ok_iff.mp hn
    obtain rfl : memory = memory' := Except.ok.inj (hmemory.symm.trans hmemory')
    rw [(loadRom_of_places hm hplaces).2, (loadRom_of_places hn hplaces').2]
    unfold reseeded
    congr 1
  refine ⟨m, n, hm, hn, (blind_runs_agree hsame (.cons (.cycle _ _) (.cons .tick .nil)) ?_).2⟩
  intro r hr t ht
  simp only [Beat.replies, List.mem_cons, List.not_mem_nil, or_false] at hr
  rcases hr with rfl | rfl
  · have hexecuted : ⟨(Config.standard .chip8).startAddress, 0xC000, .random 0 0⟩ = t := by
      simpa [Beat.operation, Operation.apply, Reply.map, Except.map,
        cycle_of_fetch hstarting.waiting hstarting.fetch] using ht
    rw [← hexecuted]
    rfl
  · simp [Beat.operation, Operation.apply, Reply.map, Machine.tick, Except.map] at ht

end Machine

end Chip8
