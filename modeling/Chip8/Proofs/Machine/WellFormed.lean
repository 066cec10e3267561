import Mathlib.Tactic.SplitIfs
import Chip8.Proofs.Display.Planes
import Chip8.Proofs.Machine.Steps

/-! # Well-formed machines

A machine keeps its configuration, the memory and the planes it was made with, a pointer into the
call stack, whatever is done to it.
-/

namespace Chip8

theorem Memory.size_of_create {size : Nat} {m : Memory} (h : create size = .ok m) :
    m.size = size := by
  unfold create at h
  split at h
  · cases h
    simp [Memory.size]
  · cases h

namespace Config

def Accepted (c : Config) : Prop := c.refusal? = none

theorem accepted_iff {c : Config} :
    c.Accepted ↔ 0x200 ≤ c.memorySize ∧ c.memorySize ≤ 0x10000 ∧ 1 ≤ c.planes ∧ c.planes ≤ 8 ∧
      0 < c.cyclesPerFrame := by
  unfold Accepted refusal? minimumMemory maximumMemory
  split_ifs <;> simp <;> omega

end Config

namespace Machine

variable {c : Config} {entropy : Random.Key} {m n : Machine} {A : Instruction → Prop}
  {told : Array Notice}

/-- What a configuration promises of the machines made to it. -/
structure WellFormed (c : Config) (m : Machine) : Prop where
  accepted : c.Accepted
  config : m.config = c
  memory : m.memory.size = c.memorySize
  planes : m.display.planes.size = c.planes
  pointer : m.stack.pointer < 16

theorem create_eq_ok_iff :
    create c entropy = .ok m ↔
      c.Accepted ∧ ∃ memory, Memory.create c.memorySize = .ok memory ∧
        m = {
          config := c
          memory := memory.loadFonts
          display := .blank c.planes
          random := .start c.seed entropy } := by
  unfold create Config.Accepted
  split
  · next r hr => simp [hr]
  · next hr =>
    split
    · next e he => simp [he]
    · next memory he => simp [hr, he, eq_comm]

theorem create_congr {a b : Random.Key} (h : c.seed = none → a = b) : create c a = create c b := by
  unfold create
  rw [Random.start_congr h]

theorem exists_create_iff : (∃ m, create c entropy = .ok m) ↔ c.Accepted := by
  constructor
  · rintro ⟨m, hm⟩
    exact (create_eq_ok_iff.mp hm).1
  · intro h
    have hpos : 0 < c.memorySize := by have := Config.accepted_iff.mp h; omega
    exact ⟨_, create_eq_ok_iff.mpr ⟨h, _, dif_pos hpos, rfl⟩⟩

theorem start_of_create (h : create c entropy = .ok m) :
    m.config = c ∧ m.waiting = false ∧ m.pc = c.startAddress := by
  obtain ⟨_, memory, _, rfl⟩ := create_eq_ok_iff.mp h
  exact ⟨rfl, rfl, rfl⟩

theorem wellFormed_of_create (h : create c entropy = .ok m) : m.WellFormed c := by
  obtain ⟨ha, memory, hm, rfl⟩ := create_eq_ok_iff.mp h
  have hs : memory.size = c.memorySize := Memory.size_of_create hm
  exact ⟨ha, rfl, by simp [hs], by simp, by simp [CallStack.empty]⟩

theorem finished_execute (keys : Keyboard) (i : Instruction) :
    (m.execute keys i).finished = (m.finished || decide (i = .exit)) := by
  cases i <;> simp [execute, present, drawSprite]

namespace WellFormed

theorem present {d : Display} (h : m.WellFormed c) (hd : d.planes.size = m.display.planes.size) :
    (m.present d).WellFormed c :=
  { h with planes := hd.trans h.planes }

theorem drawSprite (h : m.WellFormed c) (x y : Register) (width height : Nat) :
    (m.drawSprite x y width height).WellFormed c :=
  { h with planes := (Display.size_planes_draw _ _ _).trans h.planes }

theorem registers (h : m.WellFormed c) (v : Registers) : WellFormed c { m with v } := { h with }

theorem audio (h : m.WellFormed c) (audio : Vector UInt8 16) : WellFormed c { m with audio } :=
  { h with }

/-- Instructions store into the memory without resizing it, change the planes in place, and
keep the stack pointer below the size of the stack. -/
theorem execute (h : m.WellFormed c) (keys : Keyboard) (i : Instruction) :
    (m.execute keys i).WellFormed c := by
  cases i with
  | ret | call => exact { h with pointer := Nat.mod_lt _ (by decide) }
  | storeDecimal | storeRegisters | storeRange =>
    exact { h with memory := (Memory.size_load _ _ _).trans h.memory }
  | draw x y n => exact h.drawSprite x y 8 n.toNat
  | drawLarge x y => exact h.drawSprite x y 16 16
  | clear | scrollDown | scrollUp | scrollRight | scrollLeft =>
    exact h.present (Display.size_planes_onSelected _)
  | setResolution r => exact h.present (Display.size_planes_setResolution r)
  | loadFlags x => exact h.registers (m.loadedFlags x)
  | loadAudio => exact h.audio _
  | _ => exact { h with }

theorem advance (h : m.WellFormed c) (n : UInt16) : (m.advance n).WellFormed c := { h with }

theorem step (hs : Step A m told n) (h : m.WellFormed c) : n.WellFormed c := by
  cases hs with
  | execute keys => exact h.execute keys _
  | load memory rom hsize => exact { h with memory := hsize.trans h.memory }
  | push | pop => exact { h with pointer := Nat.mod_lt _ (by decide) }
  | _ => exact { h with }

theorem steps (h : m.WellFormed c) (hs : Steps A m told n) : n.WellFormed c := hs.keep step h

theorem cycle (h : m.WellFormed c) (keys : Keyboard) : (m.cycle keys).machine.WellFormed c :=
  h.steps (steps_cycle obeys_true keys)

theorem loadRom (h : m.WellFormed c) (bytes : List UInt8) :
    (m.loadRom bytes).machine.WellFormed c :=
  h.steps (steps_loadRom (A := fun _ => True) bytes)

theorem restart (h : m.WellFormed c) (entropy : Random.Key) : (m.restart entropy).WellFormed c :=
  ⟨h.accepted, by simp [Machine.restart, h.config], by simp [Machine.restart, h.memory],
    by simp [Machine.restart, h.planes], by simp [Machine.restart, CallStack.empty]⟩

theorem reset (h : m.WellFormed c) (files : Files) (entropy : Random.Key) :
    (m.reset files entropy).machine.WellFormed c :=
  (h.restart entropy).steps (steps_reset (A := fun _ => True) files entropy)

theorem run (h : m.WellFormed c) (ops : List Operation) : (Operation.run m ops).WellFormed c :=
  Operation.keep_run (P := WellFormed c) obeys_true (fun _ _ _ _ _ => trivial) step
    (fun entropy hm => hm.restart entropy) h

end WellFormed

theorem Reachable.wellFormed (h : m.Reachable) : m.WellFormed m.config := by
  obtain ⟨c, entropy, m₀, ops, hm₀, rfl⟩ := h
  have hw := (wellFormed_of_create hm₀).run ops
  rw [hw.config]
  exact hw

end Machine

end Chip8
