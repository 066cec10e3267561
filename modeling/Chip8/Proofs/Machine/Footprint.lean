import Chip8.Proofs.Machine.Registers
import Chip8.Proofs.Machine.WellFormed
import Chip8.Proofs.Memory.Access

/-! # The footprint of an instruction

What each instruction may write to, down to the single cell of the memory and the single register.
Everything else about the machine stays as it was.
-/

namespace Chip8

open Register

/-- The parts of a machine that instructions can write to. -/
inductive Part
  | cell (address : Nat)
  | register (r : Register)
  | flag (k : Fin 8)
  | slot (k : Fin 16)
  | pointer
  | pc
  | index
  | delay
  | sound
  | waiting
  | keyRegister
  | compatibility
  | audio
  | redraw
  | finished
  | random
  | resolution
  | mask
  | pixels

namespace Instruction

def stored : Instruction → Nat
  | .storeDecimal _ => 3
  | .storeRegisters x => x.val + 1
  | .storeRange x y => max x.val y.val - min x.val y.val + 1
  | _ => 0

/-- The parts of the machine that an instruction may write to. -/
def Writes (m : Machine) (i : Instruction) (p : Part) : Prop :=
  match p, i with
  | .cell a, _ => ∃ o < i.stored, a % m.memory.size = (m.index.toNat + o) % m.memory.size
  | .register r, .setByte x _ | .register r, .addByte x _ | .register r, .random x _
  | .register r, .readDelay x => r = x
  | .register r, .alu op x _ => r = x ∨ op.reports = true ∧ r = vf
  | .register r, .draw .. | .register r, .drawLarge .. | .register r, .addIndex _ => r = vf
  | .register r, .loadRegisters x => r ≤ x
  | .register r, .loadRange x y => min x.val y.val ≤ r.val ∧ r.val ≤ max x.val y.val
  | .register r, .loadFlags x => r.val < 8 ∧ r ≤ x
  | .flag k, .saveFlags x => k.val ≤ x.val
  | .slot k, .call _ => k.val = m.stack.pointer % 16
  | .pointer, .call _ | .pointer, .ret => True
  | .pc, .ret | .pc, .jump _ | .pc, .call _ | .pc, .jumpOffset .. | .pc, .skip _ => True
  | .index, .setIndex _ | .index, .setIndexLong _ | .index, .addIndex _ | .index, .smallGlyph _
  | .index, .largeGlyph _ | .index, .storeRegisters _ | .index, .loadRegisters _ => True
  | .delay, .setDelay _ | .sound, .setSound _ => True
  | .waiting, .awaitKey _ | .keyRegister, .awaitKey _ => True
  | .compatibility, .compatibility | .audio, .loadAudio | .finished, .exit => True
  | .random, .random .. => True
  | .resolution, .setResolution _ | .mask, .selectPlanes _ => True
  | .pixels, .clear | .pixels, .draw .. | .pixels, .drawLarge .. | .pixels, .scrollDown _
  | .pixels, .scrollUp _ | .pixels, .scrollRight | .pixels, .scrollLeft
  | .pixels, .setResolution _ => True
  | .redraw, .clear | .redraw, .draw .. | .redraw, .drawLarge .. | .redraw, .scrollDown _
  | .redraw, .scrollUp _ | .redraw, .scrollRight | .redraw, .scrollLeft
  | .redraw, .setResolution _ => True
  | _, _ => False

end Instruction

namespace Machine

def SameAt (m n : Machine) : Part → Prop
  | .cell a => n.memory.read a = m.memory.read a
  | .register r => n.v.get r = m.v.get r
  | .flag k => n.flags.get k = m.flags.get k
  | .slot k => n.stack.slots.get k = m.stack.slots.get k
  | .pointer => n.stack.pointer = m.stack.pointer
  | .pc => n.pc = m.pc
  | .index => n.index = m.index
  | .delay => n.delay = m.delay
  | .sound => n.sound = m.sound
  | .waiting => n.waiting = m.waiting
  | .keyRegister => n.keyRegister = m.keyRegister
  | .compatibility => n.compatibility = m.compatibility
  | .audio => n.audio = m.audio
  | .redraw => n.redraw = m.redraw
  | .finished => n.finished = m.finished
  | .random => n.random = m.random
  | .resolution => n.display.resolution = m.display.resolution
  | .mask => n.display.mask = m.display.mask
  | .pixels => n.display.setMask m.display.mask = m.display

end Machine

namespace Machine

variable {m : Machine} {keys : Keyboard} {i : Instruction}

theorem read_execute {a : Nat} (h : ¬ i.Writes m (.cell a)) :
    (m.execute keys i).memory.read a = m.memory.read a := by
  have hload {data : List UInt8} (hlength : data.length = i.stored) :
      (m.memory.load m.index.toNat data).read a = m.memory.read a :=
    Memory.read_load_of_ne fun o ho he => h ⟨o, hlength ▸ ho, he⟩
  cases i with
  | storeDecimal x => exact hload rfl
  | storeRegisters x =>
    refine hload ?_
    rw [contents, List.length_map, upTo, length_range]
    simp [Instruction.stored]
  | storeRange x y =>
    refine hload ?_
    rw [contents, List.length_map, length_range]
    rfl
  | loadFlags | loadAudio => simp only [execute]
  | _ => rfl

theorem get_execute {r : Register} (h : ¬ i.Writes m (.register r)) :
    (m.execute keys i).v.get r = m.v.get r := by
  cases i with
  | setByte | addByte | random | readDelay | addIndex | draw | drawLarge =>
    exact Registers.get_update_of_ne h
  | alu op x y =>
    obtain ⟨hx, hf⟩ := not_or.mp h
    exact Alu.get_apply_of_ne hx fun hop hr => hf ⟨hop, hr⟩
  | loadRegisters x =>
    exact Registers.get_assign_of_notMem fun hr => h (mem_upTo.mp hr)
  | loadRange x y => exact Registers.get_assign_of_notMem fun hr => h (mem_range.mp hr)
  | loadFlags x =>
    have hr : ¬ (r.val < 8 ∧ r ≤ x) := h
    simp only [execute]
    exact (Vector.getElem_ofFn r.isLt).trans (dif_neg hr)
  | loadAudio => simp only [execute]
  | _ => rfl

theorem flag_execute {k : Fin 8} (h : ¬ i.Writes m (.flag k)) :
    (m.execute keys i).flags.get k = m.flags.get k := by
  cases i with
  | saveFlags x =>
    have hk : ¬ k.val ≤ x.val := h
    simp only [execute]
    exact (Vector.getElem_ofFn k.isLt).trans (if_neg hk)
  | loadFlags | loadAudio => simp only [execute]
  | _ => rfl

theorem slot_execute {k : Fin 16} (h : ¬ i.Writes m (.slot k)) :
    (m.execute keys i).stack.slots.get k = m.stack.slots.get k := by
  cases i with
  | call a => exact Vector.getElem_set_ne (Nat.mod_lt _ (by decide)) k.isLt (Ne.symm h)
  | loadFlags | loadAudio => simp only [execute]
  | _ => rfl

theorem sameAt_execute (keys : Keyboard) {p : Part} (h : ¬ i.Writes m p) :
    m.SameAt (m.execute keys i) p := by
  -- An instruction either has a row for the part or does not mention the field.
  cases p with
  | cell a => exact read_execute h
  | register r => exact get_execute h
  | flag k => exact flag_execute h
  | slot k => exact slot_execute h
  | resolution | mask =>
    cases i <;> first
      | exact absurd trivial h
      | simp only [SameAt, execute, present, drawSprite, Display.clear, Display.scrollDown,
          Display.scrollUp, Display.scrollRight, Display.scrollLeft, Display.onSelected,
          Display.draw, Display.setResolution, Display.setMask]
  | _ =>
    cases i <;> first
      | exact absurd trivial h
      | simp only [SameAt, execute, present, drawSprite, Display.setMask]

theorem rom_execute : (m.execute keys i).rom = m.rom := by
  cases i <;> simp only [execute, present, drawSprite]

theorem size_memory_execute : (m.execute keys i).memory.size = m.memory.size := by
  cases i <;> simp only [execute, present, drawSprite, Memory.size_load]

theorem redraw_execute (h : m.redraw = true) : (m.execute keys i).redraw = true := by
  cases i <;> simp only [execute, present, drawSprite, h]

theorem compatibility_execute (h : m.compatibility = true) :
    (m.execute keys i).compatibility = true := by
  cases i <;> simp only [execute, present, drawSprite, h]

theorem waiting_execute_of_waiting (h : m.waiting = true) :
    (m.execute keys i).waiting = true := by
  cases i <;> simp only [execute, present, drawSprite, h]

/-- Instructions never touch the configuration, the file and the beep, never take back a pending
redraw, an end, the compatibility mode or a wait, and leave everything alone that the table of
their writes does not list. -/
theorem instructions_within_footprint (m : Machine) (keys : Keyboard) (i : Instruction) :
    let n := m.execute keys i
    (n.config = m.config ∧ n.rom = m.rom ∧ n.beeping = m.beeping) ∧
      ((m.redraw = true → n.redraw = true) ∧ (m.finished = true → n.finished = true) ∧
        (m.compatibility = true → n.compatibility = true) ∧
        (m.waiting = true → n.waiting = true)) ∧
      n.memory.size = m.memory.size ∧
      ∀ p, ¬ i.Writes m p → m.SameAt n p := by
  refine ⟨⟨config_execute keys i, rom_execute, beeping_execute keys i⟩,
    ⟨redraw_execute, fun h => ?_, compatibility_execute, waiting_execute_of_waiting⟩,
    size_memory_execute, fun p => sameAt_execute keys⟩
  rw [finished_execute, h, Bool.true_or]

/-- `F033` on a machine of which all has been latched that can be. -/
theorem storeDecimal_within_footprint :
    ∃ new, create (.standard .chip8) default = .ok new ∧
      let m := { new with redraw := true, finished := true, compatibility := true, waiting := true }
      let n := m.execute Keypad.released.keyboard (.storeDecimal 0)
      (n.redraw = true ∧ n.finished = true ∧ n.compatibility = true ∧ n.waiting = true) ∧
        n.memory.read 3 = m.memory.read 3 ∧ n.index = m.index := by
  obtain ⟨new, hnew⟩ := exists_create_iff.mpr (rfl : (Config.standard .chip8).Accepted)
  refine ⟨new, hnew, ?_⟩
  intro m n
  obtain ⟨_, ⟨hredraw, hfinished, hcompatibility, hwaiting⟩, _, hsame⟩ :=
    instructions_within_footprint m Keypad.released.keyboard (.storeDecimal 0)
  have hsize : m.memory.size = 4096 := (wellFormed_of_create hnew).memory
  have hindex : m.index = 0 := by
    obtain ⟨_, memory, _, rfl⟩ := create_eq_ok_iff.mp hnew
    rfl
  refine ⟨⟨hredraw rfl, hfinished rfl, hcompatibility rfl, hwaiting rfl⟩, hsame (.cell 3) ?_,
    hsame .index id⟩
  rintro ⟨o, ho, he⟩
  have ho : o < 3 := ho
  rw [hsize, hindex, UInt16.toNat_zero] at he
  omega

end Machine

end Chip8
