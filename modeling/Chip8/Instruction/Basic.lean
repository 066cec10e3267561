import Chip8.Display.Bitmap
import Chip8.Variant

/-! # Instructions

What a program can ask of the machine, with operands already taken apart.
-/

namespace Chip8

abbrev Register := Fin 16

/-- Lets numerals stand for registers. -/
instance Register.instNeZero : @NeZero Nat Zero.ofOfNat0 16 := ⟨by decide⟩

/-- How `8XYN` combines two registers. -/
inductive Alu
  | move
  | or
  | and
  | xor
  | add
  | sub
  | shiftRight
  | subReverse
  | shiftLeft
  deriving DecidableEq, Repr

inductive Condition
  | isByte (x : Register) (byte : UInt8)
  | isNotByte (x : Register) (byte : UInt8)
  | same (x y : Register)
  | different (x y : Register)
  | keyDown (x : Register)
  | keyUp (x : Register)
  deriving DecidableEq, Repr

inductive Instruction
  | clear
  | ret
  | jump (address : UInt16)
  | call (address : UInt16)
  | skip (condition : Condition)
  | setByte (x : Register) (byte : UInt8)
  | addByte (x : Register) (byte : UInt8)
  | alu (op : Alu) (x y : Register)
  | setIndex (address : UInt16)
  /-- Jumps to `base` plus a register; which one is up to the dialect. -/
  | jumpOffset (x : Register) (base : UInt16)
  | random (x : Register) (mask : UInt8)
  | draw (x y : Register) (height : UInt8)
  | readDelay (x : Register)
  | awaitKey (x : Register)
  | setDelay (x : Register)
  | setSound (x : Register)
  | addIndex (x : Register)
  | smallGlyph (x : Register)
  | storeDecimal (x : Register)
  | storeRegisters (x : Register)
  | loadRegisters (x : Register)
  | scrollDown (rows : UInt8)
  | scrollRight
  | scrollLeft
  | exit
  | setResolution (resolution : Resolution)
  /-- Makes `FX55` and `FX65` advance `I` from now on. -/
  | compatibility
  | drawLarge (x y : Register)
  | largeGlyph (x : Register)
  | saveFlags (x : Register)
  | loadFlags (x : Register)
  | scrollUp (rows : UInt8)
  | storeRange (x y : Register)
  | loadRange (x y : Register)
  | setIndexLong (address : UInt16)
  | loadAudio
  | selectPlanes (mask : UInt8)
  deriving DecidableEq, Repr

namespace Instruction

def size : Instruction → UInt16
  | .setIndexLong _ => 4
  | _ => 2

def variant : Instruction → Variant
  | .scrollDown _ | .scrollRight | .scrollLeft | .exit | .setResolution _ | .compatibility
  | .drawLarge .. | .largeGlyph _ | .saveFlags _ | .loadFlags _ => .superChip
  | .scrollUp _ | .storeRange .. | .loadRange .. | .setIndexLong _ | .loadAudio
  | .selectPlanes _ => .xoChip
  | _ => .chip8

end Instruction

end Chip8
