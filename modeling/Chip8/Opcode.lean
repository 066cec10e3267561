import Chip8.Instruction.Basic

/-! # Opcodes

Words as instructions. Each variant adds a table of opcodes to those of the variants below it. The
newest table is asked first, so that an extension may take an opcode over from an older one.
-/

namespace Chip8

namespace Opcode

def family (opcode : UInt16) : Nat := opcode.toNat / 0x1000

def x (opcode : UInt16) : Register := Fin.ofNat 16 (opcode.toNat / 0x100)

def y (opcode : UInt16) : Register := Fin.ofNat 16 (opcode.toNat / 0x10)

def digit (opcode : UInt16) : Nat := opcode.toNat % 0x10

def low (opcode : UInt16) : Nat := opcode.toNat % 0x100

def byte (opcode : UInt16) : UInt8 := UInt8.ofNat (low opcode)

def nibble (opcode : UInt16) : UInt8 := UInt8.ofNat (digit opcode)

def address (opcode : UInt16) : UInt16 := UInt16.ofNat (opcode.toNat % 0x1000)

end Opcode

open Opcode

def Alu.ofDigit? : Nat → Option Alu
  | 0x0 => some .move
  | 0x1 => some .or
  | 0x2 => some .and
  | 0x3 => some .xor
  | 0x4 => some .add
  | 0x5 => some .sub
  | 0x6 => some .shiftRight
  | 0x7 => some .subReverse
  | 0xE => some .shiftLeft
  | _ => none

namespace Instruction

def ofBase? (o : UInt16) : Option Instruction :=
  match family o with
  | 0x0 =>
    match low o with
    | 0xE0 => some .clear
    | 0xEE => some .ret
    | _ => none
  | 0x1 => some (.jump (address o))
  | 0x2 => some (.call (address o))
  | 0x3 => some (.skip (.isByte (x o) (byte o)))
  | 0x4 => some (.skip (.isNotByte (x o) (byte o)))
  | 0x5 => if digit o = 0 then some (.skip (.same (x o) (y o))) else none
  | 0x6 => some (.setByte (x o) (byte o))
  | 0x7 => some (.addByte (x o) (byte o))
  | 0x8 => (Alu.ofDigit? (digit o)).map fun op => .alu op (x o) (y o)
  | 0x9 => if digit o = 0 then some (.skip (.different (x o) (y o))) else none
  | 0xA => some (.setIndex (address o))
  | 0xB => some (.jumpOffset (x o) (address o))
  | 0xC => some (.random (x o) (byte o))
  | 0xD => some (.draw (x o) (y o) (nibble o))
  | 0xE =>
    match low o with
    | 0x9E => some (.skip (.keyDown (x o)))
    | 0xA1 => some (.skip (.keyUp (x o)))
    | _ => none
  | 0xF =>
    match low o with
    | 0x07 => some (.readDelay (x o))
    | 0x0A => some (.awaitKey (x o))
    | 0x15 => some (.setDelay (x o))
    | 0x18 => some (.setSound (x o))
    | 0x1E => some (.addIndex (x o))
    | 0x29 => some (.smallGlyph (x o))
    | 0x33 => some (.storeDecimal (x o))
    | 0x55 => some (.storeRegisters (x o))
    | 0x65 => some (.loadRegisters (x o))
    | _ => none
  | _ => none

def ofSuperChip? (o : UInt16) : Option Instruction :=
  match family o with
  | 0x0 =>
    match low o with
    | 0xFA => some .compatibility
    | 0xFB => some .scrollRight
    | 0xFC => some .scrollLeft
    | 0xFD => some .exit
    | 0xFE => some (.setResolution .low)
    | 0xFF => some (.setResolution .high)
    | _ => if y o = 0xC then some (.scrollDown (nibble o)) else none
  | 0xD => if digit o = 0 then some (.drawLarge (x o) (y o)) else none
  | 0xF =>
    match low o with
    | 0x30 => some (.largeGlyph (x o))
    | 0x75 => some (.saveFlags (x o))
    | 0x85 => some (.loadFlags (x o))
    | _ => none
  | _ => none

/-- The opcodes that XO-Chip adds. `F000` takes the word after it as an address. -/
def ofXoChip? (o next : UInt16) : Option Instruction :=
  match family o with
  | 0x0 => if y o = 0xD then some (.scrollUp (nibble o)) else none
  | 0x5 =>
    match digit o with
    | 0x2 => some (.storeRange (x o) (y o))
    | 0x3 => some (.loadRange (x o) (y o))
    | _ => none
  | 0xF =>
    match low o with
    | 0x00 => if x o = 0 then some (.setIndexLong next) else none
    | 0x01 => some (.selectPlanes (UInt8.ofNat (x o)))
    | 0x02 => if x o = 0 then some .loadAudio else none
    | _ => none
  | _ => none

def added? (v : Variant) (o next : UInt16) : Option Instruction :=
  match v with
  | .chip8 => ofBase? o
  | .superChip => ofSuperChip? o
  | .xoChip => ofXoChip? o next

/-- The instruction that `v` sees in the opcode `o`, followed in memory by the word `next`. -/
def ofOpcode? (v : Variant) (o next : UInt16) : Option Instruction :=
  match v with
  | .chip8 => ofBase? o
  | .superChip => (ofSuperChip? o).or (ofBase? o)
  | .xoChip => ((ofXoChip? o next).or (ofSuperChip? o)).or (ofBase? o)

end Instruction

inductive DecodeError
  | illegal
  | requires (variant : Variant)
  deriving DecidableEq, Repr

namespace Instruction

/-- Decodes `o` for `v`, telling opcodes of higher variants from those of none. -/
def decode (v : Variant) (o next : UInt16) : Except DecodeError Instruction :=
  match ofOpcode? v o next with
  | some i => .ok i
  | none =>
    match (ofSuperChip? o).or (ofXoChip? o next) with
    | some i => if v < i.variant then .error (.requires i.variant) else .error .illegal
    | none => .error .illegal

end Instruction

end Chip8
