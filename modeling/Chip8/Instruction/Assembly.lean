import Chip8.Instruction.Basic
import Chip8.Text

/-! # Assembly

Instructions as assembly text: a mnemonic, then its operands.
-/

namespace Chip8

/-- Operands that stand for a place rather than a value. -/
inductive Place
  | index
  | delay
  | sound
  | key
  | smallGlyph
  | largeGlyph
  | decimal
  | flags
  | atIndex
  /-- The register added by an offset jump, always written `V0`. -/
  | offset
  deriving DecidableEq, Repr

def Place.text : Place → String
  | .index => "I"
  | .delay => "DT"
  | .sound => "ST"
  | .key => "K"
  | .smallGlyph => "F"
  | .largeGlyph => "HF"
  | .decimal => "B"
  | .flags => "R"
  | .atIndex => "[I]"
  | .offset => "[V0]"

inductive Operand
  | place (place : Place)
  | register (x : Register)
  | registers (x y : Register)
  | byte (byte : UInt8)
  | nibble (nibble : UInt8)
  | count (count : UInt8)
  | target (address : UInt16)
  | address (address : UInt16)
  | longAddress (address : UInt16)
  deriving DecidableEq, Repr

def Operand.text : Operand → String
  | .place p => p.text
  | .register x => "V" ++ Hex.upper 1 x.val
  | .registers x y => "V" ++ Hex.upper 1 x.val ++ "-V" ++ Hex.upper 1 y.val
  | .byte b => "#" ++ Hex.upper 2 b.toNat
  | .nibble n => "#" ++ Hex.upper 1 n.toNat
  | .count n => Hex.upper 1 n.toNat
  | .target a => Hex.upper 3 a.toNat
  | .address a => "#" ++ Hex.upper 3 a.toNat
  | .longAddress a => "#" ++ Hex.upper 4 a.toNat ++ "L"

structure Assembly where
  mnemonic : String
  operands : List Operand
  deriving DecidableEq, Repr

def Assembly.text (a : Assembly) : String :=
  match a.operands with
  | [] => a.mnemonic
  | operands => a.mnemonic ++ "\t" ++ String.intercalate "," (operands.map Operand.text)

namespace Alu

def mnemonic : Alu → String
  | .move => "LD"
  | .or => "OR"
  | .and => "AND"
  | .xor => "XOR"
  | .add => "ADD"
  | .sub => "SUB"
  | .shiftRight => "SHR"
  | .subReverse => "SUBN"
  | .shiftLeft => "SHL"

end Alu

def Condition.assembly : Condition → Assembly
  | .isByte x b => ⟨"SE", [.register x, .byte b]⟩
  | .isNotByte x b => ⟨"SNE", [.register x, .byte b]⟩
  | .same x y => ⟨"SE", [.register x, .register y]⟩
  | .different x y => ⟨"SNE", [.register x, .register y]⟩
  | .keyDown x => ⟨"SKP", [.register x]⟩
  | .keyUp x => ⟨"SKNP", [.register x]⟩

namespace Instruction

def assembly : Instruction → Assembly
  | .clear => ⟨"CLS", []⟩
  | .ret => ⟨"RET", []⟩
  | .jump a => ⟨"JP", [.target a]⟩
  | .call a => ⟨"CALL", [.target a]⟩
  | .skip c => c.assembly
  | .setByte x b => ⟨"LD", [.register x, .byte b]⟩
  | .addByte x b => ⟨"ADD", [.register x, .byte b]⟩
  | .alu op x y => ⟨op.mnemonic, [.register x, .register y]⟩
  | .setIndex a => ⟨"LD", [.place .index, .address a]⟩
  | .jumpOffset _ a => ⟨"JP", [.place .offset, .address a]⟩
  | .random x m => ⟨"RND", [.register x, .byte m]⟩
  | .draw x y n => ⟨"DRW", [.register x, .register y, .nibble n]⟩
  | .readDelay x => ⟨"LD", [.register x, .place .delay]⟩
  | .awaitKey x => ⟨"LD", [.register x, .place .key]⟩
  | .setDelay x => ⟨"LD", [.place .delay, .register x]⟩
  | .setSound x => ⟨"LD", [.place .sound, .register x]⟩
  | .addIndex x => ⟨"ADD", [.place .index, .register x]⟩
  | .smallGlyph x => ⟨"LD", [.place .smallGlyph, .register x]⟩
  | .storeDecimal x => ⟨"LD", [.place .decimal, .register x]⟩
  | .storeRegisters x => ⟨"LD", [.place .atIndex, .register x]⟩
  | .loadRegisters x => ⟨"LD", [.register x, .place .atIndex]⟩
  | .scrollDown n => ⟨"SCDOWN", [.count n]⟩
  | .scrollRight => ⟨"SCRIGHT", []⟩
  | .scrollLeft => ⟨"SCLEFT", []⟩
  | .exit => ⟨"EXIT", []⟩
  | .setResolution .low => ⟨"LOW", []⟩
  | .setResolution .high => ⟨"HIGH", []⟩
  | .compatibility => ⟨"COMPATIBILITY", []⟩
  | .drawLarge x y => ⟨"XDRW", [.register x, .register y]⟩
  | .largeGlyph x => ⟨"LD", [.place .largeGlyph, .register x]⟩
  | .saveFlags x => ⟨"LD", [.place .flags, .register x]⟩
  | .loadFlags x => ⟨"LD", [.register x, .place .flags]⟩
  | .scrollUp n => ⟨"SCUP", [.count n]⟩
  | .storeRange x y => ⟨"LD", [.place .atIndex, .registers x y]⟩
  | .loadRange x y => ⟨"LD", [.registers x y, .place .atIndex]⟩
  | .setIndexLong a => ⟨"LD", [.place .index, .longAddress a]⟩
  | .loadAudio => ⟨"AUDIO", []⟩
  | .selectPlanes m => ⟨"PLANE", [.nibble m]⟩

def text (i : Instruction) : String := i.assembly.text

end Instruction

/-- An executed instruction, with its opcode and the address it was fetched from. -/
structure Trace where
  pc : UInt16
  opcode : UInt16
  instruction : Instruction
  deriving DecidableEq, Repr

def Trace.text (t : Trace) : String :=
  "PC=" ++ Hex.lower 4 t.pc.toNat ++ "\t" ++ Hex.lower 4 t.opcode.toNat ++ "\t"
    ++ t.instruction.text

end Chip8
