import Chip8.Files
import Chip8.Text
import Chip8.Variant

/-! # Faults

What can go wrong, with the message shown to people and the report written by the command line.
-/

namespace Chip8

inductive Refusal
  | emptyMemory
  | fontsDoNotFit
  | memoryTooLarge
  | planeCount
  | noCycles
  | noFrames
  | unknownVariant
  | unknownDialect
  deriving DecidableEq, Repr

def Refusal.message : Refusal → String
  | .emptyMemory => "memory size must be > 0"
  | .fontsDoNotFit => "memory size must hold both font tables"
  | .memoryTooLarge => "memory size must fit a 16-bit address space"
  | .planeCount => "graphic planes must be 1..=8"
  | .noCycles => "cycles per frame must be > 0"
  | .noFrames => "max_frames must be > 0"
  | .unknownVariant => "variant must be chip8, schip or xochip"
  | .unknownDialect => "quirks must be vip, hp48 or xochip"

inductive Fault
  | unreadable (error : ReadError)
  | romTooLarge (size limit : Nat)
  | illegalInstruction (opcode pc : UInt16)
  | variantViolation (opcode pc : UInt16) (required : Variant)
  | misalignedFetch (pc : UInt16)
  | invalidArgument (refusal : Refusal)
  deriving DecidableEq, Repr

namespace Fault

def opcode? : Fault → Option UInt16
  | .illegalInstruction opcode _ => some opcode
  | .variantViolation opcode _ _ => some opcode
  | _ => none

def message : Fault → String
  | .unreadable e => "io error: " ++ e.message
  | .romTooLarge size limit =>
    "ROM too large: " ++ toString size ++ " bytes (max " ++ toString limit ++ ")"
  | .illegalInstruction opcode pc =>
    "illegal instruction 0x" ++ Hex.lower 4 opcode.toNat ++ " at 0x" ++ Hex.lower 4 pc.toNat
  | .variantViolation opcode pc required =>
    "instruction 0x" ++ Hex.lower 4 opcode.toNat ++ " at 0x" ++ Hex.lower 4 pc.toNat
      ++ " requires " ++ required.name
  | .misalignedFetch pc => "misaligned instruction fetch at 0x" ++ Hex.lower 4 pc.toNat
  | .invalidArgument r => "invalid argument: " ++ r.message

def variantTag : Variant → String
  | .chip8 => "Chip8"
  | .superChip => "SuperChip"
  | .xoChip => "XoChip"

/-- The fault with its fields, as the command line writes it. -/
def report : Fault → String
  | .unreadable e => "Io(" ++ e.report ++ ")"
  | .romTooLarge size limit =>
    "RomTooLarge \x7b size: " ++ toString size ++ ", max: " ++ toString limit ++ " \x7d"
  | .illegalInstruction opcode pc =>
    "IllegalInstruction \x7b opcode: " ++ toString opcode.toNat ++ ", pc: " ++ toString pc.toNat
      ++ " \x7d"
  | .variantViolation opcode pc required =>
    "VariantViolation \x7b opcode: " ++ toString opcode.toNat ++ ", pc: " ++ toString pc.toNat
      ++ ", required: " ++ variantTag required ++ " \x7d"
  | .misalignedFetch pc => "MisalignedInstructionFetch \x7b pc: " ++ toString pc.toNat ++ " \x7d"
  | .invalidArgument r => "InvalidArgument(\"" ++ r.message ++ "\")"

end Fault

end Chip8
