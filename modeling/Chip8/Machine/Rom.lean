import Chip8.Files
import Chip8.Machine.Basic

/-! # Programs

Loading programs from bytes and from files, and starting over.
-/

namespace Chip8

namespace Rom

/-- What a transfer header of the HP-48 begins with: the letters `HPHP48-A`. -/
def headerMark : List UInt8 := [0x48, 0x50, 0x48, 0x50, 0x34, 0x38, 0x2D, 0x41]

def headerSize : Nat := 13

def hasHeader (bytes : List UInt8) : Bool :=
  decide (headerSize ≤ bytes.length) && headerMark.isPrefixOf bytes

def program (bytes : List UInt8) : List UInt8 :=
  if hasHeader bytes then bytes.drop headerSize else bytes

theorem program_of_not_hasHeader {bytes : List UInt8} (h : hasHeader bytes = false) :
    program bytes = bytes := by
  rw [program, h]
  rfl

end Rom

namespace Machine

def romLimit (m : Machine) : Nat := m.memory.size - m.config.loadAddress.toNat

/-- Loads a program from bytes, which belong to no file. -/
def loadRom (m : Machine) (bytes : List UInt8) : Reply Unit :=
  let program := Rom.program bytes
  let remarks : Array Notice :=
    if Rom.hasHeader bytes then #[.remark (.headerSkipped Rom.headerSize)] else #[]
  if m.romLimit < program.length then
    ⟨.error (.romTooLarge program.length m.romLimit), m, remarks⟩
  else
    ⟨.ok (), { m with memory := m.memory.load m.config.loadAddress.toNat program, rom := none },
      remarks.push (.remark (.programLoaded program.length m.config.loadAddress))⟩

section

variable {m : Machine} {bytes : List UInt8}

theorem loadRom_of_le (h : (Rom.program bytes).length ≤ m.romLimit) :
    (m.loadRom bytes).result = .ok () ∧ (m.loadRom bytes).machine =
      { m with
        memory := m.memory.load m.config.loadAddress.toNat (Rom.program bytes), rom := none } := by
  simp only [loadRom, if_neg (Nat.not_lt.mpr h), and_self]

theorem loadRom_of_lt (h : m.romLimit < (Rom.program bytes).length) :
    (m.loadRom bytes).result = .error (.romTooLarge (Rom.program bytes).length m.romLimit) ∧
      (m.loadRom bytes).machine = m := by
  simp only [loadRom, if_pos h, and_self]

end

def loadFile (m : Machine) (files : Files) (name : String) : Reply Unit :=
  match files name with
  | .error e => ⟨.error (.unreadable e), m, #[]⟩
  | .ok bytes =>
    let reply := m.loadRom bytes
    match reply.result with
    | .error _ => reply
    | .ok _ => { reply with machine := { reply.machine with rom := some name } }

def reset (m : Machine) (files : Files) (entropy : Random.Key) : Reply Unit :=
  match m.rom with
  | none => ⟨.ok (), m.restart entropy, #[]⟩
  | some name => (m.restart entropy).loadFile files name

end Machine

end Chip8
