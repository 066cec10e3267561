import Chip8.Machine.Execute
import Chip8.Opcode

/-! # Cycles

One cycle fetches, decodes and executes an instruction, or looks for a key if the machine waits
for one. A cycle that fails leaves the machine as it was.
-/

namespace Chip8

inductive Outcome
  | executed (trace : Trace)
  | awaitingKey
  | keyReceived (key : UInt8)
  deriving DecidableEq, Repr

def DecodeError.fault (e : DecodeError) (opcode pc : UInt16) : Fault :=
  match e with
  | .illegal => .illegalInstruction opcode pc
  | .requires v => .variantViolation opcode pc v

namespace Machine

def decode (m : Machine) (opcode next pc : UInt16) : Except Fault Instruction :=
  (Instruction.decode m.config.variant opcode next).mapError fun e => e.fault opcode pc

def fetch (m : Machine) : Except Fault Trace :=
  if !m.config.allowMisaligned && m.pc.toNat % 2 == 1 then .error (.misalignedFetch m.pc)
  else
    let opcode := m.memory.word m.pc.toNat
    let next := m.memory.word (m.pc.toNat + 2)
    (m.decode opcode next m.pc).map fun i => ⟨m.pc, opcode, i⟩

def pollKey (m : Machine) (keys : Keyboard) : Reply Outcome :=
  match keys.pressed? with
  | none => ⟨.ok .awaitingKey, m, #[]⟩
  | some key =>
    ⟨.ok (.keyReceived key), { m with waiting := false, v := m.v.update m.keyRegister key }, #[]⟩

def advance (m : Machine) (n : UInt16) : Machine := { m with pc := m.pc + n }

def cycle (m : Machine) (keys : Keyboard) : Reply Outcome :=
  if m.waiting then m.pollKey keys
  else match m.fetch with
    | .error e => ⟨.error e, m, #[]⟩
    | .ok t =>
      let reply := (m.advance t.instruction.size).perform keys t.instruction
      ⟨.ok (.executed t), reply.machine, reply.notices.push (.event (.executed t))⟩

/-- Executes an opcode as if it had just been fetched, with the program counter past its first
word. -/
def executeOpcode (m : Machine) (keys : Keyboard) (opcode : UInt16) : Reply Instruction :=
  match m.decode opcode (m.memory.word m.pc.toNat) (m.pc - 2) with
  | .error e => ⟨.error e, m, #[]⟩
  | .ok i =>
    let reply := (m.advance (i.size - 2)).perform keys i
    ⟨.ok i, reply.machine, reply.notices⟩

end Machine

end Chip8
