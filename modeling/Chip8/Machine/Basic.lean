import Chip8.Config
import Chip8.Display.Basic
import Chip8.Font
import Chip8.Machine.Registers
import Chip8.Notice
import Chip8.Random.Generator

/-! # The machine

The whole state of one emulated machine, and how operations on it report.
-/

namespace Chip8

/-- A ring of return addresses: pushing onto a full stack overwrites the oldest address, and popping
an empty one goes round to the last slot. -/
structure CallStack where
  slots : Vector UInt16 16
  /-- The slot that the next push fills. -/
  pointer : Nat
  deriving DecidableEq, Repr

namespace CallStack

def empty : CallStack := ⟨Vector.replicate 16 0, 0⟩

def push (s : CallStack) (address : UInt16) : CallStack where
  slots := s.slots.set (s.pointer % 16) address
  pointer := (s.pointer + 1) % 16

def top (s : CallStack) : UInt16 := s.slots[(s.pointer + 15) % 16]

def pop (s : CallStack) : CallStack where
  slots := s.slots
  pointer := (s.pointer + 15) % 16

end CallStack

structure Machine where
  config : Config
  memory : Memory
  display : Display
  v : Registers := Vector.replicate 16 0
  /-- The registers that `FX75` and `FX85` transfer to and from. -/
  flags : Vector UInt8 8 := Vector.replicate 8 0
  stack : CallStack := .empty
  pc : UInt16 := config.startAddress
  index : UInt16 := 0
  delay : UInt8 := 0
  sound : UInt8 := 0
  beeping : Bool := false
  waiting : Bool := false
  keyRegister : Register := 0
  compatibility : Bool := false
  audio : Vector UInt8 16 := Vector.replicate 16 0
  /-- The display changed and has not been presented yet. -/
  redraw : Bool := false
  finished : Bool := false
  rom : Option String := none
  random : Random

/-- What an operation on a machine comes to: its result, the machine it leaves behind, and what it
had to tell, in order. -/
structure Reply (α : Type) where
  result : Except Fault α
  machine : Machine
  notices : Array Notice := #[]

namespace Machine

/-- A machine as it is switched on: all zeros but for the fonts. Each time it is, there is `entropy`
for a machine without a seed. -/
def create (config : Config) (entropy : Random.Key) : Except Fault Machine :=
  match config.refusal? with
  | some r => .error (.invalidArgument r)
  | none =>
    match Memory.create config.memorySize with
    | .error r => .error (.invalidArgument r)
    | .ok memory =>
      .ok {
        config
        memory := memory.loadFonts
        display := .blank config.planes
        random := .start config.seed entropy }

def restart (m : Machine) (entropy : Random.Key) : Machine where
  config := m.config
  memory := m.memory.clear.loadFonts
  display := m.display.initialise
  rom := m.rom
  random := .start m.config.seed entropy

def loadFonts (m : Machine) : Machine := { m with memory := m.memory.loadFonts }

def push (m : Machine) (address : UInt16) : Machine := { m with stack := m.stack.push address }

def randomByte (m : Machine) : UInt8 × Machine :=
  (m.random.byte, { m with random := m.random.next })

def pop (m : Machine) : UInt16 × Machine := (m.stack.top, { m with stack := m.stack.pop })

end Machine

end Chip8
