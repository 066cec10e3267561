import Chip8.Fault

/-! # Memory

Bytes under wrapping addresses: no access fails, and address `a` is cell `a` modulo the size.
-/

namespace Chip8

structure Memory where
  bytes : Array UInt8
  size_pos : 0 < bytes.size

namespace Memory

def size (m : Memory) : Nat := m.bytes.size

def create (size : Nat) : Except Refusal Memory :=
  if h : 0 < size then .ok ⟨Array.replicate size 0, by simpa using h⟩ else .error .emptyMemory

def cell (m : Memory) (a : Nat) : Nat := a % m.size

theorem cell_lt (m : Memory) (a : Nat) : m.cell a < m.bytes.size := Nat.mod_lt a m.size_pos

def read (m : Memory) (a : Nat) : UInt8 :=
  have := m.cell_lt a
  m.bytes[m.cell a]

/-- The big-endian word at `a`; the address of its second byte wraps at 64 bits. -/
def word (m : Memory) (a : Nat) : UInt16 :=
  (m.read a).toUInt16 * 256 + (m.read ((a + 1) % UInt64.size)).toUInt16

def write (m : Memory) (a : Nat) (b : UInt8) : Memory where
  bytes := m.bytes.set (m.cell a) b (m.cell_lt a)
  size_pos := by simpa using m.size_pos

def load (m : Memory) (a : Nat) : List UInt8 → Memory
  | [] => m
  | b :: data => (m.write a b).load (a + 1) data

def readBlock (m : Memory) (a n : Nat) : List UInt8 :=
  (List.range n).map fun o => m.read (a + o)

def clear (m : Memory) : Memory where
  bytes := Array.replicate m.size 0
  size_pos := by simpa [size] using m.size_pos

@[simp] theorem size_write (m : Memory) (a : Nat) (b : UInt8) : (m.write a b).size = m.size := by
  simp [size, write]

@[simp] theorem size_load (m : Memory) (a : Nat) (data : List UInt8) :
    (m.load a data).size = m.size := by
  induction data generalizing m a with
  | nil => rfl
  | cons b data ih => simp [load, ih]

@[simp] theorem size_clear (m : Memory) : m.clear.size = m.size := by
  simp [size, clear]

end Memory

end Chip8
