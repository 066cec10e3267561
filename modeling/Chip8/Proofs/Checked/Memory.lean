import Chip8.Font
import Chip8.Machine.Basic
import Chip8.Machine.Registers
import Chip8.Proofs.Checked.Basic

/-! # Checked storage

Memory, registers and the call stack, with a check before every access.
-/

namespace Chip8.Checked

section Memory

variable {m : Memory} {a : Nat}

def read (m : Memory) (a : Nat) : Option UInt8 := do
  let cell ← rem a m.bytes.size
  m.bytes[cell]?

/-- The second address wraps; the first byte is shifted by less than the width of a word. -/
def readWord (m : Memory) (a : Nat) : Option UInt16 := do
  let high ← read m a
  let low ← read m ((a + 1) % 2 ^ word)
  let high ← shiftLeft 16 high.toNat 8
  return UInt16.ofNat (high ||| low.toNat)

def write (m : Memory) (a : Nat) (b : UInt8) : Option Memory := do
  let cell ← rem a m.bytes.size
  if h : cell < m.bytes.size then
    return ⟨m.bytes.set cell b h, by simpa using m.size_pos⟩
  else none

def load (m : Memory) (a o : Nat) : List UInt8 → Option Memory
  | [] => some m
  | b :: data => do
    let m ← write m (← add word a o) b
    load m a (o + 1) data

def loadFonts (m : Memory) : Option Memory := do
  let m ← load m Font.largeAddress.toNat 0 Font.large
  load m Font.smallAddress.toNat 0 Font.small

@[simp] theorem read_eq : read m a = some (m.read a) := by
  have hpos : m.bytes.size ≠ 0 := Nat.pos_iff_ne_zero.mp m.size_pos
  simp [read, rem_eq hpos, Memory.read, Memory.cell, Memory.size, Nat.mod_lt _ m.size_pos]

@[simp] theorem readWord_eq : readWord m a = some (m.word a) := by
  have hhigh : (m.read a).toNat < 256 := (m.read a).toNat_lt
  have hlow : (m.read ((a + 1) % 2 ^ 64)).toNat < 2 ^ 8 := (m.read _).toNat_lt
  have hshift : (m.read a).toNat <<< 8 % 2 ^ 16 = (m.read a).toNat <<< 8 := by
    rw [Nat.shiftLeft_eq]
    omega
  simp only [readWord, read_eq, shiftLeft_eq (show 8 < 16 by decide), hshift, Option.bind_eq_bind,
    Option.bind_some, Option.pure_def, Option.some.injEq, ← Nat.shiftLeft_add_eq_or_of_lt hlow]
  rw [← UInt16.toNat_inj]
  simp [Memory.word, Nat.shiftLeft_eq]

@[simp] theorem write_eq (b : UInt8) : write m a b = some (m.write a b) := by
  have hpos : m.bytes.size ≠ 0 := Nat.pos_iff_ne_zero.mp m.size_pos
  simp [write, rem_eq hpos, Memory.write, Memory.cell, Memory.size, Nat.mod_lt _ m.size_pos]

theorem load_eq {o : Nat} {data : List UInt8} (h : a + o + data.length ≤ 2 ^ 64) :
    load m a o data = some (m.load (a + o) data) := by
  induction data generalizing m o with
  | nil => rfl
  | cons b data ih =>
    simp only [List.length_cons] at h
    have hadd : add word a o = some (a + o) := add_word (by omega)
    have hrest := ih (m := m.write (a + o) b) (o := o + 1) (by omega)
    simpa [load, hadd, Memory.load, Nat.add_assoc] using hrest

@[simp] theorem loadFonts_eq : loadFonts m = some m.loadFonts := by
  have hsizes : Font.large.length = 160 ∧ Font.small.length = 80 := ⟨rfl, rfl⟩
  have hlarge : load m Font.largeAddress.toNat 0 Font.large = _ :=
    load_eq (by rw [hsizes.1]; decide)
  have hsmall (m : Memory) : load m Font.smallAddress.toNat 0 Font.small = _ :=
    load_eq (by rw [hsizes.2]; decide)
  simp only [loadFonts, hlarge, hsmall, Option.bind_eq_bind, Option.bind_some, Nat.add_zero,
    Memory.loadFonts]

end Memory

section Stack

variable {s : CallStack}

def push (s : CallStack) (address : UInt16) : Option CallStack := do
  let slot ← rem s.pointer 16
  let slots ← set s.slots slot address
  let pointer ← rem (← add word s.pointer 1) 16
  return ⟨slots, pointer⟩

def pop (s : CallStack) : Option (UInt16 × CallStack) := do
  let pointer ← rem (← sub (← add word s.pointer 16) 1) 16
  let address ← get s.slots pointer
  return (address, ⟨s.slots, pointer⟩)

theorem push_eq (h : s.pointer < 16) (address : UInt16) :
    push s address = some (s.push address) := by
  have hslot : s.pointer % 16 < 16 := Nat.mod_lt _ (by decide)
  simp [push, rem_eq, set_eq hslot, add_word (show s.pointer + 1 < 2 ^ 64 by omega),
    CallStack.push]

theorem pop_eq (h : s.pointer < 16) : pop s = some (s.top, s.pop) := by
  have hslot : (s.pointer + 15) % 16 < 16 := Nat.mod_lt _ (by decide)
  simp [pop, rem_eq, sub_eq, get_eq hslot,
    add_word (show s.pointer + 16 < 2 ^ 64 by omega), CallStack.top, CallStack.pop]

end Stack

end Chip8.Checked
