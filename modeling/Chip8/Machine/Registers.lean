import Chip8.Variant
import Chip8.Instruction.Basic
import Chip8.Keypad

/-! # Registers

The register file and the arithmetic on it. `VF` receives carries and shifted-out bits.
-/

namespace Chip8

abbrev Registers := Vector UInt8 16

def flag (p : Prop) [Decidable p] : UInt8 := if p then 1 else 0

namespace Register

def vf : Register := 0xF

/-- The registers from `x` to `y` in that order, which may be descending. -/
def range (x y : Register) : List Register :=
  if x ≤ y then (List.finRange 16).filter fun r => x ≤ r ∧ r ≤ y
  else ((List.finRange 16).filter fun r => y ≤ r ∧ r ≤ x).reverse

def upTo (x : Register) : List Register := range 0 x

end Register

namespace Registers

def update (v : Registers) (x : Register) (b : UInt8) : Registers := v.set x b

theorem get_update (v : Registers) (x y : Register) (b : UInt8) :
    (v.update x b).get y = if x = y then b else v.get y := by
  simp only [Fin.ext_iff]
  exact Vector.getElem_set ..

def assign (v : Registers) : List Register → List UInt8 → Registers
  | r :: rs, b :: bs => assign (v.update r b) rs bs
  | _, _ => v

end Registers

open Register

/-- Applies `8XYN`. Sums and differences set `VF` first, shifts set it last, which decides what
`VF` holds when it is `Vx` itself. -/
def Alu.apply (op : Alu) (d : Dialect) (v : Registers) (x y : Register) : Registers :=
  let a := v.get x
  let b := v.get y
  let s := if d.shiftsVy then b else a
  match op with
  | .move => v.update x b
  | .or => v.update x (a ||| b)
  | .and => v.update x (a &&& b)
  | .xor => v.update x (a ^^^ b)
  | .add => (v.update vf (flag (255 < a.toNat + b.toNat))).update x (a + b)
  | .sub => (v.update vf (flag (b ≤ a))).update x (a - b)
  | .subReverse => (v.update vf (flag (a ≤ b))).update x (b - a)
  | .shiftRight => (v.update x (s >>> 1)).update vf (s &&& 1)
  | .shiftLeft => (v.update x (s <<< 1)).update vf (s >>> 7)

def Condition.holds (c : Condition) (v : Registers) (keys : Keyboard) : Bool :=
  match c with
  | .isByte x b => v.get x == b
  | .isNotByte x b => v.get x != b
  | .same x y => v.get x == v.get y
  | .different x y => v.get x != v.get y
  | .keyDown x => keys.isDown (v.get x &&& 0x0F)
  | .keyUp x => !keys.isDown (v.get x &&& 0x0F)

end Chip8
