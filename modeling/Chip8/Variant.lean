/-! # Variants and dialects

The three interpreter families, each accepting the opcodes of the families below it, and the opcodes
on which historical interpreters disagree.
-/

namespace Chip8

inductive Variant
  /-- The interpreter of the COSMAC VIP. -/
  | chip8
  /-- SuperChip 1.1 of the HP-48 calculators. -/
  | superChip
  | xoChip
  deriving DecidableEq, Repr

namespace Variant

def all : List Variant := [.chip8, .superChip, .xoChip]

def rank : Variant → Nat
  | .chip8 => 0
  | .superChip => 1
  | .xoChip => 2

instance : LE Variant := ⟨fun v w => v.rank ≤ w.rank⟩

instance : LT Variant := ⟨fun v w => v.rank < w.rank⟩

instance (v w : Variant) : Decidable (v ≤ w) := inferInstanceAs (Decidable (v.rank ≤ w.rank))

instance (v w : Variant) : Decidable (v < w) := inferInstanceAs (Decidable (v.rank < w.rank))

def below (v : Variant) : List Variant := all.filter (· < v)

def name : Variant → String
  | .chip8 => "CHIP-8"
  | .superChip => "SuperChip"
  | .xoChip => "XO-Chip"

end Variant

structure Dialect where
  /-- `8XY6` and `8XYE` shift `Vy` into `Vx` rather than shifting `Vx` in place. -/
  shiftsVy : Bool
  /-- `FX55` and `FX65` leave `I` past the last register transferred. -/
  advancesIndex : Bool
  /-- `BNNN` adds the register named by the high digit of the address rather than `V0`. -/
  jumpsByVx : Bool
  deriving DecidableEq, Repr

namespace Dialect

def vip : Dialect where
  shiftsVy := true
  advancesIndex := true
  jumpsByVx := false

def hp48 : Dialect where
  shiftsVy := false
  advancesIndex := false
  jumpsByVx := true

def xoChip : Dialect := hp48

end Dialect

def Variant.dialect : Variant → Dialect
  | .chip8 => .vip
  | .superChip => .hp48
  | .xoChip => .xoChip

end Chip8
