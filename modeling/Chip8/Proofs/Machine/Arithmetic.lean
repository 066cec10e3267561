import Chip8.Proofs.Machine.Registers
import Chip8.Proofs.Machine.WellFormed

/-! # Arithmetic

Sums, differences and shifts as equations between numbers: the result and the report in `VF`
together hold what the exact result would be. Where the first operand is `VF` itself, the one of the
two that is written last is left.
-/

namespace Chip8

open Register

theorem toNat_flag (p : Prop) [Decidable p] : (flag p).toNat = if p then 1 else 0 := by
  unfold flag
  split <;> rfl

/-! ## Bytes with their carries -/

section Bytes

variable (a b s : UInt8)

theorem add_carry :
    (a + b).toNat + 256 * (flag (255 < a.toNat + b.toNat)).toNat = a.toNat + b.toNat := by
  have ha : a.toNat < 256 := a.toNat_lt
  have hb : b.toNat < 256 := b.toNat_lt
  rw [toNat_flag, UInt8.toNat_add]
  split <;> omega

/-- The report of a difference says that nothing was borrowed. -/
theorem sub_borrow :
    (a - b).toNat + b.toNat = a.toNat + 256 * (1 - (flag (b ≤ a)).toNat) := by
  have ha : a.toNat < 256 := a.toNat_lt
  have hb : b.toNat < 256 := b.toNat_lt
  have hle : b ≤ a ↔ b.toNat ≤ a.toNat := UInt8.le_iff_toNat_le
  rw [toNat_flag, UInt8.toNat_sub]
  split
  · next h =>
    rw [hle] at h
    omega
  · next h =>
    rw [hle] at h
    omega

theorem toNat_bit_out_right : (s &&& 1).toNat = s.toNat % 2 := by
  simp [Nat.and_one_is_mod]

theorem toNat_bit_out_left : (s >>> 7).toNat = s.toNat / 128 := by
  simp [Nat.shiftRight_eq_div_pow]

theorem shiftRight_bit_out : s.toNat = 2 * (s >>> 1).toNat + (s &&& 1).toNat := by
  have hhalf : (s >>> 1).toNat = s.toNat / 2 := by simp [Nat.shiftRight_eq_div_pow]
  rw [toNat_bit_out_right]
  omega

theorem shiftLeft_bit_out : 2 * s.toNat = 256 * (s >>> 7).toNat + (s <<< 1).toNat := by
  have hs : s.toNat < 256 := s.toNat_lt
  have hdouble : (s <<< 1).toNat = s.toNat * 2 % 256 := by simp [Nat.shiftLeft_eq]
  rw [toNat_bit_out_left]
  omega

end Bytes

namespace Alu

variable {d : Dialect} {v : Registers} {x y : Register}

def value (op : Alu) (d : Dialect) (v : Registers) (x y r : Register) : Nat :=
  ((op.apply d v x y).get r).toNat

def source (d : Dialect) (v : Registers) (x y : Register) : UInt8 :=
  if d.shiftsVy then v.get y else v.get x

section Exact

variable (hx : x ≠ vf)
include hx

theorem value_add : value .add d v x y x + 256 * value .add d v x y vf =
    (v.get x).toNat + (v.get y).toNat := by
  simp only [value, apply, Registers.get_update_self, Registers.get_update_update hx.symm]
  exact add_carry _ _

theorem value_sub : value .sub d v x y x + (v.get y).toNat =
    (v.get x).toNat + 256 * (1 - value .sub d v x y vf) := by
  simp only [value, apply, Registers.get_update_self, Registers.get_update_update hx.symm]
  exact sub_borrow _ _

theorem value_subReverse : value .subReverse d v x y x + (v.get x).toNat =
    (v.get y).toNat + 256 * (1 - value .subReverse d v x y vf) := by
  simp only [value, apply, Registers.get_update_self, Registers.get_update_update hx.symm]
  exact sub_borrow _ _

theorem value_shiftRight : (source d v x y).toNat =
    2 * value .shiftRight d v x y x + value .shiftRight d v x y vf := by
  simp only [value, apply, Registers.get_update_self, Registers.get_update_update hx]
  exact shiftRight_bit_out _

theorem value_shiftLeft : 2 * (source d v x y).toNat =
    256 * value .shiftLeft d v x y vf + value .shiftLeft d v x y x := by
  simp only [value, apply, Registers.get_update_self, Registers.get_update_update hx]
  exact shiftLeft_bit_out _

theorem value_vf_le {op : Alu} (hop : op.reports = true) : value op d v x y vf ≤ 1 := by
  have hflag (p : Prop) [Decidable p] : (flag p).toNat ≤ 1 := by
    rw [toNat_flag]
    split <;> decide
  have hlt : (source d v x y).toNat < 256 := (source d v x y).toNat_lt
  cases op with
  | add | sub | subReverse =>
    simp only [value, apply, Registers.get_update_update hx.symm]
    exact hflag _
  | shiftRight =>
    simp only [value, apply, Registers.get_update_self]
    exact (toNat_bit_out_right _).trans_le (by omega)
  | shiftLeft =>
    simp only [value, apply, Registers.get_update_self]
    refine (toNat_bit_out_left (source d v x y)).trans_le ?_
    omega
  | move | or | and | xor => cases hop

end Exact

/-! ## `VF` as the first operand -/

theorem value_add_vf : value .add d v vf y vf = ((v.get vf).toNat + (v.get y).toNat) % 256 := by
  simp only [value, apply, Registers.get_update_self]
  exact UInt8.toNat_add _ _

theorem toNat_sub_eq (a b : UInt8) : ((a - b).toNat : Int) = ((a.toNat : Int) - b.toNat) % 256 := by
  have hb : b.toNat < 256 := b.toNat_lt
  rw [UInt8.toNat_sub]
  omega

theorem value_sub_vf :
    (value .sub d v vf y vf : Int) = ((v.get vf).toNat - (v.get y).toNat : Int) % 256 := by
  simp only [value, apply, Registers.get_update_self]
  exact toNat_sub_eq _ _

theorem value_subReverse_vf :
    (value .subReverse d v vf y vf : Int) = ((v.get y).toNat - (v.get vf).toNat : Int) % 256 := by
  simp only [value, apply, Registers.get_update_self]
  exact toNat_sub_eq _ _

theorem value_shiftRight_vf : value .shiftRight d v x y vf = (source d v x y).toNat % 2 := by
  simp only [value, apply, Registers.get_update_self]
  exact toNat_bit_out_right _

theorem value_shiftLeft_vf : value .shiftLeft d v x y vf = (source d v x y).toNat / 128 := by
  simp only [value, apply, Registers.get_update_self]
  exact toNat_bit_out_left _

end Alu

namespace Machine

variable {m : Machine} {keys : Keyboard} {x : Register}

theorem get_vf_addIndex : ((m.execute keys (.addIndex x)).v.get vf).toNat =
    if 0xFFF < m.index.toNat + (m.v.get x).toNat then 1 else 0 := by
  simp only [execute, Registers.get_update_self]
  exact toNat_flag _

theorem index_addIndex : (m.execute keys (.addIndex x)).index.toNat =
    (m.index.toNat + (m.v.get x).toNat) % 0x10000 := by
  simp only [execute, UInt16.toNat_add, UInt8.toNat_toUInt16]

/-- Sums, differences and shifts are exact, whichever registers they name: outside of `VF` the
result and the report make up what the numbers would come to, and in `VF` sums and differences leave
their result and shifts their report. Adding to `I` reports sums beyond the twelve-bit addresses.
No other register changes. -/
theorem arithmetic_is_exact (m : Machine) (keys : Keyboard) (x y : Register) :
    let a := (m.v.get x).toNat
    let b := (m.v.get y).toNat
    let s := if m.config.dialect.shiftsVy then b else a
    let after (op : Alu) := m.execute keys (.alu op x y)
    let value (op : Alu) (r : Register) := ((after op).v.get r).toNat
    let added := m.execute keys (.addIndex x)
    (x ≠ vf →
      value .add x + 256 * value .add vf = a + b ∧
      value .sub x + b = a + 256 * (1 - value .sub vf) ∧
      value .subReverse x + a = b + 256 * (1 - value .subReverse vf) ∧
      s = 2 * value .shiftRight x + value .shiftRight vf ∧
      2 * s = 256 * value .shiftLeft vf + value .shiftLeft x ∧
      ∀ op, op.reports = true → value op vf ≤ 1) ∧
    (x = vf →
      value .add vf = (a + b) % 256 ∧
      (value .sub vf : Int) = (a - b : Int) % 256 ∧
      (value .subReverse vf : Int) = (b - a : Int) % 256 ∧
      value .shiftRight vf = s % 2 ∧
      value .shiftLeft vf = s / 128) ∧
    ((added.v.get vf).toNat = if 0xFFF < m.index.toNat + a then 1 else 0) ∧
    added.index.toNat = (m.index.toNat + a) % 0x10000 ∧
    (∀ op, after op = { m with v := (after op).v } ∧
      ∀ r, r ≠ x → r ≠ vf → (after op).v.get r = m.v.get r) ∧
    added = { m with v := added.v, index := added.index } ∧
      ∀ r, r ≠ vf → added.v.get r = m.v.get r := by
  intro a b s after value added
  have hs : (Alu.source m.config.dialect m.v x y).toNat = s := apply_ite UInt8.toNat _ _ _
  refine ⟨fun hx => ?_, fun hx => ?_, get_vf_addIndex, index_addIndex, ?_, rfl, ?_⟩
  · rw [← hs]
    exact ⟨Alu.value_add (d := m.config.dialect) hx, Alu.value_sub (d := m.config.dialect) hx,
      Alu.value_subReverse (d := m.config.dialect) hx, Alu.value_shiftRight hx,
      Alu.value_shiftLeft hx, fun op => Alu.value_vf_le hx⟩
  · subst hx
    rw [← hs]
    exact ⟨Alu.value_add_vf (d := m.config.dialect), Alu.value_sub_vf (d := m.config.dialect),
      Alu.value_subReverse_vf (d := m.config.dialect), Alu.value_shiftRight_vf,
      Alu.value_shiftLeft_vf⟩
  · intro op
    refine ⟨rfl, fun r hx hf => ?_⟩
    exact Alu.get_apply_of_ne hx fun _ => hf
  · intro r hf
    exact Registers.get_update_of_ne hf

/-- `VF` as the second operand of a sum that carries, and as the first. -/
theorem sums_with_vf_are_exact :
    ∃ new, create (.standard .chip8) default = .ok new ∧
      let m := { new with v := (new.v.update 1 200).update vf 100 }
      let after (x y : Register) := (m.execute Keypad.released.keyboard (.alu .add x y)).v
      ((after 1 vf).get 1).toNat + 256 * ((after 1 vf).get vf).toNat = 300 ∧
        ((after vf 1).get vf).toNat = 44 := by
  obtain ⟨new, hnew⟩ := exists_create_iff.mpr (rfl : (Config.standard .chip8).Accepted)
  refine ⟨new, hnew, ?_⟩
  intro m after
  have hvf : m.v.get vf = 100 := Registers.get_update_self
  have hone : m.v.get 1 = 200 := Registers.get_update_update (by decide)
  obtain ⟨hcarried, -⟩ := (arithmetic_is_exact m Keypad.released.keyboard 1 vf).1 (by decide)
  obtain ⟨hwrapped, -⟩ := (arithmetic_is_exact m Keypad.released.keyboard vf 1).2.1 rfl
  rw [hone, hvf] at hcarried hwrapped
  exact ⟨hcarried, hwrapped⟩

end Machine

end Chip8
