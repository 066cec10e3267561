import Mathlib.Data.List.FinRange
import Chip8.Machine.Registers

/-! # Lists of registers, and what arithmetic and loading leave alone -/

namespace Chip8

namespace Register

variable {x y r : Register}

theorem length_range (x y : Register) :
    (range x y).length = max x.val y.val - min x.val y.val + 1 := by
  revert x y
  decide

theorem mem_range : r ∈ range x y ↔ min x.val y.val ≤ r.val ∧ r.val ≤ max x.val y.val := by
  unfold range
  split
  · next h =>
    have h : x.val ≤ y.val := h
    simp only [List.mem_filter, List.mem_finRange, true_and, decide_eq_true_eq, Fin.le_def]
    omega
  · next h =>
    have h : ¬ x.val ≤ y.val := h
    simp only [List.mem_reverse, List.mem_filter, List.mem_finRange, true_and,
      decide_eq_true_eq, Fin.le_def]
    omega

theorem mem_range_iff : r ∈ range x y ↔ min x y ≤ r ∧ r ≤ max x y := by
  rw [mem_range, Fin.le_def, Fin.le_def, Fin.coe_min, Fin.coe_max]

theorem mem_upTo : r ∈ upTo x ↔ r ≤ x := by
  rw [upTo, mem_range_iff, min_eq_left (Fin.zero_le x), max_eq_right (Fin.zero_le x),
    and_iff_right (Fin.zero_le r)]

/-- The other way round, a register changes places with the one as far from the other end. -/
theorem map_range (x y : Register) : (range y x).map (fun r => x + y - r) = range x y := by
  revert x y
  decide

end Register

open Register

namespace Registers

variable {v : Registers} {x y : Register} {a b : UInt8}

theorem get_update_self : (v.update x b).get x = b := by
  rw [get_update, if_pos rfl]

theorem get_update_of_ne (h : y ≠ x) : (v.update x b).get y = v.get y := by
  rw [get_update, if_neg h.symm]

theorem get_update_update (h : x ≠ y) : ((v.update x a).update y b).get x = a := by
  rw [get_update_of_ne h, get_update_self]

end Registers

theorem Registers.get_assign_of_notMem {v : Registers} {rs : List Register} {bs : List UInt8}
    {r : Register} (h : r ∉ rs) : (v.assign rs bs).get r = v.get r := by
  induction rs generalizing v bs with
  | nil => rfl
  | cons x rs ih =>
    cases bs with
    | nil => rfl
    | cons b bs =>
      rw [List.mem_cons, not_or] at h
      rw [assign, ih h.2, get_update_of_ne h.1]

theorem Registers.get_assign_map (v : Registers) (rs : List Register) (f : Register → UInt8)
    (r : Register) : (v.assign rs (rs.map f)).get r = if r ∈ rs then f r else v.get r := by
  induction rs generalizing v with
  | nil => rfl
  | cons x rs ih =>
    rw [List.map_cons, assign, ih]
    -- A register that is listed again is loaded again, with the same byte.
    by_cases hr : r = x
    · subst hr
      simp only [get_update_self, List.mem_cons, true_or, if_true, ite_self]
    · simp only [get_update_of_ne hr, List.mem_cons, hr, false_or]

namespace Alu

def reports : Alu → Bool
  | .add | .sub | .subReverse | .shiftRight | .shiftLeft => true
  | .move | .or | .and | .xor => false

variable {op : Alu} {d : Dialect} {v : Registers} {x y r : Register}

/-- Arithmetic changes no register but the first operand, and the one that it reports in. -/
theorem get_apply_of_ne (hx : r ≠ x) (hf : op.reports = true → r ≠ vf) :
    (op.apply d v x y).get r = v.get r := by
  cases op with
  | move | or | and | xor => exact Registers.get_update_of_ne hx
  | add | sub | subReverse =>
    exact (Registers.get_update_of_ne hx).trans (Registers.get_update_of_ne (hf rfl))
  | shiftRight | shiftLeft =>
    exact (Registers.get_update_of_ne (hf rfl)).trans (Registers.get_update_of_ne hx)

end Alu

end Chip8
