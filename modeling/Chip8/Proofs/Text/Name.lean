import Mathlib.Data.List.DropRight
import Chip8.Text

/-! # Names in normal form

A name in normal form is its own normal form, as letters in lower case are neither blank nor
changed again.
-/

namespace Chip8

theorem toNat_toLower (c : Char) :
    c.toLower.toNat = if 65 ≤ c.toNat ∧ c.toNat ≤ 90 then c.toNat + 32 else c.toNat := by
  have hrange : c.val ≥ 'A'.val ∧ c.val ≤ 'Z'.val ↔ 65 ≤ c.toNat ∧ c.toNat ≤ 90 := by
    simp only [ge_iff_le, UInt32.le_iff_toNat_le]
    rfl
  unfold Char.toLower
  split
  · next h =>
    rw [hrange] at h
    rw [if_pos h]
    change (c.val + 32).toNat = c.val.toNat + 32
    have hlt : c.val.toNat ≤ 90 := h.2
    rw [UInt32.toNat_add]
    exact Nat.mod_eq_of_lt (Nat.lt_of_le_of_lt (Nat.add_le_add_right hlt 32) (by decide))
  · next h => rw [if_neg (hrange.not.mp h)]

theorem toLower_toLower (c : Char) : c.toLower.toLower = c.toLower := by
  refine Char.ext (UInt32.toNat_inj.mp ?_)
  change c.toLower.toLower.toNat = c.toLower.toNat
  simp only [toNat_toLower]
  grind

theorem isBlank_eq_false {c : Char} (h : 65 ≤ c.toNat) (h' : c.toNat ≤ 122) :
    isBlank c = false := by
  simp only [isBlank, blankRuns, List.any_cons, List.any_nil, Bool.or_false, Bool.or_eq_false_iff,
    Bool.and_eq_false_iff, decide_eq_false_iff_not]
  omega

theorem isBlank_toLower (c : Char) : isBlank c.toLower = isBlank c := by
  have hlower := toNat_toLower c
  split at hlower
  · next h => rw [isBlank_eq_false (by omega) (by omega), isBlank_eq_false h.1 (by omega)]
  · simp only [isBlank, hlower]

theorem dropWhile_map_toLower (cs : List Char) :
    (cs.map Char.toLower).dropWhile isBlank = (cs.dropWhile isBlank).map Char.toLower := by
  have hblank : isBlank ∘ Char.toLower = isBlank := funext isBlank_toLower
  rw [List.dropWhile_map, hblank]

theorem trimBlank_map_toLower (cs : List Char) :
    trimBlank (cs.map Char.toLower) = (trimBlank cs).map Char.toLower := by
  simp only [trimBlank, dropWhile_map_toLower, ← List.map_reverse]

/-- Where nothing is dropped in front, nothing is once the end has been dropped. -/
theorem dropWhile_rdropWhile {p : Char → Bool} {cs : List Char} (h : cs.dropWhile p = cs) :
    (cs.rdropWhile p).dropWhile p = cs.rdropWhile p := by
  rw [List.dropWhile_eq_self_iff]
  intro hpos
  have hkept : cs.rdropWhile p <+: cs := List.rdropWhile_prefix p cs
  rw [hkept.getElem hpos]
  exact List.dropWhile_eq_self_iff.mp h (hpos.trans_le hkept.length_le)

theorem trimBlank_trimBlank (cs : List Char) : trimBlank (trimBlank cs) = trimBlank cs := by
  have hfront : (cs.dropWhile isBlank).dropWhile isBlank = cs.dropWhile isBlank :=
    List.dropWhile_idempotent isBlank cs
  calc trimBlank (trimBlank cs)
      = (((cs.dropWhile isBlank).rdropWhile isBlank).dropWhile isBlank).rdropWhile isBlank := rfl
    _ = ((cs.dropWhile isBlank).rdropWhile isBlank).rdropWhile isBlank := by
      rw [dropWhile_rdropWhile hfront]
    _ = (cs.dropWhile isBlank).rdropWhile isBlank := List.rdropWhile_idempotent isBlank _

theorem normalName_normalName (name : String) :
    normalName (normalName name) = normalName name := by
  have hlower : Char.toLower ∘ Char.toLower = Char.toLower := funext toLower_toLower
  simp only [normalName, String.toList_ofList, trimBlank_map_toLower, trimBlank_trimBlank,
    List.map_map, hlower]

end Chip8
