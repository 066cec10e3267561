import Chip8.Display.Host
import Chip8.Proofs.Display.Reach

/-! # Cells

A display is its resolution, its mask and the lit cells of its planes. The cells on the screen have
numbers of their own, and the colour of a cell has a bit for each plane.
-/

namespace Chip8

theorem Resolution.row_le_area {r : Resolution} {y : Nat} (hy : y < r.height) :
    y * r.width + r.width ≤ r.area := by
  cases r <;> simp only [width, height, area] at * <;> omega

theorem Resolution.scrollWidth_le (r : Resolution) : Bitmap.scrollWidth ≤ r.width := by
  cases r <;> decide

namespace Bitmap

variable {r : Resolution} {b b' : Bitmap r} {x y x' y' i : Nat}

theorem cellIndex_lt (hx : x < r.width) (hy : y < r.height) : cellIndex r x y < r.area := by
  have hrow := Resolution.row_le_area hy
  unfold cellIndex
  omega

theorem cellIndex_inj (hx : x < r.width) (hx' : x' < r.width) :
    cellIndex r x y = cellIndex r x' y' ↔ x = x' ∧ y = y' := by
  cases r <;> simp only [cellIndex, Resolution.width] at * <;> omega

theorem lit_set (hx : x < r.width) (hy : y < r.height) (hx' : x' < r.width) (v : Bool) :
    (b.set x y v).lit x' y' = if x' = x ∧ y' = y then v else b.lit x' y' := by
  have hcell : cellIndex r x y = cellIndex r x' y' ↔ x' = x ∧ y' = y := by
    rw [cellIndex_inj hx hx', eq_comm, @eq_comm _ y]
  unfold lit cell? set
  rw [Vector.getElem?_setIfInBounds]
  simp only [hcell, cellIndex_lt hx hy, if_true]
  split
  · rfl
  · rfl

theorem coordinates_of_lt (hi : i < r.area) :
    i % r.width < r.width ∧ i / r.width < r.height ∧
      cellIndex r (i % r.width) (i / r.width) = i := by
  have hwidth : 0 < r.width := by cases r <;> decide
  refine ⟨Nat.mod_lt _ hwidth, Nat.div_lt_of_lt_mul hi, ?_⟩
  unfold cellIndex
  rw [Nat.mul_comm]
  exact Nat.mod_add_div i r.width

/-- The cells on the screen are all there is to a bitmap. -/
theorem ext_lit (h : ∀ x < r.width, ∀ y < r.height, b.lit x y = b'.lit x y) : b = b' := by
  ext i hi
  obtain ⟨hx, hy, hcell⟩ := coordinates_of_lt hi
  have hlit := h _ hx _ hy
  simp only [lit, cell?, hcell] at hlit
  rwa [Vector.getElem?_eq_getElem hi, Vector.getElem?_eq_getElem hi] at hlit

theorem lit_blank : (blank r).lit x y = false := by
  simp only [lit, cell?, blank, Vector.getElem?_replicate]
  split <;> rfl

end Bitmap

namespace Display

def lit (d : Display) (p x y : Nat) : Bool := (d.pixel? p x y).getD false

variable {d e : Display} {k p x y : Nat}

theorem lit_of_getElem? {b : Bitmap d.resolution} (h : d.planes[p]? = some b) :
    d.lit p x y = b.lit x y := by
  unfold lit pixel?
  rw [h]
  rfl

theorem lit_of_size_le (h : d.planes.size ≤ p) : d.lit p x y = false := by
  unfold lit pixel?
  rw [Array.getElem?_eq_none h]
  rfl

theorem BlankFrom.lit (h : d.BlankFrom k) (hp : k ≤ p) : d.lit p x y = false := by
  cases hb : d.planes[p]? with
  | none => exact lit_of_size_le (Array.getElem?_eq_none_iff.mp hb)
  | some b => rw [lit_of_getElem? hb, h p b hp hb, Bitmap.lit_blank]

/-- Displays with the same cells differ in their masks only. -/
theorem eq_setMask_of_lit (hr : e.resolution = d.resolution)
    (hsize : e.planes.size = d.planes.size)
    (h : ∀ p, ∀ x < d.width, ∀ y < d.height, e.lit p x y = d.lit p x y) :
    e = d.setMask e.mask := by
  obtain ⟨r, mask, planes⟩ := d
  obtain ⟨_, mask', planes'⟩ := e
  obtain rfl : _ = r := hr
  have hplanes : planes' = planes := by
    refine Array.ext hsize fun p hp hp' => Bitmap.ext_lit fun x hx y hy => ?_
    have hlit := h p x hx y hy
    rwa [lit_of_getElem? (Array.getElem?_eq_getElem hp),
      lit_of_getElem? (Array.getElem?_eq_getElem hp')] at hlit
  rw [hplanes]
  rfl

/-! ## Colours -/

theorem testBit_foldr {α : Type} (f : α → Bool) (l : List α) (p : Nat) :
    (l.foldr (fun a c => 2 * c + (f a).toNat) 0).testBit p = (l[p]?.map f).getD false := by
  induction l generalizing p with
  | nil => exact Nat.zero_testBit p
  | cons a l ih =>
    rw [List.foldr_cons, ← Nat.bit_val]
    cases p with
    | zero => exact Nat.testBit_bit_zero _ _
    | succ p => exact (Nat.testBit_bit_succ _ _ _).trans (ih p)

theorem testBit_colour : (d.colour x y).testBit p = d.lit p x y := by
  unfold colour
  rw [← Array.foldr_toList, testBit_foldr fun b : Bitmap d.resolution => b.lit x y,
    Array.getElem?_toList]
  cases hb : d.planes[p]? with
  | none => rw [lit_of_size_le (Array.getElem?_eq_none_iff.mp hb)]; rfl
  | some b => rw [lit_of_getElem? hb]; rfl

theorem colour_eq_zero_iff : d.colour x y = 0 ↔ ∀ p, d.lit p x y = false := by
  simp only [← testBit_colour]
  exact ⟨fun h p => h ▸ Nat.zero_testBit p, Nat.zero_of_testBit_eq_false⟩

theorem BlankFrom.colour_lt (h : d.BlankFrom k) : d.colour x y < 2 ^ k :=
  Nat.lt_pow_two_of_testBit _ fun _ hp => testBit_colour.trans (h.lit hp)

end Display

end Chip8
