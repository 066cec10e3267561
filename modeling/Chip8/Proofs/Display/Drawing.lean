import Mathlib.Algebra.BigOperators.Fin
import Mathlib.Data.Nat.Count
import Chip8.Proofs.Display.Repaints

/-! # Sprites on the screen

A sprite flips the cells under its set bits. Since no cell comes under two of them, the rows that
hit can be told from the picture as it was before.
-/

namespace Chip8

namespace Sprite

def rowCovers (s : Sprite) (left top row n x y : Nat) : Bool :=
  decide (left ≤ x ∧ x < left + n ∧ y = top + row) && s.bit row (x - left)

def rowsCover (s : Sprite) (left top n x y : Nat) : Bool :=
  decide (left ≤ x ∧ x < left + s.width ∧ top ≤ y ∧ y < top + n) && s.bit (y - top) (x - left)

/-- Whether a set bit of the sprite stands over `(x, y)`. -/
def covers (s : Sprite) (left top x y : Nat) : Bool := s.rowsCover left top s.height x y

variable {s : Sprite} {left top row : Nat}

theorem rowCovers_zero : s.rowCovers left top row 0 = fun _ _ => false := by
  ext x y
  have hnone : ¬ (left ≤ x ∧ x < left + 0 ∧ y = top + row) := by omega
  simp only [rowCovers, hnone, decide_false, Bool.false_and]

theorem rowCovers_succ (n x y : Nat) : s.rowCovers left top row (n + 1) x y =
    (s.rowCovers left top row n x y ^^
      (s.bit row n && decide (x = left + n ∧ y = top + row))) := by
  unfold rowCovers
  by_cases h : x = left + n ∧ y = top + row
  · obtain ⟨rfl, rfl⟩ := h
    simp
  · have hsame : (left ≤ x ∧ x < left + (n + 1) ∧ y = top + row) ↔
        (left ≤ x ∧ x < left + n ∧ y = top + row) := by omega
    simp [h, hsame]

theorem rowsCover_zero : s.rowsCover left top 0 = fun _ _ => false := by
  ext x y
  have hnone : ¬ (left ≤ x ∧ x < left + s.width ∧ top ≤ y ∧ y < top + 0) := by omega
  simp only [rowsCover, hnone, decide_false, Bool.false_and]

theorem rowsCover_succ (n x y : Nat) : s.rowsCover left top (n + 1) x y =
    (s.rowsCover left top n x y ^^ s.rowCovers left top n s.width x y) := by
  unfold rowsCover rowCovers
  by_cases h : y = top + n
  · subst h
    simp
  · have hsame : (left ≤ x ∧ x < left + s.width ∧ top ≤ y ∧ y < top + (n + 1)) ↔
        (left ≤ x ∧ x < left + s.width ∧ top ≤ y ∧ y < top + n) := by omega
    simp [h, hsame]

end Sprite

namespace Bitmap

variable {r : Resolution} {b c e : Bitmap r} {f g k : Nat → Nat → Bool} {s : Sprite}
  {left top row x y u v : Nat}

/-- `c` is `b` with those cells flipped that `f` names. -/
def Flips (b : Bitmap r) (f : Nat → Nat → Bool) (c : Bitmap r) : Prop :=
  ∀ x < r.width, ∀ y < r.height, c.lit x y = (b.lit x y ^^ f x y)

/-- A set bit over `(x, y)` hits: it erases a lit cell, or it lies below the screen. -/
def Hit (b : Bitmap r) (x y : Nat) : Prop :=
  x < r.width ∧ y < r.height ∧ b.lit x y = true ∨ r.height ≤ y

def RowHit (b : Bitmap r) (s : Sprite) (left top row : Nat) : Prop :=
  ∃ column < s.width, s.bit row column = true ∧ b.Hit (left + column) (top + row)

instance : Decidable (b.Hit x y) := inferInstanceAs (Decidable (_ ∨ _))

instance : Decidable (b.RowHit s left top row) :=
  inferInstanceAs (Decidable (∃ column < s.width, _ ∧ _))

theorem Flips.refl (b : Bitmap r) : b.Flips (fun _ _ => false) b := by
  intro x _ y _
  rw [Bool.xor_false]

theorem Flips.trans (h : b.Flips f c) (h' : c.Flips g e) (hk : ∀ x y, k x y = (f x y ^^ g x y)) :
    b.Flips k e := by
  intro x hx y hy
  rw [h' x hx y hy, h x hx y hy, hk, Bool.xor_assoc]

theorem Flips.hit_iff (h : b.Flips f c) (hf : f x y = false) : c.Hit x y ↔ b.Hit x y := by
  unfold Hit
  constructor
  · rintro (⟨hx, hy, hlit⟩ | hy)
    · rw [h x hx y hy, hf, Bool.xor_false] at hlit
      exact Or.inl ⟨hx, hy, hlit⟩
    · exact Or.inr hy
  · rintro (⟨hx, hy, hlit⟩ | hy)
    · refine Or.inl ⟨hx, hy, ?_⟩
      rw [h x hx y hy, hf, Bool.xor_false, hlit]
    · exact Or.inr hy

theorem Flips.rowHit_iff (h : b.Flips f c)
    (hf : ∀ column, f (left + column) (top + row) = false) :
    c.RowHit s left top row ↔ b.RowHit s left top row := by
  unfold RowHit
  simp only [h.hit_iff (hf _)]

theorem flips_flip : b.Flips (fun x y => decide (x = u ∧ y = v)) (b.flip u v).1 := by
  intro x hx y hy
  unfold flip
  by_cases hv : r.height ≤ v
  · have hne : ¬ (x = u ∧ y = v) := by omega
    simp [hv, hne]
  · by_cases hu : r.width ≤ u
    · have hne : ¬ (x = u ∧ y = v) := by omega
      simp [hv, hu, hne]
    · simp only [hv, hu, if_false]
      rw [lit_set (by omega) (by omega) hx]
      by_cases h : x = u ∧ y = v
      · obtain ⟨rfl, rfl⟩ := h
        simp
      · simp [h]

theorem flip_hit_iff : (b.flip u v).2 = true ↔ b.Hit u v := by
  unfold flip Hit
  by_cases hv : r.height ≤ v
  · simp [hv]
  · by_cases hu : r.width ≤ u
    · simp [hv, hu, Nat.not_lt.mpr hu]
    · simp [hv, hu, Nat.not_le.mp hu, Nat.not_le.mp hv]

theorem drawRow_spec :
    b.Flips (s.rowCovers left top row s.width) (b.drawRow s left top row).1 ∧
      ((b.drawRow s left top row).2 = true ↔ b.RowHit s left top row) := by
  unfold drawRow RowHit
  -- The induction is on the columns drawn so far; the place of a bit depends on the whole width.
  generalize s.width = n
  induction n with
  | zero =>
    rw [Sprite.rowCovers_zero]
    exact ⟨Flips.refl b, by simp⟩
  | succ n ih =>
    rw [Nat.fold_succ, Nat.exists_lt_succ_right]
    generalize Nat.fold n _ _ = state at ih ⊢
    obtain ⟨c, hit⟩ := state
    obtain ⟨hflips, hhit⟩ := ih
    have hfresh : s.rowCovers left top row n (left + n) (top + row) = false := by
      simp [Sprite.rowCovers]
    have hnext : (c.flip (left + n) (top + row)).2 = true ↔ b.Hit (left + n) (top + row) :=
      flip_hit_iff.trans (hflips.hit_iff hfresh)
    cases hbit : s.bit row n with
    | false =>
      constructor
      · apply hflips.trans (Flips.refl c)
        intro x y
        rw [Sprite.rowCovers_succ, hbit, Bool.false_and]
      · simpa using hhit
    | true =>
      constructor
      · apply hflips.trans flips_flip
        intro x y
        rw [Sprite.rowCovers_succ, hbit, Bool.true_and]
      · simpa [hnext] using or_congr_left hhit

theorem draw_spec :
    b.Flips (s.covers left top) (b.draw s left top).1 ∧
      (b.draw s left top).2 = Nat.count (b.RowHit s left top) s.height := by
  have hcovers : s.covers left top = s.rowsCover left top s.height := rfl
  rw [hcovers]
  unfold draw
  generalize s.height = n
  induction n with
  | zero =>
    rw [Sprite.rowsCover_zero]
    exact ⟨Flips.refl b, rfl⟩
  | succ n ih =>
    rw [Nat.fold_succ, Nat.count_succ]
    generalize Nat.fold n _ _ = state at ih ⊢
    obtain ⟨c, hits⟩ := state
    obtain ⟨hflips, hhits⟩ := ih
    obtain ⟨hrow, hhit⟩ := @drawRow_spec r c s left top n
    have hfresh (column : Nat) : s.rowsCover left top n (left + column) (top + n) = false := by
      simp [Sprite.rowsCover]
    have hrows : (c.drawRow s left top n).2 = decide (b.RowHit s left top n) := by
      rw [Bool.eq_iff_iff, hhit, decide_eq_true_iff]
      exact hflips.rowHit_iff hfresh
    constructor
    · exact hflips.trans hrow (Sprite.rowsCover_succ n)
    · simp only [hrows, ← hhits]
      by_cases h : b.RowHit s left top n <;> simp [h]

end Bitmap

namespace Sprite

/-- The bit in a row and a column of the picture for the `k`-th selected plane, counted from zero:
the pictures follow each other in memory. -/
def pixel (s : Sprite) (k row column : Nat) : Bool :=
  (s.memory.read
    (s.address + k * s.height * (s.width / 8) + row * (s.width / 8) + column / 8)).toNat.testBit
    (7 - column % 8)

theorem bit_skip (s : Sprite) (k row column : Nat) :
    (s.skip k).bit row column = s.pixel k row column := by
  unfold bit pixel skip stride
  rw [Nat.mul_assoc]

theorem covers_skip (s : Sprite) (left top k x y : Nat) : (s.skip k).covers left top x y =
    (decide (left ≤ x ∧ x < left + s.width ∧ top ≤ y ∧ y < top + s.height) &&
      s.pixel k (y - top) (x - left)) := by
  rw [← bit_skip]
  rfl

end Sprite

namespace Display

variable {d : Display} {s : Sprite} {left top p row : Nat}

/-- A row of the picture for plane `p` hits: one of its set bits erases a lit cell or lies below the
screen. -/
def RowHit (d : Display) (s : Sprite) (left top p row : Nat) : Prop :=
  ∃ column < s.width, s.pixel (d.rank p) row column = true ∧
    (left + column < d.width ∧ top + row < d.height ∧ d.lit p (left + column) (top + row) = true ∨
      d.height ≤ top + row)

instance : Decidable (d.RowHit s left top p row) :=
  inferInstanceAs (Decidable (∃ column < s.width, _ ∧ _))

def rowHits (d : Display) (s : Sprite) (left top : Nat) : Finset (Nat × Nat) :=
  (Finset.range d.planes.size ×ˢ Finset.range s.height).filter fun (p, row) =>
    d.selects p = true ∧ d.RowHit s left top p row

theorem draw_eq_repaint : (d.draw s left top).1 =
    d.repaint fun p b => (b.draw (s.skip (d.rank p)) left top).1 := by
  rw [draw_eq]
  rfl

/-- Which cells a sprite flips does not depend on the picture. -/
theorem repaints_draw : d.Repaints
    (fun p x y => d.lit p x y ^^ (s.skip (d.rank p)).covers left top x y)
    (d.draw s left top).1 := by
  rw [draw_eq_repaint]
  apply repaints_repaint
  intro p b hb x hx y hy
  rw [Bitmap.draw_spec.1 x hx y hy, lit_of_getElem? hb]

theorem sum_mapIdx {α : Type} {xs : Array α} {f : Nat → α → Nat} {g : Nat → Nat}
    (h : ∀ p a, xs[p]? = some a → f p a = g p) :
    (xs.mapIdx f).sum = ∑ p ∈ Finset.range xs.size, g p := by
  have hlisted : xs.mapIdx f = Array.ofFn fun p : Fin xs.size => g p := by
    refine Array.ext (by simp) fun p hp _ => ?_
    rw [Array.size_mapIdx] at hp
    simp [h p xs[p] (Array.getElem?_eq_getElem hp)]
  rw [hlisted, ← Array.sum_toList, Array.toList_ofFn, List.sum_ofFn, Finset.sum_range]

theorem rowHit_iff {b : Bitmap d.resolution} (hb : d.planes[p]? = some b) :
    b.RowHit (s.skip (d.rank p)) left top row ↔ d.RowHit s left top p row := by
  unfold RowHit Bitmap.RowHit Bitmap.Hit
  simp only [Sprite.bit_skip, lit_of_getElem? hb]
  rfl

theorem hits_draw : (d.draw s left top).2 =
    ∑ p ∈ Finset.range d.planes.size,
      if d.selects p then Nat.count (d.RowHit s left top p) s.height else 0 := by
  have hcount {p : Nat} {b : Bitmap d.resolution} (hb : d.planes[p]? = some b) :
      (b.draw (s.skip (d.rank p)) left top).2 = Nat.count (d.RowHit s left top p) s.height := by
    rw [Bitmap.draw_spec.2, Nat.count_eq_card_filter_range, Nat.count_eq_card_filter_range]
    exact congrArg Finset.card (Finset.filter_congr fun row _ => rowHit_iff hb)
  rw [draw_eq]
  refine sum_mapIdx fun p b hb => ?_
  rw [hcount hb]

theorem card_rowHits : (d.rowHits s left top).card =
    ∑ p ∈ Finset.range d.planes.size,
      if d.selects p then Nat.count (d.RowHit s left top p) s.height else 0 := by
  unfold rowHits
  rw [Finset.card_filter, Finset.sum_product]
  refine Finset.sum_congr rfl fun p _ => ?_
  by_cases h : d.selects p = true
  · simp only [h, true_and, if_true]
    rw [Nat.count_eq_card_filter_range, Finset.card_filter]
  · simp [h]

theorem getElem?_filter_range_self {q : Nat → Bool} {n p : Nat} (hp : p < n) (hq : q p = true) :
    ((List.range n).filter q)[((List.range p).filter q).length]? = some p := by
  obtain ⟨rest, rfl⟩ := Nat.exists_eq_add_of_lt hp
  rw [Nat.add_assoc, List.range_add, List.filter_append,
    List.getElem?_append_right (Nat.le_refl _), Nat.sub_self, List.range_succ_eq_map,
    List.map_cons, Nat.add_zero, List.filter_cons_of_pos hq, List.getElem?_cons_zero]

theorem getElem?_filter_range (q : Nat → Bool) (n k p : Nat) :
    ((List.range n).filter q)[k]? = some p ↔
      p < n ∧ q p = true ∧ ((List.range p).filter q).length = k := by
  constructor
  · intro h
    obtain ⟨hp, hq⟩ := List.mem_filter.mp (List.mem_of_getElem? h)
    have hp : p < n := List.mem_range.mp hp
    have hk := (List.getElem?_eq_some_iff.mp h).1
    have hnodup : ((List.range n).filter q).Nodup := List.nodup_range.filter q
    have hsame := h.trans (getElem?_filter_range_self hp hq).symm
    exact ⟨hp, hq, ((List.getElem?_inj hk hnodup).mp hsame).symm⟩
  · rintro ⟨hp, hq, rfl⟩
    exact getElem?_filter_range_self hp hq

theorem getElem?_selected {k : Nat} : d.selected[k]? = some p ↔
    p < d.planes.size ∧ d.selects p = true ∧ d.rank p = k :=
  getElem?_filter_range d.selects d.planes.size k p

/-- Drawing said in terms of the picture before: the selected planes are flipped under the set bits
of their pictures, and the rows that hit are counted, each plane's for itself. The picture of a
plane is found by its number among the selected ones. -/
theorem draw_closed_form (d : Display) (s : Sprite) (left top : Nat) :
    d.Repaints
        (fun p x y => d.lit p x y ^^
          (decide (left ≤ x ∧ x < left + s.width ∧ top ≤ y ∧ y < top + s.height) &&
            s.pixel (d.rank p) (y - top) (x - left)))
        (d.draw s left top).1 ∧
      (d.draw s left top).2 = (d.rowHits s left top).card ∧
      ∀ k p, d.selected[k]? = some p ↔
        p < d.planes.size ∧ d.selects p = true ∧ d.rank p = k := by
  refine ⟨?_, hits_draw.trans card_rowHits.symm, fun k p => getElem?_selected⟩
  simp only [← Sprite.covers_skip]
  exact repaints_draw

end Display

end Chip8
