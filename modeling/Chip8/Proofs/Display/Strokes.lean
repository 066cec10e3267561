import Chip8.Proofs.Display.Drawing

/-! # Drawing one over the other

Which cells a sprite flips does not depend on the picture that it is drawn over. So the cells after
many draws follow from how many of these flip a cell, whatever their order, and two equal draws
leave nothing behind.
-/

namespace Chip8

/-- A sprite at a place, drawn under a mask of its own. -/
structure Stroke where
  mask : UInt8
  sprite : Sprite
  left : Nat
  top : Nat

namespace Stroke

def rank (k : Stroke) (p : Nat) : Nat :=
  ((List.range p).filter fun q => k.mask.toNat.testBit q).length

def flips (k : Stroke) (p x y : Nat) : Bool :=
  k.mask.toNat.testBit p && (k.sprite.skip (k.rank p)).covers k.left k.top x y

end Stroke

namespace Display

def stroke (d : Display) (k : Stroke) : Display :=
  ((d.setMask k.mask).draw k.sprite k.left k.top).1

def strokes (d : Display) (ks : List Stroke) : Display := ks.foldl stroke d

/-- `e` is `d`, perhaps with another mask. -/
def SameCells (d e : Display) : Prop := e = d.setMask e.mask

variable {d : Display} {k : Stroke} {ks ks' : List Stroke} {p x y : Nat}

theorem resolution_stroke : (d.stroke k).resolution = d.resolution := rfl

@[simp] theorem size_planes_stroke : (d.stroke k).planes.size = d.planes.size :=
  size_planes_draw k.sprite k.left k.top

theorem lit_stroke (hp : p < d.planes.size) (hx : x < d.width) (hy : y < d.height) :
    (d.stroke k).lit p x y = (d.lit p x y ^^ k.flips p x y) := by
  have hdraw : (d.setMask k.mask).Repaints _ (d.stroke k) := repaints_draw
  cases hsel : k.mask.toNat.testBit p with
  | false =>
    rw [Stroke.flips, hsel, Bool.false_and, Bool.xor_false]
    exact hdraw.unselected p hsel x y
  | true =>
    rw [Stroke.flips, hsel, Bool.true_and]
    exact hdraw.selected p hp hsel x hx y hy

theorem resolution_strokes : (d.strokes ks).resolution = d.resolution := by
  induction ks generalizing d with
  | nil => rfl
  | cons k ks ih => exact ih.trans resolution_stroke

@[simp] theorem size_planes_strokes : (d.strokes ks).planes.size = d.planes.size := by
  induction ks generalizing d with
  | nil => rfl
  | cons k ks ih => exact ih.trans size_planes_stroke

/-- Each cell is flipped as often as there are strokes over it. -/
theorem lit_strokes (hp : p < d.planes.size) (hx : x < d.width) (hy : y < d.height) :
    (d.strokes ks).lit p x y = (d.lit p x y ^^ (ks.countP fun k => k.flips p x y).bodd) := by
  induction ks generalizing d with
  | nil =>
    rw [List.countP_nil, Nat.bodd_zero, Bool.xor_false]
    rfl
  | cons k ks ih =>
    have hrest : (d.strokes (k :: ks)).lit p x y =
        ((d.stroke k).lit p x y ^^ (ks.countP fun k => k.flips p x y).bodd) :=
      ih (by simpa using hp) hx hy
    have hfirst : (if k.flips p x y then 1 else 0 : Nat).bodd = k.flips p x y := by
      cases k.flips p x y <;> rfl
    rw [hrest, lit_stroke hp hx hy, List.countP_cons, Nat.bodd_add, hfirst, Bool.xor_assoc,
      Bool.xor_comm (k.flips p x y)]

theorem strokes_sameCells
    (h : ∀ p x y, (ks.countP fun k => k.flips p x y).bodd =
      (ks'.countP fun k => k.flips p x y).bodd) :
    (d.strokes ks).SameCells (d.strokes ks') := by
  have hresolution : (d.strokes ks').resolution = (d.strokes ks).resolution := by
    rw [resolution_strokes, resolution_strokes]
  apply eq_setMask_of_lit hresolution (by simp)
  intro p x hx y hy
  rw [width, resolution_strokes] at hx
  rw [height, resolution_strokes] at hy
  rcases Nat.lt_or_ge p d.planes.size with hp | hp
  · rw [lit_strokes hp hx hy, lit_strokes hp hx hy, h]
  · rw [lit_of_size_le (by simpa using hp), lit_of_size_le (by simpa using hp)]

theorem strokes_perm (h : ks.Perm ks') : (d.strokes ks).SameCells (d.strokes ks') := by
  apply strokes_sameCells
  intro p x y
  rw [h.countP_eq]

theorem strokes_cancel (k : Stroke) (before between after : List Stroke) :
    (d.strokes (before ++ between ++ after)).SameCells
      (d.strokes (before ++ k :: between ++ k :: after)) := by
  apply strokes_sameCells
  intro p x y
  simp only [List.countP_append, List.countP_cons, Nat.bodd_add]
  cases k.flips p x y <;> simp

theorem draw_draw (d : Display) (s : Sprite) (left top : Nat) :
    ((d.draw s left top).1.draw s left top).1 = d := by
  have hcells : d.SameCells ((d.draw s left top).1.draw s left top).1 :=
    strokes_cancel (d := d) ⟨d.mask, s, left, top⟩ [] [] []
  -- Drawing keeps the mask, which is all that displays with the same cells can differ in.
  exact hcells

/-- The cells after some draws, each under a mask of its own, do not depend on the order of the
draws; two equal draws cancel, wherever they stand; and to draw a sprite twice restores the
display. -/
theorem draws_commute_and_cancel (d : Display) :
    (∀ ks ks' : List Stroke, ks.Perm ks' → (d.strokes ks).SameCells (d.strokes ks')) ∧
    (∀ k before between after,
      (d.strokes (before ++ between ++ after)).SameCells
        (d.strokes (before ++ k :: between ++ k :: after))) ∧
    ∀ s left top, ((d.draw s left top).1.draw s left top).1 = d := by
  refine ⟨?_, ?_, draw_draw d⟩
  · intro ks ks' h
    exact strokes_perm h
  · intro k before between after
    exact strokes_cancel k before between after

def block (mask : UInt8) (left : Nat) : Stroke where
  mask := mask
  sprite := ⟨⟨#[0xFF, 0xFF], by decide⟩, 0, 8, 4⟩
  left := left
  top := 30

theorem draws_commute_on_blocks :
    (block 1 0).flips 0 5 31 = true ∧ (block 3 4).flips 0 5 31 = true ∧
      [block 1 0, block 3 4].Perm [block 3 4, block 1 0] ∧
      ((blank 2).strokes [block 1 0, block 3 4]).SameCells
        ((blank 2).strokes [block 3 4, block 1 0]) := by
  have hswap : [block 1 0, block 3 4].Perm [block 3 4, block 1 0] := .swap _ _ []
  exact ⟨by decide, by decide, hswap, (draws_commute_and_cancel (blank 2)).1 _ _ hswap⟩

end Display

end Chip8
