import Chip8.Proofs.Display.Cells

/-! # New pictures

What an operation makes of a display, cell by cell. Drawing and scrolling give the selected planes
new contents and leave everything else about the display alone.
-/

namespace Chip8.Display

variable {d : Display} {cell : Nat → Nat → Nat → Bool} {p x y : Nat}

/-- `e` is `d` with new contents of the selected planes: there `cell p x y` says whether plane `p`
is lit at `(x, y)`. -/
structure Repaints (d : Display) (cell : Nat → Nat → Nat → Bool) (e : Display) : Prop where
  resolution : e.resolution = d.resolution
  mask : e.mask = d.mask
  size : e.planes.size = d.planes.size
  selected : ∀ p < d.planes.size, d.selects p = true →
    ∀ x < d.width, ∀ y < d.height, e.lit p x y = cell p x y
  unselected : ∀ p, d.selects p = false → ∀ x y, e.lit p x y = d.lit p x y

def repaint (d : Display) (f : Nat → Bitmap d.resolution → Bitmap d.resolution) : Display :=
  { d with planes := d.planes.mapIdx fun p b => if d.selects p then f p b else b }

theorem getElem?_repaint (f : Nat → Bitmap d.resolution → Bitmap d.resolution) (p : Nat) :
    (d.repaint f).planes[p]? = d.planes[p]?.map fun b => if d.selects p then f p b else b :=
  Array.getElem?_mapIdx

theorem lit_repaint_of_not_selects (f : Nat → Bitmap d.resolution → Bitmap d.resolution)
    (h : d.selects p = false) : (d.repaint f).lit p x y = d.lit p x y := by
  have hplane := getElem?_repaint f p
  simp only [h, Bool.false_eq_true, if_false, Option.map_id'] at hplane
  cases hb : d.planes[p]? with
  | none =>
    rw [hb] at hplane
    rw [lit_of_size_le (Array.getElem?_eq_none_iff.mp hb),
      lit_of_size_le (Array.getElem?_eq_none_iff.mp hplane)]
  | some b =>
    rw [hb] at hplane
    rw [lit_of_getElem? hb]
    exact lit_of_getElem? hplane

theorem lit_repaint_of_selects (f : Nat → Bitmap d.resolution → Bitmap d.resolution)
    {b : Bitmap d.resolution} (h : d.selects p = true) (hb : d.planes[p]? = some b) :
    (d.repaint f).lit p x y = (f p b).lit x y := by
  have hplane := getElem?_repaint f p
  rw [hb, Option.map_some, if_pos h] at hplane
  exact lit_of_getElem? hplane

theorem repaints_repaint {f : Nat → Bitmap d.resolution → Bitmap d.resolution}
    (h : ∀ p b, d.planes[p]? = some b →
      ∀ x < d.width, ∀ y < d.height, (f p b).lit x y = cell p x y) :
    d.Repaints cell (d.repaint f) where
  resolution := rfl
  mask := rfl
  size := Array.size_mapIdx
  selected := by
    intro p hp hsel x hx y hy
    have hb : d.planes[p]? = some d.planes[p] := Array.getElem?_eq_getElem hp
    rw [lit_repaint_of_selects f hsel hb]
    exact h p _ hb x hx y hy
  unselected := fun p hsel x y => lit_repaint_of_not_selects f hsel

end Chip8.Display
