import Mathlib.Algebra.GroupWithZero.Nat
import Chip8.Display.Basic

/-! # The planes of a display

No operation adds or removes planes, and only switching the resolution changes their size. Changes
to the selected planes can be made one after the other or all at once.
-/

namespace Chip8

theorem Bitmap.resize_blank {r : Resolution} (s : Resolution) :
    (Bitmap.blank r).resize s = .blank s := by
  ext i hi
  simp only [resize, blank, Vector.getElem_ofFn, Vector.getElem_replicate,
    Vector.getElem?_replicate]
  split <;> rfl

theorem Sprite.skip_skip (s : Sprite) (j k : Nat) : (s.skip j).skip k = s.skip (j + k) := by
  simp only [skip, stride, Nat.add_mul, Nat.add_assoc]

namespace Display

variable {d : Display}

@[simp] theorem size_planes_blank (planes : Nat) : (blank planes).planes.size = planes := by
  simp [blank]

@[simp] theorem size_planes_initialise : d.initialise.planes.size = d.planes.size := by
  simp [initialise]

@[simp] theorem size_planes_onSelected (f : Bitmap d.resolution → Bitmap d.resolution) :
    (d.onSelected f).planes.size = d.planes.size := by
  simp [onSelected]

@[simp] theorem size_planes_setResolution (r : Resolution) :
    (d.setResolution r).planes.size = d.planes.size := by
  simp [setResolution]

theorem onSelected_id : (d.onSelected fun b => b) = d := by
  obtain ⟨r, mask, planes⟩ := d
  simp [onSelected, Array.mapIdx_eq_iff]

theorem onSelected_onSelected (f g : Bitmap d.resolution → Bitmap d.resolution) :
    (d.onSelected f).onSelected g = d.onSelected fun b => g (f b) := by
  simp only [onSelected, Array.mapIdx_mapIdx, mk.injEq, heq_eq_eq, true_and]
  congr 1
  funext p b
  by_cases h : d.mask.toNat.testBit p <;> simp [selects, h]

/-! ## Drawing plane by plane -/

section Draw

variable (d : Display) (s : Sprite) (left top : Nat)

/-- How many planes below `p` are selected. -/
def rank (p : Nat) : Nat := ((List.range p).filter d.selects).length

theorem rank_succ (p : Nat) : d.rank (p + 1) = d.rank p + (d.selects p).toNat := by
  simp only [rank, List.range_succ, List.filter_append, List.filter_cons, List.filter_nil]
  cases d.selects p <;> simp

def hitsBelow (p : Nat) : Nat :=
  ((d.planes.toList.take p).mapIdx fun q b =>
    if d.selects q then (b.draw (s.skip (d.rank q)) left top).2 else 0).sum

theorem hitsBelow_succ {p : Nat} (hp : p < d.planes.size) :
    d.hitsBelow s left top (p + 1) = d.hitsBelow s left top p +
      if d.selects p then (d.planes[p].draw (s.skip (d.rank p)) left top).2 else 0 := by
  have hlen : min p d.planes.size = p := by omega
  simp [hitsBelow, List.take_succ_eq_append_getElem, hp, List.mapIdx_append, hlen]

/-- The loop once it has come to plane `n`. -/
theorem foldl_drawPlane {n : Nat} (hn : n ≤ d.planes.size) :
    ((List.range n).filter d.selects).foldl (drawPlane left top) (d.planes, s, 0) =
      (d.planes.mapIdx fun p b =>
        if p < n ∧ d.selects p then (b.draw (s.skip (d.rank p)) left top).1 else b,
        s.skip (d.rank n), d.hitsBelow s left top n) := by
  induction n with
  | zero =>
    have hsame : (d.planes.mapIdx fun _ b => b) = d.planes := Array.ext (by simp) (by simp)
    simp [rank, hitsBelow, Sprite.skip, hsame]
  | succ n ih =>
    have hlt : n < d.planes.size := hn
    rw [List.range_succ, List.filter_append, List.foldl_append, ih (Nat.le_of_lt hlt), rank_succ,
      hitsBelow_succ d s left top hlt]
    cases hsel : d.selects n with
    | false =>
      have hsame (p : Nat) : (p < n + 1 ∧ d.selects p = true) ↔ p < n ∧ d.selects p = true := by
        refine and_congr_left fun hp => ⟨fun h => ?_, Nat.lt_succ_of_lt⟩
        refine Nat.lt_of_le_of_ne (Nat.le_of_lt_succ h) ?_
        rintro rfl
        rw [hsel] at hp
        cases hp
      simp only [hsame]
      simp [hsel]
    | true =>
      have hplane : (d.planes.mapIdx fun p b =>
          if p < n ∧ d.selects p then (b.draw (s.skip (d.rank p)) left top).1 else b)[n]? =
            some d.planes[n] := by
        simp [hlt]
      simp only [hsel, List.filter_cons, List.filter_nil, if_true, List.foldl_cons, List.foldl_nil,
        drawPlane, hplane, Sprite.skip_skip, Bool.toNat_true, Prod.mk.injEq, and_true]
      refine Array.ext (by simp) fun p hp hp' => ?_
      have hp : p < d.planes.size := by simpa using hp
      rw [Array.getElem_setIfInBounds (by simpa using hp)]
      simp only [Array.getElem_mapIdx]
      by_cases hlast : n = p
      · subst hlast
        rw [if_pos rfl, if_pos ⟨Nat.lt_succ_self n, hsel⟩]
      · have hbelow : p < n + 1 ↔ p < n := by omega
        rw [if_neg hlast]
        simp only [hbelow]

theorem hitsBelow_size :
    d.hitsBelow s left top d.planes.size = (d.planes.mapIdx fun p b =>
      if d.selects p then (b.draw (s.skip (d.rank p)) left top).2 else 0).sum := by
  have hall : d.planes.toList.take d.planes.size = d.planes.toList :=
    List.take_of_length_le (by simp)
  simp [hitsBelow, hall, ← Array.sum_toList]

/-- The sprite for a plane stands behind those for the selected planes below it. -/
theorem draw_eq :
    d.draw s left top =
      ({ d with planes := d.planes.mapIdx fun p b =>
          if d.selects p then (b.draw (s.skip (d.rank p)) left top).1 else b },
        (d.planes.mapIdx fun p b =>
          if d.selects p then (b.draw (s.skip (d.rank p)) left top).2 else 0).sum) := by
  have hplanes : (d.planes.mapIdx fun p b =>
      if p < d.planes.size ∧ d.selects p then (b.draw (s.skip (d.rank p)) left top).1 else b) =
        d.planes.mapIdx fun p b =>
          if d.selects p then (b.draw (s.skip (d.rank p)) left top).1 else b := by
    refine Array.ext (by simp) fun p hp hp' => ?_
    have hlt : p < d.planes.size := by simpa using hp
    simp [hlt]
  unfold draw selected
  rw [foldl_drawPlane d s left top (Nat.le_refl _), hplanes, hitsBelow_size]

end Draw

@[simp] theorem size_planes_draw (s : Sprite) (left top : Nat) :
    (d.draw s left top).1.planes.size = d.planes.size := by
  rw [draw_eq, Array.size_mapIdx]

/-! ## One plane in use -/

/-- A display that shows `b` in its first plane, the only one selected, before `rest` blank
planes. -/
def single {r : Resolution} (b : Bitmap r) (rest : Nat) : Display where
  resolution := r
  mask := 1
  planes := #[b] ++ Array.replicate rest (Bitmap.blank r)

variable {r : Resolution} {b : Bitmap r} {rest : Nat}

theorem blank_succ : blank (rest + 1) = single (Bitmap.blank .low) rest := by
  simp [blank, single, Array.replicate_succ']

@[simp] theorem selects_single (p : Nat) : (single b rest).selects p = decide (0 = p) :=
  Nat.testBit_two_pow (n := 0)

theorem mapIdx_append_replicate {α β : Type} {f : Nat → α → β} {x y : α} {z : β}
    (h : ∀ p, f (p + 1) y = z) :
    (#[x] ++ Array.replicate rest y).mapIdx f = #[f 0 x] ++ Array.replicate rest z := by
  have hrest : (Array.replicate rest y).mapIdx (fun p => f (p + 1)) = Array.replicate rest z := by
    refine Array.ext (by simp) fun p _ _ => ?_
    simp [h]
  simp [Array.mapIdx_append, hrest]

theorem onSelected_single (f : Bitmap r → Bitmap r) :
    (single b rest).onSelected f = single (f b) rest := by
  have hplanes : (#[b] ++ Array.replicate rest (Bitmap.blank r)).mapIdx
      (fun p b' => if (single b rest).selects p then f b' else b') = _ :=
    mapIdx_append_replicate (z := .blank r) fun p => by simp
  exact congrArg (Display.mk r 1) (hplanes.trans (by simp))

theorem clear_single : (single b rest).clear = single (.blank r) rest := onSelected_single _

theorem scrollDown_single (n : Nat) :
    (single b rest).scrollDown n = single (b.scrollDown n) rest :=
  onSelected_single (Bitmap.scrollDown · n)

theorem scrollRight_single : (single b rest).scrollRight = single b.scrollRight rest :=
  onSelected_single Bitmap.scrollRight

theorem scrollLeft_single : (single b rest).scrollLeft = single b.scrollLeft rest :=
  onSelected_single Bitmap.scrollLeft

theorem setResolution_single (s : Resolution) :
    (single b rest).setResolution s = single (b.resize s) rest := by
  simp [setResolution, single, Bitmap.resize_blank]

theorem draw_single (s : Sprite) (left top : Nat) :
    (single b rest).draw s left top =
      (single (b.draw s left top).1 rest, (b.draw s left top).2) := by
  have hskip : s.skip ((single b rest).rank 0) = s := by simp [rank, Sprite.skip]
  have hplanes : (#[b] ++ Array.replicate rest (Bitmap.blank r)).mapIdx (fun p b' =>
      if (single b rest).selects p then
        (b'.draw (s.skip ((single b rest).rank p)) left top).1 else b') = _ :=
    mapIdx_append_replicate (z := .blank r) fun p => by simp
  have hhits : (#[b] ++ Array.replicate rest (Bitmap.blank r)).mapIdx (fun p b' =>
      if (single b rest).selects p then
        (b'.draw (s.skip ((single b rest).rank p)) left top).2 else 0) = _ :=
    mapIdx_append_replicate (z := 0) fun p => by simp
  rw [draw_eq]
  refine Prod.ext (congrArg (Display.mk r 1) (hplanes.trans ?_))
    ((congrArg Array.sum hhits).trans ?_)
  · simp [hskip]
  · simp [hskip]

end Display

end Chip8
