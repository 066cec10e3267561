import Chip8.Proofs.Display.Scrolls

/-! # The algebra of scrolls

A scroll gives every line of a picture the contents of another line, or none. What several scrolls
come to is found by following the lines back from one to the other: amounts add up, a scroll is
undone by its opposite up to the lines that it pushes over the edge, and rows and columns do not
get into each other's way.
-/

namespace Chip8

namespace Lines

variable {r : Resolution} {L : Lines r} {f g : Bitmap r → Bitmap r} {s t : Nat → Option Nat}
  {b : Bitmap r} {i j n : Nat}

/-- `f` moves whole lines: line `i` takes over what line `source i` holds, and is blank if there is
no such line. -/
structure Moves (L : Lines r) (f : Bitmap r → Bitmap r) (source : Nat → Option Nat) : Prop where
  lt : ∀ i < L.count, ∀ k ∈ source i, k < L.count
  read : ∀ b, ∀ i < L.count, ∀ j < L.length,
    L.read (f b) i j = (source i).any fun k => L.read b k j

theorem Moves.comp (hf : L.Moves f s) (hg : L.Moves g t) :
    L.Moves (fun b => g (f b)) fun i => (t i).bind s where
  lt := by
    intro i hi k hk
    obtain ⟨k', hk', hk⟩ := Option.bind_eq_some_iff.mp hk
    exact hf.lt k' (hg.lt i hi k' hk') k hk
  read := by
    intro b i hi j hj
    rw [hg.read _ i hi j hj]
    cases hk : t i with
    | none => rfl
    | some k => exact hf.read b k (hg.lt i hi k hk) j hj

theorem Moves.congr (hf : L.Moves f s) (h : ∀ i < L.count, s i = t i) : L.Moves f t where
  lt := fun i hi => h i hi ▸ hf.lt i hi
  read := fun b i hi => h i hi ▸ hf.read b i hi

theorem Moves.rows_eq (hf : (rows r).Moves f s) (hg : (rows r).Moves g s) : f b = g b := by
  refine Bitmap.ext_lit fun x hx y hy => ?_
  exact (hf.read b y hy x hx).trans (hg.read b y hy x hx).symm

theorem Moves.comm (hf : (rows r).Moves f s) (hg : (columns r).Moves g t) : g (f b) = f (g b) := by
  refine Bitmap.ext_lit fun x hx y hy => ?_
  have hcolumn : (g (f b)).lit x y = (t x).any fun i => (s y).any fun k => b.lit i k := by
    refine (hg.read (f b) x hx y hy).trans ?_
    cases hx' : t x with
    | none => rfl
    | some i => exact hf.read b y hy i (hg.lt x hx i hx')
  have hrow : (f (g b)).lit x y = (s y).any fun k => (t x).any fun i => b.lit i k := by
    refine (hf.read (g b) y hy x hx).trans ?_
    cases hy' : s y with
    | none => rfl
    | some k => exact hg.read b x hx k (hf.lt y hy k hy')
  rw [hcolumn, hrow]
  cases t x <;> cases s y <;> rfl

/-! ## Where the lines of a scroll come from -/

/-- Lines that move on by `n` come from `n` lines before. -/
def before (n i : Nat) : Option Nat := if n ≤ i then some (i - n) else none

/-- Lines that move back by `n` come from `n` lines behind, as far as there are any. -/
def behind (count n i : Nat) : Option Nat := if i + n < count then some (i + n) else none

theorem before_bind_before (a b i : Nat) : (before b i).bind (before a) = before (a + b) i := by
  unfold before
  by_cases hb : b ≤ i
  · rw [if_pos hb, Option.bind_some, Nat.sub_sub, Nat.add_comm b a]
    exact if_congr (by omega) rfl rfl
  · rw [if_neg hb, if_neg (by omega)]
    rfl

theorem behind_bind_behind (count a b i : Nat) :
    (behind count b i).bind (behind count a) = behind count (a + b) i := by
  unfold behind
  by_cases hb : i + b < count
  · rw [if_pos hb, Option.bind_some, Nat.add_assoc, Nat.add_comm b a]
  · rw [if_neg hb, if_neg (by omega)]
    rfl

theorem moves_shiftOn (hn : n ≤ L.count) : L.Moves (fun b => L.shiftOn b n) (before n) where
  lt := by
    intro i hi k hk
    obtain ⟨_, hk⟩ := Option.ite_none_right_eq_some.mp hk
    rw [← Option.some.inj hk]
    exact Nat.lt_of_le_of_lt (Nat.sub_le i n) hi
  read := by
    intro b i hi j hj
    rw [L.read_shiftOn hn hi hj]
    unfold before
    by_cases hin : n ≤ i
    · rw [if_pos hin, if_neg (Nat.not_lt.mpr hin), Option.any_some]
    · rw [if_neg hin, if_pos (Nat.not_le.mp hin), Option.any_none]

theorem moves_shiftBack (hn : n ≤ L.count) :
    L.Moves (fun b => L.shiftBack b n) (behind L.count n) where
  lt := by
    intro i _ k hk
    obtain ⟨hin, hk⟩ := Option.ite_none_right_eq_some.mp hk
    rwa [← Option.some.inj hk]
  read := by
    intro b i hi j hj
    rw [L.read_shiftBack hn hi hj]
    unfold behind
    by_cases hin : i + n < L.count
    · rw [if_pos hin, if_pos hin, Option.any_some]
    · rw [if_neg hin, if_neg hin, Option.any_none]

/-- Lines that have moved on and back again are where they were, but for those that have met the
far edge. -/
theorem Moves.read_back (hf : L.Moves f (before n)) (hg : L.Moves g (behind L.count n))
    (b : Bitmap r) (hi : i < L.count) (hj : j < L.length) :
    L.read (g (f b)) i j = if L.count ≤ i + n then false else L.read b i j := by
  rw [(hf.comp hg).read b i hi j hj]
  unfold behind before
  by_cases hin : i + n < L.count
  · rw [if_pos hin, if_neg (Nat.not_le.mpr hin), Option.bind_some, if_pos (Nat.le_add_left n i),
      Option.any_some, Nat.add_sub_cancel]
  · rw [if_neg hin, if_pos (Nat.not_lt.mp hin), Option.bind_none, Option.any_none]

theorem Moves.read_on (hf : L.Moves f (behind L.count n)) (hg : L.Moves g (before n))
    (b : Bitmap r) (hi : i < L.count) (hj : j < L.length) :
    L.read (g (f b)) i j = if i < n then false else L.read b i j := by
  rw [(hf.comp hg).read b i hi j hj]
  unfold behind before
  by_cases hin : n ≤ i
  · rw [if_pos hin, if_neg (Nat.not_lt.mpr hin), Option.bind_some, Nat.sub_add_cancel hin,
      if_pos hi, Option.any_some]
  · rw [if_neg hin, if_pos (Nat.not_le.mp hin), Option.bind_none, Option.any_none]

end Lines

namespace Bitmap

open Lines

variable {r : Resolution} {b : Bitmap r}

theorem moves_scrollDown (r : Resolution) (n : Nat) :
    (rows r).Moves (fun b => b.scrollDown n) (before n) := by
  refine (moves_shiftOn (Nat.min_le_right n r.height)).congr fun y (hy : y < r.height) => ?_
  unfold before
  by_cases hn : n ≤ y
  · rw [Nat.min_eq_left (by omega)]
  · rw [if_neg hn, if_neg (by omega)]

theorem moves_scrollUp (r : Resolution) (n : Nat) :
    (rows r).Moves (fun b => b.scrollUp n) (behind r.height n) := by
  refine (moves_shiftBack (Nat.min_le_right n r.height)).congr fun y (hy : y < r.height) => ?_
  change behind r.height (min n r.height) y = behind r.height n y
  unfold behind
  by_cases hn : y + n < r.height
  · rw [Nat.min_eq_left (by omega)]
  · rw [if_neg hn, if_neg (by omega)]

theorem moves_scrollRight (r : Resolution) : (columns r).Moves scrollRight (before 4) :=
  moves_shiftOn r.scrollWidth_le

theorem moves_scrollLeft (r : Resolution) : (columns r).Moves scrollLeft (behind r.width 4) :=
  moves_shiftBack r.scrollWidth_le

theorem scrollDown_scrollDown (a c : Nat) : (b.scrollDown a).scrollDown c = b.scrollDown (a + c) :=
  (((moves_scrollDown r a).comp (moves_scrollDown r c)).congr
    fun y _ => before_bind_before a c y).rows_eq (moves_scrollDown r (a + c))

theorem scrollUp_scrollUp (a c : Nat) : (b.scrollUp a).scrollUp c = b.scrollUp (a + c) :=
  (((moves_scrollUp r a).comp (moves_scrollUp r c)).congr
    fun y _ => behind_bind_behind r.height a c y).rows_eq (moves_scrollUp r (a + c))

end Bitmap

namespace Display

open Bitmap Lines

variable {d : Display}

theorem onSelected_comm {f g : Bitmap d.resolution → Bitmap d.resolution}
    (h : ∀ b, g (f b) = f (g b)) :
    (d.onSelected f).onSelected g = (d.onSelected g).onSelected f := by
  rw [onSelected_onSelected, onSelected_onSelected]
  exact congrArg d.onSelected (funext h)

theorem repaints_onSelected_onSelected {f g : Bitmap d.resolution → Bitmap d.resolution}
    (cell : (Nat → Nat → Bool) → Nat → Nat → Bool)
    (h : ∀ b, ∀ x < d.width, ∀ y < d.height, (g (f b)).lit x y = cell b.lit x y) :
    d.Repaints (fun p => cell (d.lit p)) ((d.onSelected f).onSelected g) := by
  rw [onSelected_onSelected]
  exact repaints_onSelected cell h

/-- Vertical scrolls add up, also beyond the height of the screen; opposite scrolls, of which one
undoes the other, leave blank what the first one has pushed over the edge; vertical and horizontal
scrolls commute. -/
theorem scroll_algebra (d : Display) :
    (∀ a b, (d.scrollDown a).scrollDown b = d.scrollDown (a + b) ∧
      (d.scrollUp a).scrollUp b = d.scrollUp (a + b)) ∧
    (∀ n, d.Repaints (fun p x y => if d.height - min n d.height ≤ y then false else d.lit p x y)
      ((d.scrollDown n).scrollUp n)) ∧
    (∀ n, d.Repaints (fun p x y => if y < min n d.height then false else d.lit p x y)
      ((d.scrollUp n).scrollDown n)) ∧
    d.Repaints (fun p x y => if d.width - 4 ≤ x then false else d.lit p x y)
      d.scrollRight.scrollLeft ∧
    d.Repaints (fun p x y => if x < 4 then false else d.lit p x y) d.scrollLeft.scrollRight ∧
    ∀ n, (d.scrollDown n).scrollRight = d.scrollRight.scrollDown n ∧
      (d.scrollDown n).scrollLeft = d.scrollLeft.scrollDown n ∧
      (d.scrollUp n).scrollRight = d.scrollRight.scrollUp n ∧
      (d.scrollUp n).scrollLeft = d.scrollLeft.scrollUp n := by
  refine ⟨fun a b => ⟨?_, ?_⟩, fun n => ?_, fun n => ?_, ?_, ?_, fun n => ⟨?_, ?_, ?_, ?_⟩⟩
  · exact (onSelected_onSelected _ _).trans
      (congrArg d.onSelected (funext fun _ => scrollDown_scrollDown a b))
  · exact (onSelected_onSelected _ _).trans
      (congrArg d.onSelected (funext fun _ => scrollUp_scrollUp a b))
  · apply repaints_onSelected_onSelected
      fun lit x y => if d.height - min n d.height ≤ y then false else lit x y
    intro b x hx y hy
    have hedge : d.height ≤ y + n ↔ d.height - min n d.height ≤ y := by omega
    exact ((moves_scrollDown _ n).read_back (moves_scrollUp _ n) b hy hx).trans
      (if_congr hedge rfl rfl)
  · apply repaints_onSelected_onSelected
      fun lit x y => if y < min n d.height then false else lit x y
    intro b x hx y hy
    have hedge : y < n ↔ y < min n d.height := by omega
    exact ((moves_scrollUp _ n).read_on (moves_scrollDown _ n) b hy hx).trans
      (if_congr hedge rfl rfl)
  · apply repaints_onSelected_onSelected fun lit x y => if d.width - 4 ≤ x then false else lit x y
    intro b x hx y hy
    have hedge : d.width ≤ x + 4 ↔ d.width - 4 ≤ x := Nat.sub_le_iff_le_add.symm
    exact ((moves_scrollRight _).read_back (moves_scrollLeft _) b hx hy).trans
      (if_congr hedge rfl rfl)
  · apply repaints_onSelected_onSelected fun lit x y => if x < 4 then false else lit x y
    intro b x hx y hy
    exact (moves_scrollLeft _).read_on (moves_scrollRight _) b hx hy
  · exact onSelected_comm fun _ => (moves_scrollDown _ n).comm (moves_scrollRight _)
  · exact onSelected_comm fun _ => (moves_scrollDown _ n).comm (moves_scrollLeft _)
  · exact onSelected_comm fun _ => (moves_scrollUp _ n).comm (moves_scrollRight _)
  · exact onSelected_comm fun _ => (moves_scrollUp _ n).comm (moves_scrollLeft _)

end Display

end Chip8
