import Mathlib.Tactic.SplitIfs
import Chip8.Proofs.Display.Repaints

/-! # Scrolls

Rows and columns are lines of cells, and a scroll is a sequence of copies of one line to another.
Since it begins with the lines at the edge that it moves towards, every line is copied as it was
before the scroll.
-/

namespace Chip8

/-- The lines of a bitmap in one direction: cell `j` of line `i` has the coordinates `x i j` and
`y i j`. -/
structure Lines (r : Resolution) where
  count : Nat
  length : Nat
  x : Nat → Nat → Nat
  y : Nat → Nat → Nat
  x_lt : ∀ i < count, ∀ j < length, x i j < r.width
  y_lt : ∀ i < count, ∀ j < length, y i j < r.height
  injective : ∀ {i j i' j'}, x i j = x i' j' → y i j = y i' j' → i = i' ∧ j = j'

namespace Lines

def rows (r : Resolution) : Lines r where
  count := r.height
  length := r.width
  x _ j := j
  y i _ := i
  x_lt _ _ _ hj := hj
  y_lt _ hi _ _ := hi
  injective hx hy := ⟨hy, hx⟩

def columns (r : Resolution) : Lines r where
  count := r.width
  length := r.height
  x i _ := i
  y _ j := j
  x_lt _ hi _ _ := hi
  y_lt _ _ _ hj := hj
  injective hx hy := ⟨hx, hy⟩

variable {r : Resolution} (L : Lines r) {b : Bitmap r} {s t i j k n : Nat}

def read (b : Bitmap r) (i j : Nat) : Bool := b.lit (L.x i j) (L.y i j)

def write (b : Bitmap r) (i j : Nat) (lit : Bool) : Bitmap r := b.set (L.x i j) (L.y i j) lit

def copy (b : Bitmap r) (s t : Nat) : Bitmap r :=
  L.length.fold (fun j _ b => L.write b t j (L.read b s j)) b

def clear (b : Bitmap r) (i : Nat) : Bitmap r :=
  L.length.fold (fun j _ b => L.write b i j false) b

theorem read_write (ht : t < L.count) (hk : k < L.length) (hi : i < L.count) (hj : j < L.length)
    (v : Bool) : L.read (L.write b t k v) i j = if i = t ∧ j = k then v else L.read b i j := by
  have hcell : L.x i j = L.x t k ∧ L.y i j = L.y t k ↔ i = t ∧ j = k := by
    constructor
    · rintro ⟨hx, hy⟩
      exact L.injective hx hy
    · rintro ⟨rfl, rfl⟩
      exact ⟨rfl, rfl⟩
  unfold read write
  rw [Bitmap.lit_set (L.x_lt t ht k hk) (L.y_lt t ht k hk) (L.x_lt i hi j hj)]
  simp only [hcell]

/-- Writes a line cell by cell. What is written may be read off the cells that are there, since
each cell is written once. -/
theorem read_fold_write {v : Bitmap r → Nat → Bool} {g : Nat → Bool} (ht : t < L.count)
    (hv : ∀ c, ∀ j < L.length, (∀ i < L.count, L.read c i j = L.read b i j) → v c j = g j)
    (hi : i < L.count) (hj : j < L.length) :
    L.read (L.length.fold (fun j _ c => L.write c t j (v c j)) b) i j =
      if i = t then g j else L.read b i j := by
  have hcells : ∀ n ≤ L.length, ∀ i < L.count, ∀ j < L.length,
      L.read (n.fold (fun j _ c => L.write c t j (v c j)) b) i j =
        if i = t ∧ j < n then g j else L.read b i j := by
    intro n
    induction n with
    | zero => simp
    | succ n ih =>
      intro hn i hi j hj
      have ih := ih (Nat.le_of_succ_le hn)
      have hvalue := hv _ n hn fun i hi => by
        simpa only [Nat.lt_irrefl, and_false, if_false] using ih i hi n hn
      rw [Nat.fold_succ, L.read_write ht hn hi hj, hvalue, ih i hi j hj]
      by_cases hj' : j = n
      · subst hj'
        simp
      · have hearlier : j < n + 1 ↔ j < n := by omega
        simp only [hj', hearlier, and_false, if_false]
  rw [hcells L.length (Nat.le_refl _) i hi j hj]
  simp [hj]

theorem read_copy (hs : s < L.count) (ht : t < L.count) (hi : i < L.count) (hj : j < L.length) :
    L.read (L.copy b s t) i j = if i = t then L.read b s j else L.read b i j :=
  L.read_fold_write ht (fun _ _ _ hc => hc s hs) hi hj

theorem read_clear (ht : t < L.count) (hi : i < L.count) (hj : j < L.length) :
    L.read (L.clear b t) i j = if i = t then false else L.read b i j :=
  L.read_fold_write ht (fun _ _ _ _ => rfl) hi hj

/-! ## Lines moved one after the other -/

/-- Moves the first `k` lines on by `n`, the last of them first: no line is overwritten before it
has been moved. -/
def moveOn (b : Bitmap r) (n k : Nat) : Bitmap r :=
  k.foldRev (fun i _ b => L.copy b i (i + n)) b

def moveBack (b : Bitmap r) (n k : Nat) : Bitmap r :=
  k.fold (fun i _ b => L.copy b (i + n) i) b

theorem read_moveOn (hk : k + n ≤ L.count) (hi : i < L.count) (hj : j < L.length) :
    L.read (L.moveOn b n k) i j =
      if n ≤ i ∧ i < k + n then L.read b (i - n) j else L.read b i j := by
  unfold moveOn
  induction k generalizing b with
  | zero => simp
  | succ k ih =>
    -- The line moved first is not among the sources of the others.
    have hfirst {i : Nat} (hi : i < L.count) : L.read (L.copy b k (k + n)) i j =
        if i = k + n then L.read b k j else L.read b i j :=
      L.read_copy (by omega) (by omega) hi hj
    rw [Nat.foldRev_succ, ih (by omega), hfirst hi]
    by_cases hlast : i = k + n
    · subst hlast
      simp
    · by_cases hmoved : n ≤ i ∧ i < k + n
      · rw [if_pos hmoved, hfirst (by omega), if_neg (by omega), if_pos (by omega)]
      · rw [if_neg hmoved, if_neg hlast, if_neg (by omega)]

theorem read_moveBack (hk : k + n ≤ L.count) (hi : i < L.count) (hj : j < L.length) :
    L.read (L.moveBack b n k) i j = if i < k then L.read b (i + n) j else L.read b i j := by
  unfold moveBack
  induction k generalizing i with
  | zero => simp
  | succ k ih =>
    have hcopy := L.read_copy (b := k.fold (fun i _ b => L.copy b (i + n) i) b) (s := k + n)
      (t := k) (by omega) (by omega) hi hj
    have hsource := ih (i := k + n) (by omega) (by omega)
    rw [Nat.fold_succ, hcopy, hsource, ih (by omega) hi]
    by_cases hik : i = k
    · subst hik
      simp
    · have hearlier : i < k + 1 ↔ i < k := by omega
      simp only [hik, hearlier, if_false]

def clearAll (b : Bitmap r) (line : Nat → Nat) (k : Nat) : Bitmap r :=
  k.fold (fun i _ b => L.clear b (line i)) b

theorem read_clearAll {line : Nat → Nat} (hline : ∀ m < k, line m < L.count) (hi : i < L.count)
    (hj : j < L.length) :
    L.read (L.clearAll b line k) i j = if ∃ m < k, line m = i then false else L.read b i j := by
  unfold clearAll
  induction k with
  | zero => simp
  | succ k ih =>
    have hclear := L.read_clear (b := k.fold (fun i _ b => L.clear b (line i)) b)
      (hline k (Nat.lt_succ_self k)) hi hj
    rw [Nat.fold_succ, hclear, ih fun m hm => hline m (Nat.lt_succ_of_lt hm)]
    by_cases hik : i = line k
    · have hex : ∃ m < k + 1, line m = i := ⟨k, Nat.lt_succ_self k, hik.symm⟩
      rw [if_pos hik, if_pos hex]
    · have hex : (∃ m < k + 1, line m = i) ↔ ∃ m < k, line m = i := by
        constructor
        · rintro ⟨m, hm, rfl⟩
          have hne : m ≠ k := by
            rintro rfl
            exact hik rfl
          exact ⟨m, by omega, rfl⟩
        · rintro ⟨m, hm, rfl⟩
          exact ⟨m, by omega, rfl⟩
      simp only [if_neg hik, hex]

/-- Moves all lines on by `n` and clears those that are left behind. -/
def shiftOn (b : Bitmap r) (n : Nat) : Bitmap r :=
  L.clearAll (L.moveOn b n (L.count - n)) (fun m => m) n

def shiftBack (b : Bitmap r) (n : Nat) : Bitmap r :=
  L.clearAll (L.moveBack b n (L.count - n)) (fun m => L.count - m - 1) n

theorem read_shiftOn (hn : n ≤ L.count) (hi : i < L.count) (hj : j < L.length) :
    L.read (L.shiftOn b n) i j = if i < n then false else L.read b (i - n) j := by
  have hcleared : (∃ m < n, m = i) ↔ i < n := by simp
  unfold shiftOn
  rw [L.read_clearAll (fun m hm => Nat.lt_of_lt_of_le hm hn) hi hj,
    L.read_moveOn (by omega) hi hj]
  simp only [hcleared]
  by_cases hin : i < n
  · simp [hin]
  · rw [if_neg hin, if_neg hin, if_pos (by omega)]

theorem read_shiftBack (hn : n ≤ L.count) (hi : i < L.count) (hj : j < L.length) :
    L.read (L.shiftBack b n) i j = if i + n < L.count then L.read b (i + n) j else false := by
  have hcleared : (∃ m < n, L.count - m - 1 = i) ↔ ¬ i + n < L.count := by
    constructor
    · rintro ⟨m, hm, rfl⟩
      omega
    · intro h
      exact ⟨L.count - 1 - i, by omega, by omega⟩
  unfold shiftBack
  rw [L.read_clearAll (fun m hm => by omega) hi hj, L.read_moveBack (by omega) hi hj]
  simp only [hcleared]
  by_cases hin : i + n < L.count
  · rw [if_neg (not_not.mpr hin), if_pos hin, if_pos (by omega)]
  · rw [if_pos hin, if_neg hin]

end Lines

namespace Bitmap

open Lines

variable {r : Resolution} {b : Bitmap r} {x y : Nat}

theorem lit_scrollDown (n : Nat) (hx : x < r.width) (hy : y < r.height) :
    (b.scrollDown n).lit x y = if y < min n r.height then false else b.lit x (y - n) := by
  have hshift : (b.scrollDown n).lit x y =
      if y < min n r.height then false else b.lit x (y - min n r.height) :=
    (rows r).read_shiftOn (Nat.min_le_right n r.height) hy hx
  rw [hshift]
  by_cases hn : y < min n r.height
  · rw [if_pos hn, if_pos hn]
  · have hsame : min n r.height = n := by omega
    rw [hsame]

theorem lit_scrollUp (n : Nat) (hx : x < r.width) (hy : y < r.height) :
    (b.scrollUp n).lit x y = if y + n < r.height then b.lit x (y + n) else false := by
  have hshift : (b.scrollUp n).lit x y =
      if y + min n r.height < r.height then b.lit x (y + min n r.height) else false :=
    (rows r).read_shiftBack (Nat.min_le_right n r.height) hy hx
  rw [hshift]
  by_cases hn : y + n < r.height
  · have hsame : min n r.height = n := by omega
    rw [hsame]
  · rw [if_neg hn, if_neg (by omega)]

theorem lit_scrollRight (hx : x < r.width) (hy : y < r.height) :
    b.scrollRight.lit x y = if x < 4 then false else b.lit (x - 4) y :=
  (columns r).read_shiftOn r.scrollWidth_le hx hy

theorem lit_scrollLeft (hx : x < r.width) (hy : y < r.height) :
    b.scrollLeft.lit x y = if x + 4 < r.width then b.lit (x + 4) y else false :=
  (columns r).read_shiftBack r.scrollWidth_le hx hy

end Bitmap

namespace Display

variable {d : Display}

theorem repaints_onSelected {f : Bitmap d.resolution → Bitmap d.resolution}
    (cell : (Nat → Nat → Bool) → Nat → Nat → Bool)
    (h : ∀ b, ∀ x < d.width, ∀ y < d.height, (f b).lit x y = cell b.lit x y) :
    d.Repaints (fun p => cell (d.lit p)) (d.onSelected f) := by
  refine repaints_repaint (f := fun _ => f) fun p b hb x hx y hy => ?_
  have hlit : d.lit p = b.lit := by
    ext x y
    exact lit_of_getElem? hb
  rw [hlit]
  exact h b x hx y hy

/-- What the four scrolls make of a display of any resolution: each cell of the selected planes
takes over the cell that lies against the direction of the scroll, and is unlit if there is none. -/
theorem scrolls_closed_form (d : Display) :
    (∀ n, d.Repaints (fun p x y => if y < min n d.height then false else d.lit p x (y - n))
      (d.scrollDown n)) ∧
    (∀ n, d.Repaints (fun p x y => if y + n < d.height then d.lit p x (y + n) else false)
      (d.scrollUp n)) ∧
    d.Repaints (fun p x y => if x < 4 then false else d.lit p (x - 4) y) d.scrollRight ∧
    d.Repaints (fun p x y => if x + 4 < d.width then d.lit p (x + 4) y else false)
      d.scrollLeft := by
  refine ⟨fun n => ?_, fun n => ?_, ?_, ?_⟩
  · apply repaints_onSelected fun lit x y => if y < min n d.height then false else lit x (y - n)
    intro b x hx y hy
    exact Bitmap.lit_scrollDown n hx hy
  · apply repaints_onSelected fun lit x y => if y + n < d.height then lit x (y + n) else false
    intro b x hx y hy
    exact Bitmap.lit_scrollUp n hx hy
  · apply repaints_onSelected fun lit x y => if x < 4 then false else lit (x - 4) y
    intro b x hx y hy
    exact Bitmap.lit_scrollRight hx hy
  · apply repaints_onSelected fun lit x y => if x + 4 < d.width then lit (x + 4) y else false
    intro b x hx y hy
    exact Bitmap.lit_scrollLeft hx hy

end Display

end Chip8
