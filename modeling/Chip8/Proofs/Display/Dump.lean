import Chip8.Display.Basic
import Chip8.Proofs.Display.Cells
import Chip8.Proofs.Text.Hex

/-! # Faithful dumps

If at most four planes are in use, each cell is one character of the dump, and the characters tell
everything about the display but its mask.
-/

namespace Chip8

/-- The text with the character `f x y` at column `x` of line `y`, each line ended by a newline. -/
def lines (width height : Nat) (f : Nat → Nat → Char) : List Char :=
  (List.range height).flatMap fun y => (List.range width).map (f · y) ++ ['\n']

section Lines

variable {width height x y : Nat} {f : Nat → Nat → Char}

theorem lines_succ : lines width (height + 1) f =
    lines width height f ++ ((List.range width).map (f · height) ++ ['\n']) := by
  unfold lines
  rw [List.range_succ, List.flatMap_append, List.flatMap_singleton]

theorem length_lines : (lines width height f).length = height * (width + 1) := by
  induction height with
  | zero => exact (Nat.zero_mul _).symm
  | succ height ih =>
    simp only [lines_succ, List.length_append, ih, List.length_map, List.length_range,
      List.length_singleton, Nat.succ_mul]

/-- All lines are equally long, so that the place of a character does not depend on the others. -/
theorem getElem?_lines (hx : x < width) (hy : y < height) :
    (lines width height f)[y * (width + 1) + x]? = some (f x y) := by
  induction height with
  | zero => cases hy
  | succ height ih =>
    rw [lines_succ]
    rcases Nat.lt_succ_iff_lt_or_eq.mp hy with hy | rfl
    · have hlength : y * (width + 1) + x < (lines width height f).length := by
        have hrow : (y + 1) * (width + 1) ≤ height * (width + 1) := Nat.mul_le_mul_right _ hy
        rw [length_lines]
        rw [Nat.succ_mul] at hrow
        omega
      rw [List.getElem?_append_left hlength]
      exact ih hy
    · rw [List.getElem?_append_right (length_lines.trans_le (Nat.le_add_right _ _)), length_lines,
        Nat.add_sub_cancel_left, List.getElem?_append_left (by simpa using hx)]
      simp [hx]

theorem lines_injective {g : Nat → Nat → Char} (h : lines width height f = lines width height g)
    (hx : x < width) (hy : y < height) : f x y = g x y := by
  have hf := getElem?_lines (f := f) hx hy
  rw [h, getElem?_lines hx hy] at hf
  exact (Option.some.inj hf).symm

end Lines

theorem Resolution.eq_of_length {r s : Resolution}
    (h : r.height * (r.width + 1) = s.height * (s.width + 1)) : r = s := by
  revert h
  cases r <;> cases s <;> decide

namespace Display

/-- A character shows the cell `(x, y)`: a dot if no plane is lit there, a hash sign if the only
plane is, and otherwise the hexadecimal digit with the first four planes for its bits. -/
structure Depicts (d : Display) (x y : Nat) (c : Char) : Prop where
  dot : c = '.' ↔ ∀ p, d.lit p x y = false
  hash : d.planes.size = 1 → (∃ p, d.lit p x y = true) → c = '#'
  digit : d.planes.size ≠ 1 → (∃ p, d.lit p x y = true) →
    ∃ n : Nat, Hex.digits[n]? = some c ∧ ∀ p < 4, n.testBit p = d.lit p x y

variable {d e : Display} {x y : Nat} {c : Char}

theorem colours_eq_two_iff : d.colours = 2 ↔ d.planes.size = 1 := by
  unfold colours
  rw [Nat.one_shiftLeft]
  exact (Nat.pow_right_injective (Nat.le_refl 2)).eq_iff (b := 1)

/-- Four planes have no colour beyond the sixteen that a digit can name. -/
theorem exists_depicts (h : d.BlankFrom 4) (x y : Nat) :
    ∃ c, (d.cellText x y).toList = [c] ∧ d.Depicts x y c := by
  unfold cellText
  split
  case h_1 hdark =>
    have hdark := colour_eq_zero_iff.mp hdark
    have hlit : ¬ ∃ p, d.lit p x y = true := by simp [hdark]
    exact ⟨'.', rfl, iff_of_true rfl hdark, fun _ h => absurd h hlit, fun _ h => absurd h hlit⟩
  case h_2 hlit =>
    have hlit : ¬ ∀ p, d.lit p x y = false := mt colour_eq_zero_iff.mpr hlit
    split
    case isTrue hone =>
      rw [colours_eq_two_iff] at hone
      exact ⟨'#', rfl, iff_of_false (by decide) hlit, fun _ _ => rfl, fun h => absurd hone h⟩
    case isFalse hmore =>
      rw [colours_eq_two_iff] at hmore
      obtain ⟨c, hdigit, htext⟩ := Hex.toList_upper_one h.colour_lt
      have hdot : c ≠ '.' := by
        rintro rfl
        exact absurd (List.mem_of_getElem? hdigit) (by decide)
      exact ⟨c, htext, iff_of_false hdot hlit, fun h => absurd h hmore,
        fun _ _ => ⟨_, hdigit, fun p _ => testBit_colour⟩⟩

theorem Depicts.digit_eq (h : d.Depicts x y c) (hblank : d.BlankFrom 4) (hsize : d.planes.size ≠ 1)
    (hlit : d.colour x y ≠ 0) : Hex.digits[d.colour x y]? = some c := by
  have hlit : ∃ p, d.lit p x y = true := by simpa using mt colour_eq_zero_iff.mpr hlit
  obtain ⟨n, hn, hbits⟩ := h.digit hsize hlit
  have hlength : n < 2 ^ 4 := (List.getElem?_eq_some_iff.mp hn).1
  obtain rfl : n = d.colour x y := by
    refine Nat.eq_of_testBit_eq fun p => ?_
    rcases Nat.lt_or_ge p 4 with hp | hp
    · rw [hbits p hp, testBit_colour]
    · have hpow : 2 ^ 4 ≤ 2 ^ p := Nat.pow_le_pow_right (by decide) hp
      rw [Nat.testBit_lt_two_pow (hlength.trans_le hpow),
        Nat.testBit_lt_two_pow (hblank.colour_lt.trans_le hpow)]
  exact hn

theorem lit_zero_of_size_eq_one (h : d.planes.size = 1) (hlit : ∃ p, d.lit p x y = true) :
    d.lit 0 x y = true := by
  obtain ⟨p, hp⟩ := hlit
  cases p with
  | zero => exact hp
  | succ p =>
    rw [lit_of_size_le (h.trans_le (Nat.succ_pos p))] at hp
    cases hp

theorem Depicts.lit_eq (hd : d.Depicts x y c) (he : e.Depicts x y c)
    (hsize : e.planes.size = d.planes.size) (hblank : d.BlankFrom 4) (hblank' : e.BlankFrom 4)
    (p : Nat) : e.lit p x y = d.lit p x y := by
  by_cases hdot : c = '.'
  · rw [hd.dot.mp hdot, he.dot.mp hdot]
  have hlit : ∃ p, d.lit p x y = true := by simpa using mt hd.dot.mpr hdot
  have hlit' : ∃ p, e.lit p x y = true := by simpa using mt he.dot.mpr hdot
  by_cases hone : d.planes.size = 1
  · have hone' := hsize.trans hone
    rcases Nat.eq_zero_or_pos p with rfl | hp
    · rw [lit_zero_of_size_eq_one hone hlit, lit_zero_of_size_eq_one hone' hlit']
    · rw [lit_of_size_le (hone.trans_le hp), lit_of_size_le (hone'.trans_le hp)]
  · obtain ⟨n, hn, hbits⟩ := hd.digit hone hlit
    obtain ⟨n', hn', hbits'⟩ := he.digit (hsize ▸ hone) hlit'
    have hlength : n < Hex.digits.length := (List.getElem?_eq_some_iff.mp hn).1
    obtain rfl : n = n' := (List.getElem?_inj hlength (by decide)).mp (hn.trans hn'.symm)
    rcases Nat.lt_or_ge p 4 with hp | hp
    · rw [← hbits p hp, ← hbits' p hp]
    · rw [hblank.lit hp, hblank'.lit hp]

theorem exists_lines (h : d.BlankFrom 4) :
    ∃ f, d.dump.toList = lines d.width d.height f ∧ ∀ x y, d.Depicts x y (f x y) := by
  choose f htext hcells using exists_depicts h
  have hrow (y : Nat) : (d.rowText y).toList = (List.range d.width).map (f · y) := by
    unfold rowText
    simp only [String.toList_join, List.flatMap_map, htext, ← List.map_eq_flatMap]
  refine ⟨f, ?_, hcells⟩
  unfold dump lines
  simp only [String.toList_join, List.flatMap_map, String.toList_append, hrow]
  rfl

/-- A text shows the display: it has a line for each row with a character for each cell. -/
def Shows (d : Display) (text : String) : Prop :=
  ∃ f, text.toList = lines d.width d.height f ∧
    ∀ x < d.width, ∀ y < d.height, d.Depicts x y (f x y)

theorem shows_dump (h : d.BlankFrom 4) : d.Shows d.dump := by
  obtain ⟨f, hdump, hcells⟩ := exists_lines h
  exact ⟨f, hdump, fun x _ y _ => hcells x y⟩

/-- Displays with as many planes and the same dump differ in their masks only. -/
theorem eq_setMask_of_dump (hblank : d.BlankFrom 4) (hblank' : e.BlankFrom 4)
    (hsize : e.planes.size = d.planes.size) (h : e.dump = d.dump) : e = d.setMask e.mask := by
  obtain ⟨f, hf, hcells⟩ := exists_lines hblank
  obtain ⟨g, hg, hcells'⟩ := exists_lines hblank'
  have hlines : lines e.width e.height g = lines d.width d.height f := by rw [← hf, ← hg, h]
  have hr : e.resolution = d.resolution := by
    apply Resolution.eq_of_length
    change e.height * (e.width + 1) = d.height * (d.width + 1)
    rw [← length_lines (f := g), hlines, length_lines]
  refine eq_setMask_of_lit hr hsize fun p x hx y hy => ?_
  have hsame : f x y = g x y := by
    refine lines_injective ?_ hx hy
    rw [← hlines]
    unfold width height
    rw [hr]
  exact (hcells x y).lit_eq (hsame ▸ hcells' x y) hsize hblank hblank' p

end Display

end Chip8
