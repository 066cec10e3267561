import Chip8.Display.Basic
import Chip8.Proofs.Checked.Display

/-! # Checked drawing

Sprites in the selected planes, and the colours that the planes show together. Neither the address
of a sprite nor the number of hits leaves its range on a display of at most eight planes.
-/

namespace Chip8.Checked

variable {d : Display}

/-- Draws a sprite into a plane, with the hits so far and the address of the sprite. -/
def drawNext {r : Resolution} (s : Sprite) (left top : Nat) (state : Nat × Nat) (b : Bitmap r) :
    Option (Bitmap r × Nat × Nat) := do
  let (b, rows) ← drawPlane b { s with address := state.2 } left top
  let hits ← add word state.1 rows
  let address ← add word state.2 (← mul word s.height s.stride)
  return (b, hits, address)

def draw (d : Display) (s : Sprite) (left top : Nat) : Option (Display × Nat) := do
  let (d, hits, _) ← visit d (drawNext s left top) (0, s.address)
  return (d, hits)

section Drawing

variable {s : Sprite} {left top : Nat}

theorem rank_le (p : Nat) : d.rank p ≤ p :=
  (List.length_filter_le _ _).trans (List.length_range).le

theorem Drawable.skip {k : Nat} (h : Drawable s left top) (ha : s.address < 2 ^ 16) (hk : k ≤ 8) :
    Drawable (s.skip k) left top ∧ s.height * s.stride ≤ 510 ∧ (s.skip k).address < 2 ^ 17 := by
  have hsize : s.height * s.stride ≤ 255 * 2 := Nat.mul_le_mul h.height (stride_le h)
  have hskip : k * (s.height * s.stride) ≤ 8 * (255 * 2) := Nat.mul_le_mul hk hsize
  have haddress : (s.skip k).address < 2 ^ 17 := by
    show s.address + k * (s.height * s.stride) < 2 ^ 17
    omega
  exact ⟨⟨by omega, h.width, h.height, h.left, h.top⟩, hsize, haddress⟩

theorem hitsBelow_le {p : Nat} (h : Drawable s left top) (ha : s.address < 2 ^ 16)
    (hplanes : d.planes.size ≤ 8) (hp : p ≤ d.planes.size) :
    d.hitsBelow s left top p ≤ 255 * p := by
  induction p with
  | zero => simp [Display.hitsBelow]
  | succ p ih =>
    have hrank : d.rank p ≤ 8 := (rank_le p).trans (by omega)
    have hs := (h.skip ha hrank).1
    have hrows := (drawPlane_eq (b := d.planes[p]) hs).2.trans hs.height
    have := ih (by omega)
    rw [Display.hitsBelow_succ d s left top (by omega)]
    split <;> omega

theorem skip_address (k : Nat) : { s with address := (s.skip k).address } = s.skip k := rfl

theorem draw_eq (h : Drawable s left top) (ha : s.address < 2 ^ 16) (hplanes : d.planes.size ≤ 8) :
    draw d s left top = some (d.draw s left top) := by
  have hvisit := visit_eq (d := d) (f := drawNext s left top)
    (fun p => (d.hitsBelow s left top p, (s.skip (d.rank p)).address))
    (fun p b => (b.draw (s.skip (d.rank p)) left top).1) (fun p hp hsel => ?_) fun p hp hsel => ?_
  · have hfirst : (d.hitsBelow s left top 0, (s.skip (d.rank 0)).address) = (0, s.address) := by
      simp [Display.hitsBelow, Display.rank, Sprite.skip]
    rw [hfirst] at hvisit
    simp only [draw, hvisit, Display.draw_eq, Display.hitsBelow_size, Option.bind_eq_bind,
      Option.bind_some, Option.pure_def]
  · obtain ⟨hs, hsize, haddress⟩ := h.skip ha ((rank_le (d := d) p).trans (by omega))
    obtain ⟨hdraw, hrows⟩ := drawPlane_eq (b := d.planes[p]) hs
    have hbelow := hitsBelow_le h ha hplanes hp.le
    have hheight := hs.height
    have hhits : add word (d.hitsBelow s left top p)
        (d.planes[p].draw (s.skip (d.rank p)) left top).2 =
          some (d.hitsBelow s left top (p + 1)) := by
      rw [Display.hitsBelow_succ d s left top hp, if_pos hsel]
      exact add_word (by omega)
    have hmul : mul word s.height s.stride = some (s.height * s.stride) := mul_word (by omega)
    have hadd : add word (s.skip (d.rank p)).address (s.height * s.stride) =
        some (s.skip (d.rank (p + 1))).address := by
      rw [Display.rank_succ, hsel, add_word (by omega)]
      simp [Sprite.skip, Nat.add_mul, Nat.add_assoc]
    simp only [drawNext, skip_address, hdraw, hhits, hmul, hadd, Option.bind_eq_bind,
      Option.bind_some, Option.pure_def]
  · simp [Display.hitsBelow_succ d s left top hp, hsel, Display.rank_succ]

end Drawing

/-! ## Colours and text -/

def colour (d : Display) (x y : Nat) : Option Nat := do
  let i ← cell d.resolution x y
  (List.range d.planes.size).foldlM
    (fun c p => do
      let b ← d.planes[p]?
      let bit ← shiftLeft 8 (← lit b i).toNat p
      return c ||| bit) 0

def dump (d : Display) : Option String := do
  let colours ← shiftLeft word 1 d.planes.size
  let rows ← (List.range d.height).mapM fun y => do
    let cells ← (List.range d.width).mapM fun x => do
      match ← colour d x y with
      | 0 => return "."
      | c => return if colours = 2 then "#" else Hex.upper 1 c
    return String.join cells ++ "\n"
  return String.join rows

section Colour

variable {x y : Nat}

def colourBelow (d : Display) (x y p : Nat) : Nat :=
  (d.planes.toList.take p).foldr (fun b c => 2 * c + (b.lit x y).toNat) 0

theorem foldr_bits {α : Type} {l : List α} {f : α → Bool} (c : Nat) :
    l.foldr (fun a c => 2 * c + (f a).toNat) c =
      l.foldr (fun a c => 2 * c + (f a).toNat) 0 + c * 2 ^ l.length ∧
    l.foldr (fun a c => 2 * c + (f a).toNat) 0 < 2 ^ l.length := by
  induction l with
  | nil => simp
  | cons a l ih =>
    have hbit : (f a).toNat ≤ 1 := Bool.toNat_le _
    have hpow : 2 ^ (l.length + 1) = 2 * 2 ^ l.length := Nat.pow_succ'
    simp only [List.foldr_cons, List.length_cons, hpow, ih.1]
    refine ⟨?_, ?_⟩
    · rw [Nat.mul_left_comm c]
      omega
    · omega

theorem colourBelow_succ {p : Nat} (hp : p < d.planes.size) :
    colourBelow d x y (p + 1) = colourBelow d x y p ||| (d.planes[p].lit x y).toNat <<< p := by
  have hlen : (d.planes.toList.take p).length = p := by simp; omega
  obtain ⟨hfold, hlt⟩ := foldr_bits (l := d.planes.toList.take p) (f := fun b => b.lit x y)
    (d.planes[p].lit x y).toNat
  rw [hlen] at hfold hlt
  have hstep : colourBelow d x y (p + 1) =
      colourBelow d x y p + (d.planes[p].lit x y).toNat * 2 ^ p := by
    refine Eq.trans ?_ hfold
    simp [colourBelow, List.take_succ_eq_append_getElem, hp]
  have hlt : colourBelow d x y p < 2 ^ p := hlt
  rw [hstep, Nat.lor_comm, ← Nat.shiftLeft_add_eq_or_of_lt hlt, Nat.shiftLeft_eq, Nat.add_comm]

theorem colour_eq (hx : x < d.width) (hy : y < d.height) (hplanes : d.planes.size ≤ 8) :
    colour d x y = some (d.colour x y) := by
  have hlast : d.colour x y = colourBelow d x y d.planes.size := by
    have hall : d.planes.toList.take d.planes.size = d.planes.toList :=
      List.take_of_length_le (by simp)
    simp [Display.colour, colourBelow, hall]
  simp only [colour, cell_eq hx hy, hlast, Option.bind_eq_bind, Option.bind_some]
  refine loop_states (colourBelow d x y) fun p hp => ?_
  have hbit : (d.planes[p].lit x y).toNat <<< p % 2 ^ 8 = (d.planes[p].lit x y).toNat <<< p := by
    have hle : (d.planes[p].lit x y).toNat * 2 ^ p ≤ 1 * 2 ^ 7 :=
      Nat.mul_le_mul (Bool.toNat_le _) (Nat.pow_le_pow_right (by decide) (by omega))
    rw [Nat.shiftLeft_eq]
    omega
  have hshift : shiftLeft 8 (d.planes[p].lit x y).toNat p =
      some ((d.planes[p].lit x y).toNat <<< p) :=
    (shiftLeft_eq (show p < 8 by omega)).trans (congrArg some hbit)
  simp [hp, lit_eq hx hy, hshift, colourBelow_succ hp]

theorem dump_eq (hplanes : d.planes.size ≤ 8) : dump d = some d.dump := by
  have hcolours : 1 <<< d.planes.size % 2 ^ 64 = d.colours := by
    rw [Display.colours, Nat.one_shiftLeft]
    exact Nat.mod_eq_of_lt (Nat.pow_lt_pow_right (by decide) (by omega))
  have hshift : shiftLeft word 1 d.planes.size = some d.colours :=
    (shiftLeft_eq (show d.planes.size < 64 by omega)).trans (congrArg some hcolours)
  simp only [dump, hshift, Option.bind_eq_bind, Option.bind_some]
  rw [mapM_eq (g := fun y => d.rowText y ++ "\n")]
  · rfl
  · intro y hy
    rw [mapM_eq (g := fun x => d.cellText x y)]
    · rfl
    · intro x hx
      rw [colour_eq (List.mem_range.mp hx) (List.mem_range.mp hy) hplanes, Option.bind_some]
      unfold Display.cellText
      cases d.colour x y <;> rfl

end Colour

end Chip8.Checked
