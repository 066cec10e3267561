import Chip8.Display.Bitmap
import Chip8.Display.Sprite
import Chip8.Proofs.Checked.Memory
import Chip8.Proofs.Display.Cells

/-! # Checked bitmaps

Rows, columns and sprites, with a check of every index into the cells of a plane.
-/

namespace Chip8

theorem Resolution.width_le (r : Resolution) : r.width ≤ 128 := by cases r <;> decide

theorem Resolution.height_le (r : Resolution) : r.height ≤ 64 := by cases r <;> decide

theorem Resolution.area_le (r : Resolution) : r.area ≤ 8192 := by cases r <;> decide

namespace Checked

variable {r : Resolution} {b : Bitmap r} {x y : Nat}

def cell (r : Resolution) (x y : Nat) : Option Nat := do add word x (← mul word y r.width)

def lit (b : Bitmap r) (i : Nat) : Option Bool := get b.cells i

def light (b : Bitmap r) (i : Nat) (lit : Bool) : Option (Bitmap r) := do
  return ⟨← set b.cells i lit⟩

def row (r : Resolution) (y : Nat) : Option (Nat × Nat) := do
  let start ← mul word y r.width
  let stop ← mul word (← add word y 1) r.width
  if start ≤ stop ∧ stop ≤ r.area then return (start, stop) else none

def clearRow (b : Bitmap r) (y : Nat) : Option (Bitmap r) := do
  let (start, stop) ← row r y
  (List.range (stop - start)).foldlM (fun b o => light b (start + o) false) b

def copyRow (b : Bitmap r) (source target : Nat) : Option (Bitmap r) := do
  let (start, stop) ← row r source
  let target ← mul word target r.width
  let room ← sub r.area (stop - start)
  if target ≤ room then
    (List.range (stop - start)).foldlM
      (fun b o => do light b (target + o) (← lit b (start + o))) b
  else none

def clearColumn (b : Bitmap r) (x : Nat) : Option (Bitmap r) :=
  (List.range r.height).foldlM (fun b y => do light b (← cell r x y) false) b

def copyColumn (b : Bitmap r) (source target : Nat) : Option (Bitmap r) :=
  (List.range r.height).foldlM
    (fun b y => do light b (← cell r target y) (← lit b (← cell r source y))) b

theorem cell_eq (hx : x < r.width) (hy : y < r.height) : cell r x y = some (x + y * r.width) := by
  have hlt : x + y * r.width < r.area := Bitmap.cellIndex_lt hx hy
  have harea := r.area_le
  have hmul : mul word y r.width = some (y * r.width) := mul_word (by omega)
  have hadd : add word x (y * r.width) = some (x + y * r.width) := add_word (by omega)
  simp [cell, hmul, hadd]

theorem lit_eq (hx : x < r.width) (hy : y < r.height) :
    lit b (x + y * r.width) = some (b.lit x y) := by
  have hlt : x + y * r.width < r.area := Bitmap.cellIndex_lt hx hy
  simp [lit, get_eq hlt, Bitmap.lit, Bitmap.cell?, Bitmap.cellIndex, hlt]

theorem light_eq (hx : x < r.width) (hy : y < r.height) (v : Bool) :
    light b (x + y * r.width) v = some (b.set x y v) := by
  have hlt : x + y * r.width < r.area := Bitmap.cellIndex_lt hx hy
  have hset : b.cells.set (x + y * r.width) v hlt = b.cells.setIfInBounds (x + y * r.width) v := by
    ext i hi
    simp [Vector.getElem_set, Vector.getElem_setIfInBounds]
  simp [light, set_eq hlt, Bitmap.set, Bitmap.cellIndex, hset]

theorem row_eq (hy : y < r.height) :
    row r y = some (y * r.width, y * r.width + r.width) := by
  have hle := r.row_le_area hy
  have harea := r.area_le
  have hheight := r.height_le
  have hnext : (y + 1) * r.width = y * r.width + r.width := Nat.succ_mul y r.width
  have hstart : mul word y r.width = some (y * r.width) := mul_word (by omega)
  have hadd : add word y 1 = some (y + 1) := add_word (by omega)
  have hstop : mul word (y + 1) r.width = some (y * r.width + r.width) :=
    hnext ▸ mul_word (by omega)
  simp [row, hstart, hadd, hstop, hle]

theorem clearRow_eq (hy : y < r.height) : clearRow b y = some (b.clearRow y) := by
  simp only [clearRow, row_eq hy, Nat.add_sub_cancel_left, Option.bind_eq_bind, Option.bind_some]
  refine loop_total fun x hx b => ?_
  rw [Nat.add_comm]
  exact light_eq hx hy false

theorem copyRow_eq {source target : Nat} (hs : source < r.height) (ht : target < r.height) :
    copyRow b source target = some (b.copyRow source target) := by
  have hle := r.row_le_area ht
  have harea := r.area_le
  have htarget : mul word target r.width = some (target * r.width) := mul_word (by omega)
  have hroom : sub r.area r.width = some (r.area - r.width) := sub_eq (by omega)
  have hfits : target * r.width ≤ r.area - r.width := by omega
  simp only [copyRow, row_eq hs, Nat.add_sub_cancel_left, htarget, hroom, hfits, if_true,
    Option.bind_eq_bind, Option.bind_some]
  refine loop_total fun x hx b => ?_
  rw [Nat.add_comm (source * r.width), lit_eq hx hs, Nat.add_comm (target * r.width)]
  exact light_eq hx ht _

theorem clearColumn_eq (hx : x < r.width) : clearColumn b x = some (b.clearColumn x) := by
  refine loop_total fun y hy b => ?_
  simp only [cell_eq hx hy, Option.bind_eq_bind, Option.bind_some]
  exact light_eq hx hy false

theorem copyColumn_eq {source target : Nat} (hs : source < r.width) (ht : target < r.width) :
    copyColumn b source target = some (b.copyColumn source target) := by
  refine loop_total fun y hy b => ?_
  simp only [cell_eq hs hy, cell_eq ht hy, lit_eq hs hy, Option.bind_eq_bind, Option.bind_some]
  exact light_eq ht hy _

/-! ## Sprites -/

section Sprites

variable {s : Sprite} {left top : Nat}

def drawBit (s : Sprite) (left y address : Nat) (state : Bitmap r × Bool) (column : Nat) :
    Option (Bitmap r × Bool) := do
  let byte ← read s.memory (← add word address (column / 8))
  let bit ← shiftRight 8 0x80 (column % 8)
  if byte.toNat &&& bit = 0 then return state
  let x ← add word left column
  if x < r.width ∧ y < r.height then
    let i ← cell r x y
    let before ← lit state.1 i
    return (← light state.1 i !before, state.2 || before)
  else return (state.1, state.2 || decide (r.height ≤ y))

def drawRow (b : Bitmap r) (s : Sprite) (left top row : Nat) : Option (Bitmap r × Bool) := do
  let y ← add word top row
  let address ← add word s.address (← mul word row s.stride)
  (List.range s.width).foldlM (drawBit s left y address) (b, false)

def drawPlane (b : Bitmap r) (s : Sprite) (left top : Nat) : Option (Bitmap r × Nat) :=
  (List.range s.height).foldlM
    (fun (b, hits) row => do
      let (b, hit) ← drawRow b s left top row
      let hits ← if hit then add word hits 1 else some hits
      return (b, hits))
    (b, 0)

/-- Sprites as instructions draw them, at positions that registers hold. -/
structure Drawable (s : Sprite) (left top : Nat) : Prop where
  address : s.address < 2 ^ 32
  width : s.width ≤ 16
  height : s.height ≤ 255
  left : left ≤ 255
  top : top ≤ 255

theorem stride_le (h : Drawable s left top) : s.stride ≤ 2 := by
  have := h.width
  unfold Sprite.stride
  omega

theorem row_bounds {row : Nat} (h : Drawable s left top) (hrow : row < s.height) :
    top + row < 2 ^ 64 ∧ row * s.stride < 2 ^ 10 := by
  have hstride := Nat.mul_le_mul (Nat.le_of_lt hrow) (stride_le h)
  have := h.height
  have := h.top
  omega

theorem drawBit_eq {row column : Nat} {state : Bitmap r × Bool} (h : Drawable s left top)
    (hrow : row < s.height) (hcolumn : column < s.width) :
    drawBit s left (top + row) (s.address + row * s.stride) state column =
      some (if s.bit row column then
          ((state.1.flip (left + column) (top + row)).1,
            state.2 || (state.1.flip (left + column) (top + row)).2)
        else state) := by
  have hbounds := row_bounds h hrow
  have haddress := h.address
  have hwidth := h.width
  have hleft := h.left
  have hread : add word (s.address + row * s.stride) (column / 8) =
      some (s.address + row * s.stride + column / 8) := add_word (by omega)
  have hk : column % 8 < 8 := Nat.mod_lt _ (by decide)
  have hmask : 0x80 >>> (column % 8) = 2 ^ (7 - column % 8) := by
    generalize column % 8 = k at hk
    revert k
    decide
  have hx : add word left column = some (left + column) := add_word (by omega)
  have hbit : (s.memory.read (s.address + row * s.stride + column / 8)).toNat &&&
      2 ^ (7 - column % 8) = 0 ↔ s.bit row column = false := and_two_pow_eq_zero_iff
  simp only [drawBit, hread, hx, shiftRight_eq hk, hmask, hbit, read_eq, Option.bind_eq_bind,
    Option.bind_some, Option.pure_def]
  cases s.bit row column with
  | false => simp
  | true =>
    unfold Bitmap.flip
    by_cases hy : r.height ≤ top + row
    · simp [hy, Nat.not_lt.mpr hy]
    · by_cases hx : r.width ≤ left + column
      · simp [hy, hx, Nat.not_lt.mpr hx]
      · have hin := And.intro (Nat.not_le.mp hx) (Nat.not_le.mp hy)
        simp [hin, hx, hy, cell_eq hin.1 hin.2, lit_eq hin.1 hin.2, light_eq hin.1 hin.2]

theorem drawRow_eq {row : Nat} (h : Drawable s left top) (hrow : row < s.height) :
    drawRow b s left top row = some (b.drawRow s left top row) := by
  have hbounds := row_bounds h hrow
  have haddress := h.address
  have hy : add word top row = some (top + row) := add_word hbounds.1
  have hmul : mul word row s.stride = some (row * s.stride) := mul_word (by omega)
  have hadd : add word s.address (row * s.stride) = some (s.address + row * s.stride) :=
    add_word (by omega)
  simp only [drawRow, hy, hmul, hadd, Option.bind_eq_bind, Option.bind_some]
  exact loop_total fun column hcolumn state => drawBit_eq h hrow hcolumn

theorem drawPlane_eq (h : Drawable s left top) :
    drawPlane b s left top = some (b.draw s left top) ∧ (b.draw s left top).2 ≤ s.height := by
  refine loop_eq (fun row (state : Bitmap r × Nat) => state.2 ≤ row) (Nat.le_refl 0) ?_
  intro row hrow (b, hits) hhits
  have hheight := h.height
  have hhits : hits ≤ row := hhits
  have hadd : add word hits 1 = some (hits + 1) := add_word (by omega)
  simp only [drawRow_eq h hrow, hadd, Option.bind_eq_bind, Option.bind_some]
  cases (b.drawRow s left top row).2 <;> simp <;> omega

end Sprites

end Checked

end Chip8
