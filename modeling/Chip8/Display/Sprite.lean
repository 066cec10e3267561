import Chip8.Display.Bitmap
import Chip8.Memory

/-! # Sprites

Pictures in memory, drawn by flipping the cells under their set bits.
-/

namespace Chip8

/-- A picture in memory: rows of whole bytes, the highest bit leftmost. -/
structure Sprite where
  memory : Memory
  address : Nat
  width : Nat
  height : Nat

namespace Sprite

def stride (s : Sprite) : Nat := s.width / 8

def skip (s : Sprite) (k : Nat) : Sprite :=
  { s with address := s.address + k * (s.height * s.stride) }

def bit (s : Sprite) (row column : Nat) : Bool :=
  (s.memory.read (s.address + row * s.stride + column / 8)).toNat.testBit (7 - column % 8)

end Sprite

namespace Bitmap

variable {r : Resolution}

/-- Flips `(x, y)` and says whether this is a hit: a lit cell was erased, or the cell lies below
the screen. Cells beyond the right edge are neither flipped nor hit. -/
def flip (b : Bitmap r) (x y : Nat) : Bitmap r × Bool :=
  if r.height ≤ y then (b, true)
  else if r.width ≤ x then (b, false)
  else
    let lit := b.lit x y
    (b.set x y !lit, lit)

def drawRow (b : Bitmap r) (s : Sprite) (left top row : Nat) : Bitmap r × Bool :=
  s.width.fold
    (fun column _ (b, hit) =>
      if s.bit row column then
        let (b, h) := b.flip (left + column) (top + row)
        (b, hit || h)
      else (b, hit))
    (b, false)

def draw (b : Bitmap r) (s : Sprite) (left top : Nat) : Bitmap r × Nat :=
  s.height.fold
    (fun row _ (b, hits) =>
      let (b, hit) := b.drawRow s left top row
      (b, hits + hit.toNat))
    (b, 0)

end Bitmap

end Chip8
