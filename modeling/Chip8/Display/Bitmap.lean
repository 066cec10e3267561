/-! # Bitmaps

One plane of the screen, which has two sizes: a cell is lit or not. Cells are numbered row by row,
so `(x, y)` is cell `x + y * width`, and writing to a cell that does not exist does nothing.
-/

namespace Chip8

inductive Resolution
  | low
  | high
  deriving DecidableEq, Repr

namespace Resolution

def width : Resolution → Nat
  | .low => 64
  | .high => 128

def height : Resolution → Nat
  | .low => 32
  | .high => 64

def area (r : Resolution) : Nat := r.width * r.height

end Resolution

@[ext] structure Bitmap (r : Resolution) where
  cells : Vector Bool r.area
  deriving DecidableEq

namespace Bitmap

variable {r : Resolution}

def blank (r : Resolution) : Bitmap r := ⟨Vector.replicate r.area false⟩

@[inline] def cellIndex (r : Resolution) (x y : Nat) : Nat := x + y * r.width

@[inline] def cell? (b : Bitmap r) (x y : Nat) : Option Bool := b.cells[cellIndex r x y]?

@[inline] def lit (b : Bitmap r) (x y : Nat) : Bool := (b.cell? x y).getD false

@[inline] def set (b : Bitmap r) (x y : Nat) (lit : Bool) : Bitmap r :=
  ⟨b.cells.setIfInBounds (cellIndex r x y) lit⟩

def clearRow (b : Bitmap r) (y : Nat) : Bitmap r :=
  r.width.fold (fun x _ b => b.set x y false) b

def clearColumn (b : Bitmap r) (x : Nat) : Bitmap r :=
  r.height.fold (fun y _ b => b.set x y false) b

def copyRow (b : Bitmap r) (source target : Nat) : Bitmap r :=
  r.width.fold (fun x _ b => b.set x target (b.lit x source)) b

def copyColumn (b : Bitmap r) (source target : Nat) : Bitmap r :=
  r.height.fold (fun y _ b => b.set target y (b.lit source y)) b

/-- The cells by number, cut off or filled up with unlit cells. -/
def resize (b : Bitmap r) (s : Resolution) : Bitmap s :=
  ⟨Vector.ofFn fun i => b.cells[i.val]?.getD false⟩

/-! ## Scrolling

Rows and columns are moved one at a time, starting at the edge they move towards so that none is
overwritten before it has been copied; the rows and columns left behind are cleared.
-/

def scrollDown (b : Bitmap r) (n : Nat) : Bitmap r :=
  let n := min n r.height
  let moved := (r.height - n).foldRev (fun y _ b => b.copyRow y (y + n)) b
  n.fold (fun y _ b => b.clearRow y) moved

def scrollUp (b : Bitmap r) (n : Nat) : Bitmap r :=
  let n := min n r.height
  let moved := (r.height - n).fold (fun y _ b => b.copyRow (y + n) y) b
  n.fold (fun y _ b => b.clearRow (r.height - y - 1)) moved

def scrollWidth : Nat := 4

def scrollRight (b : Bitmap r) : Bitmap r :=
  let moved := (r.width - scrollWidth).foldRev (fun x _ b => b.copyColumn x (x + scrollWidth)) b
  scrollWidth.fold (fun x _ b => b.clearColumn x) moved

def scrollLeft (b : Bitmap r) : Bitmap r :=
  let moved := (r.width - scrollWidth).fold (fun x _ b => b.copyColumn (x + scrollWidth) x) b
  scrollWidth.fold (fun x _ b => b.clearColumn (r.width - x - 1)) moved

end Bitmap

end Chip8
