import Chip8.Display.Basic

/-! # Direct access to the display

What a host may do to single cells, rows and columns. Cells are addressed by number, so that an
`x` beyond the right edge reaches a later row; where there is no such cell, row or column the
answer is `none`.
-/

namespace Chip8.Display

def hasCell (d : Display) (x y : Nat) : Bool :=
  Bitmap.cellIndex d.resolution x y < d.resolution.area

def pixel? (d : Display) (p x y : Nat) : Option Bool :=
  d.planes[p]?.bind fun b => b.cell? x y

def setPixel? (d : Display) (p x y : Nat) (lit : Bool) : Option Display :=
  if p < d.planes.size && d.hasCell x y then
    some { d with planes := d.planes.modify p fun b => b.set x y lit }
  else none

def colour? (d : Display) (x y : Nat) : Option Nat :=
  if d.planes.isEmpty || d.hasCell x y then some (d.colour x y) else none

/-- Changes the selected planes if the change makes sense or no plane is selected. -/
def onSelectedIf (d : Display) (valid : Bool) (f : Bitmap d.resolution → Bitmap d.resolution) :
    Option Display :=
  if valid || d.selected.isEmpty then some (d.onSelected f) else none

def clearRow? (d : Display) (y : Nat) : Option Display :=
  d.onSelectedIf (y < d.height) fun b => b.clearRow y

def clearColumn? (d : Display) (x : Nat) : Option Display :=
  d.onSelectedIf (x < d.width) fun b => b.clearColumn x

def copyRow? (d : Display) (source target : Nat) : Option Display :=
  d.onSelectedIf (source < d.height && target < d.height) fun b => b.copyRow source target

def copyColumn? (d : Display) (source target : Nat) : Option Display :=
  d.onSelectedIf (source < d.width && target < d.width) fun b => b.copyColumn source target

end Chip8.Display
