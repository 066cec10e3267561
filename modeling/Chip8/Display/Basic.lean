import Chip8.Display.Sprite
import Chip8.Text

/-! # The display

A stack of bitmaps of one size. All drawing is confined to the planes that the mask selects, and
what happens to one plane does not depend on the others.
-/

namespace Chip8

structure Display where
  resolution : Resolution
  /-- Bit `p` selects plane `p`. -/
  mask : UInt8
  planes : Array (Bitmap resolution)
  deriving DecidableEq

namespace Display

def blank (planes : Nat) : Display where
  resolution := .low
  mask := 1
  planes := Array.replicate planes (Bitmap.blank .low)

def initialise (d : Display) : Display := blank d.planes.size

def width (d : Display) : Nat := d.resolution.width

def height (d : Display) : Nat := d.resolution.height

def colours (d : Display) : Nat := 1 <<< d.planes.size

/-- Changes the resolution; each plane keeps its cells by number. -/
def setResolution (d : Display) (r : Resolution) : Display where
  resolution := r
  mask := d.mask
  planes := d.planes.map fun b => b.resize r

def setMask (d : Display) (mask : UInt8) : Display := { d with mask }

def selects (d : Display) (p : Nat) : Bool := d.mask.toNat.testBit p

def selected (d : Display) : List Nat := (List.range d.planes.size).filter d.selects

def onSelected (d : Display) (f : Bitmap d.resolution → Bitmap d.resolution) : Display :=
  { d with planes := d.planes.mapIdx fun p b => if d.selects p then f b else b }

def clear (d : Display) : Display := d.onSelected fun _ => .blank _

def scrollDown (d : Display) (n : Nat) : Display := d.onSelected fun b => b.scrollDown n

def scrollUp (d : Display) (n : Nat) : Display := d.onSelected fun b => b.scrollUp n

def scrollRight (d : Display) : Display := d.onSelected fun b => b.scrollRight

def scrollLeft (d : Display) : Display := d.onSelected fun b => b.scrollLeft

/-- Draws into plane `p`, on top of `hits` rows that hit, and goes on to the sprite that follows in
memory. -/
def drawPlane {r : Resolution} (left top : Nat) :
    Array (Bitmap r) × Sprite × Nat → Nat → Array (Bitmap r) × Sprite × Nat
  | (planes, s, hits), p =>
    match planes[p]? with
    | none => (planes, s.skip 1, hits)
    | some b =>
      let (b, n) := b.draw s left top
      (planes.setIfInBounds p b, s.skip 1, hits + n)

/-- Draws into each selected plane and counts the rows that hit. The sprites for the planes follow
each other in memory. -/
def draw (d : Display) (s : Sprite) (left top : Nat) : Display × Nat :=
  let (planes, _, hits) := d.selected.foldl (drawPlane left top) (d.planes, s, 0)
  ({ d with planes }, hits)

/-- Bit `p` of the colour of a cell says whether plane `p` is lit there. -/
def colour (d : Display) (x y : Nat) : Nat :=
  d.planes.foldr (fun b c => 2 * c + (b.lit x y).toNat) 0

/-! ## The display as text

A line for each row. Unlit cells are dots; lit cells are hash signs where there is one plane, and
their colours in hexadecimal where there are more.
-/

def cellText (d : Display) (x y : Nat) : String :=
  match d.colour x y with
  | 0 => "."
  | c => if d.colours = 2 then "#" else Hex.upper 1 c

def rowText (d : Display) (y : Nat) : String :=
  String.join ((List.range d.width).map fun x => d.cellText x y)

def dump (d : Display) : String :=
  String.join ((List.range d.height).map fun y => d.rowText y ++ "\n")

end Display

end Chip8
