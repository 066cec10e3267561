/-! # Keypad

The sixteen keys, and what a machine gets to see of a keyboard.
-/

namespace Chip8

/-- A keyboard at one moment, as the machine sees it. -/
structure Keyboard where
  isDown : UInt8 → Bool
  /-- The key that ends a wait, if there is one. -/
  pressed? : Option UInt8

structure Keypad where
  held : Vector Bool 16
  deriving DecidableEq, Repr

namespace Keypad

def released : Keypad := ⟨Vector.replicate 16 false⟩

/-- Presses or releases a key; keys that do not exist are ignored. -/
def set (k : Keypad) (key : Nat) (down : Bool) : Keypad :=
  ⟨k.held.setIfInBounds key down⟩

/-- Only the last hexadecimal digit of `key` counts. -/
def isDown (k : Keypad) (key : UInt8) : Bool :=
  k.held[key.toNat % 16]

def keys (k : Keypad) : List (Fin 16) :=
  (List.finRange 16).filter k.held.get

def first? (k : Keypad) : Option UInt8 :=
  k.keys.head?.map fun key => UInt8.ofNat key

def keyboard (k : Keypad) : Keyboard where
  isDown := k.isDown
  pressed? := k.first?

end Keypad

end Chip8
