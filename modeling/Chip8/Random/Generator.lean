import Chip8.Random.ChaCha

/-! # Random bytes

Every key has one stream of bytes, and a generator is a position in it. A seed is spread over a key.
-/

namespace Chip8

abbrev Random.Key := Vector UInt32 8

structure Random where
  key : Random.Key
  drawn : Nat
  deriving DecidableEq, Repr

namespace Random

/-- One step of the linear congruence that spreads a seed over a key. -/
def advance (s : UInt64) : UInt64 := s * 6364136223846793005 + 11634580027462260723

def rotateRight (w : UInt32) (n : UInt32) : UInt32 := (w >>> n) ||| (w <<< ((32 - n) % 32))

def permute (s : UInt64) : UInt32 :=
  rotateRight (((s >>> 18) ^^^ s) >>> 27).toUInt32 (s >>> 59).toUInt32

def keyOf (seed : UInt64) : Key :=
  Vector.ofFn fun i => permute ((i.val + 1).repeat advance seed)

def byteAt (key : Key) (n : Nat) : UInt8 := (ChaCha.word key n).toUInt8

/-- The key of the seed; without a seed it is left to chance. -/
def startKey (seed : Option UInt64) (entropy : Key) : Key :=
  match seed with
  | some seed => keyOf seed
  | none => entropy

def start (seed : Option UInt64) (entropy : Key) : Random := ⟨startKey seed entropy, 0⟩

theorem start_congr {seed : Option UInt64} {a b : Key} (h : seed = none → a = b) :
    start seed a = start seed b := by
  cases seed with
  | some seed => rfl
  | none => rw [h rfl]

def byte (g : Random) : UInt8 := byteAt g.key g.drawn

def next (g : Random) : Random := { g with drawn := g.drawn + 1 }

end Random

end Chip8
