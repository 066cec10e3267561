/-! # Text

Hexadecimal numerals, and names given by hand, which are read without regard to blanks at the ends
and to the case of Latin letters.
-/

namespace Chip8

namespace Hex

/-- Lower-case digits of `n`, at least `width` of them. -/
def lower (width n : Nat) : String :=
  String.ofList ((Nat.toDigits 16 n).leftpad width '0')

def upper (width n : Nat) : String :=
  String.ofList (((Nat.toDigits 16 n).map Char.toUpper).leftpad width '0')

end Hex

/-- The runs of code points with the Unicode property `White_Space`, both ends included. -/
def blankRuns : List (Nat × Nat) :=
  [(0x9, 0xD), (0x20, 0x20), (0x85, 0x85), (0xA0, 0xA0), (0x1680, 0x1680), (0x2000, 0x200A),
    (0x2028, 0x2029), (0x202F, 0x202F), (0x205F, 0x205F), (0x3000, 0x3000)]

def isBlank (c : Char) : Bool :=
  blankRuns.any fun (first, last) => first ≤ c.toNat && c.toNat ≤ last

theorem isBlank_of_isWhitespace {c : Char} (h : c.isWhitespace = true) : isBlank c = true := by
  simp only [Char.isWhitespace, Bool.or_eq_true, decide_eq_true_eq] at h
  rcases h with ((rfl | rfl) | rfl) | rfl <;> rfl

def trimBlank (cs : List Char) : List Char :=
  ((cs.dropWhile isBlank).reverse.dropWhile isBlank).reverse

/-- The form in which a name is looked up: no blanks at the ends, `A` to `Z` in lower case. -/
def normalName (name : String) : String :=
  String.ofList ((trimBlank name.toList).map Char.toLower)

end Chip8
