import Chip8.Variant
import Chip8.Text

/-! # Settings by name

Variants and dialects chosen by a name, given directly or in an environment variable.
-/

namespace Chip8

inductive Setting
  | variant
  | dialect
  deriving DecidableEq, Repr

namespace Setting

def variableName : Setting → String
  | .variant => "CHIP8_VARIANT"
  | .dialect => "CHIP8_QUIRKS"

def choices : Setting → String
  | .variant => "chip8, schip, xochip"
  | .dialect => "vip, hp48, xochip"

end Setting

/-- A name, in normal form, that stands for no value of its setting. -/
structure UnknownName where
  setting : Setting
  given : String
  deriving DecidableEq, Repr

def UnknownName.message (e : UnknownName) : String :=
  "invalid " ++ e.setting.variableName ++ " '" ++ e.given ++ "', expected one of: "
    ++ e.setting.choices

/-- The text of an environment variable; bytes that are not UTF-8 count as unset. -/
def environmentText (value : Option ByteArray) : Option String :=
  value.bind String.fromUTF8?

namespace Variant

def ofNormalName? : String → Option Variant
  | "chip8" | "chip-8" | "vip" => some .chip8
  | "schip" | "superchip" | "super-chip" | "hp48" => some .superChip
  | "xochip" | "xo-chip" => some .xoChip
  | _ => none

def named (name : String) : Except UnknownName Variant :=
  match ofNormalName? (normalName name) with
  | some v => .ok v
  | none => .error ⟨.variant, normalName name⟩

def ofEnvironment (value : Option ByteArray) : Except UnknownName Variant :=
  named ((environmentText value).getD "chip8")

end Variant

namespace Dialect

def ofNormalName? : String → Option Dialect
  | "vip" | "original" => some vip
  | "hp48" | "schip" | "modern" => some hp48
  | "xochip" => some xoChip
  | _ => none

def named (name : String) : Except UnknownName Dialect :=
  match ofNormalName? (normalName name) with
  | some d => .ok d
  | none => .error ⟨.dialect, normalName name⟩

/-- The dialect an environment variable names, with that name in normal form; nothing if it is
unset, so that the variant decides. The name is looked up in the form it is given back in. -/
def ofEnvironment (value : Option ByteArray) : Except UnknownName (Option (String × Dialect)) :=
  match environmentText value with
  | none => .ok none
  | some name => (named (normalName name)).map fun d => some (normalName name, d)

end Dialect

end Chip8
