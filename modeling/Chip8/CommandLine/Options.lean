/-! # Command line options

Options are given as `--name value` or `--name=value`, in any order and each at most once. A value
that is a word of its own must not look like an option.
-/

namespace Chip8.CommandLine

inductive Parameter
  | rom
  | variant
  | dialect
  | frames
  | seed
  deriving DecidableEq, Repr

def Parameter.ofName? : String → Option Parameter
  | "rom" => some .rom
  | "variant" => some .variant
  | "quirks" => some .dialect
  | "frames" => some .frames
  | "seed" => some .seed
  | _ => none

inductive Switch
  | allowMisaligned
  | trace
  | dump
  deriving DecidableEq, Repr

def Switch.ofName? : String → Option Switch
  | "allow-misaligned" => some .allowMisaligned
  | "trace" => some .trace
  | "dump" => some .dump
  | _ => none

/-- A word of the command line by its looks. -/
inductive Word
  /-- `--`, after which nothing is an option. -/
  | terminator
  | long (name : String) (value? : Option String)
  | short
  | plain (text : String)
  deriving DecidableEq, Repr

def Word.ofString (s : String) : Word :=
  match s.toList with
  | ['-', '-'] => .terminator
  | '-' :: '-' :: cs =>
    .long (String.ofList (cs.takeWhile (· ≠ '=')))
      (match cs.dropWhile (· ≠ '=') with
        | [] => none
        | _ :: value => some (String.ofList value))
  | '-' :: _ :: _ => .short
  | _ => .plain s

inductive Argument
  | value (parameter : Parameter) (text : String)
  | switch (switch : Switch)
  deriving DecidableEq, Repr

namespace Argument

def sameOption : Argument → Argument → Bool
  | .value p _, .value q _ => p = q
  | .switch s, .switch t => s = t
  | _, _ => false

/-- Reads a command line word by word; `none` if it is no list of options. -/
def ofWords? : List Word → Option (List Argument)
  | [] => some []
  | [.terminator] => some []
  | .long name value? :: words =>
    match Parameter.ofName? name, value? with
    | some p, some text => (ofWords? words).map (.value p text :: ·)
    | some p, none =>
      match words with
      | .plain text :: words => (ofWords? words).map (.value p text :: ·)
      | _ => none
    | none, value? =>
      match Switch.ofName? name, value? with
      | some s, none => (ofWords? words).map (.switch s :: ·)
      | _, _ => none
  | _ => none

def repeats : List Argument → Bool
  | [] => false
  | a :: as => as.any a.sameOption || repeats as

def text? (p : Parameter) (as : List Argument) : Option String :=
  as.findSome? fun
    | .value q text => if p = q then some text else none
    | .switch _ => none

end Argument

/-- A number below `2 ^ 64` in decimal, with a plus sign or without. -/
def number? (text : String) : Option Nat :=
  let digits := match text.toList with
    | '+' :: cs => cs
    | cs => cs
  let n := digits.foldl (fun n c => 10 * n + (c.toNat - '0'.toNat)) 0
  if !digits.isEmpty && digits.all Char.isDigit && n < UInt64.size then some n else none

structure Options where
  rom : String
  variant : Option String
  dialect : Option String
  frames : Nat
  allowMisaligned : Bool
  seed : Option UInt64
  /-- The host is to log executed instructions. -/
  trace : Bool
  /-- The final display is to be printed. -/
  dump : Bool
  deriving DecidableEq, Repr

namespace Options

def defaultFrames : Nat := 600

/-- The options given; `none` if one is given twice, a number is no number, or the ROM is missing
or has no name. -/
def ofArguments? (as : List Argument) : Option Options := do
  guard !Argument.repeats as
  let rom ← Argument.text? .rom as
  guard (rom ≠ "")
  let frames ← match Argument.text? .frames as with
    | none => some defaultFrames
    | some text => number? text
  let seed ← match Argument.text? .seed as with
    | none => some none
    | some text => (number? text).map fun n => some (UInt64.ofNat n)
  return {
    rom
    variant := Argument.text? .variant as
    dialect := Argument.text? .dialect as
    frames
    allowMisaligned := as.contains (.switch .allowMisaligned)
    seed
    trace := as.contains (.switch .trace)
    dump := as.contains (.switch .dump) }

def parse? (args : List String) : Option Options :=
  (Argument.ofWords? (args.map Word.ofString)).bind ofArguments?

end Options

end Chip8.CommandLine
