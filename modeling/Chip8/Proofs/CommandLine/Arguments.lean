import Mathlib.Data.Option.Basic
import Chip8.CommandLine.Run

/-! # One more option

A setting may be given by an option in front of any command line that does not give it yet, and
nothing else that the command line asks for changes.
-/

namespace Chip8

namespace Setting

def parameter : Setting → CommandLine.Parameter
  | .variant => .variant
  | .dialect => .dialect

def optionName : Setting → String
  | .variant => "variant"
  | .dialect => "quirks"

end Setting

namespace CommandLine

variable {p q : Parameter} {as : List Argument} {o : Options} {args : List String} {s : Setting}

/-- The name of an option ends at the first sign of equality. -/
theorem Word.ofString_long {name : String} (h : '=' ∉ name.toList) (text : String) :
    Word.ofString ("--" ++ name ++ "=" ++ text) = .long name (some text) := by
  have hchars : ("--" ++ name ++ "=" ++ text).toList =
      '-' :: '-' :: (name.toList ++ '=' :: text.toList) := by
    simp [String.toList_append]
  have hname : ∀ c ∈ name.toList, decide (c ≠ '=') = true := by
    intro c hc
    rw [decide_eq_true_iff]
    rintro rfl
    exact h hc
  obtain ⟨first, rest, hcons⟩ := List.exists_cons_of_ne_nil
    (show name.toList ++ '=' :: text.toList ≠ [] by simp)
  have hbefore : (first :: rest).takeWhile (· ≠ '=') = name.toList := by
    rw [← hcons, List.takeWhile_append_of_pos hname]
    simp
  have hbehind : (first :: rest).dropWhile (· ≠ '=') = '=' :: text.toList := by
    rw [← hcons, List.dropWhile_append_of_pos hname]
    simp
  unfold Word.ofString
  rw [hchars, hcons]
  simp only [hbefore, hbehind, String.ofList_toList]

namespace Argument

theorem any_sameOption (p : Parameter) (text : String) (as : List Argument) :
    as.any (Argument.sameOption (.value p text)) = (text? p as).isSome := by
  induction as with
  | nil => rfl
  | cons a as ih =>
    cases a with
    | switch switch => simpa [text?, sameOption] using ih
    | value q other =>
      by_cases h : p = q
      · simp [text?, sameOption, h]
      · simpa [text?, sameOption, h] using ih

theorem text?_cons_of_ne (h : q ≠ p) (text : String) (as : List Argument) :
    text? q (.value p text :: as) = text? q as := by
  simp [text?, h]

theorem ofWords?_long {words : List Word} (h : ofWords? words = some as) (s : Setting)
    (name : String) :
    ofWords? (.long s.optionName (some name) :: words) = some (.value s.parameter name :: as) := by
  cases s <;>
    simp [ofWords?, Setting.optionName, Setting.parameter, Parameter.ofName?, h]

end Argument

namespace Options

open Argument

def named (o : Options) : Setting → Option String
  | .variant => o.variant
  | .dialect => o.dialect

def withName (o : Options) (name : String) : Setting → Options
  | .variant => { o with variant := some name }
  | .dialect => { o with dialect := some name }

theorem named_of_ofArguments? (h : ofArguments? as = some o) (s : Setting) :
    o.named s = text? s.parameter as := by
  unfold ofArguments? at h
  cases hframes : text? .frames as <;> cases hseed : text? .seed as <;>
    simp only [hframes, hseed, Option.bind_eq_bind, Option.bind_eq_some_iff, Option.pure_def,
      Option.some.injEq] at h
  all_goals
    obtain ⟨-, -, -, -, -, -, -, -, -, -, rfl⟩ := h
    cases s <;> rfl

theorem ofArguments?_cons (h : text? s.parameter as = none) (name : String) :
    ofArguments? (.value s.parameter name :: as) = (ofArguments? as).map (·.withName name s) := by
  have honce : repeats (.value s.parameter name :: as) = repeats as := by
    rw [repeats, any_sameOption, h, Option.isSome_none, Bool.false_or]
  have hswitch (switch : Switch) :
      (Argument.value s.parameter name :: as).contains (.switch switch) =
        as.contains (.switch switch) := by
    simp
  have hrom : text? .rom (.value s.parameter name :: as) = text? .rom as :=
    text?_cons_of_ne (by cases s <;> decide) name as
  have hframes : text? .frames (.value s.parameter name :: as) = text? .frames as :=
    text?_cons_of_ne (by cases s <;> decide) name as
  have hseed : text? .seed (.value s.parameter name :: as) = text? .seed as :=
    text?_cons_of_ne (by cases s <;> decide) name as
  have hnames (rom : String) (frames : Nat) (seed : Option UInt64) (misaligned trace dump : Bool) :
      (⟨rom, text? .variant (.value s.parameter name :: as),
        text? .dialect (.value s.parameter name :: as), frames, misaligned, seed, trace,
        dump⟩ : Options) =
      withName ⟨rom, text? .variant as, text? .dialect as, frames, misaligned, seed, trace, dump⟩
        name s := by
    cases s <;> simp [Setting.parameter, withName, text?]
  unfold ofArguments?
  simp only [honce, hswitch, hrom, hframes, hseed, hnames]
  -- The map goes through the chain of checks as soon as it is known which numbers are given.
  cases text? .frames as <;> cases text? .seed as <;>
    simp only [Option.bind_eq_bind, Option.map_bind, Function.comp_def, Option.pure_def,
      Option.map_some]

theorem parse?_cons (h : parse? args = some o) (hs : o.named s = none) (name : String) :
    parse? (("--" ++ s.optionName ++ "=" ++ name) :: args) = some (o.withName name s) := by
  obtain ⟨as, hwords, has⟩ := Option.bind_eq_some_iff.mp h
  have hoption : '=' ∉ s.optionName.toList := by cases s <;> decide
  have htext : text? s.parameter as = none := (named_of_ofArguments? has s).symm.trans hs
  rw [parse?, List.map_cons, Word.ofString_long hoption, ofWords?_long hwords, Option.bind_some,
    ofArguments?_cons htext, has, Option.map_some]

end Options

end CommandLine

end Chip8
