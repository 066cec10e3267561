import Chip8.Proofs.CommandLine.Arguments
import Chip8.Proofs.Machine.WellFormed
import Chip8.Proofs.Text.Name

/-! # Settings

What a command line and an environment ask for together. An option comes before its variable, a
variable that holds no text counts as unset, and whatever can be asked for, a machine can be made
to it.
-/

namespace Chip8

theorem environmentText_eq_some_iff {value : Option ByteArray} {name : String} :
    environmentText value = some name ↔ value = some name.toUTF8 := by
  constructor
  · intro h
    obtain ⟨bytes, rfl, hbytes⟩ := Option.bind_eq_some_iff.mp h
    unfold String.fromUTF8? at hbytes
    split at hbytes
    · cases hbytes
      rfl
    · cases hbytes
  · rintro rfl
    exact dif_pos name.isValidUTF8

theorem Dialect.named_normalName (name : String) : named (normalName name) = named name := by
  simp only [named, normalName_normalName]

namespace CommandLine

/-- A variable that holds no text: it is unset, or its bytes are not UTF-8. -/
def Silent (value : Option ByteArray) : Prop := ∀ name : String, value ≠ some name.toUTF8

theorem Silent.environmentText_eq {value : Option ByteArray} (h : Silent value) :
    environmentText value = none := by
  rw [Option.eq_none_iff_forall_ne_some]
  intro name hname
  exact h name (environmentText_eq_some_iff.mp hname)

namespace Environment

def value (env : Environment) : Setting → Option ByteArray
  | .variant => env.variant
  | .dialect => env.dialect

def withValue (env : Environment) (value : Option ByteArray) : Setting → Environment
  | .variant => { env with variant := value }
  | .dialect => { env with dialect := value }

end Environment

namespace Options

variable {o o' : Options} {env env' : Environment} {v : Variant} {d : Dialect} {c : Config}
  {s : Setting} {name : String}

def variantName (o : Options) (env : Environment) : String :=
  (o.variant.or (environmentText env.variant)).getD "chip8"

def dialectName? (o : Options) (env : Environment) : Option String :=
  o.dialect.or (environmentText env.dialect)

def variant? (o : Options) (env : Environment) : Option Variant :=
  Variant.ofNormalName? (normalName (o.variantName env))

def dialectOn? (o : Options) (env : Environment) (v : Variant) : Option Dialect :=
  match o.dialectName? env with
  | none => some v.dialect
  | some name => Dialect.ofNormalName? (normalName name)

def configOf (o : Options) (v : Variant) (d : Dialect) : Config :=
  { Config.standard v with
    dialect := d
    allowMisaligned := o.allowMisaligned
    seed := o.seed }

theorem chosenVariant_eq (o : Options) (env : Environment) :
    o.chosenVariant env = Variant.named (o.variantName env) := by
  unfold chosenVariant variantName
  cases o.variant <;> rfl

theorem chosenDialect_eq (o : Options) (env : Environment) :
    o.chosenDialect env = match o.dialectName? env with
      | none => .ok none
      | some name => (Dialect.named name).map some := by
  unfold chosenDialect dialectName?
  cases o.dialect with
  | some name => rfl
  | none =>
    simp only [Option.none_or, Dialect.ofEnvironment]
    cases environmentText env.dialect with
    | none => rfl
    | some name =>
      simp only [Dialect.named_normalName]
      cases Dialect.named name <;> rfl

/-- The variant is looked up first, and the dialect only if there is one. -/
theorem config_eq (o : Options) (env : Environment) :
    o.config env = match o.variant? env with
      | none => .error (.invalidArgument .unknownVariant)
      | some v => match o.dialectOn? env v with
        | none => .error (.invalidArgument .unknownDialect)
        | some d => .ok (o.configOf v d) := by
  unfold config
  rw [chosenVariant_eq, chosenDialect_eq]
  unfold variant? dialectOn? Variant.named
  cases Variant.ofNormalName? (normalName (o.variantName env)) with
  | none => rfl
  | some v =>
    cases o.dialectName? env with
    | none => rfl
    | some name =>
      simp only [Dialect.named]
      cases Dialect.ofNormalName? (normalName name) <;> rfl

theorem config_of_unknown_variant (hv : o.variant? env = none) :
    o.config env = .error (.invalidArgument .unknownVariant) := by
  rw [config_eq, hv]

theorem config_of_unknown_dialect (hv : o.variant? env = some v) (hd : o.dialectOn? env v = none) :
    o.config env = .error (.invalidArgument .unknownDialect) := by
  simp only [config_eq, hv, hd]

theorem config_of_known (hv : o.variant? env = some v) (hd : o.dialectOn? env v = some d) :
    o.config env = .ok (o.configOf v d) := by
  simp only [config_eq, hv, hd]

theorem exists_of_config (h : o.config env = .ok c) :
    ∃ v d, o.variant? env = some v ∧ o.dialectOn? env v = some d ∧ c = o.configOf v d := by
  cases hv : o.variant? env with
  | none => cases (config_of_unknown_variant hv).symm.trans h
  | some v =>
    cases hd : o.dialectOn? env v with
    | none => cases (config_of_unknown_dialect hv hd).symm.trans h
    | some d => exact ⟨v, d, rfl, hd, (Except.ok.inj ((config_of_known hv hd).symm.trans h)).symm⟩

theorem accepted_configOf (o : Options) (v : Variant) (d : Dialect) :
    (o.configOf v d).Accepted := by
  cases v <;> rfl

theorem accepted_of_config (h : o.config env = .ok c) : c.Accepted := by
  obtain ⟨v, d, -, -, rfl⟩ := exists_of_config h
  exact accepted_configOf o v d

/-! ## Options and variables -/

/-- The names that come to the same as leaving a setting to the environment: the text of the
variable; if it holds none, `chip8`, and every name of the dialect that is the variant's own. -/
inductive FallsBackTo (o : Options) (env : Environment) : Setting → String → Prop
  | text {s : Setting} {name : String} (h : env.value s = some name.toUTF8) :
      FallsBackTo o env s name
  | variant (h : Silent env.variant) : FallsBackTo o env .variant "chip8"
  | dialect {name : String} (h : Silent env.dialect)
      (hown : ∀ v, o.variant? env = some v → Dialect.named name = .ok v.dialect) :
      FallsBackTo o env .dialect name

theorem config_congr (hv : o'.variant? env' = o.variant? env)
    (hd : ∀ v, o.variant? env = some v → o'.dialectOn? env' v = o.dialectOn? env v)
    (hconfigOf : o'.configOf = o.configOf) :
    o'.config env' = o.config env := by
  rw [config_eq, config_eq, hv, hconfigOf]
  cases h : o.variant? env with
  | none => rfl
  | some v => simp only [hd v h]

theorem config_withValue (h : o.named s ≠ none) (value : Option ByteArray) :
    o.config (env.withValue value s) = o.config env := by
  obtain ⟨name, hname⟩ := Option.ne_none_iff_exists'.mp h
  cases s with
  | variant =>
    have hvariant : o.variant = some name := hname
    refine config_congr ?_ (fun _ _ => rfl) rfl
    simp only [variant?, variantName, hvariant, Option.some_or]
  | dialect =>
    have hdialect : o.dialect = some name := hname
    refine config_congr rfl (fun v _ => ?_) rfl
    simp only [dialectOn?, dialectName?, hdialect, Option.some_or]

theorem dialectOn?_of_named (h : Dialect.named name = .ok d) :
    Dialect.ofNormalName? (normalName name) = some d := by
  unfold Dialect.named at h
  split at h
  · next hd => rw [hd, Except.ok.inj h]
  · cases h

theorem config_withName (h : o.named s = none) (hname : o.FallsBackTo env s name)
    (value : Option ByteArray) :
    (o.withName name s).config (env.withValue value s) = o.config env := by
  cases hname with
  | text htext =>
    cases s with
    | variant =>
      have hvariant : o.variant = none := h
      have hvalue : environmentText env.variant = some name :=
        environmentText_eq_some_iff.mpr htext
      refine config_congr ?_ (fun _ _ => rfl) rfl
      simp only [variant?, variantName, withName, hvariant, hvalue, Option.some_or, Option.none_or]
    | dialect =>
      have hdialect : o.dialect = none := h
      have hvalue : environmentText env.dialect = some name :=
        environmentText_eq_some_iff.mpr htext
      refine config_congr rfl (fun v _ => ?_) rfl
      simp only [dialectOn?, dialectName?, withName, hdialect, hvalue, Option.some_or,
        Option.none_or]
  | variant hsilent =>
    have hvariant : o.variant = none := h
    refine config_congr ?_ (fun _ _ => rfl) rfl
    simp only [variant?, variantName, withName, hvariant, hsilent.environmentText_eq,
      Option.some_or, Option.none_or, Option.getD_some, Option.getD_none]
  | dialect hsilent hown =>
    have hdialect : o.dialect = none := h
    refine config_congr rfl (fun v hv => ?_) rfl
    simp only [dialectOn?, dialectName?, withName, hdialect, hsilent.environmentText_eq,
      Option.some_or, Option.none_or, dialectOn?_of_named (hown v hv)]

end Options

end CommandLine

end Chip8
