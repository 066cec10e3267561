import Chip8.CommandLine.Options
import Chip8.Headless
import Chip8.Setting

/-! # The command line program

Runs a program headless and reports how it ended. What is told on the way goes to a log, which the
program itself does not write: `RUST_LOG` is taken to be unset, so that only errors would be shown,
and no notice is one. The wording of usage errors is not fixed either.
-/

namespace Chip8.CommandLine

structure Environment where
  variant : Option ByteArray
  dialect : Option ByteArray

structure Exit where
  code : UInt8
  stdout : String
  stderr : String
  log : Array Notice
  deriving DecidableEq, Repr

def usage : String :=
  "usage: --rom FILE [--variant NAME] [--quirks NAME] [--frames N] [--seed N] "
    ++ "[--allow-misaligned] [--trace] [--dump]\n"

namespace Options

def chosenVariant (o : Options) (env : Environment) : Except UnknownName Variant :=
  match o.variant with
  | some name => Variant.named name
  | none => Variant.ofEnvironment env.variant

/-- The dialect asked for: by the option, else by the environment, else by nobody. -/
def chosenDialect (o : Options) (env : Environment) : Except UnknownName (Option Dialect) :=
  match o.dialect with
  | some name => (Dialect.named name).map some
  | none => (Dialect.ofEnvironment env.dialect).map fun chosen => chosen.map Prod.snd

def config (o : Options) (env : Environment) : Except Fault Config := do
  let variant ← (o.chosenVariant env).mapError fun _ => .invalidArgument .unknownVariant
  let dialect ← (o.chosenDialect env).mapError fun _ => .invalidArgument .unknownDialect
  return { Config.standard variant with
    dialect := dialect.getD variant.dialect
    allowMisaligned := o.allowMisaligned
    seed := o.seed }

/-- What of a run goes to the log: its events only if they are to be traced. -/
def logged (o : Options) (notices : Array Notice) : Array Notice :=
  if o.trace then notices else notices.filter fun n => n.event?.isNone

end Options

def summary (m : Machine) : String :=
  "headless finished: variant=" ++ m.config.variant.name ++ " finished="
    ++ (if m.finished then "true" else "false") ++ " pc=0x" ++ Hex.lower 4 m.pc.toNat ++ "\n"

def exitWith (o : Options) (report : Headless.Report) : Exit :=
  match report.result with
  | .error e => ⟨1, "", "Error: " ++ e.report ++ "\n", o.logged report.notices⟩
  | .ok m =>
    ⟨0, summary m ++ (if o.dump then m.display.dump else ""), "", o.logged report.notices⟩

def perform (o : Options) (env : Environment) (files : Files) (entropy : Random.Key) : Exit :=
  exitWith o <| match o.config env with
    | .error e => ⟨.error e, #[]⟩
    | .ok config => Headless.run config entropy files o.rom o.frames

def run (args : List String) (env : Environment) (files : Files) (entropy : Random.Key) : Exit :=
  match Options.parse? args with
  | none => ⟨2, "", usage, #[]⟩
  | some o => perform o env files entropy

end Chip8.CommandLine
