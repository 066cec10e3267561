import Chip8.CommandLine.Run

/-! # The program

Reads what the command line names and hands it on.
-/

namespace Chip8

def ReadError.kindOf : Nat → String
  | 1 | 13 => "PermissionDenied"
  | 2 => "NotFound"
  | 4 => "Interrupted"
  | 12 => "OutOfMemory"
  | 16 => "ResourceBusy"
  | 20 => "NotADirectory"
  | 21 => "IsADirectory"
  | 22 => "InvalidInput"
  | 27 => "FileTooLarge"
  | 36 => "InvalidFilename"
  | 40 => "FilesystemLoop"
  | 110 => "TimedOut"
  | 116 => "StaleNetworkFileHandle"
  | _ => "Uncategorized"

def ReadError.ofError : IO.Error → ReadError
  | .alreadyExists _ number reason | .otherError number reason | .resourceBusy number reason
  | .resourceVanished number reason | .unsupportedOperation number reason
  | .hardwareFault number reason | .unsatisfiedConstraints number reason
  | .illegalOperation number reason | .protocolError number reason | .timeExpired number reason
  | .interrupted _ number reason | .noFileOrDirectory _ number reason
  | .invalidArgument _ number reason | .permissionDenied _ number reason
  | .resourceExhausted _ number reason | .inappropriateType _ number reason
  | .noSuchThing _ number reason => ⟨number.toNat, kindOf number.toNat, reason⟩
  -- The other two do not come from the operating system.
  | .unexpectedEof => ⟨0, "UnexpectedEof", "unexpected end of file"⟩
  | .userError reason => ⟨0, "Other", reason⟩

/-- Reads the file of a name, once and for all. -/
def readRom (name : String) : IO Files := do
  try
    let bytes ← IO.FS.readBinFile name
    return fun _ => .ok bytes.toList
  catch e => return fun _ => .error (.ofError e)

def readEnvironment : IO CommandLine.Environment := do
  let variant ← IO.getEnv Setting.variant.variableName
  let dialect ← IO.getEnv Setting.dialect.variableName
  return ⟨variant.map String.toUTF8, dialect.map String.toUTF8⟩

def readEntropy : IO Random.Key := do
  let bytes ← IO.getRandomBytes 32
  return Vector.ofFn fun i =>
    (List.range 4).foldr (fun k w => w * 256 + (bytes.data.getD (4 * i.val + k) 0).toUInt32) 0

end Chip8

open Chip8 in
def main (args : List String) : IO UInt32 := do
  let files ← match CommandLine.Options.parse? args with
    | none => pure Directory.empty.files
    | some o => readRom o.rom
  let exit := CommandLine.run args (← readEnvironment) files (← readEntropy)
  IO.print exit.stdout
  IO.eprint exit.stderr
  return exit.code.toUInt32
