/-! # Files

The files that programs are loaded from, and how reading one can fail.
-/

namespace Chip8

/-- Why a file could not be read, as the operating system puts it. -/
structure ReadError where
  number : Nat
  kind : String
  reason : String
  deriving DecidableEq, Repr

namespace ReadError

def notFound : ReadError := ⟨2, "NotFound", "No such file or directory"⟩

def isDirectory : ReadError := ⟨21, "IsADirectory", "Is a directory"⟩

def message (e : ReadError) : String :=
  e.reason ++ " (os error " ++ toString e.number ++ ")"

def report (e : ReadError) : String :=
  "Os \x7b code: " ++ toString e.number ++ ", kind: " ++ e.kind ++ ", message: \"" ++ e.reason
    ++ "\" \x7d"

end ReadError

/-- What reading a file gives, by its name. -/
abbrev Files := String → Except ReadError (List UInt8)

structure Directory where
  entries : List (String × List UInt8)
  deriving DecidableEq, Repr

namespace Directory

def empty : Directory := ⟨[]⟩

def erase (d : Directory) (name : String) : Directory :=
  ⟨d.entries.filter fun e => e.1 != name⟩

def insert (d : Directory) (name : String) (bytes : List UInt8) : Directory :=
  ⟨(name, bytes) :: (d.erase name).entries⟩

/-- Reading in the directory: `.` names the directory itself. -/
def files (d : Directory) : Files := fun name =>
  if name = "." then .error .isDirectory
  else match d.entries.lookup name with
    | some bytes => .ok bytes
    | none => .error .notFound

end Directory

end Chip8
