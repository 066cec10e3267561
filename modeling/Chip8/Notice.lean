import Chip8.Fault
import Chip8.Instruction.Assembly

/-! # Notices

What a machine tells its host while it runs: events that a host may want to present, and remarks
that only a log takes down.
-/

namespace Chip8

inductive Event
  | beepStarted
  | beepStopped
  | resolutionSet (resolution : Resolution)
  | executed (trace : Trace)
  deriving DecidableEq, Repr

inductive Remark
  | headerSkipped (size : Nat)
  | programLoaded (size : Nat) (address : UInt16)
  | resolutionRequested (resolution : Resolution)
  | programExited (pc : UInt16)
  | planesSelected (mask : UInt8)
  | runStarted (rom : String) (variant : Variant) (frames : Nat)
  | runStopped (frames : Nat) (fault : Fault)
  | runFinished (frames : Nat) (finished : Bool) (pc : UInt16)
  deriving DecidableEq, Repr

inductive Notice
  | event (event : Event)
  | remark (remark : Remark)
  deriving DecidableEq, Repr

inductive Level
  | trace
  | debug
  | info
  | warn
  deriving DecidableEq, Repr

def Level.name : Level → String
  | .trace => "TRACE"
  | .debug => "DEBUG"
  | .info => "INFO"
  | .warn => "WARN"

def Resolution.name : Resolution → String
  | .low => "low"
  | .high => "high"

namespace Event

def level : Event → Level
  | .executed _ => .trace
  | _ => .debug

def text : Event → String
  | .beepStarted => "beep started"
  | .beepStopped => "beep stopped"
  | .resolutionSet r => r.name ++ " resolution configured"
  | .executed t => t.text

end Event

namespace Remark

def level : Remark → Level
  | .runStarted .. | .runFinished .. => .info
  | .runStopped .. => .warn
  | _ => .debug

def text : Remark → String
  | .headerSkipped size => "skipping " ++ toString size ++ " byte HP48 header"
  | .programLoaded size address =>
    "loaded " ++ toString size ++ " byte program at 0x" ++ Hex.lower 4 address.toNat
  | .resolutionRequested r => "switching to " ++ r.name ++ " resolution"
  | .programExited pc => "program exited at 0x" ++ Hex.lower 4 pc.toNat
  | .planesSelected mask => "plane mask 0x" ++ Hex.lower 1 mask.toNat
  | .runStarted rom variant frames =>
    "running " ++ rom ++ " as " ++ variant.name ++ " for up to " ++ toString frames ++ " frames"
  | .runStopped frames fault =>
    "stopped after " ++ toString frames ++ " frames: " ++ fault.message
  | .runFinished frames finished pc =>
    "headless run finished after " ++ toString frames ++ " frames: finished="
      ++ (if finished then "true" else "false") ++ " pc=0x" ++ Hex.lower 4 pc.toNat

end Remark

namespace Notice

def level : Notice → Level
  | .event e => e.level
  | .remark r => r.level

def text : Notice → String
  | .event e => e.text
  | .remark r => r.text

def event? : Notice → Option Event
  | .event e => some e
  | .remark _ => none

end Notice

end Chip8
