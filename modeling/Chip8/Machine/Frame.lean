import Chip8.Machine.Cycle

/-! # Timers and frames

Sixty times a second both timers count down towards zero. The machine beeps from the first tick
that finds the sound timer running to the first that finds it at rest.

A frame is a sixtieth of a second: a number of cycles, then one tick. In low resolution it ends
early with a changed display, so that a program draws once a frame.
-/

namespace Chip8

def countDown (t : UInt8) : UInt8 := if t = 0 then 0 else t - 1

def beepNotices (before after : Bool) : Array Notice :=
  if before = after then #[]
  else #[.event (if after then .beepStarted else .beepStopped)]

namespace Machine

def soundOn (m : Machine) : Bool := m.sound != 0

def tick (m : Machine) : Reply Unit where
  result := .ok ()
  machine :=
    { m with delay := countDown m.delay, sound := countDown m.sound, beeping := m.soundOn }
  notices := beepNotices m.beeping m.soundOn

/-- Nothing more is executed in this frame. -/
def resting (m : Machine) : Bool :=
  m.finished || (m.display.resolution = .low && m.redraw)

/-- Runs up to `budget` cycles and counts them, on top of `ran` cycles that have told `told`. The
keyboard is looked at anew in each cycle. -/
def runCycles (keys : Nat → Keyboard) : (budget ran : Nat) → Machine → Array Notice → Reply Nat
  | 0, ran, m, told => ⟨.ok ran, m, told⟩
  | budget + 1, ran, m, told =>
    if m.resting then ⟨.ok ran, m, told⟩
    else
      let reply := m.cycle (keys ran)
      match reply.result with
      | .error e => ⟨.error e, reply.machine, told ++ reply.notices⟩
      | .ok _ => runCycles keys budget (ran + 1) reply.machine (told ++ reply.notices)

/-- Runs one frame and counts its cycles. A fault ends the frame without a tick. -/
def frame (m : Machine) (keys : Nat → Keyboard) : Reply Nat :=
  let cycles := runCycles keys m.config.cyclesPerFrame 0 m #[]
  match cycles.result with
  | .error _ => cycles
  | .ok ran =>
    let reply := cycles.machine.tick
    ⟨.ok ran, reply.machine, cycles.notices ++ reply.notices⟩

end Machine

end Chip8
