import Chip8.Machine.Frame
import Chip8.Machine.Rom

/-! # Headless runs

A program run from its file without keys and without anyone looking at the display.
-/

namespace Chip8.Headless

structure Report where
  result : Except Fault Machine
  notices : Array Notice

/-- One frame without keys; its picture counts as presented. -/
def frame (m : Machine) : Reply Nat :=
  let reply := m.frame fun _ => Keypad.released.keyboard
  match reply.result with
  | .error _ => reply
  | .ok _ => { reply with machine := { reply.machine with redraw := false } }

/-- Runs up to `budget` frames, on top of `ran` frames that have told `told`. -/
def runFrames : (budget ran : Nat) → Machine → Array Notice → Report
  | 0, ran, m, told => ⟨.ok m, told.push (.remark (.runFinished ran m.finished m.pc))⟩
  | budget + 1, ran, m, told =>
    if m.finished then ⟨.ok m, told.push (.remark (.runFinished ran m.finished m.pc))⟩
    else
      let reply := frame m
      match reply.result with
      | .error e => ⟨.error e, (told ++ reply.notices).push (.remark (.runStopped ran e))⟩
      | .ok _ => runFrames budget (ran + 1) reply.machine (told ++ reply.notices)

def run (config : Config) (entropy : Random.Key) (files : Files) (rom : String) (frames : Nat) :
    Report :=
  if frames = 0 then ⟨.error (.invalidArgument .noFrames), #[]⟩
  else match Machine.create config entropy with
    | .error e => ⟨.error e, #[]⟩
    | .ok m =>
      let loaded := m.loadFile files rom
      match loaded.result with
      | .error e => ⟨.error e, loaded.notices⟩
      | .ok _ =>
        runFrames frames 0 loaded.machine
          (loaded.notices.push (.remark (.runStarted rom config.variant frames)))

end Chip8.Headless
