import Chip8.Proofs.Machine.Beep
import Chip8.Proofs.Machine.Cycles
import Chip8.Proofs.Machine.Footprint
import Chip8.Proofs.Machine.Loading

/-! # Records

What a machine tells of its run is enough to follow it: each executed instruction has its record,
the records of a run follow each other as the program counter does, and the resolution is the one
told last.
-/

namespace Chip8

namespace Event

def record? : Event → Option Trace
  | .executed t => some t
  | _ => none

def resolution? : Event → Option Resolution
  | .resolutionSet r => some r
  | _ => none

end Event

namespace Notice

def records (told : Array Notice) : List Trace := (events told).toList.filterMap Event.record?

def resolutions (told : Array Notice) : List Resolution :=
  (events told).toList.filterMap Event.resolution?

variable {told more : Array Notice}

@[simp] theorem records_append : records (told ++ more) = records told ++ records more := by
  simp [records]

@[simp] theorem resolutions_append :
    resolutions (told ++ more) = resolutions told ++ resolutions more := by
  simp [resolutions]

end Notice

namespace Instruction

variable {i : Instruction} {pc : UInt16}

theorem records_notices : Notice.records (i.notices pc) = [] := by
  cases i <;> rfl

theorem resolutions_notices (h : ∀ r, i ≠ .setResolution r) :
    Notice.resolutions (i.notices pc) = [] := by
  cases i with
  | setResolution r => exact absurd rfl (h r)
  | _ => rfl

theorem events_notices (h : ∀ r, i ≠ .setResolution r) : Notice.events (i.notices pc) = #[] := by
  cases i with
  | setResolution r => exact absurd rfl (h r)
  | _ => rfl

end Instruction

/-- Where the instruction after a recorded one may stand: behind it, unless it jumps, or behind
the instruction that it skips. -/
def Trace.LeadsTo (t : Trace) (pc : UInt16) : Prop :=
  match t.instruction with
  | .jump _ | .call _ | .ret | .jumpOffset .. => True
  | .skip _ => pc = t.pc + 2 ∨ pc = t.pc + 4
  | i => pc = t.pc + i.size

namespace Machine

open Notice

variable {A : Instruction → Prop} {m n : Machine} {keys : Keyboard} {told more : Array Notice}
  {t : Trace}

/-! ## One record after the other -/

theorem leadsTo_execute (hpc : t.pc = m.pc) :
    t.LeadsTo ((m.advance t.instruction.size).execute keys t.instruction).pc := by
  obtain ⟨pc, o, i⟩ := t
  obtain rfl : pc = m.pc := hpc
  cases i with
  | jump | call | ret | jumpOffset => trivial
  | skip c =>
    cases hc : c.holds m.v keys with
    | true =>
      refine Or.inr ?_
      simp only [execute, advance, hc, if_true]
      exact UInt16.add_assoc m.pc 2 2
    | false =>
      refine Or.inl ?_
      simp only [execute, advance, hc, Bool.false_eq_true, if_false]
      rfl
  | _ => exact sameAt_execute keys (p := .pc) id

/-- The records so far follow each other, and the last one leads to the program counter. -/
structure Recorded (told : Array Notice) (m : Machine) : Prop where
  chain : (records told).IsChain fun d e => d.LeadsTo e.pc
  last : ∀ d ∈ (records told).getLast?, d.LeadsTo m.pc

theorem Recorded.of_silent (h : Recorded told m) (hmore : records more = [])
    (hpc : n.pc = m.pc) : Recorded (told ++ more) n := by
  obtain ⟨hchain, hlast⟩ := h
  constructor <;> simpa only [records_append, hmore, List.append_nil, hpc]

theorem Recorded.of_record (h : Recorded told m) (hmore : records more = [t]) (hpc : t.pc = m.pc)
    (ht : t.LeadsTo n.pc) : Recorded (told ++ more) n := by
  constructor
  · rw [records_append, hmore, List.isChain_append]
    refine ⟨h.chain, .singleton t, ?_⟩
    rintro d hd _ ⟨⟩
    exact hpc ▸ h.last d hd
  · rw [records_append, hmore, List.getLast?_concat]
    rintro _ ⟨⟩
    exact ht

theorem Recorded.cycle (h : Recorded told m) (keys : Keyboard) :
    Recorded (told ++ (m.cycle keys).notices) (m.cycle keys).machine := by
  obtain ⟨r, hr⟩ := exists_cyclesTo m keys
  rw [hr.eq]
  cases hr with
  | await | receive | fault => exact h.of_silent rfl rfl
  | @execute t hw hf =>
    have hpc : t.pc = m.pc := (fetch_eq_ok_iff.mp hf).2.2.1
    refine h.of_record ?_ hpc (leadsTo_execute hpc)
    rw [Array.push_eq_append, records_append, Instruction.records_notices]
    rfl

theorem Recorded.tick (h : Recorded told m) : Recorded (told ++ m.tick.notices) m.tick.machine := by
  refine h.of_silent ?_ rfl
  have hnotices : m.tick.notices = beepNotices m.beeping m.soundOn := rfl
  rw [hnotices]
  cases m.beeping <;> cases m.soundOn <;> rfl

theorem Recorded.beats (h : Recorded told m) (beats : List Beat) :
    Recorded (told ++ Beat.told m beats) (Beat.run m beats) := by
  induction beats generalizing m told with
  | nil => exact h.of_silent rfl rfl
  | cons beat beats ih =>
    have hfirst : Recorded (told ++ (beat.operation.apply m).notices)
        (beat.operation.apply m).machine := by
      cases beat with
      | cycle keys => exact h.cycle keys
      | tick => exact h.tick
    have hrest := ih hfirst
    rw [Array.append_assoc] at hrest
    exact hrest

/-! ## The resolution told last -/

/-- The display has the resolution that was told last, or is still in low resolution. -/
def Shown (told : Array Notice) (m : Machine) : Prop :=
  m.display.resolution = (resolutions told).getLast?.getD .low

theorem Shown.of_silent (h : Shown told m) (hmore : resolutions more = [])
    (hn : n.display.resolution = m.display.resolution) : Shown (told ++ more) n := by
  unfold Shown
  rw [resolutions_append, hmore, List.append_nil, hn]
  exact h

theorem Shown.step (h : Shown told m) (hs : Step A m more n) : Shown (told ++ more) n := by
  cases hs with
  | @execute keys i =>
    by_cases hi : ∃ r, i = .setResolution r
    · obtain ⟨r, rfl⟩ := hi
      have hmore : resolutions ((Instruction.setResolution r).notices m.pc) = [r] := rfl
      unfold Shown
      rw [resolutions_append, hmore, List.getLast?_concat]
      rfl
    · have hi := not_exists.mp hi
      refine h.of_silent (Instruction.resolutions_notices hi) ?_
      refine sameAt_execute keys (p := .resolution) fun hw => ?_
      cases i with
      | setResolution r => exact hi r rfl
      | _ => exact hw
  | tick =>
    refine h.of_silent ?_ rfl
    cases m.beeping <;> cases m.soundOn <;> rfl
  | _ => exact h.of_silent rfl rfl

theorem SwitchedOn.resolution (h : m.SwitchedOn) : m.display.resolution = .low := by
  obtain ⟨_, _, _, _, _, hlow, rfl⟩ := h.exists_eq
  exact hlow

/-! ## The trace of a run -/

/-- A cycle that executes an instruction tells of it last, and of nothing else but a change of the
resolution; any other cycle tells of nothing. The records of a run follow each other as the program
counter does, and the resolution that was told last is the one of the display. -/
theorem trace_exact :
    (∀ (m : Machine) (keys : Keyboard) (t : Trace),
      (m.cycle keys).result = .ok (.executed t) →
        (∀ r, t.instruction = .setResolution r →
          (m.cycle keys).events = #[.resolutionSet r, .executed t]) ∧
        ((∀ r, t.instruction ≠ .setResolution r) → (m.cycle keys).events = #[.executed t])) ∧
    (∀ (m : Machine) (keys : Keyboard),
      (∀ t, (m.cycle keys).result ≠ .ok (.executed t)) → (m.cycle keys).events = #[]) ∧
    (∀ (m : Machine) (beats : List Beat),
      (records (Beat.told m beats)).IsChain fun d e => d.LeadsTo e.pc) ∧
    ∀ (m : Machine) (ops : List Operation), m.SwitchedOn →
      (∀ op ∈ ops, ∀ files entropy, op ≠ .reset files entropy) →
        ((Operation.run m ops).display.resolution = .high ↔
          (resolutions (Operation.told m ops)).getLast? = some .high) := by
  refine ⟨?_, ?_, ?_, ?_⟩
  · intro m keys t ht
    obtain ⟨hwaiting, hfetch⟩ := cycle_of_executed ht
    rw [cycle_of_fetch hwaiting hfetch, Reply.events, Array.push_eq_append, Notice.events_append]
    constructor
    · intro r hr
      rw [hr]
      rfl
    · intro hr
      rw [Instruction.events_notices hr]
      rfl
  · intro m keys hnone
    obtain ⟨r, hr⟩ := exists_cyclesTo m keys
    rw [hr.eq] at hnone ⊢
    cases hr with
    | await | receive | fault => rfl
    | @execute t => exact absurd rfl (hnone t)
  · intro m beats
    have hnone : Recorded #[] m := ⟨.nil, by rintro d ⟨⟩⟩
    have hrun := (hnone.beats beats).chain
    rwa [Array.empty_append] at hrun
  · intro m ops hm hr
    have hsteps : Steps (fun _ => True) m (Operation.told m ops) (Operation.run m ops) :=
      Operation.steps_run obeys_true (fun _ _ _ _ _ => trivial) hr
    have hshown : Shown #[] m := hm.resolution
    have hrun := hsteps.keep_told (P := Shown) (fun hs h => h.step hs) hshown
    rw [Array.empty_append] at hrun
    rw [hrun]
    cases (resolutions (Operation.told m ops)).getLast? with
    | none => simp
    | some r => simp

/-- `6001`, the switch to high resolution, and a machine that waits. -/
theorem trace_exact_on_switch :
    ∃ new, create (.standard .superChip) default = .ok new ∧
      let keys := Keypad.released.keyboard
      let plain := (new.loadRom [0x60, 0x01]).machine
      let switch := (new.loadRom [0x00, 0xFF]).machine
      let ops : List Operation := [.loadRom [0x00, 0xFF], .cycle keys]
      (plain.cycle keys).events = #[.executed ⟨0x200, 0x6001, .setByte 0 1⟩] ∧
        (switch.cycle keys).events =
          #[.resolutionSet .high, .executed ⟨0x200, 0x00FF, .setResolution .high⟩] ∧
        (({ plain with waiting := true } : Machine).cycle keys).events = #[] ∧
        (Operation.run new ops).display.resolution = .high ∧
        (resolutions (Operation.told new ops)).getLast? = some .high := by
  obtain ⟨new, hnew⟩ := exists_create_iff.mpr (rfl : (Config.standard .superChip).Accepted)
  have hplaces (high low : UInt8) (h : Rom.hasHeader [high, low] = false) :
      (Config.standard .superChip).Places [high, low] :=
    ⟨rfl, by decide, h, by simp only [List.length]; decide⟩
  have hplain := starting_loadRom (i := .setByte 0 1) hnew (hplaces 0x60 0x01 rfl) fun _ => rfl
  have hswitch :=
    starting_loadRom (i := .setResolution .high) hnew (hplaces 0x00 0xFF rfl) fun _ => rfl
  refine ⟨new, hnew, ?_⟩
  intro keys plain switch ops
  obtain ⟨hexecuted, hsilent, _, hresolution⟩ := trace_exact
  have hset : plain.cycle keys = _ := cycle_of_fetch hplain.waiting hplain.fetch
  have hhigh : switch.cycle keys = _ := cycle_of_fetch hswitch.waiting hswitch.fetch
  have hawait : ({ plain with waiting := true } : Machine).cycle keys = _ :=
    (CyclesTo.await rfl rfl).eq
  have hshows : (Operation.run new ops).display.resolution = .high := by
    have hrun : (Operation.run new ops).display = (switch.cycle keys).machine.display := rfl
    rw [hrun, hhigh]
    rfl
  refine ⟨(hexecuted plain keys _ (by rw [hset]; rfl)).2 ?_,
    (hexecuted switch keys _ (by rw [hhigh]; rfl)).1 .high rfl, hsilent _ keys ?_, hshows,
    (hresolution new ops (.inl ⟨_, _, hnew⟩) (by simp [ops])).mp hshows⟩
  · rintro r ⟨⟩
  · rw [hawait]
    rintro t ⟨⟩

end Machine

end Chip8
