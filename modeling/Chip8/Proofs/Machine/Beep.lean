import Mathlib.Data.List.Chain
import Chip8.Proofs.Machine.Beat

/-! # The beep

Only ticks start and stop the beep, and they tell the host each time. Its notifications alternate
whatever programs do to the sound timer in between, and a machine that is left alone beeps for as
many ticks as the sound timer says.
-/

namespace Chip8

def Event.isBeep : Event → Bool
  | .beepStarted | .beepStopped => true
  | _ => false

namespace Notice

def beeps (told : Array Notice) : List Event := (events told).toList.filter Event.isBeep

@[simp] theorem beeps_append (told more : Array Notice) :
    beeps (told ++ more) = beeps told ++ beeps more := by
  simp [beeps]

end Notice

theorem Instruction.beeps_notices (i : Instruction) (pc : UInt16) :
    Notice.beeps (i.notices pc) = [] := by
  cases i <;> rfl

namespace Machine

open Notice

variable {A : Instruction → Prop} {m n : Machine} {told more : Array Notice}

/-- The beep notifications so far take turns, beginning with a start, and the last one says what
the machine does. -/
structure Announced (told : Array Notice) (m : Machine) : Prop where
  turns : (beeps told).IsChain (· ≠ ·)
  first : ∀ e ∈ (beeps told).head?, e = .beepStarted
  last : m.beeping = true ↔ (beeps told).getLast? = some .beepStarted

/-- The machine was switched on or reset just now. -/
def SwitchedOn (m : Machine) : Prop :=
  (∃ c entropy, create c entropy = .ok m) ∨
    ∃ (old : Machine) (files : Files) (entropy : Random.Key),
      m = (old.reset files entropy).machine

/-- Such a machine is in low resolution, and all but the configuration, the memory, the display, the
file and the generator is as in every new machine. -/
theorem SwitchedOn.exists_eq (h : m.SwitchedOn) :
    ∃ (config : Config) (memory : Memory) (display : Display) (rom : Option String)
      (random : Random),
      display.resolution = .low ∧ m = { config, memory, display, rom, random } := by
  rcases h with ⟨c, entropy, hc⟩ | ⟨old, files, entropy, rfl⟩
  · obtain ⟨_, memory, _, rfl⟩ := create_eq_ok_iff.mp hc
    exact ⟨c, memory.loadFonts, .blank c.planes, none, .start c.seed entropy, rfl, rfl⟩
  · have hdisplay : old.display.initialise.resolution = .low := rfl
    unfold reset
    split
    · exact ⟨_, _, _, _, _, hdisplay, rfl⟩
    · next name _ =>
      obtain ⟨memory, rom, hload⟩ := exists_machine_loadFile (old.restart entropy) files name
      exact ⟨_, memory, _, rom, _, hdisplay, hload⟩

theorem SwitchedOn.beeping (h : m.SwitchedOn) : m.beeping = false := by
  obtain ⟨_, _, _, _, _, _, rfl⟩ := h.exists_eq
  rfl

theorem SwitchedOn.announced (h : m.SwitchedOn) : Announced #[] m where
  turns := .nil
  first := by rintro e ⟨⟩
  last := by simp [h.beeping, beeps, events]

theorem Announced.of_silent (h : Announced told m) (hmore : beeps more = [])
    (hbeeping : n.beeping = m.beeping) : Announced (told ++ more) n := by
  obtain ⟨hturns, hfirst, hlast⟩ := h
  constructor <;> simpa only [beeps_append, hmore, List.append_nil, hbeeping]

theorem Announced.of_beep {e : Event} (h : Announced told m) (hmore : beeps more = [e])
    (hturn : (beeps told).getLast? ≠ some e) (hfirst : beeps told = [] → e = .beepStarted)
    (hbeeping : n.beeping = true ↔ e = .beepStarted) : Announced (told ++ more) n := by
  constructor
  · rw [beeps_append, hmore, List.isChain_append]
    refine ⟨h.turns, .singleton e, ?_⟩
    rintro x hx y ⟨⟩ rfl
    exact hturn hx
  · rw [beeps_append, hmore]
    intro x hx
    cases hbeeps : beeps told with
    | nil =>
      rw [hbeeps] at hx
      cases hx
      exact hfirst hbeeps
    | cons y ys =>
      rw [hbeeps] at hx
      refine h.first x ?_
      rwa [hbeeps]
  · rw [beeps_append, hmore, List.getLast?_concat, Option.some_inj]
    exact hbeeping

theorem Announced.tick (h : Announced told m) :
    Announced (told ++ beepNotices m.beeping m.soundOn) m.tick.machine := by
  have hafter : m.tick.machine.beeping = m.soundOn := rfl
  cases hbefore : m.beeping <;> cases hsound : m.soundOn
  case false.false | true.true =>
    exact h.of_silent rfl (by rw [hafter, hsound, hbefore])
  case false.true =>
    refine h.of_beep (e := .beepStarted) rfl (fun hlast => ?_) (fun _ => rfl) ?_
    · rw [h.last.mpr hlast] at hbefore
      cases hbefore
    · rw [hafter, hsound]
      exact iff_of_true rfl rfl
  case true.false =>
    have hlast : (beeps told).getLast? = some .beepStarted := h.last.mp hbefore
    refine h.of_beep (e := .beepStopped) rfl ?_ (fun hnil => ?_) ?_
    · rw [hlast]
      simp
    · rw [hnil] at hlast
      cases hlast
    · rw [hafter, hsound]
      simp

theorem Announced.step (h : Announced told m) (hs : Step A m more n) :
    Announced (told ++ more) n := by
  cases hs with
  | execute keys => exact h.of_silent (Instruction.beeps_notices _ _) (beeping_execute keys _)
  | tick => exact h.tick
  | _ => exact h.of_silent rfl rfl

theorem Announced.steps (h : Announced told m) (hs : Steps A m more n) :
    Announced (told ++ more) n :=
  hs.keep_told (fun hs h => Announced.step h hs) h

/-! ## Ticks in a row -/

/-- What tick `j` of a row tells, counted from zero, if the sound timer stands at `t` before the
row and `beeping` says whether the beep is on. -/
def rowNotices (t : Nat) (beeping : Bool) (j : Nat) : Array Notice :=
  if j = 0 ∧ 0 < t ∧ beeping = false then #[.event .beepStarted]
  else if j = t ∧ (0 < t ∨ beeping = true) then #[.event .beepStopped]
  else #[]

theorem toNat_countDown (t : UInt8) : (countDown t).toNat = t.toNat - 1 := by
  unfold countDown
  split
  · next h => rw [h]; rfl
  · next h =>
    have hpos : t.toNat ≠ 0 := fun h' => h (UInt8.toNat_inj.mp h')
    have hone : (1 : UInt8) ≤ t := UInt8.le_iff_toNat_le.mpr (Nat.one_le_iff_ne_zero.mpr hpos)
    rw [UInt8.toNat_sub_of_le _ _ hone]
    rfl

theorem soundOn_eq (m : Machine) : m.soundOn = decide (0 < m.sound.toNat) := by
  rw [soundOn, bne, Bool.eq_iff_iff]
  simp [← UInt8.toNat_inj, Nat.pos_iff_ne_zero]

theorem notices_tick (m : Machine) : m.tick.notices = rowNotices m.sound.toNat m.beeping 0 := by
  have hnotices : m.tick.notices = beepNotices m.beeping m.soundOn := rfl
  rw [hnotices, soundOn_eq]
  rcases Nat.eq_zero_or_pos m.sound.toNat with ht | ht
  · cases m.beeping <;> simp [beepNotices, rowNotices, ht]
  · cases m.beeping <;> simp [beepNotices, rowNotices, ht, ht.ne]

theorem rowNotices_succ (t : Nat) (beeping : Bool) (j : Nat) :
    rowNotices t beeping (j + 1) = rowNotices (t - 1) (decide (0 < t)) j := by
  have hstart : ¬ (j = 0 ∧ 0 < t - 1 ∧ decide (0 < t) = false) := by
    rintro ⟨_, ht, hzero⟩
    rw [decide_eq_false_iff_not] at hzero
    omega
  have hstop : (j = t - 1 ∧ (0 < t - 1 ∨ decide (0 < t) = true)) ↔
      j + 1 = t ∧ (0 < t ∨ beeping = true) := by
    rw [decide_eq_true_eq]
    omega
  simp only [rowNotices, if_neg hstart, hstop, Nat.add_one_ne_zero, false_and, if_false]

theorem notices_ticks (m : Machine) (k : Nat) :
    (Beat.replies m (List.replicate k .tick)).map Reply.notices =
      (List.range k).map (rowNotices m.sound.toNat m.beeping) := by
  induction k generalizing m with
  | zero => rfl
  | succ k ih =>
    have hsound : m.tick.machine.sound.toNat = m.sound.toNat - 1 := toNat_countDown m.sound
    have hbeeping : m.tick.machine.beeping = decide (0 < m.sound.toNat) := soundOn_eq m
    have hrest := ih m.tick.machine
    rw [hsound, hbeeping] at hrest
    rw [List.range_succ_eq_map, List.map_cons, List.map_map, ← notices_tick]
    refine congrArg (m.tick.notices :: ·) (hrest.trans ?_)
    exact List.map_congr_left fun j _ => (rowNotices_succ _ _ j).symm

theorem timers_ticks (m : Machine) (k : Nat) :
    (Beat.run m (List.replicate k .tick)).sound.toNat = m.sound.toNat - k ∧
      (Beat.run m (List.replicate k .tick)).delay.toNat = m.delay.toNat - k := by
  induction k generalizing m with
  | zero => exact ⟨rfl, rfl⟩
  | succ k ih =>
    have hsound : m.tick.machine.sound.toNat = m.sound.toNat - 1 := toNat_countDown m.sound
    have hdelay : m.tick.machine.delay.toNat = m.delay.toNat - 1 := toNat_countDown m.delay
    have hrest := ih m.tick.machine
    rw [hsound, hdelay, Nat.sub_sub, Nat.sub_sub, Nat.add_comm 1 k] at hrest
    exact hrest

/-- The beep notifications of a run take turns, beginning with a start, and say at any time what
the machine does. Over ticks in a row, a beep starts with the first one unless there is one
already or the sound timer is at rest, and it stops with the first one after the sound timer has
run down. -/
theorem beep_edge_triggered :
    (∀ (m : Machine) (ops : List Operation), m.SwitchedOn →
      (∀ op ∈ ops, ∀ files entropy, op ≠ .reset files entropy) →
      let told := beeps (Operation.told m ops)
      told.IsChain (· ≠ ·) ∧ (∀ e ∈ told.head?, e = .beepStarted) ∧
        ((Operation.run m ops).beeping = true ↔ told.getLast? = some .beepStarted)) ∧
    ∀ (m : Machine) (k : Nat),
      let ticks := List.replicate k Beat.tick
      (Beat.replies m ticks).map Reply.notices =
          (List.range k).map (rowNotices m.sound.toNat m.beeping) ∧
        (Beat.run m ticks).sound.toNat = m.sound.toNat - k ∧
        (Beat.run m ticks).delay.toNat = m.delay.toNat - k := by
  refine ⟨?_, fun m k => ⟨notices_ticks m k, timers_ticks m k⟩⟩
  intro m ops hm hr
  have hsteps : Steps (fun _ => True) m (Operation.told m ops) (Operation.run m ops) :=
    Operation.steps_run obeys_true (fun _ _ _ _ _ => trivial) hr
  have hannounced := hm.announced.steps hsteps
  rw [Array.empty_append] at hannounced
  exact ⟨hannounced.turns, hannounced.first, hannounced.last⟩

theorem beep_of_one_tick :
    ∃ m, create (.standard .chip8) default = .ok m ∧
      let ops : List Operation := [.instruction Keypad.released.keyboard (.setByte 0 1),
        .instruction Keypad.released.keyboard (.setSound 0), .tick, .tick, .tick]
      beeps (Operation.told m ops) = [.beepStarted, .beepStopped] ∧
        ((Operation.run m ops).beeping = true ↔
          (beeps (Operation.told m ops)).getLast? = some .beepStarted) := by
  obtain ⟨m, hm⟩ := exists_create_iff.mpr (rfl : (Config.standard .chip8).Accepted)
  refine ⟨m, hm, ?_, (beep_edge_triggered.1 m _ (.inl ⟨_, _, hm⟩) ?_).2.2⟩
  · obtain ⟨_, memory, _, rfl⟩ := create_eq_ok_iff.mp hm
    have hone {v : Registers} : (v.update 0 1).get 0 = 1 := Registers.get_update v 0 0 1
    simp only [Operation.told, Operation.apply, Reply.map, perform, execute, Instruction.notices,
      Machine.tick, soundOn, countDown, hone]
    rfl
  · simp

end Machine

end Chip8
