import Chip8.Proofs.Machine.Beep
import Chip8.Proofs.Machine.Cycles
import Chip8.Proofs.Machine.Loading

/-! # The timers

A machine is two machines in one: ticks drive its timers, cycles drive everything else. Only three
instructions connect the two. As long as none of them is executed, it does not matter how ticks and
cycles are interleaved.
-/

namespace Chip8

@[ext] structure Timers where
  delay : UInt8
  sound : UInt8
  beeping : Bool
  deriving DecidableEq, Repr

namespace Timers

def tick (τ : Timers) : Timers := ⟨countDown τ.delay, countDown τ.sound, τ.sound != 0⟩

def notices (τ : Timers) : Array Notice := beepNotices τ.beeping (τ.sound != 0)

def beeps (τ : Timers) : Nat → List Event
  | 0 => []
  | k + 1 => Notice.beeps τ.notices ++ τ.tick.beeps k

end Timers

namespace Notice

def isBeep (n : Notice) : Bool := n.event?.any Event.isBeep

def others (told : Array Notice) : List Notice := told.toList.filter fun n => !n.isBeep

@[simp] theorem others_append (told more : Array Notice) :
    others (told ++ more) = others told ++ others more := by
  simp [others]

end Notice

/-- The timers have a part in what the instruction does. -/
def Instruction.usesTimers : Instruction → Bool
  | .readDelay _ | .setDelay _ | .setSound _ => true
  | _ => false

namespace Machine

variable {m n : Machine} {keys : Keyboard} {i : Instruction} {τ : Timers}

def timers (m : Machine) : Timers := ⟨m.delay, m.sound, m.beeping⟩

def withTimers (m : Machine) (τ : Timers) : Machine :=
  { m with delay := τ.delay, sound := τ.sound, beeping := τ.beeping }

@[simp] theorem timers_withTimers (m : Machine) (τ : Timers) : (m.withTimers τ).timers = τ := rfl

/-! ## Cycles -/

theorem execute_withTimers (h : i.usesTimers = false) :
    (m.withTimers τ).execute keys i = (m.execute keys i).withTimers τ := by
  cases i with
  | readDelay | setDelay | setSound => cases h
  | loadFlags x => simp only [execute, loadedFlags, withTimers]
  | loadAudio => simp only [execute, withTimers]
  | _ => rfl

theorem aside_withTimers (τ : Timers) : Aside fun m => m.withTimers τ where
  waiting _ := rfl
  keyRegister _ := rfl
  pc _ := rfl
  fetch _ := rfl
  advance _ _ := rfl
  receive _ _ _ := rfl

/-- The beat is not a cycle that executes an instruction with an eye on the timers. -/
def Timeless (m : Machine) (beat : Beat) : Prop :=
  ∀ keys t, beat = .cycle keys → (m.cycle keys).result = .ok (.executed t) →
    t.instruction.usesTimers = false

theorem Timeless.tick : Timeless m .tick := by
  rintro keys t ⟨⟩

theorem Timeless.cycle (h : Timeless m (.cycle keys)) (τ : Timers) :
    (m.withTimers τ).cycle keys =
        ⟨(m.cycle keys).result, (m.cycle keys).machine.withTimers τ, (m.cycle keys).notices⟩ ∧
      (m.cycle keys).machine.timers = m.timers := by
  have hcycle (τ : Timers) : (m.withTimers τ).cycle keys = _ :=
    (aside_withTimers τ).cycle fun t ht => execute_withTimers (h keys t rfl ht)
  refine ⟨hcycle τ, ?_⟩
  calc (m.cycle keys).machine.timers
    _ = ((m.cycle keys).machine.withTimers m.timers).timers :=
      congrArg (fun reply => reply.machine.timers) (hcycle m.timers)
    _ = m.timers := timers_withTimers _ _

theorem beeps_cycle (m : Machine) (keys : Keyboard) :
    Notice.beeps (m.cycle keys).notices = [] := by
  obtain ⟨r, hr⟩ := exists_cyclesTo m keys
  rw [hr.eq]
  cases hr with
  | await | receive | fault => rfl
  | execute hw hf =>
    rw [Array.push_eq_append, Notice.beeps_append, Instruction.beeps_notices]
    rfl

theorem others_tick (τ : Timers) : Notice.others τ.notices = [] := by
  unfold Timers.notices
  cases τ.beeping <;> cases τ.sound != 0 <;> rfl

/-! ## Interleavings -/

namespace Beat

/-- The beats are cycles in front of these keyboards, in this order, with `k` ticks among them. -/
inductive Interleaves : List Keyboard → Nat → List Beat → Prop
  | nil : Interleaves [] 0 []
  | cycle {cs : List Keyboard} {k : Nat} {beats : List Beat} (keys : Keyboard)
      (h : Interleaves cs k beats) : Interleaves (keys :: cs) k (.cycle keys :: beats)
  | tick {cs : List Keyboard} {k : Nat} {beats : List Beat} (h : Interleaves cs k beats) :
      Interleaves cs (k + 1) (.tick :: beats)

variable {cs : List Keyboard} {k : Nat} {beats as bs : List Beat}

theorem cycles_withTimers (τ : Timers) (h : Throughout Timeless m (cs.map .cycle)) :
    Throughout Timeless (m.withTimers τ) (cs.map .cycle) ∧
      run (m.withTimers τ) (cs.map .cycle) = (run m (cs.map .cycle)).withTimers τ ∧
      outcomes (m.withTimers τ) (cs.map .cycle) = outcomes m (cs.map .cycle) ∧
      told (m.withTimers τ) (cs.map .cycle) = told m (cs.map .cycle) := by
  induction cs generalizing m with
  | nil => exact ⟨trivial, rfl, rfl, rfl⟩
  | cons keys cs ih =>
    have hfirst : Timeless m (.cycle keys) := h.1
    have hrest : Throughout Timeless (m.cycle keys).machine (cs.map .cycle) := h.2
    obtain ⟨hcycle, _⟩ := hfirst.cycle τ
    have hresult : ((m.withTimers τ).cycle keys).result = (m.cycle keys).result := by rw [hcycle]
    have hmachine :
        ((m.withTimers τ).cycle keys).machine = (m.cycle keys).machine.withTimers τ := by
      rw [hcycle]
    have hnotices : ((m.withTimers τ).cycle keys).notices = (m.cycle keys).notices := by rw [hcycle]
    obtain ⟨hthroughout, hrun, houtcomes, htold⟩ := ih hrest
    rw [← hmachine] at hthroughout hrun houtcomes htold
    refine ⟨⟨?_, hthroughout⟩, hrun, congrArg₂ List.cons hresult houtcomes,
      congrArg₂ Array.append hnotices htold⟩
    rintro _ t ⟨⟩ ht
    exact hfirst keys t rfl (hresult ▸ ht)

/-- Ticks cannot make an instruction look at the timers that does not do so without them. -/
theorem Interleaves.alone (hb : Interleaves cs k beats) (h : Throughout Timeless m beats) :
    Throughout Timeless m (cs.map .cycle) := by
  induction hb generalizing m with
  | nil => trivial
  | cycle keys _ ih => exact ⟨h.1, ih h.2⟩
  | tick _ ih => exact (cycles_withTimers m.timers (ih h.2)).1

/-- The ticks of a run act on the timers, and its cycles on everything else. -/
theorem Interleaves.factor (hb : Interleaves cs k beats)
    (h : Throughout Timeless m (cs.map .cycle)) :
    run m beats = (run m (cs.map .cycle)).withTimers (Timers.tick^[k] m.timers) ∧
      outcomes m beats = outcomes m (cs.map .cycle) ∧
      Notice.beeps (told m beats) = m.timers.beeps k ∧
      Notice.others (told m beats) = Notice.others (told m (cs.map .cycle)) := by
  -- A cycle in front leaves the timers to the ticks behind it; a tick in front is not seen by the
  -- cycles behind it.
  induction hb generalizing m with
  | nil => exact ⟨rfl, rfl, rfl, rfl⟩
  | @cycle cs k beats keys _ ih =>
    have hfirst : Timeless m (.cycle keys) := h.1
    have hrest : Throughout Timeless (m.cycle keys).machine (cs.map .cycle) := h.2
    obtain ⟨hrun, houtcomes, hbeeps, hothers⟩ := ih hrest
    have htimers : (m.cycle keys).machine.timers = m.timers := (hfirst.cycle m.timers).2
    have htold (beats : List Beat) : told m (.cycle keys :: beats) =
        (m.cycle keys).notices ++ told (m.cycle keys).machine beats := rfl
    refine ⟨?_, congrArg ((m.cycle keys).result :: ·) houtcomes, ?_, ?_⟩
    · rw [← htimers]
      exact hrun
    · rw [htold, Notice.beeps_append, beeps_cycle, List.nil_append, ← htimers]
      exact hbeeps
    · rw [List.map_cons, htold, htold, Notice.others_append, Notice.others_append]
      exact congrArg _ hothers
  | @tick cs k beats _ ih =>
    obtain ⟨hthroughout, hrun', houtcomes', htold'⟩ := cycles_withTimers m.timers.tick h
    obtain ⟨hrun, houtcomes, hbeeps, hothers⟩ := ih hthroughout
    have htold : told m (.tick :: beats) =
        m.timers.notices ++ told (m.withTimers m.timers.tick) beats := rfl
    refine ⟨?_, houtcomes.trans houtcomes', ?_, ?_⟩
    · exact hrun.trans (by rw [hrun']; rfl)
    · rw [htold, Notice.beeps_append, hbeeps]
      rfl
    · rw [htold, Notice.others_append, others_tick, List.nil_append, hothers, htold']

end Beat

/-- All interleavings of the same cycles with as many ticks come to the same, as long as one of
them executes no instruction with an eye on the timers: the machine that they leave behind, the
outcomes of the cycles, the beep notifications and all the other notices. -/
theorem ticks_commute_with_cycles {cs : List Keyboard} {k : Nat} {as bs : List Beat}
    (ha : Beat.Interleaves cs k as) (hb : Beat.Interleaves cs k bs)
    (h : Beat.Throughout Timeless m as) :
    Beat.run m as = Beat.run m bs ∧ Beat.outcomes m as = Beat.outcomes m bs ∧
      Notice.beeps (Beat.told m as) = Notice.beeps (Beat.told m bs) ∧
      Notice.others (Beat.told m as) = Notice.others (Beat.told m bs) := by
  have halone := ha.alone h
  obtain ⟨hrun, houtcomes, hbeeps, hothers⟩ := ha.factor halone
  obtain ⟨hrun', houtcomes', hbeeps', hothers'⟩ := hb.factor halone
  exact ⟨hrun.trans hrun'.symm, houtcomes.trans houtcomes'.symm, hbeeps.trans hbeeps'.symm,
    hothers.trans hothers'.symm⟩

theorem ticks_commute_with_setByte :
    ∃ new, create (.standard .chip8) default = .ok new ∧
      let m := (new.loadRom [0x60, 0x01]).machine.withTimers ⟨0, 1, false⟩
      let keys := Keypad.released.keyboard
      (m.cycle keys).result = .ok (.executed ⟨0x200, 0x6001, .setByte 0 1⟩) ∧
        Beat.run m [.tick, .cycle keys, .tick] = Beat.run m [.tick, .tick, .cycle keys] ∧
        Notice.beeps (Beat.told m [.tick, .cycle keys, .tick]) =
          Notice.beeps (Beat.told m [.tick, .tick, .cycle keys]) ∧
        Notice.beeps (Beat.told m [.tick, .tick, .cycle keys]) = [.beepStarted, .beepStopped] := by
  obtain ⟨new, hnew⟩ := exists_create_iff.mpr (rfl : (Config.standard .chip8).Accepted)
  have hplaces : (Config.standard .chip8).Places [0x60, 0x01] :=
    ⟨rfl, by decide, by decide, by decide⟩
  have hstarting := starting_loadRom (i := .setByte 0 1) hnew hplaces fun _ => rfl
  refine ⟨new, hnew, ?_⟩
  intro m keys
  have hcycle : (m.cycle keys).result = .ok (.executed ⟨0x200, 0x6001, .setByte 0 1⟩) := by
    have hwaiting : m.waiting = false := hstarting.waiting
    have hfetch : m.fetch = .ok ⟨0x200, 0x6001, .setByte 0 1⟩ := hstarting.fetch
    rw [cycle_of_fetch hwaiting hfetch]
  have halone : Beat.Throughout Timeless m [.cycle keys] := by
    refine ⟨?_, trivial⟩
    rintro _ t ⟨⟩ ht
    rw [hcycle] at ht
    cases ht
    rfl
  have hbefore : Beat.Throughout Timeless m [.cycle keys, .tick, .tick] :=
    ⟨halone.1, .tick, .tick, trivial⟩
  have hfirst : Beat.Interleaves [keys] 2 [.cycle keys, .tick, .tick] :=
    .cycle keys (.tick (.tick .nil))
  have hbetween : Beat.Interleaves [keys] 2 [.tick, .cycle keys, .tick] :=
    .tick (.cycle keys (.tick .nil))
  have hlast : Beat.Interleaves [keys] 2 [.tick, .tick, .cycle keys] :=
    .tick (.tick (.cycle keys .nil))
  have htwo : m.timers.beeps 2 = [.beepStarted, .beepStopped] := by
    rw [timers_withTimers]
    decide
  obtain ⟨hrun, _, hbeeps, _⟩ := ticks_commute_with_cycles hfirst hbetween hbefore
  obtain ⟨hrun', _, hbeeps', _⟩ := ticks_commute_with_cycles hfirst hlast hbefore
  exact ⟨hcycle, hrun.symm.trans hrun', hbeeps.symm.trans hbeeps',
    (hlast.factor halone).2.2.1.trans htwo⟩

end Machine

end Chip8
