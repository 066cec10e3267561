import Mathlib.Order.Bounds.Basic
import Chip8.Proofs.Machine.Footprint
import Chip8.Proofs.Machine.Timers

/-! # Frames

A frame runs cycles up to the first machine that it cannot go on with: the budget is used up, the
machine has to wait for the next frame, or its cycle fails. Only in the last case the timers are
not ticked.
-/

namespace Chip8.Machine

variable {m : Machine} {keys : Nat → Keyboard} {budget i k : Nat} {e : Fault}

/-- The machine after `i` cycles, whatever comes of them, each in front of its own keyboard. -/
def after (m : Machine) (keys : Nat → Keyboard) : Nat → Machine
  | 0 => m
  | i + 1 => ((m.after keys i).cycle (keys i)).machine

def toldAfter (m : Machine) (keys : Nat → Keyboard) : Nat → Array Notice
  | 0 => #[]
  | i + 1 => m.toldAfter keys i ++ ((m.after keys i).cycle (keys i)).notices

/-- The machine has ended, or its changed display is to be presented before it goes on. -/
def Stopped (m : Machine) : Prop :=
  m.finished = true ∨ m.display.resolution = .low ∧ m.redraw = true

/-- A frame of `budget` cycles cannot run more than `i` of them. -/
def Ends (m : Machine) (keys : Nat → Keyboard) (budget i : Nat) : Prop :=
  i = budget ∨ (m.after keys i).Stopped ∨
    ∃ e, ((m.after keys i).cycle (keys i)).result = .error e

/-- The frame comes to its next cycle after `k` of them, and that one fails. -/
def FaultsAt (m : Machine) (keys : Nat → Keyboard) (budget k : Nat) (e : Fault) : Prop :=
  k < budget ∧ ¬ (m.after keys k).Stopped ∧ ((m.after keys k).cycle (keys k)).result = .error e

theorem resting_iff : m.resting = true ↔ m.Stopped := by
  simp [resting, Stopped]

theorem resting_eq_false_iff : m.resting = false ↔ ¬ m.Stopped := by
  rw [← resting_iff, Bool.not_eq_true]

theorem beeps_toldAfter : Notice.beeps (m.toldAfter keys i) = [] := by
  induction i with
  | zero => rfl
  | succ i ih => rw [toldAfter, Notice.beeps_append, ih, beeps_cycle, List.append_nil]

/-! ## Where the cycles end -/

theorem isLeast_ends (h : m.Ends keys budget i) (hbefore : ∀ j < i, ¬ m.Ends keys budget j) :
    IsLeast {i | m.Ends keys budget i} i :=
  ⟨h, fun j hj => Nat.le_of_not_lt fun hlt => hbefore j hlt hj⟩

theorem not_ends {o : Outcome} (hi : i < budget) (hm : ¬ (m.after keys i).Stopped)
    (hr : ((m.after keys i).cycle (keys i)).result = .ok o) : ¬ m.Ends keys budget i := by
  rintro (rfl | hstopped | ⟨e, he⟩)
  · exact Nat.lt_irrefl _ hi
  · exact hm hstopped
  · rw [hr] at he
    cases he

def ComesTo (m : Machine) (keys : Nat → Keyboard) (budget k : Nat) (r : Reply Nat) : Prop :=
  (∃ e, m.FaultsAt keys budget k e ∧ r = ⟨.error e, m.after keys k, m.toldAfter keys k⟩) ∨
    (∀ e, ¬ m.FaultsAt keys budget k e) ∧ r = ⟨.ok k, m.after keys k, m.toldAfter keys k⟩

/-- The cycles that are left once `i` of them have run, none of which was the last. -/
theorem exists_comesTo {left : Nat} (hbudget : i + left = budget)
    (hbefore : ∀ j < i, ¬ m.Ends keys budget j) :
    ∃ k, IsLeast {i | m.Ends keys budget i} k ∧
      m.ComesTo keys budget k (runCycles keys left i (m.after keys i) (m.toldAfter keys i)) := by
  induction left generalizing i with
  | zero =>
    have hno (e : Fault) : ¬ m.FaultsAt keys budget i e :=
      fun he => Nat.ne_of_lt he.1 hbudget
    exact ⟨i, isLeast_ends (Or.inl hbudget) hbefore, Or.inr ⟨hno, rfl⟩⟩
  | succ left ih =>
    by_cases hm : (m.after keys i).Stopped
    · have hno (e : Fault) : ¬ m.FaultsAt keys budget i e := fun he => he.2.1 hm
      refine ⟨i, isLeast_ends (Or.inr (Or.inl hm)) hbefore, Or.inr ⟨hno, ?_⟩⟩
      rw [runCycles, if_pos (resting_iff.mpr hm)]
    · have hresting := resting_eq_false_iff.mpr hm
      cases hr : ((m.after keys i).cycle (keys i)).result with
      | error e =>
        have hlt : i < budget := by omega
        refine ⟨i, isLeast_ends (Or.inr (Or.inr ⟨e, hr⟩)) hbefore, Or.inl ⟨e, ⟨hlt, hm, hr⟩, ?_⟩⟩
        simp only [runCycles, hresting, Bool.false_eq_true, if_false, cycle_of_error hr,
          Array.append_empty]
      | ok o =>
        rw [runCycles_of_ok hresting hr]
        refine ih (by omega) fun j hj => ?_
        rcases Nat.lt_succ_iff_lt_or_eq.mp hj with hj | rfl
        · exact hbefore j hj
        · exact not_ends (by omega) hm hr

/-! ## What a frame draws -/

def Redraws (m : Machine) (held : Keyboard) : Prop :=
  ∃ t, (m.cycle held).result = .ok (.executed t) ∧ (m.cycle held).machine.redraw = true

theorem low_cycle {held : Keyboard} (hm : m.display.resolution = .low)
    (h : ∀ t, (m.cycle held).result = .ok (.executed t) →
      t.instruction ≠ .setResolution .high) :
    (m.cycle held).machine.display.resolution = .low := by
  obtain ⟨r, hr⟩ := exists_cyclesTo m held
  rw [hr.eq] at h ⊢
  cases hr with
  | await | receive | fault => exact hm
  | @execute t hw hf =>
    have ht : t.instruction ≠ .setResolution .high := h t rfl
    by_cases hi : t.instruction = .setResolution .low
    · rw [hi]
      rfl
    · refine (sameAt_execute held (p := .resolution) fun hwrites => ?_).trans hm
      cases hset : t.instruction with
      | setResolution r => cases r <;> contradiction
      | _ =>
        rw [hset] at hwrites
        exact hwrites

theorem low_after (hm : m.display.resolution = .low)
    (h : ∀ i < k, ∀ t, ((m.after keys i).cycle (keys i)).result = .ok (.executed t) →
      t.instruction ≠ .setResolution .high) (hi : i ≤ k) :
    (m.after keys i).display.resolution = .low := by
  induction i with
  | zero => exact hm
  | succ i ih => exact low_cycle (ih (Nat.le_of_succ_le hi)) (h i hi)

theorem redraw_after (hk : IsLeast {i | m.Ends keys budget i} k)
    (hlow : ∀ i ≤ k, (m.after keys i).display.resolution = .low) (hi : i < k) :
    (m.after keys i).redraw = false := by
  refine Bool.eq_false_iff.mpr fun hredraw => ?_
  have hstopped : (m.after keys i).Stopped := Or.inr ⟨hlow i hi.le, hredraw⟩
  exact absurd (hk.2 (Or.inr (Or.inl hstopped))) (Nat.not_le.mpr hi)

theorem redraws_last (hk : IsLeast {i | m.Ends keys budget i} k)
    (hlow : ∀ i ≤ k, (m.after keys i).display.resolution = .low) (hi : i < k)
    (h : (m.after keys i).Redraws (keys i)) : i + 1 = k := by
  obtain ⟨t, _, hredraw⟩ := h
  by_contra hne
  have hclear : (m.after keys (i + 1)).redraw = false := redraw_after hk hlow (by omega)
  exact absurd hredraw (Bool.eq_false_iff.mp hclear)

/-- A frame runs the least number of cycles after which its budget is used up, the machine has
stopped or its next cycle fails. If the machine could go on with a cycle and that one fails, the
frame fails at this machine, whose timers are not ticked; in any other case the timers are ticked
once. A frame that begins and stays in low resolution executes at most one instruction that changes
the display, as the last one of the frame. -/
theorem frame_runs_to_first_stop (m : Machine) (keys : Nat → Keyboard) :
    ∃ k, IsLeast {i | m.Ends keys m.config.cyclesPerFrame i} k ∧
      (∀ e, m.FaultsAt keys m.config.cyclesPerFrame k e →
        m.frame keys = ⟨.error e, m.after keys k, m.toldAfter keys k⟩) ∧
      ((∀ e, ¬ m.FaultsAt keys m.config.cyclesPerFrame k e) →
        m.frame keys = ⟨.ok k, (m.after keys k).tick.machine,
          m.toldAfter keys k ++ (m.after keys k).tick.notices⟩) ∧
      Notice.beeps (m.toldAfter keys k) = [] ∧
      (m.display.resolution = .low →
        (∀ i < k, ∀ t, ((m.after keys i).cycle (keys i)).result = .ok (.executed t) →
          t.instruction ≠ .setResolution .high) →
        (∀ i < k, (m.after keys i).redraw = false) ∧
          {i | i < k ∧ (m.after keys i).Redraws (keys i)}.Subsingleton ∧
          ∀ i < k, (m.after keys i).Redraws (keys i) → i + 1 = k) := by
  obtain ⟨k, hk, hrun⟩ : ∃ k, _ ∧
      m.ComesTo keys _ k (runCycles keys m.config.cyclesPerFrame 0 m #[]) :=
    exists_comesTo (Nat.zero_add _) nofun
  refine ⟨k, hk, ?_, ?_, beeps_toldAfter, ?_⟩
  · intro e he
    rcases hrun with ⟨e', he', hrun⟩ | ⟨hnone, _⟩
    · obtain rfl : e' = e := by simpa [he'.2.2] using he.2.2
      simp only [frame, hrun]
    · exact absurd he (hnone e)
  · intro hnone
    rcases hrun with ⟨e, he, _⟩ | ⟨_, hrun⟩
    · exact absurd he (hnone e)
    · simp only [frame, hrun]
  · intro hm hno
    have hlow (i : Nat) (hi : i ≤ k) : (m.after keys i).display.resolution = .low :=
      low_after hm hno hi
    have hlast {i : Nat} (hi : i < k) (h : (m.after keys i).Redraws (keys i)) : i + 1 = k :=
      redraws_last hk hlow hi h
    refine ⟨fun i => redraw_after hk hlow, ?_, fun i => hlast⟩
    rintro i ⟨hi, hi'⟩ j ⟨hj, hj'⟩
    exact Nat.succ_injective ((hlast hi hi').trans (hlast hj hj').symm)

theorem isLeast_ends_of_clear {c : Config} {t : Trace} (keys : Nat → Keyboard)
    (hm : Starting c t m) (ht : t.instruction = .clear) (hlow : m.display.resolution = .low)
    (hc : 0 < c.cyclesPerFrame) :
    m.Redraws (keys 0) ∧ (m.after keys 1).Stopped ∧
      IsLeast {i | m.Ends keys c.cyclesPerFrame i} 1 := by
  have hcycle : m.cycle (keys 0) = _ := cycle_of_fetch hm.waiting hm.fetch
  have hredraws : m.Redraws (keys 0) := ⟨t, by rw [hcycle], by rw [hcycle, ht]; rfl⟩
  have hstopped : (m.after keys 1).Stopped := by
    obtain ⟨_, _, hredraw⟩ := hredraws
    refine Or.inr ⟨low_cycle hlow fun t' ht' => ?_, hredraw⟩
    have ht' : (m.cycle (keys 0)).result = .ok (.executed t') := ht'
    rw [hcycle] at ht'
    cases ht'
    rw [ht]
    exact nofun
  refine ⟨hredraws, hstopped, isLeast_ends (Or.inr (Or.inl hstopped)) fun j hj => ?_⟩
  obtain rfl : j = 0 := by omega
  exact not_ends hc (resting_eq_false_iff.mp hm.resting) (by rw [after, hcycle])

theorem isLeast_ends_of_awaitKey {c : Config} {t : Trace} {x : Register} {key : UInt8}
    (keys : Nat → Keyboard) (hm : Starting c t m) (ht : t.instruction = .awaitKey x)
    (hc : c.cyclesPerFrame = 3) (hnone : (keys 1).pressed? = none)
    (hkey : (keys 2).pressed? = some key) :
    IsLeast {i | m.Ends keys c.cyclesPerFrame i} 3 ∧ (m.after keys 3).waiting = false ∧
      (m.after keys 3).v = m.v.update x key := by
  have hfirst : m.cycle (keys 0) = _ := cycle_of_fetch hm.waiting hm.fetch
  have hwaits : m.after keys 1 =
      { m.advance t.instruction.size with waiting := true, keyRegister := x } := by
    rw [after, after, hfirst, ht]
    rfl
  have hsecond : (m.after keys 1).cycle (keys 1) = ⟨.ok .awaitingKey, m.after keys 1, #[]⟩ :=
    (CyclesTo.await (by rw [hwaits]) hnone).eq
  have hstill : m.after keys 2 = m.after keys 1 := by rw [after, hsecond]
  have hthird : (m.after keys 2).cycle (keys 2) = _ :=
    (CyclesTo.receive (by rw [hstill, hwaits]) hkey).eq
  have hgoing : ¬ (m.after keys 1).Stopped := by
    rw [← resting_eq_false_iff, hwaits]
    exact hm.resting
  refine ⟨isLeast_ends (Or.inl hc.symm) fun j hj => ?_, ?_, ?_⟩
  · match j with
    | 0 => exact not_ends (by omega) (resting_eq_false_iff.mp hm.resting) (by rw [after, hfirst])
    | 1 => exact not_ends (by omega) hgoing (by rw [hsecond])
    | 2 => exact not_ends (by omega) (by rwa [hstill]) (by rw [hthird])
  · rw [after, hthird]
  · rw [after, hthird, hstill, hwaits]
    rfl

/-- A frame that is over with `00E0`, one whose keyboard changes while the machine waits for a key,
and one that starts at an odd address. -/
theorem frame_runs_to_first_stop_on_programs :
    ∃ new slow odd, create (.standard .chip8) default = .ok new ∧
      create { Config.standard .chip8 with cyclesPerFrame := 3 } default = .ok slow ∧
      create { Config.standard .chip8 with startAddress := 0x201 } default = .ok odd ∧
      let clears := (new.loadRom [0x00, 0xE0]).machine
      let waits := (slow.loadRom [0xF0, 0x0A, 0x61, 0x01, 0x61, 0x01]).machine
      let up : Nat → Keyboard := fun _ => Keypad.released.keyboard
      let pressed : Nat → Keyboard := fun i => (Keypad.released.set 5 (i == 2)).keyboard
      (clears.Redraws (up 0) ∧
        clears.frame up = ⟨.ok 1, (clears.after up 1).tick.machine,
          clears.toldAfter up 1 ++ (clears.after up 1).tick.notices⟩) ∧
        ((waits.frame pressed).result = .ok 3 ∧ (waits.frame pressed).machine.waiting = false ∧
          (waits.frame pressed).machine.v.get 0 = 5 ∧
          (waits.frame pressed).machine.v.get 1 = 0) ∧
        odd.frame up = ⟨.error (.misalignedFetch 0x201), odd, #[]⟩ := by
  obtain ⟨odd, hodd⟩ := exists_create_iff.mpr
    (rfl : Config.Accepted { Config.standard .chip8 with startAddress := 0x201 })
  obtain ⟨slow, hslow⟩ := exists_create_iff.mpr
    (rfl : Config.Accepted { Config.standard .chip8 with cyclesPerFrame := 3 })
  obtain ⟨new, hnew⟩ := exists_create_iff.mpr (rfl : (Config.standard .chip8).Accepted)
  refine ⟨new, slow, odd, hnew, hslow, hodd, ?_⟩
  intro clears waits up pressed
  refine ⟨?_, ?_, ?_⟩
  · have hplaces : (Config.standard .chip8).Places [0x00, 0xE0] :=
      ⟨rfl, by decide, by decide, by decide⟩
    have hstarting : Starting _ _ clears := starting_loadRom (i := .clear) hnew hplaces fun _ => rfl
    have hlow : clears.display.resolution = .low := by
      have hloaded : clears = _ := (loadRom_of_places hnew hplaces).2
      obtain ⟨_, memory, _, rfl⟩ := create_eq_ok_iff.mp hnew
      rw [hloaded]
      rfl
    obtain ⟨hredraws, hstopped, hleast⟩ :=
      isLeast_ends_of_clear up hstarting rfl hlow (by decide)
    obtain ⟨k, hk, _, hok, _⟩ := frame_runs_to_first_stop clears up
    rw [hstarting.config] at hk hok
    obtain rfl : k = 1 := hk.unique hleast
    exact ⟨hredraws, hok fun e he => he.2.1 hstopped⟩
  · have hplaces : Config.Places { Config.standard .chip8 with cyclesPerFrame := 3 }
        [0xF0, 0x0A, 0x61, 0x01, 0x61, 0x01] := ⟨rfl, by decide, by decide, by decide⟩
    have hstarting : Starting _ _ waits :=
      starting_loadRom (i := .awaitKey 0) hslow hplaces fun _ => rfl
    have hv : waits.v = Vector.replicate 16 0 := by
      have hloaded : waits = _ := (loadRom_of_places hslow hplaces).2
      obtain ⟨_, memory, _, rfl⟩ := create_eq_ok_iff.mp hslow
      rw [hloaded]
    have hpressed : (pressed 2).pressed? = some 5 := by decide
    obtain ⟨hleast, hwaiting, hafter⟩ :=
      isLeast_ends_of_awaitKey pressed hstarting rfl rfl (by decide) hpressed
    obtain ⟨k, hk, _, hok, _⟩ := frame_runs_to_first_stop waits pressed
    rw [hstarting.config] at hk hok
    obtain rfl : k = 3 := hk.unique hleast
    rw [hok fun e he => absurd he.1 (by decide)]
    have hticked : (waits.after pressed 3).tick.machine.v = waits.v.update 0 5 := hafter
    refine ⟨rfl, hwaiting, ?_, ?_⟩
    · rw [hticked]
      exact Registers.get_update_self
    · rw [hticked, Registers.get_update_of_ne (by decide), hv]
      rfl
  · obtain ⟨hconfig, hwaiting, hpc⟩ := start_of_create hodd
    have hfetch : odd.fetch = .error (.misalignedFetch 0x201) := by
      rw [fetch, hconfig, hpc]
      rfl
    have hcycle : (odd.cycle (up 0)).result = .error (.misalignedFetch 0x201) := by
      rw [(CyclesTo.fault hwaiting hfetch).eq]
    obtain ⟨k, hk, hfault, _⟩ := frame_runs_to_first_stop odd up
    obtain rfl : k = 0 := Nat.le_zero.mp (hk.2 (Or.inr (Or.inr ⟨_, hcycle⟩)))
    refine hfault _ ⟨?_, ?_, hcycle⟩
    · rw [hconfig]
      decide
    · obtain ⟨_, memory, _, rfl⟩ := create_eq_ok_iff.mp hodd
      rw [← resting_iff]
      exact Bool.false_ne_true

end Chip8.Machine
