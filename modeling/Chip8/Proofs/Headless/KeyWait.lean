import Chip8.Proofs.Headless.Budget
import Chip8.Proofs.Machine.KeyWait

/-! # Waiting for a key in vain

Nobody presses keys in a headless run. Every frame gets something done until an instruction waits
for a key. From then on nothing but the timers changes, and the run lasts as long as it may.
-/

namespace Chip8.Headless

open Machine

/-- The machines on which `runFrames` starts its frames, in order. -/
def startsFrom : (budget : Nat) → Machine → List Machine
  | 0, _ => []
  | budget + 1, m =>
    if m.finished then []
    else
      let reply := frame m
      m :: match reply.result with
        | .error _ => []
        | .ok _ => startsFrom budget reply.machine

def starts (config : Config) (entropy : Random.Key) (files : Files) (rom : String)
    (frames : Nat) : List Machine :=
  match Machine.create config entropy with
  | .error _ => []
  | .ok m =>
    let loaded := m.loadFile files rom
    match loaded.result with
    | .error _ => []
    | .ok _ => startsFrom frames loaded.machine

def frameCycles (m : Machine) : List (Reply Outcome) :=
  Machine.cycles (fun _ => Keypad.released.keyboard) m.config.cyclesPerFrame 0 m

variable {config : Config} {entropy : Random.Key} {files : Files} {rom : String} {m n : Machine}
  {e : Fault} {budget k : Nat}

/-! ## The starts of frames -/

theorem exists_startsFrom_eq_cons (h : m.finished = false) (budget : Nat) :
    ∃ after, startsFrom (budget + 1) m = m :: after := by
  simp only [startsFrom, h, Bool.false_eq_true, if_false]
  exact ⟨_, rfl⟩

theorem startsFrom_of_finished (h : m.finished = true) (budget : Nat) :
    startsFrom budget m = [] := by
  cases budget with
  | zero => rfl
  | succ budget => rw [startsFrom, if_pos h]

theorem startsFrom_of_fault (h : m.finished = false) (hr : (frame m).result = .error e)
    (budget : Nat) : startsFrom (budget + 1) m = [m] := by
  simp only [startsFrom, h, Bool.false_eq_true, if_false, hr]

theorem startsFrom_of_frame (h : m.finished = false) (hr : (frame m).result = .ok k)
    (budget : Nat) : startsFrom (budget + 1) m = m :: startsFrom budget (frame m).machine := by
  simp only [startsFrom, h, Bool.false_eq_true, if_false, hr]

theorem starts_of_loaded {new : Machine} (hnew : create config entropy = .ok new)
    (hload : (new.loadFile files rom).result = .ok ()) (frames : Nat) :
    starts config entropy files rom frames =
      startsFrom frames (new.loadFile files rom).machine := by
  simp only [starts, hnew, hload]

theorem exists_startsFrom {frames : Nat} (h : starts config entropy files rom frames ≠ []) :
    ∃ m told, config.Accepted ∧ m.config = config ∧ m.redraw = false ∧
      starts config entropy files rom frames = startsFrom frames m ∧
      run config entropy files rom frames = runFrames frames 0 m told := by
  cases hcreate : Machine.create config entropy with
  | error e => simp only [starts, hcreate, ne_eq, not_true_eq_false] at h
  | ok new =>
    cases hload : (new.loadFile files rom).result with
    | error e => simp only [starts, hcreate, hload, ne_eq, not_true_eq_false] at h
    | ok _ =>
      have hstarts := starts_of_loaded hcreate hload frames
      have hframes : frames ≠ 0 := by
        rintro rfl
        exact h hstarts
      obtain ⟨told, hrun⟩ := exists_run_of_loaded hcreate hframes hload
      refine ⟨(new.loadFile files rom).machine, told, exists_create_iff.mp ⟨new, hcreate⟩,
        ?_, ?_, hstarts, hrun⟩
      · exact (steps_loadFile (A := fun _ => True) files rom).config.trans
          (start_of_create hcreate).1
      · obtain ⟨memory, name, hloaded⟩ := exists_machine_loadFile new files rom
        obtain ⟨_, _, _, rfl⟩ := create_eq_ok_iff.mp hcreate
        rw [hloaded]

/-- Frames start on machines that have not ended and have nothing to present. -/
structure Opens (c : Config) (m : Machine) : Prop where
  accepted : c.Accepted
  config : m.config = c
  redraw : m.redraw = false
  finished : m.finished = false

theorem Opens.resting (h : Opens config m) : m.resting = false := by
  simp only [Machine.resting, h.redraw, h.finished, Bool.and_false, Bool.or_false]

theorem config_frame (m : Machine) : (frame m).machine.config = m.config := by
  have hconfig := (steps_frame (obeys_true (m := m)) fun _ => Keypad.released.keyboard).config
  unfold frame
  simp only
  split <;> exact hconfig

theorem redraw_frame (h : (frame m).result = .ok k) : (frame m).machine.redraw = false := by
  cases hr : (m.frame fun _ => Keypad.released.keyboard).result with
  | error e =>
    rw [frame_of_error hr, hr] at h
    cases h
  | ok k => rw [frame_of_ok hr]

theorem opens_of_mem_startsFrom (hc : config.Accepted) (hm : m.config = config)
    (hd : m.redraw = false) (h : n ∈ startsFrom budget m) : Opens config n := by
  induction budget generalizing m with
  | zero => cases h
  | succ budget ih =>
    cases hf : m.finished with
    | true =>
      rw [startsFrom_of_finished hf] at h
      cases h
    | false =>
      cases hr : (frame m).result with
      | error e =>
        rw [startsFrom_of_fault hf hr, List.mem_singleton] at h
        exact h ▸ ⟨hc, hm, hd, hf⟩
      | ok k =>
        rw [startsFrom_of_frame hf hr] at h
        cases h with
        | head => exact ⟨hc, hm, hd, hf⟩
        | tail _ h => exact ih ((config_frame m).trans hm) (redraw_frame hr) h

theorem opens_of_mem_starts {frames : Nat} (h : m ∈ starts config entropy files rom frames) :
    Opens config m := by
  obtain ⟨new, _, hc, hconfig, hredraw, hstarts, _⟩ := exists_startsFrom (List.ne_nil_of_mem h)
  exact opens_of_mem_startsFrom hc hconfig hredraw (hstarts ▸ h)

/-- From each of its frames on, a run is a run of its own with what is left of the budget. -/
theorem exists_runFrames_of_append {before after : List Machine}
    (h : startsFrom budget m = before ++ n :: after) :
    ∃ left earlier, startsFrom (left + 1) n = n :: after ∧ before.length + (left + 1) = budget ∧
      ∀ ran told,
        runFrames budget ran m told =
          runFrames (left + 1) (ran + before.length) n (told ++ earlier) := by
  induction before generalizing budget m with
  | nil =>
    cases budget with
    | zero => cases h
    | succ budget =>
      obtain rfl : m = n := by
        cases hf : m.finished with
        | true => simp [startsFrom_of_finished hf] at h
        | false =>
          obtain ⟨_, hfirst⟩ := exists_startsFrom_eq_cons hf budget
          exact (List.cons.inj (hfirst.symm.trans h)).1
      exact ⟨budget, #[], h, Nat.zero_add _, fun _ _ => by rw [Array.append_empty]; rfl⟩
  | cons first before ih =>
    cases budget with
    | zero => cases h
    | succ budget =>
      cases hf : m.finished with
      | true => simp [startsFrom_of_finished hf] at h
      | false =>
        cases hr : (frame m).result with
        | error e => simp [startsFrom_of_fault hf hr] at h
        | ok k =>
          rw [startsFrom_of_frame hf hr] at h
          obtain ⟨left, earlier, hafter, hlength, hrun⟩ := ih (List.cons.inj h).2
          refine ⟨left, (frame m).notices ++ earlier, hafter, ?_, fun ran told => ?_⟩
          · rw [List.length_cons, Nat.succ_add, hlength]
          · rw [runFrames_of_frame hf hr, hrun, List.length_cons, Array.append_assoc,
              Nat.add_right_comm, Nat.add_assoc]

/-- A run fails with the fault of a frame that it starts, which is then its last. -/
theorem result_runFrames_eq_error_iff (budget ran : Nat) (m : Machine) (told : Array Notice) :
    (runFrames budget ran m told).result = .error e ↔
      ∃ n ∈ startsFrom budget m, (frame n).result = .error e := by
  induction budget generalizing ran m told with
  | zero => simp [runFrames, startsFrom]
  | succ budget ih =>
    cases hf : m.finished with
    | true => simp [runFrames_of_finished hf, startsFrom_of_finished hf]
    | false =>
      cases hr : (frame m).result with
      | error e' => simp [runFrames_of_fault hf hr, startsFrom_of_fault hf hr, hr]
      | ok k => simp [runFrames_of_frame hf hr, startsFrom_of_frame hf hr, hr, ih]

theorem keep_runFrames {P : Machine → Prop} (keep : ∀ m, P m → P (frame m).machine) {ran : Nat}
    {told : Array Notice} (hm : P m) (h : (runFrames budget ran m told).result = .ok n) : P n := by
  induction budget generalizing ran m told with
  | zero =>
    cases h
    exact hm
  | succ budget ih =>
    cases hf : m.finished with
    | true =>
      rw [runFrames_of_finished hf] at h
      cases h
      exact hm
    | false =>
      cases hr : (frame m).result with
      | error e =>
        rw [runFrames_of_fault hf hr] at h
        cases h
      | ok k =>
        rw [runFrames_of_frame hf hr] at h
        exact ih (keep m hm) h

/-! ## Frames -/

theorem Opens.progress (h : Opens config m) :
    (∃ e, (frame m).result = .error e) ∨
      ∃ k, (frame m).result = .ok k ∧ k = (frameCycles m).length ∧
        1 ≤ k ∧ k ≤ config.cyclesPerFrame := by
  cases hrun : runCycles (fun _ => Keypad.released.keyboard) m.config.cyclesPerFrame 0 m #[] with
  | mk result n told =>
    cases result with
    | error e => exact Or.inl ⟨e, by simp only [frame, Machine.frame, hrun]⟩
    | ok k =>
      have hcount : k = 0 + (frameCycles m).length := runCycles_counts (by rw [hrun])
      rw [Nat.zero_add] at hcount
      have hbudget : 0 < m.config.cyclesPerFrame := by
        have := Config.accepted_iff.mp h.accepted
        rw [h.config]
        omega
      obtain ⟨rest, hrest⟩ : ∃ rest, frameCycles m = _ :: rest :=
        exists_cycles_eq_cons h.resting hbudget
      refine Or.inr ⟨k, by rw [frame_of_runCycles hrun], hcount, ?_, ?_⟩
      · rw [hcount, hrest, List.length_cons]
        exact Nat.succ_pos _
      · rw [hcount, ← h.config]
        exact length_cycles_le

/-! ## Sleep -/

/-- All but the timers is as it was in `m`, and there is nothing to present. -/
def Asleep (m n : Machine) : Prop := ∃ τ, n = { m.withTimers τ with redraw := false }

theorem asleep_tick (m : Machine) : Asleep m { m.tick.machine with redraw := false } :=
  ⟨m.timers.tick, rfl⟩

section Sleep

variable (h : Asleep m n)

include h

theorem Asleep.tick : Asleep m { n.tick.machine with redraw := false } := by
  obtain ⟨τ, rfl⟩ := h
  exact ⟨τ.tick, rfl⟩

theorem Asleep.finished (hf : m.finished = false) : n.finished = false := by
  obtain ⟨_, rfl⟩ := h
  exact hf

variable (hw : m.waiting = true) (hf : m.finished = false)

include hw hf

theorem Asleep.frame :
    frameCycles n = List.replicate n.config.cyclesPerFrame ⟨.ok .awaitingKey, n, #[]⟩ ∧
      frame n =
        ⟨.ok n.config.cyclesPerFrame, { n.tick.machine with redraw := false }, n.tick.notices⟩ := by
  have hwaiting : n.waiting = true := by
    obtain ⟨_, rfl⟩ := h
    exact hw
  have hresting : n.resting = false := by
    obtain ⟨_, rfl⟩ := h
    simp only [Machine.resting, withTimers, hf, Bool.and_false, Bool.or_false]
  let keys : Nat → Keyboard := fun _ => Keypad.released.keyboard
  have hkeys (i : Nat) : (keys i).pressed? = none := rfl
  obtain ⟨hcycles, hrun⟩ :=
    cycles_of_waiting hwaiting hresting hkeys n.config.cyclesPerFrame 0 #[]
  refine ⟨hcycles, ?_⟩
  rw [frame_of_runCycles hrun, Nat.zero_add, Array.empty_append]

theorem Asleep.runFrames (budget : Nat) :
    (startsFrom budget n).length = budget ∧ (∀ n' ∈ startsFrom budget n, Asleep m n') ∧
      ∃ final later, Asleep m final ∧ Notice.others later = [] ∧
        ∀ ran told, runFrames budget ran n told =
          ⟨.ok final,
            (told ++ later).push (.remark (.runFinished (ran + budget) false final.pc))⟩ := by
  have hfinished : n.finished = false := h.finished hf
  -- A frame leaves a sleeping machine behind, on which the rest of the run goes on.
  induction budget generalizing n with
  | zero =>
    refine ⟨rfl, ?_, n, #[], h, rfl, fun ran told => ?_⟩
    · rintro _ ⟨⟩
    · rw [Array.append_empty, Headless.runFrames, hfinished]
      rfl
  | succ budget ih =>
    have hframe := (h.frame hw hf).2
    have hresult : (Headless.frame n).result = .ok n.config.cyclesPerFrame := by rw [hframe]
    have hnext : Asleep m (Headless.frame n).machine := by
      rw [hframe]
      exact h.tick
    have hnotices : Notice.others (Headless.frame n).notices = [] := by
      rw [hframe]
      exact others_tick n.timers
    obtain ⟨hlength, hall, final, later, hfinal, hlater, hrun⟩ := ih hnext (hnext.finished hf)
    rw [startsFrom_of_frame hfinished hresult]
    refine ⟨congrArg (· + 1) hlength, ?_, final, (Headless.frame n).notices ++ later, hfinal, ?_,
      fun ran told => ?_⟩
    · rintro n' (_ | ⟨_, hn'⟩)
      · exact h
      · exact hall n' hn'
    · rw [Notice.others_append, hnotices, hlater, List.nil_append]
    · rw [runFrames_of_frame hfinished hresult, hrun, Array.append_assoc, Nat.add_right_comm,
        Nat.add_assoc]

end Sleep

theorem frame_of_awaitKey {ran rest : List (Reply Outcome)} {r : Reply Outcome} {t : Trace}
    {x : Register} (h : frameCycles m = ran ++ r :: rest) (hr : r.result = .ok (.executed t))
    (hi : t.instruction = .awaitKey x) :
    r.machine.waiting = true ∧ r.machine.finished = false ∧ r.machine.pc = t.pc + 2 ∧
      (∀ c ∈ rest, c = ⟨.ok .awaitingKey, r.machine, #[]⟩) ∧
      ∃ earlier later : Array Notice, Notice.others later = [] ∧
        frame m =
          ⟨.ok m.config.cyclesPerFrame, { r.machine.tick.machine with redraw := false },
            earlier.push (.event (.executed t)) ++ later⟩ := by
  obtain ⟨n, left, earlier, hresting, hn, hcycles, hlength, hrun⟩ := exists_runCycles_of_append h
  rw [← hn] at hr
  obtain ⟨hpc, hcycle⟩ := cycle_of_awaitKey hr hi
  have hwaiting : r.machine.waiting = true := by rw [← hn, hcycle]
  have hresting' : r.machine.resting = false := by
    rw [← hn, hcycle]
    exact hresting
  have hnotices : r.notices = #[.event (.executed t)] := by rw [← hn, hcycle]
  let keys : Nat → Keyboard := fun _ => Keypad.released.keyboard
  have hkeys (i : Nat) : (keys i).pressed? = none := rfl
  obtain ⟨hpolls, hpolled⟩ := cycles_of_waiting hwaiting hresting' hkeys left
    (0 + ran.length + 1) (#[] ++ earlier ++ r.notices)
  rw [cycles_of_ok hresting hr, hn, hpolls] at hcycles
  have hframe := hrun #[]
  rw [runCycles_of_ok hresting hr, hn, hpolled] at hframe
  refine ⟨hwaiting, (Bool.or_eq_false_iff.mp hresting').1, ?_, ?_, earlier,
    r.machine.tick.notices, others_tick r.machine.timers, ?_⟩
  · rw [hpc, ← hn, hcycle]
    rfl
  · rw [← (List.cons.inj hcycles).2]
    exact fun c => List.eq_of_mem_replicate
  · rw [frame_of_runCycles hframe, hnotices, Array.push_eq_append, Array.empty_append]
    congr 2
    omega

/-- Every frame that a run starts fails, or it runs at least one cycle and at most as many as the
configuration allows. Once an instruction waits for a key, all further cycles of the run look for
one in vain: nothing is executed, nothing changes but the timers, nothing is told but beeps, and
the run lasts as long as it may and leaves a machine behind that has not ended and stands behind
the instruction. -/
theorem key_wait_absorbs (config : Config) (entropy : Random.Key) (files : Files) (rom : String)
    (frames : Nat) :
    (∀ m ∈ starts config entropy files rom frames,
      (∃ e, (frame m).result = .error e) ∨
        ∃ k, (frame m).result = .ok k ∧ k = (frameCycles m).length ∧
          1 ≤ k ∧ k ≤ config.cyclesPerFrame) ∧
    ∀ before m after, starts config entropy files rom frames = before ++ m :: after →
      ∀ (ran rest : List (Reply Outcome)) (r : Reply Outcome) (t : Trace) (x : Register),
        frameCycles m = ran ++ r :: rest →
        r.result = .ok (.executed t) → t.instruction = .awaitKey x →
          (∀ c ∈ rest, c = ⟨.ok .awaitingKey, r.machine, #[]⟩) ∧
          (∀ n ∈ after, Asleep r.machine n ∧
            frameCycles n =
              List.replicate config.cyclesPerFrame ⟨.ok .awaitingKey, n, #[]⟩ ∧
            (frame n).result = .ok config.cyclesPerFrame ∧
            Notice.others (frame n).notices = []) ∧
          (starts config entropy files rom frames).length = frames ∧
          ∃ (final : Machine) (earlier later : Array Notice), Asleep r.machine final ∧
            final.finished = false ∧ final.pc = t.pc + 2 ∧ Notice.others later = [] ∧
            run config entropy files rom frames =
              ⟨.ok final, (earlier.push (.event (.executed t)) ++ later).push
                (.remark (.runFinished frames false final.pc))⟩ := by
  refine ⟨fun m hm => (opens_of_mem_starts hm).progress, ?_⟩
  intro before m after hstarts ran rest r t x hcycles hr hi
  have hmem {n : Machine} (hn : n ∈ m :: after) : n ∈ starts config entropy files rom frames := by
    rw [hstarts]
    exact List.mem_append_right before hn
  obtain ⟨hwaiting, hfinished, hpc, hrest, earlier, later, hlater, hframe⟩ :=
    frame_of_awaitKey hcycles hr hi
  obtain ⟨new, opening, _, _, _, hfrom, hrun⟩ :=
    exists_startsFrom (List.ne_nil_of_mem (hmem List.mem_cons_self))
  obtain ⟨left, told, hafter, hleft, hsplit⟩ := exists_runFrames_of_append (hfrom ▸ hstarts)
  have hok : (frame m).result = .ok m.config.cyclesPerFrame := by rw [hframe]
  have hm : m.finished = false := (opens_of_mem_starts (hmem List.mem_cons_self)).finished
  have hasleep : Asleep r.machine (frame m).machine := by
    rw [hframe]
    exact asleep_tick r.machine
  obtain ⟨hlength, hall, final, more, hfinal, hmore, hend⟩ :=
    hasleep.runFrames hwaiting hfinished left
  rw [startsFrom_of_frame hm hok] at hafter
  obtain ⟨_, rfl⟩ := List.cons.inj hafter
  refine ⟨hrest, fun n hn => ?_, ?_, final, opening ++ told ++ earlier, later ++ more, hfinal,
    hfinal.finished hfinished, ?_, ?_, ?_⟩
  · have hn' := hall n hn
    obtain ⟨hpolls, hpolled⟩ := hn'.frame hwaiting hfinished
    have hconfig : n.config = config :=
      (opens_of_mem_starts (hmem (List.mem_cons_of_mem m hn))).config
    rw [hconfig] at hpolls hpolled
    refine ⟨hn', hpolls, by rw [hpolled], ?_⟩
    rw [hpolled]
    exact others_tick n.timers
  · rw [hstarts, List.length_append, List.length_cons, hlength, hleft]
  · obtain ⟨_, rfl⟩ := hfinal
    exact hpc
  · rw [Notice.others_append, hlater, hmore, List.nil_append]
  · rw [hrun, hsplit, runFrames_of_frame hm hok, hend, hframe]
    congr 2
    · simp only [Array.push_eq_append, Array.append_assoc]
    · congr 2
      omega

/-- `F00A` in the first cycle of three frames. -/
theorem key_wait_absorbs_on_program :
    let game : Files := fun _ => .ok [0xF0, 0x0A]
    let config := Config.standard .chip8
    let entropy : Random.Key := Vector.replicate 8 1
    ∃ m after r rest, starts config entropy game "game" 3 = m :: after ∧ frameCycles m = r :: rest ∧
      r.result = .ok (.executed ⟨0x200, 0xF00A, .awaitKey 0⟩) ∧
      (starts config entropy game "game" 3).length = 3 ∧
      ∃ final, (run config entropy game "game" 3).result = .ok final ∧ final.finished = false ∧
        final.pc = 0x202 := by
  intro game config entropy
  obtain ⟨new, hnew⟩ : ∃ new, create config entropy = .ok new :=
    exists_create_iff.mpr (rfl : config.Accepted)
  have hplaces : config.Places [0xF0, 0x0A] := ⟨rfl, by decide, by decide, by decide⟩
  have hload : (new.loadFile game "game").result = .ok () := by
    rw [loadFile_of_places hnew hplaces rfl]
  have hstarting :
      Starting config ⟨0x200, 0xF00A, .awaitKey 0⟩ (new.loadFile game "game").machine :=
    starting_loadFile hnew hplaces rfl fun _ => rfl
  obtain ⟨after, hafter⟩ := exists_startsFrom_eq_cons hstarting.finished 2
  have hstarts := (starts_of_loaded hnew hload 3).trans hafter
  obtain ⟨rest, hrest⟩ : ∃ rest, frameCycles (new.loadFile game "game").machine = _ :: rest :=
    exists_cycles_eq_cons hstarting.resting (by rw [hstarting.config]; decide)
  have hexecuted : ((new.loadFile game "game").machine.cycle Keypad.released.keyboard).result =
      .ok (.executed ⟨0x200, 0xF00A, .awaitKey 0⟩) := by
    rw [cycle_of_fetch hstarting.waiting hstarting.fetch]
  obtain ⟨-, habsorbs⟩ := key_wait_absorbs config entropy game "game" 3
  obtain ⟨_, _, hlength, final, _, _, _, hfinished, hpc, _, hrun⟩ :=
    habsorbs [] _ after hstarts [] rest _ _ 0 hrest hexecuted rfl
  exact ⟨_, after, _, rest, hstarts, hrest, hexecuted, hlength, final, by rw [hrun], hfinished, hpc⟩

end Chip8.Headless
