import Chip8.Headless
import Chip8.Proofs.Machine.Loading

/-! # The budget of a headless run

A run with a larger budget begins as one with a smaller budget does. Where the smaller one ended
early, the larger one ends there too; where it did not, the larger one goes on.
-/

namespace Chip8.Headless

def Report.events (r : Report) : Array Event := Notice.events r.notices

/-- Two reports that a host which records events cannot tell apart. -/
structure Report.Same (r s : Report) : Prop where
  result : s.result = r.result
  events : s.events = r.events

variable {config : Config} {entropy : Random.Key} {files : Files} {rom : String}
  {m : Machine} {told told' : Array Notice} {e : Fault} {cycles : Nat}

theorem runFrames_of_finished (h : m.finished = true) (budget ran : Nat) (told : Array Notice) :
    runFrames budget ran m told =
      ⟨.ok m, told.push (.remark (.runFinished ran m.finished m.pc))⟩ := by
  cases budget with
  | zero => rfl
  | succ budget => rw [runFrames, if_pos h]

theorem runFrames_of_fault (h : m.finished = false) (hr : (frame m).result = .error e)
    (budget ran : Nat) (told : Array Notice) :
    runFrames (budget + 1) ran m told =
      ⟨.error e, (told ++ (frame m).notices).push (.remark (.runStopped ran e))⟩ := by
  simp only [runFrames, h, Bool.false_eq_true, if_false, hr]

theorem runFrames_of_frame (h : m.finished = false) (hr : (frame m).result = .ok cycles)
    (budget ran : Nat) (told : Array Notice) :
    runFrames (budget + 1) ran m told =
      runFrames budget (ran + 1) (frame m).machine (told ++ (frame m).notices) := by
  simp only [runFrames, h, Bool.false_eq_true, if_false, hr]

/-- A run that does not fail within its budget leaves a machine from which a longer one goes on. -/
theorem runFrames_add (n ran : Nat) (m : Machine) (told : Array Notice) :
    (∃ e, (runFrames n ran m told).result = .error e ∧
        ∀ k, runFrames (n + k) ran m told = runFrames n ran m told) ∨
      ∃ ran' m' told', ∀ k, runFrames (n + k) ran m told = runFrames k ran' m' told' := by
  induction n generalizing ran m told with
  | zero => exact Or.inr ⟨ran, m, told, fun k => by rw [Nat.zero_add]⟩
  | succ n ih =>
    cases hm : m.finished with
    | true =>
      refine Or.inr ⟨ran, m, told, fun k => ?_⟩
      rw [runFrames_of_finished hm, runFrames_of_finished hm]
    | false =>
      cases hr : (frame m).result with
      | error e =>
        refine Or.inl ⟨e, by rw [runFrames_of_fault hm hr], fun k => ?_⟩
        rw [Nat.succ_add, runFrames_of_fault hm hr, runFrames_of_fault hm hr]
      | ok cycles =>
        simpa only [Nat.succ_add, runFrames_of_frame hm hr] using
          ih (ran + 1) (frame m).machine (told ++ (frame m).notices)

/-- Remarks made before do not matter to the rest of a run. -/
theorem runFrames_congr (h : Notice.events told = Notice.events told') (n ran : Nat) (m : Machine) :
    (runFrames n ran m told).Same (runFrames n ran m told') := by
  induction n generalizing ran m told told' with
  | zero => exact ⟨rfl, by simp [runFrames, Report.events, h]⟩
  | succ n ih =>
    cases hm : m.finished with
    | true =>
      rw [runFrames_of_finished hm, runFrames_of_finished hm]
      exact ⟨rfl, by simp [Report.events, h]⟩
    | false =>
      cases hr : (frame m).result with
      | error e =>
        rw [runFrames_of_fault hm hr, runFrames_of_fault hm hr]
        exact ⟨rfl, by simp [Report.events, h]⟩
      | ok cycles =>
        rw [runFrames_of_frame hm hr, runFrames_of_frame hm hr]
        exact ih (by simp [h]) (ran + 1) (frame m).machine

theorem run_cases (config : Config) (entropy : Random.Key) (files : Files) (rom : String) :
    (∃ e told, ∀ n, 0 < n → run config entropy files rom n = ⟨.error e, told⟩) ∨
      ∃ m told, ∀ n, 0 < n → (runFrames n 0 m told).Same (run config entropy files rom n) := by
  cases hcreate : Machine.create config entropy with
  | error e =>
    refine Or.inl ⟨e, #[], fun n hn => ?_⟩
    simp only [run, if_neg hn.ne', hcreate]
  | ok m =>
    cases hload : (m.loadFile files rom).result with
    | error e =>
      refine Or.inl ⟨e, (m.loadFile files rom).notices, fun n hn => ?_⟩
      simp only [run, if_neg hn.ne', hcreate, hload]
    | ok _ =>
      refine Or.inr ⟨(m.loadFile files rom).machine, (m.loadFile files rom).notices, fun n hn => ?_⟩
      simp only [run, if_neg hn.ne', hcreate, hload]
      -- The remark that opens the run names its budget, so the notices differ but for the events.
      exact runFrames_congr (by simp) n 0 _

/-- Runs of all larger budgets, seen from the end of a smaller one. -/
theorem run_add (config : Config) (entropy : Random.Key) (files : Files) (rom : String) {n : Nat}
    (hn : 0 < n) :
    (∃ e, (run config entropy files rom n).result = .error e ∧
        ∀ k, (run config entropy files rom n).Same (run config entropy files rom (n + k))) ∨
      ∃ ran m told, ∀ k, (runFrames k ran m told).Same (run config entropy files rom (n + k)) := by
  have hpos (k : Nat) : 0 < n + k := by omega
  rcases run_cases config entropy files rom with ⟨e, told, hrun⟩ | ⟨m, told, hrun⟩
  · refine Or.inl ⟨e, by rw [hrun n hn], fun k => ?_⟩
    rw [hrun n hn, hrun (n + k) (hpos k)]
    exact ⟨rfl, rfl⟩
  · rcases runFrames_add n 0 m told with ⟨e, he, hadd⟩ | ⟨ran, m', told', hadd⟩
    · refine Or.inl ⟨e, (hrun n hn).result.trans he, fun k => ?_⟩
      have hlonger := hrun (n + k) (hpos k)
      rw [hadd k] at hlonger
      exact ⟨hlonger.result.trans (hrun n hn).result.symm,
        hlonger.events.trans (hrun n hn).events.symm⟩
    · refine Or.inr ⟨ran, m', told', fun k => ?_⟩
      rw [← hadd k]
      exact hrun (n + k) (hpos k)

theorem frame_of_error (h : (m.frame fun _ => Keypad.released.keyboard).result = .error e) :
    frame m = m.frame fun _ => Keypad.released.keyboard := by
  simp only [frame, h]

theorem frame_of_ok (h : (m.frame fun _ => Keypad.released.keyboard).result = .ok cycles) :
    let reply := m.frame fun _ => Keypad.released.keyboard
    frame m = ⟨.ok cycles, { reply.machine with redraw := false }, reply.notices⟩ := by
  simp only [frame, h]

theorem runFrames_one (hm : m.finished = false) (ran : Nat) (told : Array Notice) :
    let reply := m.frame fun _ => Keypad.released.keyboard
    (runFrames 1 ran m told).events = Notice.events told ++ reply.events ∧
      (∀ cycles, reply.result = .ok cycles →
        (runFrames 1 ran m told).result = .ok { reply.machine with redraw := false }) ∧
      ∀ e, reply.result = .error e → (runFrames 1 ran m told).result = .error e := by
  intro reply
  cases hr : reply.result with
  | error e =>
    have hframe : frame m = reply := frame_of_error hr
    rw [runFrames_of_fault hm (by rw [hframe, hr]), hframe]
    refine ⟨by simp [Report.events, Reply.events], ?_, ?_⟩
    · rintro cycles ⟨⟩
    · rintro e' ⟨⟩
      rfl
  | ok cycles =>
    have hframe : frame m = ⟨.ok cycles, { reply.machine with redraw := false }, reply.notices⟩ :=
      frame_of_ok hr
    rw [runFrames_of_frame hm (by rw [hframe]), hframe]
    refine ⟨by simp [runFrames, Report.events, Reply.events], fun _ _ => rfl, ?_⟩
    rintro e ⟨⟩

theorem frame_of_runCycles {next : Machine}
    (h : Machine.runCycles (fun _ => Keypad.released.keyboard) m.config.cyclesPerFrame 0 m #[] =
      ⟨.ok cycles, next, told⟩) :
    frame m =
      ⟨.ok cycles, { next.tick.machine with redraw := false }, told ++ next.tick.notices⟩ := by
  simp only [frame, Machine.frame, h]

section Loaded

variable {new : Machine} (hnew : Machine.create config entropy = .ok new)

include hnew in
theorem result_run_of_load_error {frames : Nat} (hframes : frames ≠ 0)
    (hload : (new.loadFile files rom).result = .error e) :
    (run config entropy files rom frames).result = .error e := by
  simp only [run, if_neg hframes, hnew, hload]

include hnew in
theorem exists_run_of_loaded {frames : Nat} (hframes : frames ≠ 0)
    (hload : (new.loadFile files rom).result = .ok ()) :
    ∃ told, run config entropy files rom frames =
      runFrames frames 0 (new.loadFile files rom).machine told := by
  simp only [run, if_neg hframes, hnew, hload]
  exact ⟨_, rfl⟩

include hnew in
theorem result_run_one {next : Machine} (hload : (new.loadFile files rom).result = .ok ()) :
    let loaded := (new.loadFile files rom).machine
    loaded.finished = false →
    Machine.runCycles (fun _ => Keypad.released.keyboard) loaded.config.cyclesPerFrame 0 loaded #[]
      = ⟨.ok cycles, next, told⟩ →
    (run config entropy files rom 1).result = .ok { next.tick.machine with redraw := false } := by
  intro loaded hloaded hcycles
  have hframe : frame loaded = _ := frame_of_runCycles hcycles
  obtain ⟨told, hrun⟩ := exists_run_of_loaded hnew one_ne_zero hload
  have hone : runFrames 1 0 loaded told = _ :=
    runFrames_of_frame hloaded (by rw [hframe]) 0 0 told
  rw [hrun, hone, hframe]
  rfl

variable {high low : UInt8} {rest : List UInt8} {i : Instruction}
  (hplaces : config.Places (high :: low :: rest)) (hfile : files rom = .ok (high :: low :: rest))
  (hi : ∀ next,
    Instruction.decode config.variant (high.toUInt16 * 256 + low.toUInt16) next = .ok i)

include hnew hplaces hfile hi

theorem exists_run_one (hcycles : config.cyclesPerFrame = 1) :
    ∃ m, (run config entropy files rom 1).result = .ok m ∧ m.finished = decide (i = .exit) := by
  let loaded := (new.loadFile files rom).machine
  let keys : Nat → Keyboard := fun _ => Keypad.released.keyboard
  have hstarting := Machine.starting_loadFile hnew hplaces hfile hi
  have hcycle : loaded.cycle (keys 0) = _ :=
    Machine.cycle_of_fetch hstarting.waiting hstarting.fetch
  have hrun : Machine.runCycles keys loaded.config.cyclesPerFrame 0 loaded #[] =
      ⟨.ok 1, (loaded.cycle (keys 0)).machine, #[] ++ (loaded.cycle (keys 0)).notices⟩ := by
    rw [hstarting.config, hcycles]
    exact Machine.runCycles_of_ok hstarting.resting (by rw [hcycle])
  refine ⟨_, result_run_one hnew (by rw [Machine.loadFile_of_places hnew hplaces hfile])
    hstarting.finished hrun, ?_⟩
  have hadvanced : (loaded.advance i.size).finished = false := hstarting.finished
  simp only [hcycle, Machine.tick, Machine.finished_execute, hadvanced, Bool.false_or]

theorem exists_run_of_exit {frames : Nat} (hexit : i = .exit) (hframes : frames ≠ 0)
    (hcycles : 0 < config.cyclesPerFrame) :
    ∃ m, (run config entropy files rom frames).result = .ok m ∧ m.finished = true := by
  let loaded := (new.loadFile files rom).machine
  let keys : Nat → Keyboard := fun _ => Keypad.released.keyboard
  have hstarting := Machine.starting_loadFile hnew hplaces hfile hi
  have hcycle : loaded.cycle (keys 0) = _ :=
    Machine.cycle_of_fetch hstarting.waiting hstarting.fetch
  let next := (loaded.cycle (keys 0)).machine
  have hfinished : next.finished = true := by
    simp only [next, hcycle, hexit, Machine.finished_execute, decide_true, Bool.or_true]
  have hresting : next.resting = true := by rw [Machine.resting, hfinished, Bool.true_or]
  obtain ⟨budget, hbudget⟩ := Nat.exists_eq_add_of_lt hcycles
  have hrun : Machine.runCycles keys loaded.config.cyclesPerFrame 0 loaded #[] =
      ⟨.ok 1, next, #[] ++ (loaded.cycle (keys 0)).notices⟩ := by
    rw [hstarting.config, hbudget, Machine.runCycles_of_ok hstarting.resting (by rw [hcycle])]
    cases 0 + budget with
    | zero => rfl
    | succ left => rw [Machine.runCycles, if_pos hresting]
  have hframe : frame loaded = _ := frame_of_runCycles hrun
  obtain ⟨left, rfl⟩ := Nat.exists_eq_succ_of_ne_zero hframes
  obtain ⟨told, hrun⟩ := exists_run_of_loaded hnew hframes
    (by rw [Machine.loadFile_of_places hnew hplaces hfile])
  have hended : (frame loaded).machine.finished = true := by
    rw [hframe]
    exact hfinished
  refine ⟨_, ?_, hended⟩
  rw [hrun, runFrames_of_frame hstarting.finished (by rw [hframe]), runFrames_of_finished hended]

end Loaded

theorem run_congr {entropy' : Random.Key} (h : config.seed = none → entropy' = entropy) :
    run config entropy' files rom = run config entropy files rom := by
  unfold run
  rw [Machine.create_congr h]

/-- Budgets and the runs within them: a larger budget makes no difference to a run that has ended,
and one more frame to a run that has not. With a seed, none of the runs depends on chance. -/
theorem budget_prefix_consistent (config : Config) (entropy : Random.Key) (files : Files)
    (rom : String) :
    (config.seed ≠ none → ∀ entropy',
      run config entropy' files rom = run config entropy files rom) ∧
    run config entropy files rom 0 = ⟨.error (.invalidArgument .noFrames), #[]⟩ ∧
    ∀ n, 0 < n →
      let shorter := run config entropy files rom n
      (∀ e, shorter.result = .error e → ∀ k, shorter.Same (run config entropy files rom (n + k))) ∧
      (∀ m, shorter.result = .ok m → m.finished = true →
        ∀ k, shorter.Same (run config entropy files rom (n + k))) ∧
      ∀ m, shorter.result = .ok m → m.finished = false →
        let longer := run config entropy files rom (n + 1)
        let reply := m.frame fun _ => Keypad.released.keyboard
        longer.events = shorter.events ++ reply.events ∧
          (∀ cycles, reply.result = .ok cycles →
            longer.result = .ok { reply.machine with redraw := false }) ∧
          ∀ e, reply.result = .error e → longer.result = .error e := by
  refine ⟨fun hseed entropy' => run_congr fun h => absurd h hseed, rfl, fun n hn => ?_⟩
  rcases run_add config entropy files rom hn with ⟨e, he, hsame⟩ | ⟨ran, m, told, hlonger⟩
  · refine ⟨fun _ _ => hsame, fun m hm => ?_, fun m hm => ?_⟩
    · cases he.symm.trans hm
    · cases he.symm.trans hm
  · have hok : (run config entropy files rom n).result = .ok m := (hlonger 0).result
    have hevents : (run config entropy files rom n).events = Notice.events told :=
      (hlonger 0).events.trans (Notice.events_push_remark told _)
    refine ⟨fun e he => ?_, fun m' hm' hfinished k => ?_, fun m' hm' hfinished => ?_⟩
    · cases hok.symm.trans he
    · obtain rfl : m = m' := Except.ok.inj (hok.symm.trans hm')
      have hk := hlonger k
      rw [runFrames_of_finished hfinished] at hk
      exact ⟨hk.result.trans hok.symm,
        hk.events.trans ((Notice.events_push_remark told _).trans hevents.symm)⟩
    · obtain rfl : m = m' := Except.ok.inj (hok.symm.trans hm')
      obtain ⟨hnext, hframe, hfault⟩ := runFrames_one hfinished ran told
      refine ⟨?_, fun cycles hr => ?_, fun e hr => ?_⟩
      · rw [hevents, (hlonger 1).events, hnext]
      · exact (hlonger 1).result.trans (hframe cycles hr)
      · exact (hlonger 1).result.trans (hfault e hr)

/-- A file that is missing, a program that ends at once, and one that does not end. -/
theorem budget_prefix_consistent_on_programs :
    let missing : Files := fun _ => .error .notFound
    let ending : Files := fun _ => .ok [0x00, 0xFD]
    let endless : Files := fun _ => .ok [0x12, 0x00]
    let config := { Config.standard .superChip with cyclesPerFrame := 1, seed := some 7 }
    (∀ entropy, run config entropy endless "game" = run config default endless "game") ∧
    ((run config default missing "game" 1).result = .error (.unreadable .notFound) ∧
      ∀ k, (run config default missing "game" 1).Same (run config default missing "game" (1 + k))) ∧
    (∃ m, (run config default ending "game" 1).result = .ok m ∧ m.finished = true ∧
      ∀ k, (run config default ending "game" 1).Same (run config default ending "game" (1 + k))) ∧
    ∃ m, (run config default endless "game" 1).result = .ok m ∧ m.finished = false ∧
      (run config default endless "game" 2).events =
        (run config default endless "game" 1).events ++
          (m.frame fun _ => Keypad.released.keyboard).events := by
  intro missing ending endless config
  obtain ⟨new, hnew⟩ := Machine.exists_create_iff.mpr (rfl : config.Accepted)
  have hplaces {high low : UInt8} (h : Rom.hasHeader [high, low] = false) :
      config.Places [high, low] := ⟨rfl, by decide, h, by simp only [List.length]; decide⟩
  have hmissing : (run config default missing "game" 1).result = .error (.unreadable .notFound) :=
    result_run_of_load_error hnew one_ne_zero rfl
  obtain ⟨m, hm, hended⟩ :
      ∃ m, (run config default ending "game" 1).result = .ok m ∧ m.finished = true :=
    exists_run_of_exit hnew (hplaces rfl) rfl (fun _ => rfl) rfl one_ne_zero one_pos
  obtain ⟨m', hm', hrunning⟩ : ∃ m, (run config default endless "game" 1).result = .ok m ∧ _ :=
    exists_run_one (i := .jump 0x200) hnew (hplaces rfl) rfl (fun _ => rfl) rfl
  obtain ⟨hseeded, -, -⟩ := budget_prefix_consistent config default endless "game"
  have hbudgets (files : Files) := (budget_prefix_consistent config default files "game").2.2
  exact ⟨hseeded (by decide), ⟨hmissing, (hbudgets missing 1 one_pos).1 _ hmissing⟩,
    ⟨m, hm, hended, (hbudgets ending 1 one_pos).2.1 m hm hended⟩,
    ⟨m', hm', hrunning, ((hbudgets endless 1 one_pos).2.2 m' hm' hrunning).1⟩⟩

end Chip8.Headless
