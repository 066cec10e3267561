import Chip8.Proofs.CommandLine.Settings
import Chip8.Proofs.Headless.KeyWait
import Chip8.Proofs.Machine.Dump
import Chip8.Proofs.Machine.Roms

/-! # What the program comes to

An invocation can fail at five stages, and what fails at one of them does not hang on the others.
The program reports the first of the failures, and if there is none, how the run ended.
-/

namespace Chip8.CommandLine

inductive Stage
  | variant
  | dialect
  | frames
  | rom
  | run
  deriving DecidableEq, Repr

def Stage.rank : Stage → Nat
  | .variant => 0
  | .dialect => 1
  | .frames => 2
  | .rom => 3
  | .run => 4

def room (v : Variant) : Nat :=
  (Config.standard v).memorySize - (Config.standard v).loadAddress.toNat

section

variable (o : Options) (env : Environment) (files : Files) (entropy : Random.Key)

/-- What is wrong with an invocation, whatever else is. -/
inductive FailsAt : Stage → Fault → Prop
  | variant (h : Variant.ofNormalName? (normalName (o.variantName env)) = none) :
      FailsAt .variant (.invalidArgument .unknownVariant)
  | dialect {name : String} (hname : o.dialectName? env = some name)
      (h : Dialect.ofNormalName? (normalName name) = none) :
      FailsAt .dialect (.invalidArgument .unknownDialect)
  | frames (h : o.frames = 0) : FailsAt .frames (.invalidArgument .noFrames)
  | unreadable {e : ReadError} (h : files o.rom = .error e) : FailsAt .rom (.unreadable e)
  | tooLarge {v : Variant} {bytes : List UInt8} (hv : o.variant? env = some v)
      (hfile : files o.rom = .ok bytes) (h : room v < (Rom.program bytes).length) :
      FailsAt .rom (.romTooLarge (Rom.program bytes).length (room v))
  | run {c : Config} {m : Machine} {e : Fault} (hc : o.config env = .ok c)
      (hm : m ∈ Headless.starts c entropy files o.rom o.frames)
      (h : (Headless.frame m).result = .error e) : FailsAt .run e

structure FailsFirstAt (s : Stage) (e : Fault) : Prop where
  failure : FailsAt o env files entropy s e
  first : ∀ s' e', FailsAt o env files entropy s' e' → s.rank ≤ s'.rank

end

variable {o : Options} {env : Environment} {files : Files} {entropy : Random.Key} {s : Stage}
  {e : Fault} {v : Variant} {d : Dialect} {c : Config} {new : Machine} {bytes : List UInt8}

theorem FailsAt.exists_first (h : FailsAt o env files entropy s e) :
    ∃ s e, FailsFirstAt o env files entropy s e := by
  classical
  have hfails : ∃ r s e, FailsAt o env files entropy s e ∧ s.rank = r := ⟨_, s, e, h, rfl⟩
  obtain ⟨s, e, h, hrank⟩ := Nat.find_spec hfails
  refine ⟨s, e, h, fun s' e' h' => ?_⟩
  rw [hrank]
  exact Nat.find_min' hfails ⟨s', e', h', rfl⟩

theorem FailsFirstAt.not_failsAt (h : FailsFirstAt o env files entropy s e) {s' : Stage}
    (hlt : s'.rank < s.rank) (e' : Fault) : ¬ FailsAt o env files entropy s' e' :=
  fun h' => absurd (h.first s' e' h') (Nat.not_le.mpr hlt)

/-! ## Stage by stage -/

theorem exists_variant (h : ∀ e, ¬ FailsAt o env files entropy .variant e) :
    ∃ v, o.variant? env = some v := by
  rw [← Option.ne_none_iff_exists']
  intro hv
  exact h _ (.variant hv)

theorem exists_dialect (h : ∀ e, ¬ FailsAt o env files entropy .dialect e) (v : Variant) :
    ∃ d, o.dialectOn? env v = some d := by
  rw [← Option.ne_none_iff_exists']
  intro hd
  unfold Options.dialectOn? at hd
  split at hd
  · cases hd
  · next name hname => exact h _ (.dialect hname hd)

theorem exists_config (hv : ∀ e, ¬ FailsAt o env files entropy .variant e)
    (hd : ∀ e, ¬ FailsAt o env files entropy .dialect e) :
    ∃ v d, o.variant? env = some v ∧ o.config env = .ok (o.configOf v d) := by
  obtain ⟨v, hv⟩ := exists_variant hv
  obtain ⟨d, hd⟩ := exists_dialect hd v
  exact ⟨v, d, hv, Options.config_of_known hv hd⟩

theorem FailsFirstAt.exists_config (h : FailsFirstAt o env files entropy s e)
    (hlater : Stage.dialect.rank < s.rank) :
    ∃ v d, o.variant? env = some v ∧ o.config env = .ok (o.configOf v d) :=
  CommandLine.exists_config (h.not_failsAt (Nat.zero_lt_of_lt hlater)) (h.not_failsAt hlater)

theorem frames_ne_zero (h : ∀ e, ¬ FailsAt o env files entropy .frames e) : o.frames ≠ 0 :=
  fun hzero => h _ (.frames hzero)

theorem room_eq (h : Machine.create (o.configOf v d) entropy = .ok new) :
    new.memory.size - new.config.loadAddress.toNat = room v := by
  have hw := Machine.wellFormed_of_create h
  rw [hw.memory, hw.config]
  rfl

/-! ## The exit -/

structure Exit.Reports (x : Exit) (e : Fault) : Prop where
  code : x.code = 1
  stdout : x.stdout = ""
  stderr : x.stderr = "Error: " ++ e.report ++ "\n"

theorem reports_exitWith {report : Headless.Report} (h : report.result = .error e) :
    (exitWith o report).Reports e := by
  unfold exitWith
  rw [h]
  exact ⟨rfl, rfl, rfl⟩

theorem perform_of_config_error (h : o.config env = .error e) :
    (perform o env files entropy).Reports e := by
  rw [perform, h]
  exact reports_exitWith rfl

theorem perform_of_config (h : o.config env = .ok c) :
    perform o env files entropy = exitWith o (Headless.run c entropy files o.rom o.frames) := by
  rw [perform, h]

theorem code_of_run {m : Machine} (h : o.config env = .ok c)
    (hr : (Headless.run c entropy files o.rom o.frames).result = .ok m) :
    (perform o env files entropy).code = 0 := by
  rw [perform_of_config h, exitWith, hr]

theorem perform_of_fault (h : o.config env = .ok c)
    (hr : (Headless.run c entropy files o.rom o.frames).result = .error e) :
    (perform o env files entropy).Reports e := by
  rw [perform_of_config h]
  exact reports_exitWith hr

theorem FailsFirstAt.reports (h : FailsFirstAt o env files entropy s e) :
    (perform o env files entropy).Reports e := by
  cases h.failure with
  | variant hv => exact perform_of_config_error (Options.config_of_unknown_variant hv)
  | dialect hname hunknown =>
    obtain ⟨v, hv⟩ := exists_variant (h.not_failsAt (by decide))
    have hd : o.dialectOn? env v = none := by simp only [Options.dialectOn?, hname, hunknown]
    exact perform_of_config_error (Options.config_of_unknown_dialect hv hd)
  | frames hzero =>
    obtain ⟨v, d, -, hc⟩ := h.exists_config (by decide)
    refine perform_of_fault hc ?_
    rw [hzero]
    rfl
  | unreadable hfile =>
    obtain ⟨v, d, -, hc⟩ := h.exists_config (by decide)
    obtain ⟨new, hnew⟩ := Machine.exists_create_iff.mpr (o.accepted_configOf v d)
    have hframes := frames_ne_zero (h.not_failsAt (by decide))
    refine perform_of_fault hc (Headless.result_run_of_load_error hnew hframes ?_)
    rw [Machine.loadFile_of_unreadable hfile]
  | @tooLarge v bytes hv hfile hlarge =>
    obtain ⟨v', d, hv', hc⟩ := h.exists_config (by decide)
    obtain rfl : v = v' := Option.some.inj (hv.symm.trans hv')
    obtain ⟨new, hnew⟩ := Machine.exists_create_iff.mpr (o.accepted_configOf v d)
    have hloads := Machine.loads_loadFile (m := new) hfile
    have hrefused : (new.loadFile files o.rom).result ≠ .ok () := by
      rw [ne_eq, hloads.fits_iff, room_eq hnew]
      exact Nat.not_le.mpr hlarge
    have hframes := frames_ne_zero (h.not_failsAt (by decide))
    refine perform_of_fault hc (Headless.result_run_of_load_error hnew hframes ?_)
    rw [(hloads.refused hrefused).1, room_eq hnew]
  | run hc hm hframe =>
    obtain ⟨m, told, -, -, -, hstarts, hrun⟩ := Headless.exists_startsFrom (List.ne_nil_of_mem hm)
    refine perform_of_fault hc ?_
    rw [hrun, Headless.result_runFrames_eq_error_iff]
    exact ⟨_, hstarts ▸ hm, hframe⟩

theorem within_frame {m : Machine} (h : m.config = c ∧ m.Within c.variant) :
    (Headless.frame m).machine.config = c ∧ (Headless.frame m).machine.Within c.variant := by
  obtain ⟨hconfig, hwithin⟩ := h
  have hobeys : Machine.Obeys (Instruction.Native c.variant) m :=
    fun o next i hi => Instruction.native_of_decode (hconfig ▸ hi)
  have hframe := (Machine.steps_frame hobeys fun _ => Keypad.released.keyboard).keep
    Machine.Within.step hwithin
  refine ⟨(Headless.config_frame m).trans hconfig, ?_⟩
  unfold Headless.frame
  simp only
  split
  · exact hframe
  · exact { hframe with }

/-- Where no stage fails the run comes to its end, on a machine of the configuration asked for with
nothing lit in planes that programs cannot draw on. -/
theorem exists_machine_of_not_failsAt (h : ∀ s e, ¬ FailsAt o env files entropy s e) :
    ∃ c m, o.config env = .ok c ∧ (Headless.run c entropy files o.rom o.frames).result = .ok m ∧
      m.config = c ∧ m.display.BlankFrom 4 := by
  obtain ⟨v, d, hv, hc⟩ := exists_config (h .variant) (h .dialect)
  obtain ⟨new, hnew⟩ := Machine.exists_create_iff.mpr (o.accepted_configOf v d)
  have hload : (new.loadFile files o.rom).result = .ok () := by
    cases hfile : files o.rom with
    | error e => exact absurd (.unreadable hfile) (h .rom _)
    | ok bytes =>
      rw [(Machine.loads_loadFile hfile).fits_iff, room_eq hnew]
      exact Nat.le_of_not_lt fun hlarge => h .rom _ (.tooLarge hv hfile hlarge)
  obtain ⟨told, hrun⟩ := Headless.exists_run_of_loaded hnew (frames_ne_zero (h .frames)) hload
  cases hr : (Headless.run (o.configOf v d) entropy files o.rom o.frames).result with
  | error e =>
    rw [hrun, Headless.result_runFrames_eq_error_iff] at hr
    obtain ⟨m, hm, hframe⟩ := hr
    rw [← Headless.starts_of_loaded hnew hload] at hm
    exact absurd (.run hc hm hframe) (h .run e)
  | ok m =>
    have hloaded : (new.loadFile files o.rom).machine.config = o.configOf v d ∧
        (new.loadFile files o.rom).machine.Within (o.configOf v d).variant := by
      have hsteps := Machine.steps_loadFile (A := Instruction.Native (o.configOf v d).variant)
        (m := new) files o.rom
      exact ⟨hsteps.config.trans (Machine.start_of_create hnew).1,
        hsteps.keep Machine.Within.step (Machine.Within.of_create hnew)⟩
    rw [hrun] at hr
    obtain ⟨hconfig, hwithin⟩ := Headless.keep_runFrames
      (P := fun m => m.config = o.configOf v d ∧ m.Within (o.configOf v d).variant)
      (fun m => within_frame) hloaded hr
    exact ⟨_, m, hc, by rw [hrun, hr], hconfig, hwithin.confined.blank.mono (Variant.planes_le _)⟩

/-- The end of a run on `m` is reported, with its display if that is asked for. -/
structure Exit.Concludes (x : Exit) (dump : Bool) (m : Machine) : Prop where
  code : x.code = 0
  stderr : x.stderr = ""
  stdout : ∃ picture, x.stdout = "headless finished: variant=" ++ m.config.variant.name
      ++ " finished=" ++ (if m.finished then "true" else "false")
      ++ " pc=0x" ++ Hex.lower 4 m.pc.toNat ++ "\n" ++ picture ∧
    (dump = false → picture = "") ∧ (dump = true → m.display.Shows picture)

theorem concludes_exitWith {report : Headless.Report} {m : Machine} (h : report.result = .ok m)
    (hblank : m.display.BlankFrom 4) : (exitWith o report).Concludes o.dump m := by
  unfold exitWith
  rw [h]
  refine ⟨rfl, rfl, if o.dump then m.display.dump else "", rfl, ?_, ?_⟩
  · intro hd
    rw [hd]
    rfl
  · intro hd
    rw [hd]
    exact Display.shows_dump hblank

theorem perform_withValue {s : Setting} (h : o.named s ≠ none) (value : Option ByteArray) :
    perform o (env.withValue value s) files entropy = perform o env files entropy := by
  rw [perform, perform, Options.config_withValue h]

theorem perform_withName {s : Setting} {name : String} (h : o.named s = none)
    (hname : o.FallsBackTo env s name) (value : Option ByteArray) :
    perform (o.withName name s) (env.withValue value s) files entropy =
      perform o env files entropy := by
  rw [perform, perform, Options.config_withName h hname]
  cases s <;> rfl

theorem run_of_parse {args : List String} (h : Options.parse? args = some o) (env : Environment)
    (files : Files) (entropy : Random.Key) :
    run args env files entropy = perform o env files entropy := by
  simp only [run, h]

/-- A setting given by an option hides its variable, whatever that holds, and one that is not given
is as if what it falls back to had been given. A machine can be made to all that can be asked for.
The first stage that fails makes the program fail, and if none does the program succeeds, with a
report on the run of the configuration asked for. -/
theorem settings_and_failures_in_order {args : List String} (ho : Options.parse? args = some o)
    (env : Environment) (files : Files) (entropy : Random.Key) :
    let exit := run args env files entropy
    (∀ s, o.named s ≠ none → ∀ value, run args (env.withValue value s) files entropy = exit) ∧
    (∀ s name, o.named s = none → o.FallsBackTo env s name → ∀ value,
      run (("--" ++ s.optionName ++ "=" ++ name) :: args) (env.withValue value s) files entropy =
        exit) ∧
    (∀ c, o.config env = .ok c → ∃ m, Machine.create c entropy = .ok m) ∧
    (∀ s e, FailsAt o env files entropy s e →
      (∀ s' e', FailsAt o env files entropy s' e' → s.rank ≤ s'.rank) → exit.Reports e) ∧
    (exit.code = 0 ↔ ∀ s e, ¬ FailsAt o env files entropy s e) ∧
    (exit.code = 0 → ∃ c m, o.config env = .ok c ∧
      (Headless.run c entropy files o.rom o.frames).result = .ok m ∧ m.config = c ∧
      exit.Concludes o.dump m) := by
  intro exit
  have hexit : exit = perform o env files entropy := run_of_parse ho env files entropy
  have hsuccess (h : ∀ s e, ¬ FailsAt o env files entropy s e) : ∃ c m, o.config env = .ok c ∧
      (Headless.run c entropy files o.rom o.frames).result = .ok m ∧ m.config = c ∧
      exit.Concludes o.dump m := by
    obtain ⟨c, m, hc, hr, hconfig, hblank⟩ := exists_machine_of_not_failsAt h
    refine ⟨c, m, hc, hr, hconfig, ?_⟩
    rw [hexit, perform_of_config hc]
    exact concludes_exitWith hr hblank
  have hcode : exit.code = 0 ↔ ∀ s e, ¬ FailsAt o env files entropy s e := by
    constructor
    · intro hzero s e h
      obtain ⟨s', e', hfirst⟩ := h.exists_first
      rw [hexit, hfirst.reports.code] at hzero
      cases hzero
    · intro h
      obtain ⟨c, m, -, -, -, hconcludes⟩ := hsuccess h
      exact hconcludes.code
  refine ⟨fun s hs value => ?_, fun s name hs hname value => ?_, fun c hc => ?_,
    fun s e h hfirst => ?_, hcode, fun hzero => hsuccess (hcode.mp hzero)⟩
  · rw [hexit, run_of_parse ho, perform_withValue hs]
  · rw [hexit, run_of_parse (Options.parse?_cons ho hs name), perform_withName hs hname]
  · exact Machine.exists_create_iff.mpr (Options.accepted_of_config hc)
  · rw [hexit]
    exact FailsFirstAt.reports ⟨h, hfirst⟩

/-! ## A program that draws -/

def zero : List UInt8 := [0xA1, 0xB0, 0xD0, 0x05]

theorem places_zero : (Config.standard .chip8).Places zero :=
  ⟨rfl, by decide, by decide, by decide⟩

section Zero

open Machine

theorem cycles_zero {m : Machine} {rom : Option String}
    (hnew : create (.standard .chip8) entropy = .ok new)
    (hm : m = { (new.loadRom zero).machine with rom }) (keys : Nat → Keyboard) :
    let n := (m.cycle (keys 0)).machine
    let k := (n.cycle (keys 1)).machine
    (∃ told, runCycles keys m.config.cyclesPerFrame 0 m #[] = ⟨.ok 2, k, told⟩) ∧
      k.finished = false ∧ k.pc = 0x204 ∧ ShowsDigits 1 k.display := by
  intro n k
  have hstarting : Starting _ _ m :=
    hm ▸ (starting_loadRom (i := .setIndex 0x1B0) hnew places_zero fun _ => rfl).rom rom
  have hmemory : m.memory = (new.loadRom zero).machine.memory := by rw [hm]
  replace hm : m = { new with memory := new.memory.load 0x200 zero, rom := rom } := by
    rw [hm, (loadRom_of_places hnew places_zero).2]
    rfl
  have hfirst : m.cycle (keys 0) = _ := cycle_of_fetch hstarting.waiting hstarting.fetch
  have hn : n = { m with pc := m.pc + 2, index := 0x1B0 } := by
    simp only [n, hfirst]
    rfl
  have hnext : n.pc = 0x202 := by
    rw [hn, hm, (start_of_create hnew).2.2]
    rfl
  have hdraw (next : UInt16) : Instruction.decode .chip8
      (UInt8.toUInt16 0xD0 * 256 + UInt8.toUInt16 0x05) next = .ok (.draw 0 0 5) := rfl
  obtain ⟨opcode, hfetch⟩ : ∃ opcode, n.fetch = .ok ⟨n.pc, opcode, .draw 0 0 5⟩ :=
    ⟨_, fetch_of_word (o := 2) hnew places_zero (by rw [hn]; exact hstarting.config)
      (by rw [hn, ← hmemory])
      (by rw [hnext]; rfl) rfl (by decide) hdraw⟩
  have hsecond : n.cycle (keys 1) = _ :=
    cycle_of_fetch (by rw [hn]; exact hstarting.waiting) hfetch
  have hk : k = (n.advance 2).execute (keys 1) (.draw 0 0 5) := by
    simp only [k, hsecond]
    rfl
  have hdrawn : ShowsDigits 1
      ((new.display.setMask 1).draw ⟨new.memory.load 0x200 zero, 0x1B0, 8, 5⟩ 0 0).1 :=
    showsDigits_draw hnew (by decide) fun o ho =>
      read_small_load hnew (Nat.le_refl _) places_zero.fits ho
  have hdisplay : ShowsDigits 1 k.display := by
    rw [hk, hn, hm]
    obtain ⟨_, memory, _, rfl⟩ := create_eq_ok_iff.mp hnew
    exact hdrawn
  obtain ⟨hredraw, hfinished, hpc⟩ : k.redraw = true ∧ k.finished = false ∧ k.pc = 0x204 := by
    rw [hk, hn, hm]
    obtain ⟨_, memory, _, rfl⟩ := create_eq_ok_iff.mp hnew
    exact ⟨rfl, rfl, rfl⟩
  refine ⟨?_, hfinished, hpc, hdisplay⟩
  have hgoing : n.resting = false := by
    rw [hn]
    exact hstarting.resting
  have hresting : k.resting = true := by
    simp [resting, hredraw, hdisplay.resolution]
  have hbudget : m.config.cyclesPerFrame = 11 + 2 := by rw [hstarting.config]; rfl
  rw [hbudget, runCycles_of_ok hstarting.resting (by rw [hfirst]),
    runCycles_of_ok hgoing (by rw [hsecond]), runCycles, if_pos hresting]
  exact ⟨_, rfl⟩

theorem exists_run_zero (entropy : Random.Key) {rom : String} (hfile : files rom = .ok zero) :
    ∃ m, (Headless.run (.standard .chip8) entropy files rom 1).result = .ok m ∧
      m.finished = false ∧ m.pc = 0x204 ∧ ShowsDigits 1 m.display := by
  obtain ⟨new, hnew⟩ : ∃ new, create (.standard .chip8) entropy = .ok new :=
    exists_create_iff.mpr rfl
  have hload : new.loadFile files rom = _ := loadFile_of_places hnew places_zero hfile
  have hloaded : (new.loadFile files rom).machine =
      { (new.loadRom zero).machine with rom := some rom } := by rw [hload]
  have hstarting : Starting _ _ (new.loadFile files rom).machine :=
    starting_loadFile (i := .setIndex 0x1B0) hnew places_zero hfile fun _ => rfl
  obtain ⟨⟨told, hcycles⟩, hfinished, hpc, hdisplay⟩ :=
    cycles_zero hnew hloaded fun _ => Keypad.released.keyboard
  exact ⟨_, Headless.result_run_one hnew (by rw [hload]) hstarting.finished hcycles, hfinished,
    hpc, hdisplay⟩

end Zero

/-! ## Invocations -/

/-- A program that exits, and one that draws. -/
def programs : Files := fun name =>
  if name = "game" then .ok [0x00, 0xFD]
  else if name = "zero" then .ok zero
  else .error .notFound

def superChipByName : Environment := ⟨some " SChip ".toUTF8, none⟩

def playGame : Options := ⟨"game", none, none, 600, false, none, false, false⟩

def dumpZero : Options := ⟨"zero", none, none, 1, false, none, false, true⟩

theorem variant_playGame : playGame.variant? superChipByName = some .superChip := by
  have htext : environmentText superChipByName.variant = some " SChip " :=
    environmentText_eq_some_iff.mpr rfl
  simp only [Options.variant?, Options.variantName, playGame, htext]
  decide

theorem config_playGame :
    playGame.config superChipByName = .ok (playGame.configOf .superChip .hp48) := by
  have hsilent : Silent superChipByName.dialect := fun name h => by cases h
  have hname : playGame.dialectName? superChipByName = none := hsilent.environmentText_eq
  refine Options.config_of_known variant_playGame ?_
  simp only [Options.dialectOn?, hname]
  rfl

theorem exists_run_playGame (entropy : Random.Key) :
    ∃ m, (Headless.run (playGame.configOf .superChip .hp48) entropy programs playGame.rom
      playGame.frames).result = .ok m := by
  obtain ⟨new, hnew⟩ :
      ∃ new, Machine.create (playGame.configOf .superChip .hp48) entropy = .ok new :=
    Machine.exists_create_iff.mpr (playGame.accepted_configOf _ _)
  have hplaces : (playGame.configOf .superChip .hp48).Places [0x00, 0xFD] :=
    ⟨rfl, by decide, rfl, by simp only [List.length]; decide⟩
  have hfile : programs playGame.rom = .ok [0x00, 0xFD] := rfl
  have hframes : playGame.frames ≠ 0 := by decide
  obtain ⟨m, hm, -⟩ :=
    Headless.exists_run_of_exit hnew hplaces hfile (fun _ => rfl) rfl hframes (by decide)
  exact ⟨m, hm⟩

theorem config_dumpZero : dumpZero.config ⟨none, none⟩ = .ok (.standard .chip8) := by
  have hunset : environmentText none = none := rfl
  refine Options.config_of_known (v := .chip8) (d := .vip) ?_ ?_
  · simp only [Options.variant?, Options.variantName, dumpZero, hunset]
    decide
  · simp only [Options.dialectOn?, Options.dialectName?, dumpZero, hunset]
    rfl

/-- A program that exits, on the variant that the environment names, a name of no variant among
other things that are wrong, and a program whose picture is asked for. -/
theorem settings_and_failures_in_order_of_game :
    let play (args : List String) (env : Environment) : Exit := run args env programs default
    let zeros := play ["--rom", "zero", "--frames=1", "--dump"] ⟨none, none⟩
    (play ["--rom", "game"] superChipByName).code = 0 ∧
      play ["--variant= SChip ", "--rom", "game"] ⟨none, none⟩ =
        play ["--rom", "game"] superChipByName ∧
      play ["--quirks=modern", "--rom", "game"] ⟨superChipByName.variant, some "none".toUTF8⟩ =
        play ["--rom", "game"] superChipByName ∧
      (∀ value,
        let failed := play ["--rom", "gone", "--quirks=none", "--frames=0"]
          ⟨some "mega".toUTF8, value⟩
        failed.code = 1 ∧ failed.stdout = "" ∧
          failed.stderr = "Error: InvalidArgument(\"variant must be chip8, schip or xochip\")\n") ∧
      zeros.code = 0 ∧ zeros.stderr = "" ∧
      ∃ f, zeros.stdout.toList =
          "headless finished: variant=CHIP-8 finished=false pc=0x0204\n".toList ++ lines 64 32 f ∧
        f 3 0 = '#' ∧ f 4 0 = '.' := by
  intro play zeros
  have hgame : Options.parse? ["--rom", "game"] = some playGame := by decide
  have hdump : Options.parse? ["--rom", "zero", "--frames=1", "--dump"] = some dumpZero := by decide
  obtain ⟨-, hname, -⟩ := settings_and_failures_in_order hgame superChipByName programs default
  refine ⟨?_, ?_, ?_, fun value => ?_, ?_⟩
  · obtain ⟨m, hm⟩ := exists_run_playGame default
    have hrun : play ["--rom", "game"] superChipByName = perform playGame superChipByName _ _ :=
      run_of_parse hgame superChipByName programs default
    rw [hrun]
    exact code_of_run config_playGame hm
  · have hgiven := hname .variant " SChip " rfl (.text rfl) none
    rwa [show "--" ++ Setting.variant.optionName ++ "=" ++ " SChip " = "--variant= SChip " by
      decide] at hgiven
  · have hfallsBack : playGame.FallsBackTo superChipByName .dialect "modern" := by
      refine .dialect (fun name h => by cases h) fun v hv => ?_
      cases variant_playGame.symm.trans hv
      decide
    have hgiven := hname .dialect "modern" rfl hfallsBack (some "none".toUTF8)
    rwa [show "--" ++ Setting.dialect.optionName ++ "=" ++ "modern" = "--quirks=modern" by decide]
      at hgiven
  · let wrong : Options := ⟨"gone", none, some "none", 0, false, none, false, false⟩
    have hwrong : Options.parse? ["--rom", "gone", "--quirks=none", "--frames=0"] = some wrong := by
      decide
    have hmega : environmentText (some "mega".toUTF8) = some "mega" :=
      environmentText_eq_some_iff.mpr rfl
    obtain ⟨hhidden, -, -, hfirst, -⟩ :=
      settings_and_failures_in_order hwrong ⟨some "mega".toUTF8, none⟩ programs default
    have hunknown : FailsAt wrong ⟨some "mega".toUTF8, none⟩ programs default .variant
        (.invalidArgument .unknownVariant) := by
      refine .variant ?_
      simp only [Options.variantName, wrong, hmega]
      decide
    have hreports := hfirst .variant _ hunknown fun _ _ _ => Nat.zero_le _
    intro failed
    have hfailed : failed = _ := hhidden .dialect (by decide) value
    rw [hfailed]
    exact ⟨hreports.code, hreports.stdout, hreports.stderr⟩
  · have hfile : programs "zero" = .ok zero := rfl
    obtain ⟨m, hm, hrunning, hpc, hdigits⟩ := exists_run_zero default hfile
    have hzeros : zeros = perform dumpZero ⟨none, none⟩ programs default :=
      run_of_parse hdump ⟨none, none⟩ programs default
    have hzero : zeros.code = 0 := by
      rw [hzeros]
      exact code_of_run config_dumpZero hm
    obtain ⟨-, -, -, -, -, hsuccess⟩ :=
      settings_and_failures_in_order hdump ⟨none, none⟩ programs default
    obtain ⟨c, n, hc, hn, hconfig, hconcludes⟩ := hsuccess hzero
    obtain rfl : .standard .chip8 = c := Except.ok.inj (config_dumpZero.symm.trans hc)
    obtain rfl : m = n := Except.ok.inj (hm.symm.trans hn)
    obtain ⟨picture, hstdout, -, hshows⟩ := hconcludes.stdout
    obtain ⟨f, hpicture, hcells⟩ := hshows rfl
    simp only [Display.width, Display.height, hdigits.resolution] at hpicture
    refine ⟨hzero, hconcludes.stderr, f, ?_, hdigits.hash_dot hcells⟩
    have htext : zeros.stdout = _ := hstdout
    have hsummary : "headless finished: variant=" ++ (Config.standard .chip8).variant.name
        ++ " finished=" ++ (if false = true then "true" else "false") ++ " pc=0x"
        ++ Hex.lower 4 (UInt16.toNat 0x204) ++ "\n" =
          "headless finished: variant=CHIP-8 finished=false pc=0x0204\n" := by decide
    rw [htext, String.toList_append, hpicture, hconfig, hrunning, hpc, hsummary]
    rfl

end Chip8.CommandLine
