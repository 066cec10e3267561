import Chip8.Proofs.Display.Planes
import Chip8.Proofs.Machine.Beat
import Chip8.Proofs.Machine.Faults

/-! # Upward compatibility

A program for CHIP-8 or SuperChip runs on a higher variant, and in front of more planes, as it does
at home: as long as it stays within the opcodes of its own variant, the two machines cannot be told
apart but for their configurations and the blank planes behind the first one.
-/

namespace Chip8

def Machine.on (m : Machine) (c : Config) (d : Display) : Machine :=
  { m with config := c, display := d }

/-- `d` is made for the same programs as `c`, for a variant at least as high. -/
structure Config.Extends (c d : Config) : Prop where
  below : c.variant ≠ .xoChip
  le : c.variant ≤ d.variant
  same : d = { c with variant := d.variant, planes := d.planes }

/-- Two machines that differ in nothing but the configuration and the number of blank planes behind
the first one, which is the only one selected. -/
structure Machine.Alike (m n : Machine) : Prop where
  fields : n = m.on n.config n.display
  screens : ∃ (r : Resolution) (b : Bitmap r), m.display = .single b (m.config.planes - 1) ∧
    n.display = .single b (n.config.planes - 1)

namespace Machine

variable {m n : Machine} {c d : Config} {entropy entropy' : Random.Key} {keys : Keyboard}
  {i : Instruction}

section Execute

variable {r : Resolution} {b : Bitmap r} {j k : Nat}

theorem indexAfter_on {x : Register} {d : Display} (hd : c.dialect = m.config.dialect) :
    (m.on c d).indexAfter x = m.indexAfter x := by
  have h : (m.on c d).advancesIndex = m.advancesIndex := by simp only [advancesIndex, on, hd]
  unfold indexAfter
  rw [h]
  rfl

theorem present_on {s : Resolution} {b' : Bitmap s} {f : Display → Display}
    (hm : m.display = .single b j) (hf : ∀ rest, f (.single b rest) = .single b' rest) :
    (m.present (f m.display)).display = .single b' j ∧
      (m.on c (.single b k)).present (f (.single b k)) =
        (m.present (f m.display)).on c (.single b' k) :=
  ⟨by rw [hm, hf]; rfl, by rw [hf]; rfl⟩

theorem drawSprite_on (hm : m.display = .single b j) (x y : Register) (width height : Nat) :
    ∃ b' : Bitmap r, (m.drawSprite x y width height).display = .single b' j ∧
      (m.on c (.single b k)).drawSprite x y width height =
        (m.drawSprite x y width height).on c (.single b' k) := by
  simp only [drawSprite, on, hm, Display.draw_single]
  exact ⟨_, rfl, rfl⟩

/-- Only selecting planes could show that there are more of them. -/
theorem execute_on (hm : m.display = .single b j) (hd : c.dialect = m.config.dialect)
    (hi : i.variant ≠ .xoChip) :
    ∃ (s : Resolution) (b' : Bitmap s), (m.execute keys i).display = .single b' j ∧
      (m.on c (.single b k)).execute keys i = (m.execute keys i).on c (.single b' k) := by
  cases i with
  | clear => exact ⟨r, _, present_on hm fun _ => Display.clear_single⟩
  | scrollDown n =>
    exact ⟨r, _, present_on (f := (Display.scrollDown · n.toNat)) hm
      fun _ => Display.scrollDown_single n.toNat⟩
  | scrollRight => exact ⟨r, _, present_on hm fun _ => Display.scrollRight_single⟩
  | scrollLeft => exact ⟨r, _, present_on hm fun _ => Display.scrollLeft_single⟩
  | setResolution s =>
    exact ⟨s, _, present_on (f := (Display.setResolution · s)) hm
      fun _ => Display.setResolution_single s⟩
  | draw x y height => exact ⟨r, drawSprite_on hm x y 8 height.toNat⟩
  | drawLarge x y => exact ⟨r, drawSprite_on hm x y 16 16⟩
  | scrollUp n => exact absurd rfl hi
  | selectPlanes mask => exact absurd rfl hi
  | alu op x y => exact ⟨r, b, hm, by simp only [execute, on, hd]⟩
  | jumpOffset x a => exact ⟨r, b, hm, by simp only [execute, on, hd]⟩
  | storeRegisters x =>
    have h : (m.on c (.single b k)).indexAfter x = m.indexAfter x := indexAfter_on hd
    exact ⟨r, b, hm, by simp only [execute, h]; rfl⟩
  | loadRegisters x =>
    have h : (m.on c (.single b k)).indexAfter x = m.indexAfter x := indexAfter_on hd
    exact ⟨r, b, hm, by simp only [execute, h]; rfl⟩
  | loadFlags x =>
    exact ⟨r, b, by simpa only [execute] using hm, by simp only [execute, loadedFlags, on]⟩
  | loadAudio => exact ⟨r, b, by simpa only [execute] using hm, by simp only [execute, on]⟩
  | _ => exact ⟨r, b, hm, rfl⟩

end Execute

def Shadowed (v w : Variant) (i : Instruction) : Prop :=
  v = .chip8 ∧ v < w ∧ ∃ x y, i = .draw x y 0

/-- Two replies that a host cannot tell apart. -/
structure Same {α : Type} (r s : Reply α) : Prop where
  result : s.result = r.result
  notices : s.notices = r.notices
  machines : Alike r.machine s.machine

theorem alike_iff : Alike m n ↔ ∃ (r : Resolution) (b : Bitmap r),
    m.display = .single b (m.config.planes - 1) ∧
      n = m.on n.config (.single b (n.config.planes - 1)) := by
  constructor
  · rintro ⟨hf, r, b, hm, hn⟩
    exact ⟨r, b, hm, hn ▸ hf⟩
  · rintro ⟨r, b, hm, hn⟩
    have hd : n.display = .single b (n.config.planes - 1) := congrArg Machine.display hn
    exact ⟨hd ▸ hn, r, b, hm, hd⟩

theorem fetch_on {t : Trace} {d : Display} (he : m.config.Extends c) (hf : m.fetch = .ok t)
    (hs : ¬ Shadowed m.config.variant c.variant t.instruction) : (m.on c d).fetch = .ok t := by
  obtain ⟨ha, hdec, hpc, ho⟩ := fetch_eq_ok_iff.mp hf
  have ha' : (m.on c d).Aligned := by
    have : c.allowMisaligned = m.config.allowMisaligned := by rw [he.same]
    exact ha.imp_right this.trans
  refine fetch_eq_ok_iff.mpr ⟨ha', ?_, hpc, ho⟩
  rcases Instruction.decode_of_le he.le hdec with h | ⟨hv, hlt, x, y, hi, _⟩
  · exact h
  · exact absurd ⟨hv, hlt, x, y, hi⟩ hs

theorem Alike.execute (h : Alike m n) (he : m.config.Extends n.config)
    (hi : i.variant ≤ m.config.variant) : Alike (m.execute keys i) (n.execute keys i) := by
  obtain ⟨r, b, hm, hn⟩ := alike_iff.mp h
  have hdialect : n.config.dialect = m.config.dialect := by rw [he.same]
  have hvariant : i.variant ≠ .xoChip := by
    intro hx
    exact he.below (le_antisymm (Variant.le_xoChip _) (hx ▸ hi))
  obtain ⟨s, b', hm', hn'⟩ := execute_on (k := n.config.planes - 1) hm hdialect hvariant
  rw [← hn] at hn'
  refine alike_iff.mpr ⟨s, b', by rw [hm', config_execute], ?_⟩
  rw [config_execute]
  exact hn'

theorem pollKey_on {c : Config} {d : Display} :
    (m.on c d).pollKey keys =
      ⟨(m.pollKey keys).result, (m.pollKey keys).machine.on c d, (m.pollKey keys).notices⟩ := by
  simp only [Machine.pollKey, on]
  cases keys.pressed? with
  | none => rfl
  | some key => rfl

theorem display_pollKey : (m.pollKey keys).machine.display = m.display := by
  unfold Machine.pollKey
  split <;> rfl

theorem Alike.pollKey (h : Alike m n) : Same (m.pollKey keys) (n.pollKey keys) := by
  obtain ⟨r, b, hm, hn⟩ := alike_iff.mp h
  rw [hn, pollKey_on]
  refine ⟨rfl, rfl, alike_iff.mpr ⟨r, b, ?_, rfl⟩⟩
  rw [display_pollKey, config_pollKey, hm]

theorem Alike.advance (h : Alike m n) (k : UInt16) : Alike (m.advance k) (n.advance k) := by
  obtain ⟨r, b, hm, hn⟩ := alike_iff.mp h
  rw [hn]
  exact alike_iff.mpr ⟨r, b, hm, rfl⟩

theorem Alike.cycle {a : Outcome} (h : Alike m n) (he : m.config.Extends n.config)
    (ha : (m.cycle keys).result = .ok a)
    (hs : ∀ t, a = .executed t → ¬ Shadowed m.config.variant n.config.variant t.instruction) :
    Same (m.cycle keys) (n.cycle keys) := by
  have hw : n.waiting = m.waiting := by rw [h.fields]; rfl
  unfold Machine.cycle at ha ⊢
  rw [hw]
  cases hwait : m.waiting with
  | true => exact h.pollKey
  | false =>
    rw [hwait] at ha
    cases hf : m.fetch with
    | error e => simp [hf] at ha
    | ok t =>
      have hat : a = .executed t := by simpa [hf, eq_comm] using ha
      have hn : n.fetch = .ok t := by
        rw [h.fields]
        exact fetch_on he hf (hs t hat)
      have hle := Instruction.variant_le_of_decode (fetch_eq_ok_iff.mp hf).2.1
      have hadvance := h.advance t.instruction.size
      have hpc : (n.advance t.instruction.size).pc = (m.advance t.instruction.size).pc := by
        rw [hadvance.fields]
        rfl
      simp only [hn, perform, hpc]
      exact ⟨rfl, rfl, hadvance.execute he hle⟩

theorem Alike.tick (h : Alike m n) : Same m.tick n.tick := by
  obtain ⟨r, b, hm, hn⟩ := alike_iff.mp h
  rw [hn]
  exact ⟨rfl, rfl, alike_iff.mpr ⟨r, b, hm, rfl⟩⟩

theorem Alike.loadRom (h : Alike m n) (he : m.config.Extends n.config) (bytes : List UInt8) :
    Same (m.loadRom bytes) (n.loadRom bytes) := by
  obtain ⟨r, b, hm, hn⟩ := alike_iff.mp h
  have haddress : n.config.loadAddress = m.config.loadAddress := by rw [he.same]
  have hlimit : n.romLimit = m.romLimit := by
    rw [romLimit, haddress, h.fields]
    rfl
  by_cases hlarge : m.romLimit < (Rom.program bytes).length
  · simp only [Machine.loadRom, hlimit, if_pos hlarge]
    exact ⟨rfl, rfl, h⟩
  · simp only [Machine.loadRom, hlimit, haddress, if_neg hlarge]
    refine ⟨rfl, rfl, alike_iff.mpr ⟨r, b, hm, ?_⟩⟩
    rw [hn]
    rfl

theorem alike_of_create (he : c.Extends d) (hseed : c.seed = none → entropy' = entropy)
    (hm : create c entropy = .ok m) (hn : create d entropy' = .ok n) : Alike m n := by
  obtain ⟨hc, memory, hmemory, rfl⟩ := create_eq_ok_iff.mp hm
  obtain ⟨hd, memory', hmemory', rfl⟩ := create_eq_ok_iff.mp hn
  have hsize : d.memorySize = c.memorySize := by rw [he.same]
  obtain rfl : memory = memory' := by
    rw [hsize, hmemory] at hmemory'
    exact Except.ok.inj hmemory'
  have hscreen {c : Config} (hc : c.Accepted) :
      Display.blank c.planes = .single (.blank .low) (c.planes - 1) := by
    have := Config.accepted_iff.mp hc
    rw [← Display.blank_succ, Nat.sub_add_cancel (by omega)]
  refine alike_iff.mpr ⟨.low, .blank .low, hscreen hc, ?_⟩
  rw [hscreen hd, he.same, ← Random.start_congr hseed]
  rfl

/-! ## Runs -/

/-- A reply that does not fail and stays within what `w` has in common with `v`. -/
def Plain (v w : Variant) (r : Reply Answer) : Prop :=
  ∃ a, r.result = .ok a ∧ ∀ t, a = .outcome (.executed t) → ¬ Shadowed v w t.instruction

theorem Same.map {α β : Type} {r s : Reply α} (h : Same r s) (f : α → β) :
    Same (r.map f) (s.map f) :=
  ⟨congrArg (Except.map f) h.result, h.notices, h.machines⟩

theorem Alike.beat (h : Alike m n) (he : m.config.Extends n.config) (beat : Beat)
    (hp : Plain m.config.variant n.config.variant (beat.operation.apply m)) :
    Same (beat.operation.apply m) (beat.operation.apply n) := by
  cases beat with
  | tick => exact h.tick.map _
  | cycle keys =>
    obtain ⟨a, ha, hs⟩ := hp
    cases hr : (m.cycle keys).result with
    | error e => simp [Beat.operation, Operation.apply, Reply.map, hr, Except.map] at ha
    | ok outcome =>
      obtain rfl : .outcome outcome = a := by
        simpa [Beat.operation, Operation.apply, Reply.map, hr, Except.map] using ha
      exact (h.cycle he hr fun t ht => hs t (congrArg Answer.outcome ht)).map _

theorem Alike.run {beats : List Beat} (h : Alike m n) (he : m.config.Extends n.config)
    (hp : ∀ r ∈ Beat.replies m beats, Plain m.config.variant n.config.variant r) :
    List.Forall₂ Same (Beat.replies m beats) (Beat.replies n beats) ∧
      Alike (Beat.run m beats) (Beat.run n beats) := by
  induction beats generalizing m n with
  | nil => exact ⟨.nil, h⟩
  | cons beat beats ih =>
    have hsame := h.beat he beat (hp _ List.mem_cons_self)
    have hrest := ih hsame.machines (by simpa using he)
      (by simpa using fun r hr => hp r (List.mem_cons_of_mem _ hr))
    exact ⟨.cons hsame hrest.1, hrest.2⟩

/-- Whether a cycle can fail on every variant in the same way. -/
def Unconditional (e : Fault) : Prop :=
  (∃ o pc, e = .illegalInstruction o pc) ∨ ∃ pc, e = .misalignedFetch pc

theorem Alike.cycle_of_error {e : Fault} (h : Alike m n) (he : m.config.Extends n.config)
    (hr : (m.cycle keys).result = .error e) (hu : Unconditional e) :
    Same (m.cycle keys) (n.cycle keys) := by
  obtain ⟨hw, hf⟩ := cycle_eq_error_iff.mp hr
  have hmisaligned : n.config.allowMisaligned = m.config.allowMisaligned := by rw [he.same]
  have hn : FetchFault (m.on n.config n.display) e := by
    cases hf with
    | misaligned hconfig hpc => exact .misaligned (hmisaligned.trans hconfig) hpc
    | undecoded ha hd =>
      refine .undecoded (ha.imp_right hmisaligned.trans) ?_
      cases hd with
      | illegal hd => exact .illegal hd
      | violation r => rcases hu with ⟨_, _, hu⟩ | ⟨_, hu⟩ <;> cases hu
  rw [← h.fields] at hn
  have hw' : n.waiting = false := by rw [h.fields]; exact hw
  rw [Machine.cycle_of_error hr, Machine.cycle_of_error (cycle_eq_error_iff.mpr ⟨hw', hn⟩)]
  exact ⟨rfl, rfl, h⟩

/-- A machine of a higher variant runs a program just as one of a lower variant does, as long as
this one neither fails nor executes the one opcode that was taken over; and it fails in the same
way, unless the lower variant lacks the opcode. Machines without a seed must have the same
entropy. -/
theorem higher_variant_runs_alike (he : c.Extends d) (hseed : c.seed = none → entropy' = entropy)
    (hm : create c entropy = .ok m) (hn : create d entropy' = .ok n) (bytes : List UInt8) :
    Same (m.loadRom bytes) (n.loadRom bytes) ∧
      ∀ beats, (∀ r ∈ Beat.replies (m.loadRom bytes).machine beats,
          Plain c.variant d.variant r) →
        List.Forall₂ Same (Beat.replies (m.loadRom bytes).machine beats)
            (Beat.replies (n.loadRom bytes).machine beats) ∧
          Alike (Beat.run (m.loadRom bytes).machine beats)
            (Beat.run (n.loadRom bytes).machine beats) ∧
          ∀ keys e, ((Beat.run (m.loadRom bytes).machine beats).cycle keys).result = .error e →
            Unconditional e →
            Same ((Beat.run (m.loadRom bytes).machine beats).cycle keys)
              ((Beat.run (n.loadRom bytes).machine beats).cycle keys) := by
  have hw := (wellFormed_of_create hm).loadRom bytes
  have hw' := (wellFormed_of_create hn).loadRom bytes
  have he₀ : m.config.Extends n.config := by
    rw [(wellFormed_of_create hm).config, (wellFormed_of_create hn).config]
    exact he
  have hload := (alike_of_create he hseed hm hn).loadRom he₀ bytes
  refine ⟨hload, fun beats hp => ?_⟩
  have he₁ : (m.loadRom bytes).machine.config.Extends (n.loadRom bytes).machine.config := by
    rw [hw.config, hw'.config]
    exact he
  obtain ⟨hreplies, halike⟩ := hload.machines.run he₁ (by rwa [hw.config, hw'.config])
  refine ⟨hreplies, halike, fun keys e hr hu => halike.cycle_of_error ?_ hr hu⟩
  have hrun := hw.run (beats.map Beat.operation)
  have hrun' := hw'.run (beats.map Beat.operation)
  unfold Beat.run
  rw [hrun.config, hrun'.config]
  exact he

theorem clear_runs_alike :
    ∃ m n, create (.standard .chip8) default = .ok m ∧
      create { Config.standard .chip8 with variant := .xoChip, planes := 2 } default = .ok n ∧
      Alike (Beat.run (m.loadRom [0x00, 0xE0]).machine [.cycle Keypad.released.keyboard, .tick])
        (Beat.run (n.loadRom [0x00, 0xE0]).machine [.cycle Keypad.released.keyboard, .tick]) := by
  obtain ⟨m, hm⟩ := exists_create_iff (c := .standard .chip8).mpr
    (by rw [Config.accepted_iff]; decide)
  obtain ⟨n, hn⟩ :=
    exists_create_iff (c := { Config.standard .chip8 with variant := .xoChip, planes := 2 }).mpr
      (by rw [Config.accepted_iff]; decide)
  refine ⟨m, n, hm, hn, ?_⟩
  have hextends : (Config.standard .chip8).Extends
      { Config.standard .chip8 with variant := .xoChip, planes := 2 } :=
    ⟨by decide, by decide, rfl⟩
  obtain ⟨hconfig, hwaiting, hpc⟩ := start_of_create hm
  have hsize : m.memory.size = 0x1000 := (wellFormed_of_create hm).memory
  have hload : (m.loadRom [0x00, 0xE0]).machine = _ :=
    machine_loadRom rfl (by rw [romLimit, hsize, hconfig]; decide)
  have haddress : m.config.loadAddress.toNat = 0x200 := by rw [hconfig]; rfl
  rw [haddress] at hload
  have hfetch : (m.loadRom [0x00, 0xE0]).machine.fetch = .ok ⟨0x200, 0x00E0, .clear⟩ := by
    have hopcode : (m.loadRom [0x00, 0xE0]).machine.opcode = 0x00E0 := by
      have hpc : m.pc.toNat = 0x200 := by rw [hpc]; rfl
      have hword : (m.memory.load 0x200 [0x00, 0xE0]).word (0x200 + 0) = _ :=
        Memory.word_load (by rw [hsize]; decide) (by decide) (by decide)
      simp only [hload, opcode, hpc]
      exact hword.trans (by simp)
    refine fetch_eq_ok_iff.mpr ⟨Or.inl ?_, ?_, ?_, hopcode.symm⟩
    · rw [hload, hpc]; rfl
    · rw [hopcode, hload, hconfig]; rfl
    · rw [hload, hpc]; rfl
  have hwait : (m.loadRom [0x00, 0xE0]).machine.waiting = false := by rw [hload]; exact hwaiting
  obtain ⟨-, halike⟩ := higher_variant_runs_alike hextends (fun _ => rfl) hm hn [0x00, 0xE0]
  refine (halike _ fun r hr => ?_).2.1
  simp only [Beat.replies, List.mem_cons, List.not_mem_nil, or_false] at hr
  rcases hr with rfl | rfl
  · refine ⟨.outcome (.executed ⟨0x200, 0x00E0, .clear⟩), ?_, ?_⟩
    · simp [Beat.operation, Operation.apply, Reply.map, Machine.cycle, hwait, hfetch, Except.map]
    · rintro t ⟨⟩ ⟨_, _, _, _, hdraw⟩
      cases hdraw
  · exact ⟨.done, rfl, by simp⟩

end Machine

end Chip8
