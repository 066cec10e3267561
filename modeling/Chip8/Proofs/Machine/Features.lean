import Chip8.Proofs.Decoding.Layers
import Chip8.Proofs.Display.Reach
import Chip8.Proofs.Machine.WellFormed

/-! # Features of the variants

A machine that gets its instructions from opcodes alone never leaves the state that programs for
its variant can ask for, whatever it runs: what only a higher variant could change stays as it was
when the machine was switched on.
-/

namespace Chip8

namespace Variant

def planes : Variant → Nat
  | .xoChip => 4
  | _ => 1

theorem one_le_planes (v : Variant) : 1 ≤ v.planes := by cases v <;> decide

theorem planes_le (v : Variant) : v.planes ≤ 4 := by cases v <;> decide

end Variant

namespace Instruction

/-- What an instruction of the variant `v` is like if it comes from an opcode: it belongs to `v` or
a lower variant, and it selects planes by a mask of four bits. -/
structure Native (v : Variant) (i : Instruction) : Prop where
  variant : i.variant ≤ v
  mask : ∀ mask, i = .selectPlanes mask → mask.toNat < 2 ^ 4

theorem mask_of_decode {v : Variant} {o next : UInt16} {mask : UInt8}
    (h : decode v o next = .ok (.selectPlanes mask)) : mask.toNat < 2 ^ 4 := by
  have hvariant := decode_eq_ok_iff.mp (decode_variant h)
  rcases Option.or_eq_some_iff.mp hvariant with hor | ⟨_, hb⟩
  · rcases Option.or_eq_some_iff.mp hor with hx | ⟨_, hs⟩
    · cases xoChipRow_of_ofXoChip? hx with
      | selectPlanes =>
        have hx : (Opcode.x o).val < 16 := (Opcode.x o).isLt
        have hsize : (Opcode.x o).val < UInt8.size := Nat.lt_trans hx (by decide : 16 < UInt8.size)
        rw [UInt8.toNat_ofNat_of_lt' hsize]
        exact hx
    · cases variant_of_ofSuperChip? hs
  · cases variant_of_ofBase? hb

theorem native_of_decode {v : Variant} {o next : UInt16} {i : Instruction}
    (h : decode v o next = .ok i) : i.Native v := by
  refine ⟨variant_le_of_decode h, ?_⟩
  rintro mask rfl
  exact mask_of_decode h

end Instruction

namespace Machine

variable {m n : Machine} {v : Variant} {told : Array Notice}

/-- Operations lead to the machine from a new one, and the host has left it to opcodes what the
machine executes. -/
def ReachableByOpcodes (m : Machine) : Prop :=
  ∃ c entropy m₀ ops, create c entropy = .ok m₀ ∧
    (∀ op ∈ ops, ∀ keys i, op ≠ Operation.instruction keys i) ∧ m = Operation.run m₀ ops

/-- Nothing about the machine shows a feature of a variant above `v`. -/
structure Within (v : Variant) (m : Machine) : Prop where
  resolution : v < .superChip → m.display.resolution = .low
  flags : v < .superChip → m.flags = .replicate 8 0
  compatibility : v < .superChip → m.compatibility = false
  finished : v < .superChip → m.finished = false
  mask : v < .xoChip → m.display.mask = 1
  audio : v < .xoChip → m.audio = .replicate 16 0
  confined : m.display.Confined v.planes

namespace Within

theorem present {d : Display} (h : m.Within v)
    (hr : v < .superChip → d.resolution = m.display.resolution) (hm : d.mask = m.display.mask)
    (hd : d.Confined v.planes) : (m.present d).Within v :=
  { h with
    resolution := fun hv => (hr hv).trans (h.resolution hv)
    mask := fun hv => hm.trans (h.mask hv)
    confined := hd }

theorem drawSprite (h : m.Within v) (x y : Register) (width height : Nat) :
    (m.drawSprite x y width height).Within v :=
  { h with
    resolution := h.resolution
    mask := h.mask
    confined := h.confined.draw _ _ _ }

theorem registers (h : m.Within v) (w : Registers) : Within v { m with v := w } := { h with }

theorem sounding (h : m.Within .xoChip) (audio : Vector UInt8 16) :
    Within .xoChip { m with audio } :=
  { h with audio := fun hv => absurd hv (lt_irrefl _) }

theorem execute (h : m.Within v) (keys : Keyboard) {i : Instruction} (hi : i.Native v) :
    (m.execute keys i).Within v := by
  have hsuper (hs : i.variant = .superChip) : ¬ v < .superChip := not_lt.mpr (hs ▸ hi.variant)
  have hxo (hx : i.variant = .xoChip) : v = .xoChip :=
    le_antisymm (Variant.le_xoChip v) (hx ▸ hi.variant)
  cases i with
  | clear | scrollDown | scrollUp | scrollRight | scrollLeft =>
    exact h.present (fun _ => rfl) rfl (h.confined.onSelected _)
  | draw x y n => exact h.drawSprite x y 8 n.toNat
  | drawLarge x y => exact h.drawSprite x y 16 16
  | setResolution r =>
    exact h.present (fun hv => absurd hv (hsuper rfl)) rfl (h.confined.setResolution r)
  | exit => exact { h with finished := fun hv => absurd hv (hsuper rfl) }
  | compatibility => exact { h with compatibility := fun hv => absurd hv (hsuper rfl) }
  | saveFlags x => exact { h with flags := fun hv => absurd hv (hsuper rfl) }
  | loadAudio =>
    obtain rfl := hxo rfl
    exact h.sounding _
  | selectPlanes mask =>
    obtain rfl := hxo rfl
    exact { h with
      mask := fun hv => absurd hv (lt_irrefl _)
      confined := h.confined.setMask (hi.mask mask rfl) }
  | loadFlags x => exact h.registers (m.loadedFlags x)
  | _ => exact { h with }

theorem step (hs : Step (Instruction.Native v) m told n) (h : m.Within v) : n.Within v := by
  cases hs with
  | execute keys hi => exact h.execute keys hi
  | _ => exact { h with }

theorem of_create {c : Config} {entropy : Random.Key} (h : create c entropy = .ok m) :
    m.Within v := by
  obtain ⟨_, memory, _, rfl⟩ := create_eq_ok_iff.mp h
  exact ⟨fun _ => rfl, fun _ => rfl, fun _ => rfl, fun _ => rfl, fun _ => rfl, fun _ => rfl,
    Display.confined_blank c.planes v.one_le_planes⟩

theorem restart (entropy : Random.Key) : (m.restart entropy).Within v := by
  have hdisplay : (m.restart entropy).display = .blank m.display.planes.size := by
    simp only [Machine.restart, Display.initialise]
  constructor
  case confined =>
    rw [hdisplay]
    exact Display.confined_blank _ v.one_le_planes
  case resolution | mask =>
    intro _
    rw [hdisplay]
    rfl
  all_goals
    intro _
    simp only [Machine.restart]

end Within

theorem ReachableByOpcodes.within (h : m.ReachableByOpcodes) : m.Within m.config.variant := by
  obtain ⟨c, entropy, m₀, ops, hm₀, hops, rfl⟩ := h
  have hconfig : (Operation.run m₀ ops).config = m₀.config :=
    (((wellFormed_of_create hm₀).run ops).config).trans (wellFormed_of_create hm₀).config.symm
  rw [hconfig]
  refine Operation.keep_run (A := Instruction.Native m₀.config.variant)
    (fun o next i => Instruction.native_of_decode) (fun op hop keys i he => ?_) Within.step
    (fun entropy _ => Within.restart entropy) (Within.of_create hm₀)
  exact absurd he (hops op hop keys i)

/-- As long as its instructions come from opcodes, a machine shows no feature of a higher variant:
CHIP-8 knows neither high resolution nor flags, exits and compatibility, only XO-Chip knows planes
and audio patterns, and even that no more than four planes. -/
theorem features_within_variant (h : m.ReachableByOpcodes) :
    (m.config.variant = .chip8 →
      m.display.resolution = .low ∧ m.display.mask = 1 ∧ m.display.BlankFrom 1 ∧
        m.flags = Vector.replicate 8 0 ∧ m.audio = Vector.replicate 16 0 ∧
        m.compatibility = false ∧ m.finished = false) ∧
    (m.config.variant = .superChip →
      m.display.mask = 1 ∧ m.display.BlankFrom 1 ∧ m.audio = Vector.replicate 16 0) ∧
    (m.config.variant = .xoChip → m.display.mask.toNat ≤ 15) := by
  have hw := h.within
  refine ⟨?_, ?_, ?_⟩
  · intro hv
    rw [hv] at hw
    have hsuper : Variant.chip8 < .superChip := by decide
    have hxo : Variant.chip8 < .xoChip := by decide
    exact ⟨hw.resolution hsuper, hw.mask hxo, hw.confined.blank, hw.flags hsuper, hw.audio hxo,
      hw.compatibility hsuper, hw.finished hsuper⟩
  · intro hv
    rw [hv] at hw
    have hxo : Variant.superChip < .xoChip := by decide
    exact ⟨hw.mask hxo, hw.confined.blank, hw.audio hxo⟩
  · intro hv
    rw [hv] at hw
    exact Nat.le_of_lt_succ hw.confined.mask

theorem features_on_chip8 :
    ∃ m₀, create (.standard .chip8) default = .ok m₀ ∧
      let m := Operation.run m₀ [.loadRom [0x00, 0xFF], .frame fun _ => Keypad.released.keyboard,
        .opcode Keypad.released.keyboard 0x00FF, .opcode Keypad.released.keyboard 0xFF01]
      m.ReachableByOpcodes ∧ m.config.variant = .chip8 ∧ m.display.resolution = .low ∧
        m.display.mask = 1 ∧ m.display.BlankFrom 1 := by
  obtain ⟨m₀, hm₀⟩ := exists_create_iff.mpr (rfl : (Config.standard .chip8).Accepted)
  refine ⟨m₀, hm₀, ?_⟩
  intro m
  have hreachable : m.ReachableByOpcodes := ⟨_, _, m₀, _, hm₀, by simp, rfl⟩
  have hvariant : m.config.variant = .chip8 := by
    rw [((wellFormed_of_create hm₀).run _).config]
    rfl
  obtain ⟨hlow, hmask, hblank, _⟩ := (features_within_variant hreachable).1 hvariant
  exact ⟨hreachable, hvariant, hlow, hmask, hblank⟩

end Machine

end Chip8
