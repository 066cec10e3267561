import Chip8.Proofs.Display.Drawing
import Chip8.Proofs.Display.Dump
import Chip8.Proofs.Machine.Features
import Chip8.Proofs.Memory.Access

/-! # Dumps of machines

The configuration allows for eight planes, whose colours would not always fit in one digit. Programs
can only draw on four.
-/

namespace Chip8.Machine

variable {m : Machine}

theorem ReachableByOpcodes.blankFrom (h : m.ReachableByOpcodes) : m.display.BlankFrom 4 :=
  h.within.confined.blank.mono m.config.variant.planes_le

/-- As long as its instructions come from opcodes, the dump of a machine has one character for each
cell, which tells the planes that are lit there. Two machines with as many planes and the same dump
have the same resolution and the same planes. -/
theorem dump_faithful (h : m.ReachableByOpcodes) :
    (∃ f, m.display.dump.toList = lines m.display.width m.display.height f ∧
      ∀ x < m.display.width, ∀ y < m.display.height, m.display.Depicts x y (f x y)) ∧
    m.display.BlankFrom 4 ∧
    ∀ n : Machine, n.ReachableByOpcodes → n.display.planes.size = m.display.planes.size →
      n.display.dump = m.display.dump → n.display = m.display.setMask n.display.mask := by
  obtain ⟨f, hdump, hcells⟩ := Display.exists_lines h.blankFrom
  refine ⟨⟨f, hdump, fun x _ y _ => hcells x y⟩, h.blankFrom, ?_⟩
  intro n hn hsize hsame
  exact Display.eq_setMask_of_dump h.blankFrom hn.blankFrom hsize hsame

/-- The first digits of the small font stand in the upper left corner, one in each plane. -/
structure ShowsDigits (k : Nat) (d : Display) : Prop where
  resolution : d.resolution = .low
  planes : d.planes.size = k
  lit : ∀ p < k, ∀ x < 8, ∀ y < 5,
    d.lit p x y = (Font.small.getD (p * 5 + y) 0).toNat.testBit (7 - x)

theorem ShowsDigits.colour_eq {k x y : Nat} {d : Display} (h : ShowsDigits k d) (hx : x < 8)
    (hy : y < 5) {c : Nat} (hc : c < 2 ^ k)
    (hbits : ∀ p < k, (Font.small.getD (p * 5 + y) 0).toNat.testBit (7 - x) = c.testBit p) :
    d.colour x y = c := by
  refine Nat.eq_of_testBit_eq fun p => ?_
  rw [Display.testBit_colour]
  rcases Nat.lt_or_ge p k with hp | hp
  · rw [h.lit p hp x hx y hy, hbits p hp]
  · rw [Display.lit_of_size_le (h.planes.trans_le hp),
      Nat.testBit_lt_two_pow (hc.trans_le (Nat.pow_le_pow_right (by decide) hp))]

/-- On a single plane, where the top of the zero ends. -/
theorem ShowsDigits.hash_dot {d : Display} {f : Nat → Nat → Char} (h : ShowsDigits 1 d)
    (hcells : ∀ x < d.width, ∀ y < d.height, d.Depicts x y (f x y)) :
    f 3 0 = '#' ∧ f 4 0 = '.' := by
  simp only [Display.width, Display.height, h.resolution] at hcells
  constructor
  · refine (hcells 3 (by decide) 0 (by decide)).hash h.planes ⟨0, ?_⟩
    rw [h.lit 0 (by decide) 3 (by decide) 0 (by decide)]
    decide
  · refine (hcells 4 (by decide) 0 (by decide)).dot.mpr (Display.colour_eq_zero_iff.mp ?_)
    exact h.colour_eq (by decide) (by decide) (by decide) (by decide)

theorem read_small_of_create {c : Config} {entropy : Random.Key} (h : create c entropy = .ok m)
    {o : Nat} (ho : o < Font.small.length) :
    m.memory.read (Font.smallAddress.toNat + o) = Font.small[o] := by
  obtain ⟨hc, _, -, rfl⟩ := create_eq_ok_iff.mp h
  have hsize := (wellFormed_of_create h).memory
  have hfits : Font.small.length ≤ c.memorySize :=
    (by decide : Font.small.length ≤ 0x200).trans (Config.accepted_iff.mp hc).1
  rw [Memory.size_loadFonts] at hsize
  exact Memory.read_load (by rwa [Memory.size_load, hsize]) ho

/-- A program behind the fonts leaves them alone. -/
theorem read_small_load {c : Config} {entropy : Random.Key} (h : create c entropy = .ok m)
    {bytes : List UInt8} {a : Nat} (ha : 0x200 ≤ a) (hfits : a + bytes.length ≤ c.memorySize)
    {o : Nat} (ho : o < Font.small.length) :
    (m.memory.load a bytes).read (Font.smallAddress.toNat + o) = Font.small[o] := by
  rw [Memory.read_load_of_ne, read_small_of_create h ho]
  intro k hk
  have hfont : Font.smallAddress.toNat + o < 0x200 := by
    have ho : o < 80 := ho
    exact Nat.add_lt_add_left ho 0x1B0
  rw [(wellFormed_of_create h).memory, Nat.mod_eq_of_lt (by omega), Nat.mod_eq_of_lt (by omega)]
  omega

theorem showsDigits_draw {c : Config} {entropy : Random.Key} {mask : UInt8} {memory : Memory}
    (h : create c entropy = .ok m) (hmask : ∀ p < c.planes, mask.toNat.testBit p = true)
    (hfont : ∀ o (ho : o < Font.small.length),
      memory.read (Font.smallAddress.toNat + o) = Font.small[o]) :
    ShowsDigits c.planes
      ((m.display.setMask mask).draw ⟨memory, Font.smallAddress.toNat, 8, 5⟩ 0 0).1 := by
  obtain ⟨hc, _, -, rfl⟩ := create_eq_ok_iff.mp h
  obtain ⟨-, -, -, hplanes, -⟩ := Config.accepted_iff.mp hc
  let d := (Display.blank c.planes).setMask mask
  let s : Sprite := ⟨memory, Font.smallAddress.toNat, 8, 5⟩
  have hcount : d.planes.size = c.planes := Display.size_planes_blank c.planes
  have hdrawn : (d.draw s 0 0).1.planes.size = c.planes := (d.size_planes_draw s 0 0).trans hcount
  have hdark : d.BlankFrom 0 := Display.blankFrom_blank c.planes 0
  refine ⟨Display.repaints_draw.resolution, hdrawn, fun p hp x hx y hy => ?_⟩
  have hselected : ∀ q ∈ List.range p, d.selects q = true :=
    fun q hq => hmask q ((List.mem_range.mp hq).trans hp)
  have hrank : d.rank p = p := by
    rw [Display.rank, List.filter_eq_self.mpr hselected, List.length_range]
  have ho : p * 5 + y < Font.small.length := (by omega : p * 5 + y < 80)
  have hread : s.memory.read (s.address + (p * 5 + y)) = Font.small.getD (p * 5 + y) 0 := by
    rw [List.getD_eq_getElem _ _ ho]
    exact hfont _ ho
  show (d.draw s 0 0).1.lit p x y = _
  rw [Display.repaints_draw.selected p (hp.trans_eq hcount.symm) (hmask p hp) x
    (hx.trans (by decide : 8 < 64)) y (hy.trans (by decide : 5 < 32)),
    hdark.lit (Nat.zero_le p), Sprite.covers_skip, hrank, ← hread]
  simp [Sprite.pixel, hx, hy, Nat.div_eq_of_lt hx, Nat.mod_eq_of_lt hx, Nat.add_assoc, s]

/-- A zero in the corner shows in hash signs on one plane. On two planes a zero and a one on top of
each other show in digits, and selecting another plane does not show. -/
theorem dump_faithful_on_glyphs :
    ∃ m n n' : Machine,
      m.ReachableByOpcodes ∧ n.ReachableByOpcodes ∧ n'.ReachableByOpcodes ∧
      (∃ f, m.display.dump.toList = lines 64 32 f ∧ f 3 0 = '#' ∧ f 4 0 = '.') ∧
      (∃ f, n.display.dump.toList = lines 64 32 f ∧
        f 0 0 = '1' ∧ f 1 1 = '2' ∧ f 2 0 = '3' ∧ f 4 0 = '.') ∧
      n'.display.dump = n.display.dump ∧ n'.display.mask = 1 ∧
      n'.display = n.display.setMask 1 := by
  obtain ⟨new, hnew⟩ : ∃ m, create (.standard .chip8) default = .ok m := exists_create_iff.mpr rfl
  obtain ⟨new', hnew'⟩ : ∃ m, create (.standard .xoChip) default = .ok m :=
    exists_create_iff.mpr rfl
  let keys := Keypad.released.keyboard
  let ops : List Operation := [.opcode keys 0xF301, .opcode keys 0xF029, .opcode keys 0xD005]
  let m := Operation.run new [.opcode keys 0xF029, .opcode keys 0xD005]
  let n := Operation.run new' ops
  let n' := Operation.run new' (ops ++ [.opcode keys 0xF101])
  have hm : m.ReachableByOpcodes := ⟨_, _, new, _, hnew, by simp, rfl⟩
  have hn : n.ReachableByOpcodes := ⟨_, _, new', ops, hnew', by simp [ops], rfl⟩
  have hn' : n'.ReachableByOpcodes := ⟨_, _, new', _, hnew', by simp [ops], rfl⟩
  have hone : ShowsDigits 1 m.display := by
    have hdrawn : ShowsDigits 1 ((new.display.setMask 1).draw _ 0 0).1 :=
      showsDigits_draw hnew (by decide) fun o => read_small_of_create hnew
    obtain ⟨_, memory, _, rfl⟩ := create_eq_ok_iff.mp hnew
    exact hdrawn
  have htwo : ShowsDigits 2 n.display := by
    have hdrawn : ShowsDigits 2 ((new'.display.setMask 3).draw _ 0 0).1 :=
      showsDigits_draw hnew' (by decide) fun o => read_small_of_create hnew'
    obtain ⟨_, memory, _, rfl⟩ := create_eq_ok_iff.mp hnew'
    exact hdrawn
  have hlater : n'.display = n.display.setMask 1 := by
    obtain ⟨_, memory, _, rfl⟩ := create_eq_ok_iff.mp hnew'
    rfl
  have hsize : n'.display.planes.size = n.display.planes.size := by rw [hlater]; rfl
  have hdump : n'.display.dump = n.display.dump := by rw [hlater]; rfl
  have hmask : n'.display.mask = 1 := by rw [hlater]; rfl
  obtain ⟨⟨f, hf, hcells⟩, -⟩ := dump_faithful hm
  obtain ⟨hhash, hdot⟩ := hone.hash_dot hcells
  obtain ⟨⟨g, hg, hcells'⟩, -, hsame⟩ := dump_faithful hn
  simp only [Display.width, Display.height, hone.resolution] at hf
  simp only [Display.width, Display.height, htwo.resolution] at hg hcells'
  have hdigit {x y k : Nat} {c : Char} (hx : x < 8) (hy : y < 5)
      (hcolour : n.display.colour x y = k) (hk : k ≠ 0) (hc : Hex.digits[k]? = some c) :
      g x y = c := by
    subst hcolour
    have hcell := hcells' x (hx.trans (by decide)) y (hy.trans (by decide))
    have hmore : n.display.planes.size ≠ 1 := by
      rw [htwo.planes]
      decide
    exact Option.some.inj ((hcell.digit_eq hn.blankFrom hmore hk).symm.trans hc)
  refine ⟨m, n, n', hm, hn, hn', ⟨f, hf, hhash, hdot⟩, ⟨g, hg, ?_, ?_, ?_, ?_⟩, hdump, hmask,
    hmask ▸ hsame n' hn' hsize hdump⟩
  · refine hdigit (k := 1) (by decide) (by decide) (htwo.colour_eq ?_ ?_ ?_ ?_) ?_ rfl <;> decide
  · refine hdigit (k := 2) (by decide) (by decide) (htwo.colour_eq ?_ ?_ ?_ ?_) ?_ rfl <;> decide
  · refine hdigit (k := 3) (by decide) (by decide) (htwo.colour_eq ?_ ?_ ?_ ?_) ?_ rfl <;> decide
  · refine (hcells' 4 (by decide) 0 (by decide)).dot.mpr (Display.colour_eq_zero_iff.mp ?_)
    exact htwo.colour_eq (by decide) (by decide) (by decide) (by decide)

end Chip8.Machine
