import Chip8.Proofs.Decoding.Layers
import Chip8.Proofs.Display.Drawing
import Chip8.Proofs.Display.Isolation
import Chip8.Proofs.Machine.Faults
import Chip8.Proofs.Machine.Registers

/-! # Collisions

What `VF` tells after a sprite was drawn. No more than eight planes can be selected and no sprite
has more than sixteen rows, so that the number of rows that hit always fits into a register.
-/

namespace Chip8

open Opcode Register

namespace Display

variable {d e : Display} {s : Sprite} {left top p row : Nat}

def Erases (d e : Display) : Prop :=
  ∃ p ∈ d.selected, ∃ x < d.width, ∃ y < d.height, d.lit p x y = true ∧ e.lit p x y = false

/-- A set bit of the picture for a selected plane lies at the bottom edge or below. -/
def FallsOff (d : Display) (s : Sprite) (top : Nat) : Prop :=
  ∃ p ∈ d.selected, ∃ row < s.height, ∃ column < s.width,
    s.pixel (d.rank p) row column = true ∧ d.height ≤ top + row

theorem length_selected_le : d.selected.length ≤ 8 := by
  have hmask : d.selected.toFinset ⊆ Finset.range 8 := by
    intro p hp
    exact Finset.mem_range.mpr (lt_of_selects (mem_selected.mp (List.mem_toFinset.mp hp)).2)
  have hcard := Finset.card_le_card hmask
  rwa [List.toFinset_card_of_nodup nodup_selected, Finset.card_range] at hcard

theorem mem_rowHits : (p, row) ∈ d.rowHits s left top ↔
    p ∈ d.selected ∧ row < s.height ∧ d.RowHit s left top p row := by
  rw [rowHits, Finset.mem_filter, Finset.mem_product, Finset.mem_range, Finset.mem_range,
    mem_selected]
  tauto

theorem card_rowHits_le : (d.rowHits s left top).card ≤ s.height * d.selected.length := by
  have hrows : d.rowHits s left top ⊆ d.selected.toFinset ×ˢ Finset.range s.height := by
    rintro ⟨p, row⟩ h
    obtain ⟨hp, hrow, -⟩ := mem_rowHits.mp h
    exact Finset.mem_product.mpr ⟨List.mem_toFinset.mpr hp, Finset.mem_range.mpr hrow⟩
  have hcard := Finset.card_le_card hrows
  rwa [Finset.card_product, List.toFinset_card_of_nodup nodup_selected, Finset.card_range,
    Nat.mul_comm] at hcard

theorem hits_eq_card : (d.draw s left top).2 = (d.rowHits s left top).card :=
  hits_draw.trans card_rowHits.symm

theorem hits_le (hs : s.height ≤ 16) : (d.draw s left top).2 ≤ 16 * d.selected.length := by
  rw [hits_eq_card]
  exact card_rowHits_le.trans (Nat.mul_le_mul_right _ hs)

theorem hits_le_max (hs : s.height ≤ 16) : (d.draw s left top).2 ≤ 128 :=
  (hits_le hs).trans (Nat.mul_le_mul_left 16 length_selected_le)

theorem erases_draw_iff : d.Erases (d.draw s left top).1 ↔
    ∃ p ∈ d.selected, ∃ row < s.height, ∃ column < s.width,
      s.pixel (d.rank p) row column = true ∧ left + column < d.width ∧ top + row < d.height ∧
        d.lit p (left + column) (top + row) = true := by
  constructor
  · rintro ⟨p, hp, x, hx, y, hy, hlit, hunlit⟩
    obtain ⟨hsize, hsel⟩ := mem_selected.mp hp
    rw [repaints_draw.selected p hsize hsel x hx y hy, hlit, Bool.true_xor, Bool.not_eq_false',
      Sprite.covers_skip, Bool.and_eq_true, decide_eq_true_iff] at hunlit
    obtain ⟨⟨hleft, hright, htop, hbottom⟩, hset⟩ := hunlit
    have hcolumn : left + (x - left) = x := by omega
    have hrow : top + (y - top) = y := by omega
    refine ⟨p, hp, y - top, by omega, x - left, by omega, hset, ?_⟩
    rw [hcolumn, hrow]
    exact ⟨hx, hy, hlit⟩
  · rintro ⟨p, hp, row, hrow, column, hcolumn, hset, hx, hy, hlit⟩
    obtain ⟨hsize, hsel⟩ := mem_selected.mp hp
    refine ⟨p, hp, _, hx, _, hy, hlit, ?_⟩
    rw [repaints_draw.selected p hsize hsel _ hx _ hy, hlit, Sprite.covers_skip]
    simp [hset, hrow, hcolumn]

theorem hits_ne_zero_iff : (d.draw s left top).2 ≠ 0 ↔
    d.Erases (d.draw s left top).1 ∨ d.FallsOff s top := by
  rw [hits_eq_card, Finset.card_ne_zero, erases_draw_iff]
  constructor
  · rintro ⟨⟨p, row⟩, h⟩
    obtain ⟨hp, hrow, column, hcolumn, hset, ⟨hx, hy, hlit⟩ | hbelow⟩ := mem_rowHits.mp h
    · exact Or.inl ⟨p, hp, row, hrow, column, hcolumn, hset, hx, hy, hlit⟩
    · exact Or.inr ⟨p, hp, row, hrow, column, hcolumn, hset, hbelow⟩
  · rintro (⟨p, hp, row, hrow, column, hcolumn, hset, hcell⟩ |
      ⟨p, hp, row, hrow, column, hcolumn, hset, hbelow⟩)
    · exact ⟨(p, row), mem_rowHits.mpr ⟨hp, hrow, column, hcolumn, hset, Or.inl hcell⟩⟩
    · exact ⟨(p, row), mem_rowHits.mpr ⟨hp, hrow, column, hcolumn, hset, Or.inr hbelow⟩⟩

end Display

namespace Instruction

variable {o : UInt16} {v : Variant}

def drawFor (v : Variant) (o : UInt16) : Instruction :=
  if v ≠ .chip8 ∧ digit o = 0 then .drawLarge (x o) (y o) else .draw (x o) (y o) (nibble o)

theorem decode_draws (ho : family o = 0xD) (next : UInt16) :
    decode v o next = .ok (drawFor v o) := by
  have hbase : decode .chip8 o next = .ok (.draw (x o) (y o) (nibble o)) := by
    rw [decode_eq_ok_iff]
    simp [ofOpcode?, ofBase?, ho]
  have hle : Variant.chip8 ≤ v := Nat.zero_le v.rank
  have htaken : Variant.chip8.TakesOver v o ↔ v ≠ .chip8 ∧ digit o = 0 := by
    simp only [Variant.TakesOver, DrawsLarge, ho, true_and, hle.lt_iff_ne']
  obtain ⟨hlarge, hsame⟩ := decode_above hle hbase
  unfold drawFor
  split
  · next h => exact (hlarge (htaken.mpr h)).2
  · next h => exact hsame (mt htaken.mp h)

end Instruction

namespace Machine

variable {m : Machine} {keys : Keyboard} {o : UInt16} {width height : Nat}

/-- `n` is what comes of drawing a sprite on `m`: `VF` holds the number of rows that hit. -/
structure Collided (m : Machine) (s : Sprite) (left top : Nat) (n : Machine) : Prop where
  display : n.display = (m.display.draw s left top).1
  hits_le : (m.display.draw s left top).2 ≤ 16 * m.display.selected.length
  hits_le_max : (m.display.draw s left top).2 ≤ 128
  hits : (n.v.get vf).toNat = (m.display.draw s left top).2
  rows : (n.v.get vf).toNat = (m.display.rowHits s left top).card
  collision : n.v.get vf ≠ 0 ↔ m.display.Erases n.display ∨ m.display.FallsOff s top
  registers : ∀ r, r ≠ vf → n.v.get r = m.v.get r

/-- The coordinates are those before `VF` changes, even if they come from `VF`. -/
theorem collided_drawSprite (x y : Register) (hheight : height ≤ 16) :
    m.Collided ⟨m.memory, m.index.toNat, width, height⟩ (m.v.get x).toNat (m.v.get y).toNat
      (m.drawSprite x y width height) := by
  -- Named first, so that what changes `VF` leaves them alone.
  generalize hs : Sprite.mk m.memory m.index.toNat width height = s
  generalize hleft : (m.v.get x).toNat = left
  generalize htop : (m.v.get y).toNat = top
  have hdrawn : (m.drawSprite x y width height).display = (m.display.draw s left top).1 := by
    rw [← hs, ← hleft, ← htop]
    rfl
  have hv : (m.drawSprite x y width height).v =
      m.v.update vf (UInt8.ofNat (m.display.draw s left top).2) := by
    rw [← hs, ← hleft, ← htop]
    rfl
  have hrows : s.height ≤ 16 := hs ▸ hheight
  have hmax : (m.display.draw s left top).2 ≤ 128 := Display.hits_le_max hrows
  have hhits : ((m.drawSprite x y width height).v.get vf).toNat =
      (m.display.draw s left top).2 := by
    rw [hv, Registers.get_update_self, UInt8.toNat_ofNat']
    exact Nat.mod_eq_of_lt (by omega)
  exact {
    display := hdrawn
    hits_le := Display.hits_le hrows
    hits_le_max := hmax
    hits := hhits
    rows := hhits.trans Display.hits_eq_card
    collision := by
      rw [hdrawn, ← Display.hits_ne_zero_iff, ← hhits, ne_eq, ne_eq, ← UInt8.toNat_inj]
      rfl
    registers := by
      intro r hr
      rw [hv, Registers.get_update_of_ne hr] }

def spriteFor (m : Machine) (o : UInt16) : Sprite :=
  if m.config.variant ≠ .chip8 ∧ digit o = 0 then ⟨m.memory, m.index.toNat, 16, 16⟩
  else ⟨m.memory, m.index.toNat, 8, digit o⟩

theorem collided_execute (m : Machine) (keys : Keyboard) (o : UInt16) :
    m.Collided (m.spriteFor o) (m.v.get (x o)).toNat (m.v.get (y o)).toNat
      (m.execute keys (.drawFor m.config.variant o)) := by
  have hdigit : digit o < 16 := Nat.mod_lt _ (by decide)
  have hnibble : (nibble o).toNat = digit o := by
    rw [nibble, UInt8.toNat_ofNat']
    exact Nat.mod_eq_of_lt (by omega)
  unfold spriteFor Instruction.drawFor
  split
  · exact collided_drawSprite (x o) (y o) (Nat.le_refl 16)
  · rw [← hnibble]
    exact collided_drawSprite (x o) (y o) (by omega)

/-- Whatever draws, through a cycle or an opcode that is executed directly, and of whatever size:
the sprite is drawn where the registers said before, and `VF` then holds the exact number of rows
that hit, which never exceeds sixteen for each selected plane. It is not zero exactly if a lit cell
of a selected plane was erased or a set bit lay at the bottom edge or below. -/
theorem vf_counts_collisions (m : Machine) (keys : Keyboard) {o : UInt16} (ho : family o = 0xD) :
    let left := (m.v.get (x o)).toNat
    let top := (m.v.get (y o)).toNat
    let i := Instruction.drawFor m.config.variant o
    (m.executeOpcode keys o).result = .ok i ∧
    m.Collided (m.spriteFor o) left top (m.executeOpcode keys o).machine ∧
    (m.waiting = false → m.Aligned → m.opcode = o →
      (m.cycle keys).result = .ok (.executed ⟨m.pc, o, i⟩) ∧
      m.Collided (m.spriteFor o) left top (m.cycle keys).machine) := by
  intro left top i
  have hexecuted (n : UInt16) :
      m.Collided (m.spriteFor o) left top ((m.advance n).execute keys i) :=
    { (m.advance n).collided_execute keys o with }
  refine ⟨?_, ?_, ?_⟩
  · rw [executeOpcode_of_decode (Instruction.decode_draws ho _)]
  · rw [executeOpcode_of_decode (Instruction.decode_draws ho _)]
    exact hexecuted _
  · intro hw ha hopcode
    have hfetch : m.fetch = .ok ⟨m.pc, o, i⟩ := by
      rw [fetch_eq_ok_iff, hopcode]
      exact ⟨ha, Instruction.decode_draws ho _, rfl, rfl⟩
    rw [cycle_of_fetch hw hfetch]
    exact ⟨rfl, hexecuted _⟩

theorem vf_counts_rows_off_the_bottom :
    ∃ new, create (.standard .chip8) default = .ok new ∧
      let keys := Keypad.released.keyboard
      let m := { new with
        v := new.v.update vf 40
        memory := new.memory.load 0x200 [0xDF, 0xF1, 0x80]
        index := 0x202 }
      let drawn := (m.cycle keys).machine
      drawn.v.get vf ≠ 0 ∧ (drawn.v.get vf).toNat ≤ 128 := by
  obtain ⟨new, hnew⟩ := exists_create_iff.mpr (rfl : (Config.standard .chip8).Accepted)
  refine ⟨new, hnew, ?_⟩
  have hsize := (wellFormed_of_create hnew).memory
  obtain ⟨-, memory, -, rfl⟩ := create_eq_ok_iff.mp hnew
  intro keys m drawn
  have hfits : [0xDF, 0xF1, 0x80].length ≤ memory.loadFonts.size := by
    rw [hsize]
    decide
  have hpc : m.pc.toNat = 0x200 + 0 := rfl
  have hopcode : m.opcode = 0xDFF1 := by
    rw [opcode, hpc, Memory.word_load hfits (by decide) (by decide)]
    simp
  have hvf : m.v.get vf = 40 := Registers.get_update_self
  have hbyte : m.memory.read 0x202 = 0x80 := Memory.read_load hfits (o := 2) (by decide)
  obtain ⟨-, -, hcycle⟩ := vf_counts_collisions m keys (o := 0xDFF1) (by decide)
  obtain ⟨-, hdrawn⟩ := hcycle rfl (Or.inl (by rw [hpc])) hopcode
  constructor
  · have hdisplay : m.display = .blank 1 := rfl
    have hsprite : m.spriteFor 0xDFF1 = ⟨m.memory, 0x202, 8, 1⟩ := rfl
    have hset : (m.spriteFor 0xDFF1).pixel (m.display.rank 0) 0 0 = true := by
      have hrank : m.display.rank 0 = 0 := rfl
      simp only [hsprite, hrank, Sprite.pixel, hbyte, Nat.zero_mul, Nat.zero_div, Nat.add_zero]
      decide
    rw [hdrawn.collision]
    refine Or.inr ⟨0, ?_, 0, Nat.one_pos, 0, Nat.succ_pos 7, hset, ?_⟩
    · rw [hdisplay]
      decide
    · show m.display.height ≤ (m.v.get vf).toNat + 0
      rw [hdisplay, hvf]
      decide
  · rw [hdrawn.hits]
    exact hdrawn.hits_le_max

end Machine

end Chip8
