import Chip8.Opcode

/-! # The opcode tables

Two tables never claim the same opcode, but for `DXY0`, which SuperChip takes over from the base
table. Whether a table has an opcode does not depend on the word after it, and an instruction knows
which of the two older tables it comes from.
-/

namespace Chip8

open Opcode

variable {o next next' : UInt16} {i : Instruction}

theorem Opcode.low_eq (o : UInt16) : low o = 16 * (y o).val + digit o := by
  simp only [low, y, digit, Fin.ofNat]; omega

theorem Opcode.digit_lt (o : UInt16) : digit o < 16 := Nat.mod_lt _ (by decide)

theorem Opcode.low_lt_of_y {d : Register} (hy : y o = d) (hd : d ≤ 0xD) : low o < 0xE0 := by
  have hl := low_eq o
  have hlt := digit_lt o
  have hd : d.val ≤ 0xD := hd
  rw [hy] at hl
  omega

namespace Instruction

inductive BaseRow (o : UInt16) : Instruction → Prop
  | clear : family o = 0x0 → low o = 0xE0 → BaseRow o .clear
  | ret : family o = 0x0 → low o = 0xEE → BaseRow o .ret
  | jump : family o = 0x1 → BaseRow o (.jump (address o))
  | call : family o = 0x2 → BaseRow o (.call (address o))
  | isByte : family o = 0x3 → BaseRow o (.skip (.isByte (x o) (byte o)))
  | isNotByte : family o = 0x4 → BaseRow o (.skip (.isNotByte (x o) (byte o)))
  | same : family o = 0x5 → digit o = 0x0 → BaseRow o (.skip (.same (x o) (y o)))
  | setByte : family o = 0x6 → BaseRow o (.setByte (x o) (byte o))
  | addByte : family o = 0x7 → BaseRow o (.addByte (x o) (byte o))
  | alu {op : Alu} : family o = 0x8 → Alu.ofDigit? (digit o) = some op →
      BaseRow o (.alu op (x o) (y o))
  | different : family o = 0x9 → digit o = 0x0 → BaseRow o (.skip (.different (x o) (y o)))
  | setIndex : family o = 0xA → BaseRow o (.setIndex (address o))
  | jumpOffset : family o = 0xB → BaseRow o (.jumpOffset (x o) (address o))
  | random : family o = 0xC → BaseRow o (.random (x o) (byte o))
  | draw : family o = 0xD → BaseRow o (.draw (x o) (y o) (nibble o))
  | keyDown : family o = 0xE → low o = 0x9E → BaseRow o (.skip (.keyDown (x o)))
  | keyUp : family o = 0xE → low o = 0xA1 → BaseRow o (.skip (.keyUp (x o)))
  | readDelay : family o = 0xF → low o = 0x07 → BaseRow o (.readDelay (x o))
  | awaitKey : family o = 0xF → low o = 0x0A → BaseRow o (.awaitKey (x o))
  | setDelay : family o = 0xF → low o = 0x15 → BaseRow o (.setDelay (x o))
  | setSound : family o = 0xF → low o = 0x18 → BaseRow o (.setSound (x o))
  | addIndex : family o = 0xF → low o = 0x1E → BaseRow o (.addIndex (x o))
  | smallGlyph : family o = 0xF → low o = 0x29 → BaseRow o (.smallGlyph (x o))
  | storeDecimal : family o = 0xF → low o = 0x33 → BaseRow o (.storeDecimal (x o))
  | storeRegisters : family o = 0xF → low o = 0x55 → BaseRow o (.storeRegisters (x o))
  | loadRegisters : family o = 0xF → low o = 0x65 → BaseRow o (.loadRegisters (x o))

inductive SuperChipRow (o : UInt16) : Instruction → Prop
  | compatibility : family o = 0x0 → low o = 0xFA → SuperChipRow o .compatibility
  | scrollRight : family o = 0x0 → low o = 0xFB → SuperChipRow o .scrollRight
  | scrollLeft : family o = 0x0 → low o = 0xFC → SuperChipRow o .scrollLeft
  | exit : family o = 0x0 → low o = 0xFD → SuperChipRow o .exit
  | lowResolution : family o = 0x0 → low o = 0xFE → SuperChipRow o (.setResolution .low)
  | highResolution : family o = 0x0 → low o = 0xFF → SuperChipRow o (.setResolution .high)
  | scrollDown : family o = 0x0 → y o = 0xC → SuperChipRow o (.scrollDown (nibble o))
  | drawLarge : family o = 0xD → digit o = 0 → SuperChipRow o (.drawLarge (x o) (y o))
  | largeGlyph : family o = 0xF → low o = 0x30 → SuperChipRow o (.largeGlyph (x o))
  | saveFlags : family o = 0xF → low o = 0x75 → SuperChipRow o (.saveFlags (x o))
  | loadFlags : family o = 0xF → low o = 0x85 → SuperChipRow o (.loadFlags (x o))

inductive XoChipRow (o next : UInt16) : Instruction → Prop
  | scrollUp : family o = 0x0 → y o = 0xD → XoChipRow o next (.scrollUp (nibble o))
  | storeRange : family o = 0x5 → digit o = 0x2 → XoChipRow o next (.storeRange (x o) (y o))
  | loadRange : family o = 0x5 → digit o = 0x3 → XoChipRow o next (.loadRange (x o) (y o))
  | setIndexLong : family o = 0xF → low o = 0x00 → x o = 0 → XoChipRow o next (.setIndexLong next)
  | selectPlanes : family o = 0xF → low o = 0x01 →
      XoChipRow o next (.selectPlanes (UInt8.ofNat (x o)))
  | loadAudio : family o = 0xF → low o = 0x02 → x o = 0 → XoChipRow o next .loadAudio

theorem baseRow_of_ofBase? (h : ofBase? o = some i) : BaseRow o i := by
  unfold ofBase? at h
  split at h
  case h_1 hf =>
    split at h
    case h_1 hl => cases h; exact .clear hf hl
    case h_2 hl => cases h; exact .ret hf hl
    case h_3 => cases h
  case h_2 hf => cases h; exact .jump hf
  case h_3 hf => cases h; exact .call hf
  case h_4 hf => cases h; exact .isByte hf
  case h_5 hf => cases h; exact .isNotByte hf
  case h_6 hf =>
    split at h
    · next hd => cases h; exact .same hf hd
    · cases h
  case h_7 hf => cases h; exact .setByte hf
  case h_8 hf => cases h; exact .addByte hf
  case h_9 hf =>
    obtain ⟨op, hop, rfl⟩ := Option.map_eq_some_iff.mp h
    exact .alu hf hop
  case h_10 hf =>
    split at h
    · next hd => cases h; exact .different hf hd
    · cases h
  case h_11 hf => cases h; exact .setIndex hf
  case h_12 hf => cases h; exact .jumpOffset hf
  case h_13 hf => cases h; exact .random hf
  case h_14 hf => cases h; exact .draw hf
  case h_15 hf =>
    split at h
    case h_1 hl => cases h; exact .keyDown hf hl
    case h_2 hl => cases h; exact .keyUp hf hl
    case h_3 => cases h
  case h_16 hf =>
    split at h
    case h_1 hl => cases h; exact .readDelay hf hl
    case h_2 hl => cases h; exact .awaitKey hf hl
    case h_3 hl => cases h; exact .setDelay hf hl
    case h_4 hl => cases h; exact .setSound hf hl
    case h_5 hl => cases h; exact .addIndex hf hl
    case h_6 hl => cases h; exact .smallGlyph hf hl
    case h_7 hl => cases h; exact .storeDecimal hf hl
    case h_8 hl => cases h; exact .storeRegisters hf hl
    case h_9 hl => cases h; exact .loadRegisters hf hl
    case h_10 => cases h
  case h_17 => cases h

theorem superChipRow_of_ofSuperChip? (h : ofSuperChip? o = some i) : SuperChipRow o i := by
  unfold ofSuperChip? at h
  split at h
  case h_1 hf =>
    split at h
    case h_1 hl => cases h; exact .compatibility hf hl
    case h_2 hl => cases h; exact .scrollRight hf hl
    case h_3 hl => cases h; exact .scrollLeft hf hl
    case h_4 hl => cases h; exact .exit hf hl
    case h_5 hl => cases h; exact .lowResolution hf hl
    case h_6 hl => cases h; exact .highResolution hf hl
    case h_7 =>
      split at h
      · next hy => cases h; exact .scrollDown hf hy
      · cases h
  case h_2 hf =>
    split at h
    · next hd => cases h; exact .drawLarge hf hd
    · cases h
  case h_3 hf =>
    split at h
    case h_1 hl => cases h; exact .largeGlyph hf hl
    case h_2 hl => cases h; exact .saveFlags hf hl
    case h_3 hl => cases h; exact .loadFlags hf hl
    case h_4 => cases h
  case h_4 => cases h

theorem xoChipRow_of_ofXoChip? (h : ofXoChip? o next = some i) : XoChipRow o next i := by
  unfold ofXoChip? at h
  split at h
  case h_1 hf =>
    split at h
    · next hy => cases h; exact .scrollUp hf hy
    · cases h
  case h_2 hf =>
    split at h
    case h_1 hd => cases h; exact .storeRange hf hd
    case h_2 hd => cases h; exact .loadRange hf hd
    case h_3 => cases h
  case h_3 hf =>
    split at h
    case h_1 hl =>
      split at h
      · next hx => cases h; exact .setIndexLong hf hl hx
      · cases h
    case h_2 hl => cases h; exact .selectPlanes hf hl
    case h_3 hl =>
      split at h
      · next hx => cases h; exact .loadAudio hf hl hx
      · cases h
    case h_4 => cases h
  case h_4 => cases h

theorem variant_of_ofBase? (h : ofBase? o = some i) : i.variant = .chip8 := by
  cases baseRow_of_ofBase? h <;> rfl

theorem variant_of_ofSuperChip? (h : ofSuperChip? o = some i) : i.variant = .superChip := by
  cases superChipRow_of_ofSuperChip? h <;> rfl

theorem variant_of_ofXoChip? (h : ofXoChip? o next = some i) : i.variant = .xoChip := by
  cases xoChipRow_of_ofXoChip? h <;> rfl

/-- What follows an opcode does not decide whether it is in the table. -/
theorem isSome_ofXoChip? (o next next' : UInt16) :
    (ofXoChip? o next).isSome = (ofXoChip? o next').isSome := by
  unfold ofXoChip?
  split
  · rfl
  · rfl
  · split <;> (try split) <;> rfl
  · rfl

theorem ofBase?_eq_none_of_ofXoChip? (h : ofXoChip? o next = some i) : ofBase? o = none := by
  cases xoChipRow_of_ofXoChip? h with
  | scrollUp hf hy =>
    have hl := low_lt_of_y hy (by decide)
    simp only [ofBase?, hf]
    split <;> first | rfl | omega
  | storeRange hf hd => simp [ofBase?, hf, hd]
  | loadRange hf hd => simp [ofBase?, hf, hd]
  | setIndexLong hf hl _ => simp [ofBase?, hf, hl]
  | selectPlanes hf hl => simp [ofBase?, hf, hl]
  | loadAudio hf hl _ => simp [ofBase?, hf, hl]

theorem ofSuperChip?_eq_none_of_ofXoChip? (h : ofXoChip? o next = some i) :
    ofSuperChip? o = none := by
  cases xoChipRow_of_ofXoChip? h with
  | scrollUp hf hy =>
    have hl := low_lt_of_y hy (by decide)
    have hc : y o ≠ 0xC := by rw [hy]; decide
    simp only [ofSuperChip?, hf, if_neg hc]
    split <;> first | rfl | omega
  | storeRange hf _ => simp [ofSuperChip?, hf]
  | loadRange hf _ => simp [ofSuperChip?, hf]
  | setIndexLong hf hl _ => simp [ofSuperChip?, hf, hl]
  | selectPlanes hf hl => simp [ofSuperChip?, hf, hl]
  | loadAudio hf hl _ => simp [ofSuperChip?, hf, hl]

/-- The one opcode that SuperChip takes over from the base table is `DXY0`. -/
theorem ofBase?_of_ofSuperChip? (h : ofSuperChip? o = some i) :
    ofBase? o = none ∨ ∃ x y, i = .drawLarge x y ∧ ofBase? o = some (.draw x y 0) := by
  cases superChipRow_of_ofSuperChip? h with
  | scrollDown hf hy =>
    have hl := low_lt_of_y hy (by decide)
    refine Or.inl ?_
    simp only [ofBase?, hf]
    split <;> first | rfl | omega
  | drawLarge hf hd =>
    refine Or.inr ⟨x o, y o, rfl, ?_⟩
    simp [ofBase?, hf, nibble, hd]
  | compatibility hf hl | scrollRight hf hl | scrollLeft hf hl | exit hf hl
  | lowResolution hf hl | highResolution hf hl | largeGlyph hf hl | saveFlags hf hl
  | loadFlags hf hl => exact Or.inl (by simp [ofBase?, hf, hl])

end Instruction

end Chip8
