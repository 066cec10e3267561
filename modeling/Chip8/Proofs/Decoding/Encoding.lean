import Chip8.Instruction.Assembly
import Chip8.Proofs.Decoding.Variants

/-! # Instructions as words

An opcode can be read off the instruction that it is decoded to, but for the digit that family `0`
ignores, and the operands have no more digits than the opcode has.
-/

namespace Chip8

namespace Opcode

variable {o o' : UInt16}

theorem low_lt (o : UInt16) : low o < 0x100 := Nat.mod_lt _ (by decide)

theorem toNat_byte (o : UInt16) : (byte o).toNat = low o := by
  simp only [byte, low, UInt8.toNat_ofNat']
  omega

theorem toNat_nibble (o : UInt16) : (nibble o).toNat = digit o := by
  simp only [nibble, digit, UInt8.toNat_ofNat']
  omega

theorem toNat_address (o : UInt16) : (address o).toNat = 0x100 * (x o).val + low o := by
  simp only [address, x, low, UInt16.toNat_ofNat', Fin.ofNat]
  omega

theorem toNat_eq (o : UInt16) : o.toNat = 0x1000 * family o + 0x100 * (x o).val + low o := by
  simp only [family, x, low, Fin.ofNat]
  omega

theorem x_address (o : UInt16) : x (address o) = x o := by
  have h := toNat_address o
  have hlow := low_lt o
  simp only [x, Fin.ext_iff, Fin.ofNat] at h ⊢
  omega

theorem byte_lt (o : UInt16) : (byte o).toNat < 0x100 := (byte o).toNat_lt

theorem nibble_lt (o : UInt16) : (nibble o).toNat < 0x10 := by
  rw [toNat_nibble]
  exact digit_lt o

theorem address_lt (o : UInt16) : (address o).toNat < 0x1000 := by
  have hx := (x o).isLt
  have hlow := low_lt o
  rw [toNat_address]
  omega

theorem y_digit_of_low (h : low o' = low o) : y o' = y o ∧ digit o' = digit o := by
  have hl := low_eq o
  have hl' := low_eq o'
  have hd := digit_lt o
  have hd' := digit_lt o'
  rw [Fin.ext_iff]
  omega

theorem toNat_register (r : Register) : (UInt8.ofNat r.val).toNat = r.val := by
  have := r.isLt
  rw [UInt8.toNat_ofNat']
  omega

/-- The opcode without the digit that family `0` ignores. -/
def significant (o : UInt16) : Nat := if family o = 0 then low o else o.toNat

theorem significant_of_eq_zero (hf : family o = 0) : significant o = low o := if_pos hf

theorem significant_of_family {f : Nat} (hf : family o = f) (h : f ≠ 0) :
    significant o = 0x1000 * f + 0x100 * (x o).val + low o := by
  rw [significant, if_neg (hf.trans_ne h), toNat_eq, hf]

theorem significant_inj (h : significant o = significant o') :
    o = o' ∨ family o = 0 ∧ family o' = 0 ∧ low o = low o' := by
  have hlarge (o : UInt16) (ho : family o ≠ 0) : 0x1000 ≤ o.toNat := by
    have := toNat_eq o
    omega
  unfold significant at h
  split at h <;> split at h
  next hf hf' => exact Or.inr ⟨hf, hf', h⟩
  next _ hf' =>
    have hsmall := low_lt o
    have hlarge := hlarge o' hf'
    omega
  next hf _ =>
    have hsmall := low_lt o'
    have hlarge := hlarge o hf
    omega
  next => exact Or.inl (UInt16.toNat_inj.mp h)

end Opcode

open Opcode

def Alu.digit : Alu → Nat
  | .move => 0x0
  | .or => 0x1
  | .and => 0x2
  | .xor => 0x3
  | .add => 0x4
  | .sub => 0x5
  | .shiftRight => 0x6
  | .subReverse => 0x7
  | .shiftLeft => 0xE

theorem Alu.digit_of_ofDigit? {n : Nat} {op : Alu} (h : ofDigit? n = some op) : op.digit = n := by
  unfold ofDigit? at h
  split at h <;> cases h <;> rfl

def Condition.word : Condition → Nat
  | .isByte x b => 0x3000 + 0x100 * x.val + b.toNat
  | .isNotByte x b => 0x4000 + 0x100 * x.val + b.toNat
  | .same x y => 0x5000 + 0x100 * x.val + 0x10 * y.val
  | .different x y => 0x9000 + 0x100 * x.val + 0x10 * y.val
  | .keyDown x => 0xE09E + 0x100 * x.val
  | .keyUp x => 0xE0A1 + 0x100 * x.val

namespace Instruction

/-- The opcode of the instruction, with a zero where family `0` ignores a digit. -/
def word : Instruction → Nat
  | .clear => 0x00E0
  | .ret => 0x00EE
  | .jump a => 0x1000 + a.toNat
  | .call a => 0x2000 + a.toNat
  | .skip c => c.word
  | .setByte x b => 0x6000 + 0x100 * x.val + b.toNat
  | .addByte x b => 0x7000 + 0x100 * x.val + b.toNat
  | .alu op x y => 0x8000 + 0x100 * x.val + 0x10 * y.val + op.digit
  | .setIndex a => 0xA000 + a.toNat
  | .jumpOffset _ a => 0xB000 + a.toNat
  | .random x b => 0xC000 + 0x100 * x.val + b.toNat
  | .draw x y n => 0xD000 + 0x100 * x.val + 0x10 * y.val + n.toNat
  | .readDelay x => 0xF007 + 0x100 * x.val
  | .awaitKey x => 0xF00A + 0x100 * x.val
  | .setDelay x => 0xF015 + 0x100 * x.val
  | .setSound x => 0xF018 + 0x100 * x.val
  | .addIndex x => 0xF01E + 0x100 * x.val
  | .smallGlyph x => 0xF029 + 0x100 * x.val
  | .storeDecimal x => 0xF033 + 0x100 * x.val
  | .storeRegisters x => 0xF055 + 0x100 * x.val
  | .loadRegisters x => 0xF065 + 0x100 * x.val
  | .scrollDown n => 0x00C0 + n.toNat
  | .scrollRight => 0x00FB
  | .scrollLeft => 0x00FC
  | .exit => 0x00FD
  | .setResolution .low => 0x00FE
  | .setResolution .high => 0x00FF
  | .compatibility => 0x00FA
  | .drawLarge x y => 0xD000 + 0x100 * x.val + 0x10 * y.val
  | .largeGlyph x => 0xF030 + 0x100 * x.val
  | .saveFlags x => 0xF075 + 0x100 * x.val
  | .loadFlags x => 0xF085 + 0x100 * x.val
  | .scrollUp n => 0x00D0 + n.toNat
  | .storeRange x y => 0x5002 + 0x100 * x.val + 0x10 * y.val
  | .loadRange x y => 0x5003 + 0x100 * x.val + 0x10 * y.val
  | .setIndexLong _ => 0xF000
  | .loadAudio => 0xF002
  | .selectPlanes m => 0xF001 + 0x100 * m.toNat

end Instruction

/-- The operand is within the range of its kind: one hexadecimal digit for a register, two for a
byte, three for an address and so on. -/
def Operand.Fits : Operand → Prop
  | .place _ => True
  | .register x => x.val < 0x10
  | .registers x y => x.val < 0x10 ∧ y.val < 0x10
  | .byte b => b.toNat < 0x100
  | .nibble n | .count n => n.toNat < 0x10
  | .target a | .address a => a.toNat < 0x1000
  | .longAddress a => a.toNat < 0x10000

namespace Instruction

variable {o o' next next' : UInt16} {i : Instruction} {v w : Variant}

theorem BaseRow.word_eq (h : BaseRow o i) : i.word = significant o := by
  have hd := low_eq o
  cases h with
  | clear hf hl | ret hf hl => rw [significant_of_eq_zero hf, hl]; rfl
  | jump hf | call hf | setIndex hf | jumpOffset hf =>
    rw [significant_of_family hf (by decide), word, toNat_address, Nat.add_assoc]
  | isByte hf | isNotByte hf | setByte hf | addByte hf | random hf =>
    rw [significant_of_family hf (by decide), ← toNat_byte]; rfl
  | same hf hn | different hf hn => rw [significant_of_family hf (by decide), hd, hn]; rfl
  | alu hf hop =>
    rw [significant_of_family hf (by decide), hd, ← Alu.digit_of_ofDigit? hop, ← Nat.add_assoc]
    rfl
  | draw hf =>
    rw [significant_of_family hf (by decide), hd, ← toNat_nibble, ← Nat.add_assoc]; rfl
  | keyDown hf hl | keyUp hf hl | readDelay hf hl | awaitKey hf hl | setDelay hf hl
  | setSound hf hl | addIndex hf hl | smallGlyph hf hl | storeDecimal hf hl
  | storeRegisters hf hl | loadRegisters hf hl =>
    rw [significant_of_family hf (by decide), hl, Nat.add_right_comm]; rfl

theorem SuperChipRow.word_eq (h : SuperChipRow o i) : i.word = significant o := by
  have hd := low_eq o
  cases h with
  | compatibility hf hl | scrollRight hf hl | scrollLeft hf hl | exit hf hl
  | lowResolution hf hl | highResolution hf hl => rw [significant_of_eq_zero hf, hl]; rfl
  | scrollDown hf hy => rw [significant_of_eq_zero hf, hd, hy, ← toNat_nibble]; rfl
  | drawLarge hf hn => rw [significant_of_family hf (by decide), hd, hn]; rfl
  | largeGlyph hf hl | saveFlags hf hl | loadFlags hf hl =>
    rw [significant_of_family hf (by decide), hl, Nat.add_right_comm]; rfl

theorem XoChipRow.word_eq (h : XoChipRow o next i) : i.word = significant o := by
  have hd := low_eq o
  cases h with
  | scrollUp hf hy => rw [significant_of_eq_zero hf, hd, hy, ← toNat_nibble]; rfl
  | storeRange hf hn | loadRange hf hn =>
    rw [significant_of_family hf (by decide), hd, hn, word]
    omega
  | setIndexLong hf hl hx | loadAudio hf hl hx =>
    rw [significant_of_family hf (by decide), hl, hx]; rfl
  | selectPlanes hf hl =>
    rw [significant_of_family hf (by decide), hl, Nat.add_right_comm, word, toNat_register]

theorem BaseRow.fits (h : BaseRow o i) : ∀ p ∈ i.assembly.operands, p.Fits := by
  cases h <;> simp [assembly, Condition.assembly, Operand.Fits, byte_lt, nibble_lt, address_lt]

theorem SuperChipRow.fits (h : SuperChipRow o i) : ∀ p ∈ i.assembly.operands, p.Fits := by
  cases h <;> simp [assembly, Operand.Fits, nibble_lt]

theorem XoChipRow.fits (h : XoChipRow o next i) : ∀ p ∈ i.assembly.operands, p.Fits := by
  cases h with
  | scrollUp | storeRange | loadRange | loadAudio => simp [assembly, Operand.Fits, nibble_lt]
  | setIndexLong => simpa [assembly, Operand.Fits] using next.toNat_lt
  | selectPlanes =>
    simp only [assembly, List.mem_singleton, forall_eq, Operand.Fits, toNat_register, Fin.isLt]

theorem row_of_decode (h : decode v o next = .ok i) :
    BaseRow o i ∨ SuperChipRow o i ∨ XoChipRow o next i := by
  have h := decode_eq_ok_iff.mp h
  cases v with
  | chip8 => exact Or.inl (baseRow_of_ofBase? h)
  | superChip =>
    rcases Option.or_eq_some_iff.mp h with h | ⟨_, h⟩
    · exact Or.inr (Or.inl (superChipRow_of_ofSuperChip? h))
    · exact Or.inl (baseRow_of_ofBase? h)
  | xoChip =>
    rcases Option.or_eq_some_iff.mp h with h | ⟨_, h⟩
    · rcases Option.or_eq_some_iff.mp h with h | ⟨_, h⟩
      · exact Or.inr (Or.inr (xoChipRow_of_ofXoChip? h))
      · exact Or.inr (Or.inl (superChipRow_of_ofSuperChip? h))
    · exact Or.inl (baseRow_of_ofBase? h)

theorem word_of_decode (h : decode v o next = .ok i) : i.word = significant o := by
  rcases row_of_decode h with h | h | h
  exacts [h.word_eq, h.word_eq, h.word_eq]

theorem fits_of_decode (h : decode v o next = .ok i) : ∀ p ∈ i.assembly.operands, p.Fits := by
  rcases row_of_decode h with h | h | h
  exacts [h.fits, h.fits, h.fits]

theorem eq_of_decode_setIndexLong {a : UInt16} (h : decode v o next = .ok (.setIndexLong a)) :
    a = next := by
  rcases row_of_decode h with h | h | h
  · cases h
  · cases h
  · cases h; rfl

/-- An offset jump takes its register from the address that it is based on. -/
theorem eq_of_decode_jumpOffset {r : Register} {a : UInt16}
    (h : decode v o next = .ok (.jumpOffset r a)) : r = x a := by
  rcases row_of_decode h with h | h | h
  · cases h
    exact (x_address o).symm
  · cases h
  · cases h

theorem eq_setIndexLong_of_mem {a : UInt16} (h : .longAddress a ∈ i.assembly.operands) :
    i = .setIndexLong a := by
  cases i with
  | setIndexLong b => simpa [assembly, eq_comm] using h
  | skip c => cases c <;> simp [assembly, Condition.assembly] at h
  | setResolution r => cases r <;> simp [assembly] at h
  | _ => simp [assembly] at h

theorem decode_of_family_zero (hf : family o = 0) (hf' : family o' = 0) (hl : low o' = low o)
    (h : decode v o next = .ok i) : decode v o' next' = .ok i := by
  obtain ⟨hy, hn⟩ := y_digit_of_low hl
  rw [decode_eq_ok_iff] at h ⊢
  rw [← h]
  cases v with
  | chip8 => simp only [ofOpcode?, ofBase?, hf, hf', hl]
  | superChip => simp only [ofOpcode?, ofBase?, ofSuperChip?, hf, hf', hl, hy, nibble, hn]
  | xoChip => simp only [ofOpcode?, ofBase?, ofSuperChip?, ofXoChip?, hf, hf', hl, hy, nibble, hn]

/-- Decoding loses nothing but the digit that family `0` ignores, whatever the variants. The
operands are no longer than the digits that they come from, and one instruction alone carries a
word. -/
theorem decode_loses_nothing (h : decode v o next = .ok i) :
    (∀ w o' next', decode w o' next' = .ok i →
        (o' = o ∨ family o' = 0 ∧ family o = 0 ∧ low o' = low o) ∧
          ∀ a, i = .setIndexLong a → next' = next) ∧
      (family o = 0 → ∀ o' next', family o' = 0 → low o' = low o →
        decode v o' next' = .ok i) ∧
      (∀ p ∈ i.assembly.operands, p.Fits) ∧
      ∀ a, .longAddress a ∈ i.assembly.operands → i = .setIndexLong a := by
  refine ⟨fun w o' next' h' => ⟨?_, ?_⟩, ?_, fits_of_decode h, fun _ => eq_setIndexLong_of_mem⟩
  · exact significant_inj ((word_of_decode h').symm.trans (word_of_decode h))
  · rintro a rfl
    exact (eq_of_decode_setIndexLong h').symm.trans (eq_of_decode_setIndexLong h)
  · exact fun hf o' next' hf' hl => decode_of_family_zero hf hf' hl h

theorem decode_loses_nothing_of_literals :
    (decode .xoChip 0xF000 0xABCD = .ok (.setIndexLong 0xABCD) ∧
        ∀ w o next, decode w o next = .ok (.setIndexLong 0xABCD) → o = 0xF000 ∧ next = 0xABCD) ∧
      decode .chip8 0x00E0 0 = .ok .clear ∧ decode .chip8 0x0AE0 0 = .ok .clear := by
  have hlong : decode .xoChip 0xF000 0xABCD = .ok (.setIndexLong 0xABCD) := rfl
  have hclear : decode .chip8 0x00E0 0 = .ok .clear := rfl
  refine ⟨⟨hlong, fun w o next h => ?_⟩, hclear, ?_⟩
  · obtain ⟨rfl | ⟨_, hf, _⟩, hnext⟩ := (decode_loses_nothing hlong).1 w o next h
    · exact ⟨rfl, hnext _ rfl⟩
    · exact absurd hf (by decide)
  · exact (decode_loses_nothing hclear).2.1 rfl 0x0AE0 0 rfl rfl

end Instruction

end Chip8
