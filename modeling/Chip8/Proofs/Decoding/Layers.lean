import Chip8.Proofs.Decoding.Variants

/-! # The layers of the opcode tables

An instruction belongs to the least variant that decodes it, and that variant decodes it from the
same opcode. What the tables above make of an opcode is settled by the opcode, but for the literal
of `F000`.
-/

namespace Chip8

open Opcode

/-- The opcodes `DXY0`, which the base table has and SuperChip takes over. -/
def Opcode.DrawsLarge (o : UInt16) : Prop := family o = 0xD ∧ digit o = 0

/-- What is a `draw` for `v` is a `drawLarge` for `w`. -/
def Variant.TakesOver (v w : Variant) (o : UInt16) : Prop :=
  v = .chip8 ∧ v < w ∧ DrawsLarge o

namespace Instruction

variable {o next next' : UInt16} {i : Instruction} {v w : Variant}

/-- An instruction comes from the table of its own variant, and the tables between that one and
the variant that decoded it do not have the opcode. -/
theorem decode_variant (h : decode v o next = .ok i) : decode i.variant o next = .ok i := by
  rw [decode_eq_ok_iff] at h ⊢
  have hbase (hb : ofBase? o = some i) : ofOpcode? i.variant o next = some i := by
    rw [variant_of_ofBase? hb]
    exact hb
  have hsuper (hs : ofSuperChip? o = some i) : ofOpcode? i.variant o next = some i := by
    rw [variant_of_ofSuperChip? hs]
    simp only [ofOpcode?, hs, Option.some_or]
  have hxo (hx : ofXoChip? o next = some i) : ofOpcode? i.variant o next = some i := by
    rw [variant_of_ofXoChip? hx]
    simp only [ofOpcode?, hx, Option.some_or]
  cases v with
  | chip8 => exact hbase h
  | superChip =>
    rcases Option.or_eq_some_iff.mp h with hs | ⟨_, hb⟩
    · exact hsuper hs
    · exact hbase hb
  | xoChip =>
    rcases Option.or_eq_some_iff.mp h with hn | ⟨_, hb⟩
    · rcases Option.or_eq_some_iff.mp hn with hx | ⟨_, hs⟩
      · exact hxo hx
      · exact hsuper hs
    · exact hbase hb

theorem decode_chip8_of_drawsLarge (ho : DrawsLarge o) :
    decode .chip8 o next = .ok (.draw (x o) (y o) 0) := by
  refine decode_eq_ok_iff.mpr ?_
  simp [ofOpcode?, ofBase?, ho.1, nibble, ho.2]

theorem decode_superChip_of_drawsLarge (ho : DrawsLarge o) :
    decode .superChip o next = .ok (.drawLarge (x o) (y o)) := by
  refine decode_eq_ok_iff.mpr ?_
  simp [ofOpcode?, ofSuperChip?, ho.1, ho.2]

theorem drawsLarge_of_decode {x y : Register} (h : decode v o next = .ok (.drawLarge x y)) :
    DrawsLarge o := by
  have hs : ofSuperChip? o = some (.drawLarge x y) := by
    have hvariant := decode_eq_ok_iff.mp (decode_variant h)
    rcases Option.or_eq_some_iff.mp hvariant with hs | ⟨_, hb⟩
    · exact hs
    · cases variant_of_ofBase? hb
  cases superChipRow_of_ofSuperChip? hs with
  | drawLarge hf hd => exact ⟨hf, hd⟩

theorem decode_above (hvw : v ≤ w) (h : decode v o next = .ok i) :
    (v.TakesOver w o → i = .draw (x o) (y o) 0 ∧ decode w o next = .ok (.drawLarge (x o) (y o))) ∧
      (¬ v.TakesOver w o → decode w o next = .ok i) := by
  constructor
  · rintro ⟨rfl, hlt, ho⟩
    refine ⟨Except.ok.inj (h.symm.trans (decode_chip8_of_drawsLarge ho)), ?_⟩
    have hle : Variant.superChip ≤ w := by cases w <;> first | decide | exact absurd hlt (by decide)
    rcases decode_of_le hle (decode_superChip_of_drawsLarge ho) with hw | ⟨hv, _⟩
    · exact hw
    · cases hv
  · intro hn
    rcases decode_of_le hvw h with hw | ⟨hv, hlt, x, y, _, hw⟩
    · exact hw
    · exact absurd ⟨hv, hlt, drawsLarge_of_decode hw⟩ hn

theorem lt_of_decode_requires {r : Variant} (h : decode v o next = .error (.requires r)) :
    v < r := by
  obtain ⟨hv, ⟨i, hr⟩, _⟩ := decode_eq_requires_iff.mp h
  refine not_le.mp fun hle => hv ?_
  rcases decode_of_le hle hr with hi | ⟨_, _, x, y, _, hi⟩
  · exact ⟨_, hi⟩
  · exact ⟨_, hi⟩

theorem decode_error_next {e : DecodeError} (next' : UInt16) :
    decode v o next = .error e ↔ decode v o next' = .error e := by
  have hd (u : Variant) : u.Decodes o next ↔ u.Decodes o next' := decodes_next next'
  cases e with
  | illegal => simp only [decode_eq_illegal_iff, hd]
  | requires r => simp only [decode_eq_requires_iff, hd]

theorem ofXoChip?_next (ho : o ≠ 0xF000) (next' : UInt16) :
    ofXoChip? o next = ofXoChip? o next' := by
  cases hx : ofXoChip? o next with
  | none =>
    have hsome := isSome_ofXoChip? o next next'
    rw [hx, Option.isSome_none, eq_comm, Option.isSome_eq_false_iff, Option.isNone_iff_eq_none]
      at hsome
    exact hsome.symm
  | some i =>
    cases xoChipRow_of_ofXoChip? hx with
    | setIndexLong hf hl hd =>
      refine absurd (UInt16.toNat_inj.mp ?_) ho
      have hd : o.toNat / 0x100 % 16 = 0 := congrArg Fin.val hd
      simp only [family, low, UInt16.reduceToNat] at hf hl ⊢
      omega
    | scrollUp hf hy => simp [ofXoChip?, hf, hy]
    | storeRange hf hd | loadRange hf hd => simp [ofXoChip?, hf, hd]
    | selectPlanes hf hl => simp [ofXoChip?, hf, hl]
    | loadAudio hf hl hd => simp [ofXoChip?, hf, hl, hd]

theorem decode_xoChip_longIndex (next : UInt16) :
    decode .xoChip 0xF000 next = .ok (.setIndexLong next) := rfl

/-- The word after an opcode makes a difference to `F000` under XO-Chip, and to nothing else. -/
theorem decode_next_iff :
    decode v o next = decode v o next' ↔ (v = .xoChip → o = 0xF000 → next = next') := by
  constructor
  · rintro h rfl rfl
    simpa [decode_xoChip_longIndex] using h
  · intro h
    by_cases hv : v = .xoChip
    · by_cases ho : o = 0xF000
      · rw [h hv ho]
      · subst hv
        cases hd : decode .xoChip o next with
        | error e => exact ((decode_error_next next').mp hd).symm
        | ok i =>
          rw [decode_eq_ok_iff, ofOpcode?, ofXoChip?_next ho next'] at hd
          have hd' : decode .xoChip o next' = .ok i := decode_eq_ok_iff.mpr hd
          exact hd'.symm
    · exact decode_next hv next'

/-- A variant reads what the variants below it read, and names the least one that has an opcode it
lacks itself. -/
theorem decode_layers (o next : UInt16) {v w : Variant} (hvw : v ≤ w) :
    (∀ i, decode v o next = .ok i →
      i.variant ≤ v ∧ decode i.variant o next = .ok i ∧
        (v.TakesOver w o →
          i = .draw (x o) (y o) 0 ∧ decode w o next = .ok (.drawLarge (x o) (y o))) ∧
        (¬ v.TakesOver w o → decode w o next = .ok i)) ∧
    (∀ r, decode v o next = .error (.requires r) ↔
      ¬ v.Decodes o next ∧ r.Decodes o next ∧ ∀ u : Variant, u.Decodes o next → r ≤ u) ∧
    (∀ r, decode v o next = .error (.requires r) → v < r) ∧
    (decode v o next = .error .illegal ↔ ∀ u : Variant, ¬ u.Decodes o next) ∧
    (∀ next' e, decode v o next = .error e ↔ decode v o next' = .error e) ∧
    ∀ next', decode v o next = decode v o next' ↔ (v = .xoChip → o = 0xF000 → next = next') := by
  refine ⟨fun i h => ?_, fun r => decode_eq_requires_iff, fun r => lt_of_decode_requires,
    decode_eq_illegal_iff, fun next' e => decode_error_next next', fun next' => decode_next_iff⟩
  exact ⟨variant_le_of_decode h, decode_variant h, decode_above hvw h⟩

/-- `D120` on CHIP-8 and on XO-Chip, and `00FF`, which CHIP-8 lacks. -/
theorem decode_layers_taken_over :
    (decode .chip8 0xD120 0 = .ok (.draw 1 2 0) ∧
      decode .xoChip 0xD120 0 = .ok (.drawLarge 1 2)) ∧
    decode .chip8 0x00FF 0 = .error (.requires .superChip) ∧ Variant.chip8 < .superChip := by
  have hle : Variant.chip8 ≤ .xoChip := by decide
  have hover : Variant.TakesOver .chip8 .xoChip 0xD120 := ⟨rfl, by decide, rfl, rfl⟩
  have hdraw : decode .chip8 0xD120 0 = .ok (.draw 1 2 0) := rfl
  have hhigh : decode .chip8 0x00FF 0 = .error (.requires .superChip) := rfl
  obtain ⟨_, hlarge⟩ := ((decode_layers 0xD120 0 hle).1 _ hdraw).2.2.1 hover
  exact ⟨⟨hdraw, hlarge⟩, hhigh, (decode_layers 0x00FF 0 hle).2.2.1 _ hhigh⟩

end Instruction

end Chip8
