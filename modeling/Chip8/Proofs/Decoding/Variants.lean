import Mathlib.Order.Basic
import Chip8.Proofs.Decoding.Tables

/-! # Decoding under different variants

A higher variant reads the opcodes of a lower one in the same way, `DXY0` excepted. Where decoding
fails, it names the least variant that has the opcode, if there is one.
-/

namespace Chip8

namespace Variant

theorem eq_of_rank {v w : Variant} (h : v.rank = w.rank) : v = w := by
  cases v <;> cases w <;> first | rfl | cases h

instance : LinearOrder Variant where
  le_refl v := Nat.le_refl v.rank
  le_trans _ _ _ := Nat.le_trans
  lt_iff_le_not_ge _ _ := Nat.lt_iff_le_and_not_ge
  le_antisymm _ _ h h' := eq_of_rank (Nat.le_antisymm h h')
  le_total v w := Nat.le_total v.rank w.rank
  toDecidableLE := inferInstance

theorem le_xoChip (v : Variant) : v ≤ .xoChip := by cases v <;> decide

theorem mem_all (v : Variant) : v ∈ all := by cases v <;> decide

theorem find?_all_eq_some_iff {p : Variant → Bool} {r : Variant} :
    all.find? p = some r ↔ p r = true ∧ ∀ w, p w = true → r ≤ w := by
  simp only [all, List.find?_cons, List.find?_nil]
  constructor
  · intro h
    split at h
    · next hp => cases h; exact ⟨hp, fun w _ => Nat.zero_le _⟩
    · next hp =>
      split at h
      · next hq =>
        cases h
        refine ⟨hq, fun w hw => ?_⟩
        cases w <;> first | decide | simp [hp] at hw
      · next hq =>
        split at h
        · next hr =>
          cases h
          refine ⟨hr, fun w hw => ?_⟩
          cases w <;> first | decide | simp [hp, hq] at hw
        · cases h
  · rintro ⟨hr, hl⟩
    have hlt {w : Variant} (hw : w < r) : p w = false :=
      Bool.eq_false_iff.mpr fun hp => absurd (hl w hp) (not_le.mpr hw)
    cases r with
    | chip8 => simp [hr]
    | superChip => simp [hr, hlt (w := .chip8) (by decide)]
    | xoChip => simp [hr, hlt (w := .chip8) (by decide), hlt (w := .superChip) (by decide)]

def Decodes (v : Variant) (o next : UInt16) : Prop :=
  ∃ i, Instruction.decode v o next = .ok i

end Variant

namespace Instruction

variable {o next : UInt16} {i : Instruction} {v w : Variant}

/-- The second walk over the tables finds the first table of a higher variant that has the opcode:
no opcode stands in the tables of both SuperChip and XO-Chip. -/
theorem decode_eq : decode v o next =
    match ofOpcode? v o next with
    | some i => .ok i
    | none =>
      match Variant.all.find? fun w => v < w && (added? w o next).isSome with
      | some w => .error (.requires w)
      | none => .error .illegal := by
  unfold decode
  cases hn : ofOpcode? v o next with
  | some i => rfl
  | none =>
    cases hs : ofSuperChip? o with
    | some i =>
      cases v with
      | chip8 =>
        simp only [Option.some_or, variant_of_ofSuperChip? hs, Variant.all, List.find?_cons,
          added?, hs]
        rfl
      | superChip => simp [ofOpcode?, hs] at hn
      | xoChip => simp [ofOpcode?, hs] at hn
    | none =>
      cases hx : ofXoChip? o next with
      | some i =>
        cases v with
        | xoChip => simp [ofOpcode?, hx] at hn
        | _ =>
          simp only [Option.none_or, variant_of_ofXoChip? hx, Variant.all, List.find?_cons,
            added?, hs, hx]
          rfl
      | none =>
        cases v <;>
          simp only [Option.none_or, Variant.all, List.find?_cons, added?, hs, hx] <;> rfl

theorem decode_eq_ok_iff : decode v o next = .ok i ↔ ofOpcode? v o next = some i := by
  rw [decode_eq]
  split
  · next j hj => simp [hj]
  · next hn =>
    rw [hn]
    split <;> simp

theorem decodes_iff : v.Decodes o next ↔ (ofOpcode? v o next).isSome := by
  simp only [Variant.Decodes, decode_eq_ok_iff, Option.isSome_iff_exists]

theorem decodes_iff_added : v.Decodes o next ↔ ∃ u ≤ v, (added? u o next).isSome := by
  rw [decodes_iff]
  constructor
  · intro h
    cases v with
    | chip8 => exact ⟨.chip8, by decide, h⟩
    | superChip =>
      rcases Bool.or_eq_true_iff.mp (Option.isSome_or.symm.trans h) with h | h
      · exact ⟨.superChip, by decide, h⟩
      · exact ⟨.chip8, by decide, h⟩
    | xoChip =>
      rcases Bool.or_eq_true_iff.mp (Option.isSome_or.symm.trans h) with h | h
      · rcases Bool.or_eq_true_iff.mp (Option.isSome_or.symm.trans h) with h | h
        · exact ⟨.xoChip, by decide, h⟩
        · exact ⟨.superChip, by decide, h⟩
      · exact ⟨.chip8, by decide, h⟩
  · rintro ⟨u, hu, h⟩
    cases v <;> cases u <;> first | (exact absurd hu (by decide)) |
      (simp only [added?] at h; simp [ofOpcode?, h])

theorem decodes_next (next' : UInt16) : v.Decodes o next ↔ v.Decodes o next' := by
  simp only [decodes_iff]
  cases v with
  | chip8 => rfl
  | superChip => rfl
  | xoChip => simp only [ofOpcode?, Option.isSome_or, isSome_ofXoChip? o next next']

theorem variant_le_of_decode (h : decode v o next = .ok i) : i.variant ≤ v := by
  have h := decode_eq_ok_iff.mp h
  cases v with
  | chip8 => rw [variant_of_ofBase? h]
  | superChip =>
    rcases Option.or_eq_some_iff.mp h with h | ⟨_, h⟩
    · rw [variant_of_ofSuperChip? h]
    · rw [variant_of_ofBase? h]; decide
  | xoChip => exact Variant.le_xoChip i.variant

theorem decode_next (hv : v ≠ .xoChip) (next' : UInt16) : decode v o next = decode v o next' := by
  have ha (w : Variant) : (added? w o next).isSome = (added? w o next').isSome := by
    cases w with
    | chip8 => rfl
    | superChip => rfl
    | xoChip => exact isSome_ofXoChip? o next next'
  have ho : ofOpcode? v o next = ofOpcode? v o next' := by
    cases v with
    | chip8 => rfl
    | superChip => rfl
    | xoChip => exact absurd rfl hv
  simp only [decode_eq, ha, ho]

theorem decode_eq_illegal_iff :
    decode v o next = .error .illegal ↔ ∀ w : Variant, ¬ w.Decodes o next := by
  constructor
  · intro h w hw
    obtain ⟨u, _, hu⟩ := decodes_iff_added.mp hw
    have hv : ¬ v.Decodes o next := by rintro ⟨i, hi⟩; rw [h] at hi; cases hi
    have hlt : v < u := not_le.mp fun hle => hv (decodes_iff_added.mpr ⟨u, hle, hu⟩)
    rw [decode_eq] at h
    split at h
    · cases h
    · split at h
      · cases h
      · next hf =>
        have := List.find?_eq_none.mp hf u (Variant.mem_all u)
        simp [hlt, hu] at this
  · intro h
    rw [decode_eq]
    split
    · next i hi => exact absurd ⟨i, decode_eq_ok_iff.mpr hi⟩ (h v)
    · split
      · next w hf =>
        have hw := List.find?_some hf
        simp only [Bool.and_eq_true, decide_eq_true_eq] at hw
        exact absurd (decodes_iff_added.mpr ⟨w, le_rfl, hw.2⟩) (h w)
      · rfl

/-- An opcode that the variant lacks requires the least variant that has it. -/
theorem decode_eq_requires_iff {r : Variant} :
    decode v o next = .error (.requires r) ↔
      ¬ v.Decodes o next ∧ r.Decodes o next ∧ ∀ w : Variant, w.Decodes o next → r ≤ w := by
  have hfind : ¬ v.Decodes o next →
      ((Variant.all.find? fun w => v < w && (added? w o next).isSome) = some r ↔
        r.Decodes o next ∧ ∀ w : Variant, w.Decodes o next → r ≤ w) := by
    intro hv
    have habove {u : Variant} (hu : (added? u o next).isSome) : v < u :=
      not_le.mp fun hle => hv (decodes_iff_added.mpr ⟨u, hle, hu⟩)
    simp only [Variant.find?_all_eq_some_iff, Bool.and_eq_true, decide_eq_true_eq]
    constructor
    · rintro ⟨⟨_, hr⟩, hl⟩
      refine ⟨decodes_iff_added.mpr ⟨r, le_rfl, hr⟩, fun w hw => ?_⟩
      obtain ⟨u, huw, hu⟩ := decodes_iff_added.mp hw
      exact le_trans (hl u ⟨habove hu, hu⟩) huw
    · rintro ⟨hr, hl⟩
      have hleast (u : Variant) (hu : (added? u o next).isSome) : r ≤ u :=
        hl u (decodes_iff_added.mpr ⟨u, le_rfl, hu⟩)
      obtain ⟨u, hur, hu⟩ := decodes_iff_added.mp hr
      obtain rfl : u = r := le_antisymm hur (hleast u hu)
      exact ⟨⟨habove hu, hu⟩, fun w hw => hleast w hw.2⟩
  by_cases hv : v.Decodes o next
  · obtain ⟨i, hi⟩ := hv
    simp only [hi, reduceCtorEq, false_iff]
    exact fun h => h.1 ⟨i, hi⟩
  · have hn : ofOpcode? v o next = none := by
      simpa only [decodes_iff, Option.not_isSome_iff_eq_none] using hv
    rw [and_iff_right hv, ← hfind hv]
    simp only [decode_eq, hn]
    split
    · next w hw => simp [hw]
    · next hw => simp [hw]

/-- A higher variant decodes what a lower one decodes, and to the same instruction, but for the
opcode that SuperChip takes over. -/
theorem decode_of_le (hvw : v ≤ w) (h : decode v o next = .ok i) :
    decode w o next = .ok i ∨
      v = .chip8 ∧ v < w ∧ ∃ x y, i = .draw x y 0 ∧ decode w o next = .ok (.drawLarge x y) := by
  rcases eq_or_lt_of_le hvw with rfl | hlt
  · exact Or.inl h
  have hx (hb : ofBase? o ≠ none ∨ ofSuperChip? o ≠ none) : ofXoChip? o next = none := by
    by_contra hn
    obtain ⟨j, hj⟩ := Option.ne_none_iff_exists'.mp hn
    rcases hb with hb | hb
    · exact hb (ofBase?_eq_none_of_ofXoChip? hj)
    · exact hb (ofSuperChip?_eq_none_of_ofXoChip? hj)
  have h := decode_eq_ok_iff.mp h
  simp only [decode_eq_ok_iff]
  cases v with
  | chip8 =>
    have h : ofBase? o = some i := h
    have hxo := hx (Or.inl (by simp [h]))
    cases hs : ofSuperChip? o with
    | none => refine Or.inl ?_; cases w <;> simp [ofOpcode?, hs, hxo, h]
    | some j =>
      rcases ofBase?_of_ofSuperChip? hs with hb | ⟨x, y, rfl, hb⟩
      · rw [h] at hb; cases hb
      · obtain rfl : i = .draw x y 0 := Option.some.inj (h.symm.trans hb)
        refine Or.inr ⟨rfl, hlt, x, y, rfl, ?_⟩
        cases w with
        | chip8 => exact absurd hlt (by decide)
        | superChip => simp [ofOpcode?, hs]
        | xoChip => simp [ofOpcode?, hs, hxo]
  | superChip =>
    have h : (ofSuperChip? o).or (ofBase? o) = some i := h
    cases w with
    | chip8 => exact absurd hlt (by decide)
    | superChip => exact absurd hlt (by decide)
    | xoChip =>
      have hxo : ofXoChip? o next = none := hx <| by
        rcases Option.or_eq_some_iff.mp h with h | ⟨_, h⟩
        · exact Or.inr (by simp [h])
        · exact Or.inl (by simp [h])
      exact Or.inl (by simpa [ofOpcode?, hxo] using h)
  | xoChip => exact absurd hlt (by cases w <;> decide)

end Instruction

end Chip8
