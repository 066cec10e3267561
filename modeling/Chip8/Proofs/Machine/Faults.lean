import Chip8.Proofs.Machine.Fetch

/-! # Faults

When a cycle and an executed opcode fail, with which fault, and that a failure leaves no trace. The
order of the reasons is that of the checks: a wait for a key, the address, the opcode.
-/

namespace Chip8

def Variant.Has (v : Variant) (o : UInt16) : Prop := ∃ next, v.Decodes o next

theorem Variant.has_iff {v : Variant} {o : UInt16} (next : UInt16) :
    v.Has o ↔ v.Decodes o next :=
  ⟨fun ⟨_, h⟩ => (Instruction.decodes_next next).mp h, fun h => ⟨next, h⟩⟩

inductive DecodeFault (v : Variant) (o pc : UInt16) : Fault → Prop
  | illegal (h : ∀ w : Variant, ¬ w.Has o) : DecodeFault v o pc (.illegalInstruction o pc)
  | violation (r : Variant) (hv : ¬ v.Has o) (hr : r.Has o)
      (hleast : ∀ w : Variant, w.Has o → r ≤ w) :
      DecodeFault v o pc (.variantViolation o pc r)

namespace Machine

variable {m : Machine} {keys : Keyboard} {o pc : UInt16} {e : Fault}

/-- The fault of a machine that does not wait for a key: the address comes before the opcode. -/
inductive FetchFault (m : Machine) : Fault → Prop
  | misaligned (hconfig : m.config.allowMisaligned = false) (hpc : m.pc.toNat % 2 = 1) :
      FetchFault m (.misalignedFetch m.pc)
  | undecoded {e : Fault} (ha : m.Aligned) (h : DecodeFault m.config.variant m.opcode m.pc e) :
      FetchFault m e

theorem decode_eq_error_iff (next : UInt16) :
    m.decode o next pc = .error e ↔ DecodeFault m.config.variant o pc e := by
  have hhas (w : Variant) : w.Has o ↔ w.Decodes o next := Variant.has_iff next
  unfold decode
  cases hd : Instruction.decode m.config.variant o next with
  | ok i =>
    have hv : m.config.variant.Has o := ⟨next, i, hd⟩
    simp only [Except.mapError, reduceCtorEq, false_iff]
    intro h
    cases h with
    | illegal h => exact h _ hv
    | violation _ h => exact h hv
  | error d =>
    simp only [Except.mapError, Except.error.injEq]
    cases d with
    | illegal =>
      have hnone : ∀ w : Variant, ¬ w.Has o := by
        simpa only [hhas] using Instruction.decode_eq_illegal_iff.mp hd
      constructor
      · rintro rfl
        exact .illegal hnone
      · intro h
        cases h with
        | illegal => rfl
        | violation r _ hr => exact absurd hr (hnone r)
    | requires r =>
      obtain ⟨hv, hr, hleast⟩ := Instruction.decode_eq_requires_iff.mp hd
      simp only [← hhas] at hv hr hleast
      constructor
      · rintro rfl
        exact .violation r hv hr hleast
      · intro h
        cases h with
        | illegal h => exact absurd hr (h r)
        | violation s _ hs hs' => rw [le_antisymm (hleast s hs) (hs' r hr)]; rfl

theorem not_aligned_iff :
    ¬ m.Aligned ↔ m.config.allowMisaligned = false ∧ m.pc.toNat % 2 = 1 := by
  rw [Aligned, not_or, Bool.not_eq_true, and_comm]
  exact and_congr_right fun _ => Nat.mod_two_ne_zero

theorem fetch_of_not_aligned (ha : ¬ m.Aligned) : m.fetch = .error (.misalignedFetch m.pc) := by
  obtain ⟨hconfig, hpc⟩ := not_aligned_iff.mp ha
  simp [fetch, hpc, hconfig]

theorem fetch_eq_error_iff : m.fetch = .error e ↔ FetchFault m e := by
  by_cases ha : m.Aligned
  · have hmap {x : Except Fault Instruction} {f : Instruction → Trace} :
        x.map f = .error e ↔ x = .error e := by cases x <;> simp [Except.map]
    rw [fetch_eq ha, hmap, decode_eq_error_iff]
    constructor
    · exact .undecoded ha
    · intro h
      cases h with
      | misaligned hconfig hpc => exact absurd ha (not_aligned_iff.mpr ⟨hconfig, hpc⟩)
      | undecoded _ h => exact h
  · obtain ⟨hconfig, hpc⟩ := not_aligned_iff.mp ha
    rw [fetch_of_not_aligned ha]
    constructor
    · rintro ⟨⟩
      exact .misaligned hconfig hpc
    · intro h
      cases h with
      | misaligned => rfl
      | undecoded ha' => exact absurd ha' ha

theorem fetch_eq_ok_iff {t : Trace} :
    m.fetch = .ok t ↔ m.Aligned ∧
      Instruction.decode m.config.variant m.opcode (m.memory.word (m.pc.toNat + 2)) =
        .ok t.instruction ∧ t.pc = m.pc ∧ t.opcode = m.opcode := by
  by_cases ha : m.Aligned
  · rw [fetch_eq ha, and_iff_right ha, decode]
    cases Instruction.decode m.config.variant m.opcode (m.memory.word (m.pc.toNat + 2)) with
    | error d => simp [Except.map, Except.mapError]
    | ok i =>
      obtain ⟨pc, o, j⟩ := t
      simp only [Except.map, Except.mapError, Except.ok.injEq, Trace.mk.injEq]
      constructor
      · rintro ⟨rfl, rfl, rfl⟩
        exact ⟨rfl, rfl, rfl⟩
      · rintro ⟨rfl, rfl, rfl⟩
        exact ⟨rfl, rfl, rfl⟩
  · simp [fetch_of_not_aligned ha, ha]

theorem pollKey_ne_error : (m.pollKey keys).result ≠ .error e := by
  unfold pollKey
  split <;> simp

/-- Nothing that happens after the fetch can fail. -/
theorem cycle_eq_error_iff :
    (m.cycle keys).result = .error e ↔ m.waiting = false ∧ FetchFault m e := by
  rw [← fetch_eq_error_iff]
  unfold cycle
  split
  · next hw => simp [hw, pollKey_ne_error]
  · next hw =>
    have hw : m.waiting = false := Bool.eq_false_iff.mpr hw
    cases m.fetch <;> simp [hw]

theorem executeOpcode_eq_error_iff :
    (m.executeOpcode keys o).result = .error e ↔
      DecodeFault m.config.variant o (m.pc - 2) e := by
  rw [← decode_eq_error_iff (m.memory.word m.pc.toNat)]
  unfold executeOpcode
  cases m.decode o (m.memory.word m.pc.toNat) (m.pc - 2) <;> simp

/-- Cycles and executed opcodes fail exactly if the opcode or its address is at fault, and then
nothing changes and nothing is told, so that they fail again. -/
theorem faults_exact_and_atomic (m : Machine) (keys : Keyboard) :
    (∀ e, (m.cycle keys).result = .error e ↔ m.waiting = false ∧ FetchFault m e) ∧
    (∀ o e, (m.executeOpcode keys o).result = .error e ↔
      DecodeFault m.config.variant o (m.pc - 2) e) ∧
    (∀ e, (m.cycle keys).result = .error e → ∀ keys', m.cycle keys' = ⟨.error e, m, #[]⟩) ∧
    (∀ o e, (m.executeOpcode keys o).result = .error e →
      ∀ keys', m.executeOpcode keys' o = ⟨.error e, m, #[]⟩) := by
  refine ⟨fun e => cycle_eq_error_iff, fun o e => executeOpcode_eq_error_iff,
    fun e he keys' => ?_, fun o e he keys' => ?_⟩
  · exact cycle_of_error (cycle_eq_error_iff.mpr (cycle_eq_error_iff.mp he))
  · exact executeOpcode_of_error
      (executeOpcode_eq_error_iff.mpr (executeOpcode_eq_error_iff.mp he))

/-- A machine that starts at an odd address, and an opcode of SuperChip. -/
theorem faults_at_odd_start :
    ∃ m : Machine, m.Reachable ∧
      (∀ keys, m.cycle keys = ⟨.error (.misalignedFetch 0x201), m, #[]⟩) ∧
      ∀ keys, m.executeOpcode keys 0x00FF =
        ⟨.error (.variantViolation 0x00FF 0x1FF .superChip), m, #[]⟩ := by
  have haccepted : Config.Accepted { Config.standard .chip8 with startAddress := 0x201 } := by
    rw [Config.accepted_iff]
    decide
  obtain ⟨m, hm⟩ : ∃ m, create _ default = .ok m := exists_create_iff.mpr haccepted
  obtain ⟨hconfig, hwaiting, hpc⟩ := start_of_create hm
  have hfaults := faults_exact_and_atomic m Keypad.released.keyboard
  refine ⟨m, ⟨_, _, m, [], hm, rfl⟩, hfaults.2.2.1 _ ((hfaults.1 _).mpr ⟨hwaiting, ?_⟩),
    hfaults.2.2.2 _ _ ((hfaults.2.1 _ _).mpr ?_)⟩
  · have hmisaligned := FetchFault.misaligned (m := m) (by rw [hconfig]; rfl) (by rw [hpc]; rfl)
    rwa [hpc] at hmisaligned
  · rw [hpc]
    refine (decode_eq_error_iff 0).mp ?_
    rw [decode, hconfig]
    rfl

end Machine

end Chip8
