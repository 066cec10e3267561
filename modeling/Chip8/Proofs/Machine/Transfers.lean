import Chip8.Proofs.Machine.Registers
import Chip8.Proofs.Machine.WellFormed
import Chip8.Proofs.Memory.Access

/-! # Transfers of registers

Registers that are stored in the memory, or saved in the flags, come back as they were. A block of
registers is never longer than the memory, so that no two of its bytes share a cell, even where it
goes round the end.
-/

namespace Chip8

open Register

variable {x y r s : Register}

/-- The register that changes places with `r` when the range from `x` to `y` is turned round. -/
theorem Register.eq_opposite (h : r.val + s.val = x.val + y.val) : s = x + y - r := by
  have hr : r.val < 16 := r.isLt
  have hs : s.val < 16 := s.isLt
  ext
  simp only [Fin.sub_def, Fin.add_def]
  omega

namespace Machine

variable {c : Config} {m n : Machine} {keys later : Keyboard}

/-- `n` has the memory that `m` was left with when it executed `i`, and `I` is where it was before.
Anything else may have changed since. -/
structure SetBack (m : Machine) (keys : Keyboard) (i : Instruction) (n : Machine) : Prop where
  memory : n.memory = (m.execute keys i).memory
  index : n.index = m.index

namespace SetBack

theorem range_zero (h : m.SetBack keys (.storeRegisters x) n) :
    m.SetBack keys (.storeRange 0 x) n :=
  ⟨h.memory, h.index⟩

variable (hm : m.WellFormed c) (h : m.SetBack keys (.storeRange x y) n)
include hm h

theorem loadBlock {rs : List Register} (hrs : rs.length = (range x y).length) :
    n.loadBlock rs = n.v.assign rs (m.contents (range x y)) := by
  have hlength : rs.length = (m.contents (range x y)).length := by
    rw [hrs, contents, List.length_map]
  have hfits : (m.contents (range x y)).length ≤ m.memory.size := by
    have haccepted := Config.accepted_iff.mp hm.accepted
    rw [contents, List.length_map, length_range, hm.memory]
    omega
  rw [Machine.loadBlock, h.index, h.memory, hlength]
  exact congrArg (n.v.assign rs) (Memory.readBlock_load hfits)

theorem get_loadRange : (n.execute later (.loadRange x y)).v.get r =
    if r ∈ range x y then m.v.get r else n.v.get r := by
  have hload : (n.execute later (.loadRange x y)).v =
      n.v.assign (range x y) ((range x y).map m.v.get) := h.loadBlock hm rfl
  rw [hload, Registers.get_assign_map]

/-- Turned round, the block lists for each register the contents of the opposite one. -/
theorem get_loadRange_reversed : (n.execute later (.loadRange y x)).v.get r =
    if r ∈ range y x then m.v.get (x + y - r) else n.v.get r := by
  have hcontents : m.contents (range x y) = (range y x).map fun r => m.v.get (x + y - r) := by
    rw [contents, ← map_range x y, List.map_map]
    rfl
  have hload : (n.execute later (.loadRange y x)).v =
      n.v.assign (range y x) ((range y x).map fun r => m.v.get (x + y - r)) := by
    rw [← hcontents]
    apply h.loadBlock hm
    rw [length_range, length_range, max_comm, min_comm]
  rw [hload, Registers.get_assign_map]

end SetBack

theorem get_loadFlags (h : n.flags = (m.execute keys (.saveFlags x)).flags) :
    (n.execute later (.loadFlags y)).v.get r =
      if hr : r.val < 8 ∧ r ≤ y then
        if r ≤ x then m.v.get r else m.flags.get ⟨r.val, hr.1⟩
      else n.v.get r := by
  have hload : (n.execute later (.loadFlags y)).v.get r =
      if hr : r.val < 8 ∧ r ≤ y then n.flags[r.val] else n.v.get r := Vector.getElem_ofFn _
  have hsave (hr : r.val < 8) :
      n.flags[r.val] = if r.val ≤ x then m.v[r.val] else m.flags.get ⟨r.val, hr⟩ := by
    rw [h]
    exact Vector.getElem_ofFn _
  rw [hload]
  split
  · next hr => exact hsave hr.1
  · rfl

/-- The block is too short to go all the way round the addresses. -/
theorem indexAfter_iff : ((m.indexAfter x).toNat = (m.index.toNat + x.val + 1) % 0x10000 ↔
      m.advancesIndex = true) ∧ (m.indexAfter x = m.index ↔ m.advancesIndex = false) := by
  have hx : x.val < 16 := x.isLt
  have hlt : m.index.toNat < 0x10000 := m.index.toNat_lt
  have hpast : m.index.toNat ≠ (m.index.toNat + x.val + 1) % 0x10000 := by omega
  unfold indexAfter
  split
  · next h =>
    have hsum : (m.index + UInt16.ofNat (x.val + 1)).toNat =
        (m.index.toNat + x.val + 1) % 0x10000 := by
      rw [UInt16.toNat_add, UInt16.toNat_ofNat']
      omega
    have hne : m.index + UInt16.ofNat (x.val + 1) ≠ m.index := by
      intro he
      exact hpast ((congrArg UInt16.toNat he).symm.trans hsum)
    exact ⟨iff_of_true hsum h, iff_of_false hne (by simp [h])⟩
  · next h => exact ⟨iff_of_false hpast h, iff_of_true rfl (by simpa using h)⟩

/-- Transfers are lossless. What the registers up to `x`, or from `x` to `y`, held when they were
stored is loaded again with `I` set back, whatever the registers held in between, and comes in
reversed order if the range is turned round. Flags give back what was saved in them. Only the
transfers of the registers up to `x` move `I`, past the block, and only where the dialect or
compatibility mode says so. -/
theorem transfers_are_lossless (hm : m.WellFormed c) (keys later : Keyboard) (x y : Register) :
    (∀ n, m.SetBack keys (.storeRegisters x) n → ∀ r,
      (n.execute later (.loadRegisters x)).v.get r = if r ≤ x then m.v.get r else n.v.get r) ∧
    (∀ n, m.SetBack keys (.storeRange x y) n → ∀ r,
      (n.execute later (.loadRange x y)).v.get r =
        if min x y ≤ r ∧ r ≤ max x y then m.v.get r else n.v.get r) ∧
    (∀ n, m.SetBack keys (.storeRange x y) n → ∀ r s, r.val + s.val = x.val + y.val →
      (n.execute later (.loadRange y x)).v.get r =
        if min x y ≤ r ∧ r ≤ max x y then m.v.get s else n.v.get r) ∧
    (m.execute keys (.storeRange 0 x)).memory = (m.execute keys (.storeRegisters x)).memory ∧
    (∀ n : Machine, n.flags = (m.execute keys (.saveFlags x)).flags → ∀ r,
      (n.execute later (.loadFlags y)).v.get r =
        if hr : r.val < 8 ∧ r ≤ y then
          if r ≤ x then m.v.get r else m.flags.get ⟨r.val, hr.1⟩
        else n.v.get r) ∧
    (∀ i ∈ [Instruction.storeRegisters x, .loadRegisters x],
      ((m.execute keys i).index.toNat = (m.index.toNat + x.val + 1) % 0x10000 ↔
        m.config.dialect.advancesIndex = true ∨ m.compatibility = true) ∧
      ((m.execute keys i).index = m.index ↔
        ¬ (m.config.dialect.advancesIndex = true ∨ m.compatibility = true))) ∧
    ∀ i ∈ [Instruction.storeRange x y, .loadRange x y, .saveFlags x, .loadFlags x],
      (m.execute keys i).index = m.index := by
  have hadvances : m.advancesIndex = true ↔
      m.config.dialect.advancesIndex = true ∨ m.compatibility = true := Bool.or_eq_true_iff
  refine ⟨?_, ?_, ?_, rfl, ?_, ?_, ?_⟩
  · intro n hn r
    simp only [← mem_upTo]
    -- Loading up to `x` differs from loading that range in the index alone.
    show (n.execute later (.loadRange 0 x)).v.get r = _
    exact hn.range_zero.get_loadRange hm
  · intro n hn r
    simp only [← mem_range_iff]
    exact hn.get_loadRange hm
  · intro n hn r s hrs
    rw [eq_opposite hrs]
    rw [min_comm, max_comm]
    simp only [← mem_range_iff]
    exact hn.get_loadRange_reversed hm
  · intro n hn r
    exact get_loadFlags hn
  · intro i hi
    rw [← hadvances, Bool.not_eq_true]
    simp only [List.mem_cons, List.not_mem_nil, or_false] at hi
    rcases hi with rfl | rfl
    · exact indexAfter_iff
    · exact indexAfter_iff
  · intro i hi
    simp only [List.mem_cons, List.not_mem_nil, or_false] at hi
    rcases hi with rfl | rfl | rfl | rfl <;> rfl

/-- Four registers in a block of which half stands at the end of the memory and half at its start,
and three in the flags. -/
theorem transfers_round_the_end_are_lossless :
    ∃ new, create (.standard .xoChip) default = .ok new ∧
      let keys := Keypad.released.keyboard
      let m := { new with v := Vector.ofFn fun i => UInt8.ofNat i.val, index := 0xFFFE }
      let stored := { m.execute keys (.storeRange 1 4) with v := new.v }
      let saved := { m.execute keys (.saveFlags 2) with v := new.v }
      (stored.execute keys (.loadRange 1 4)).v.get 4 = 4 ∧
        (stored.execute keys (.loadRange 4 1)).v.get 4 = 1 ∧
        (saved.execute keys (.loadFlags 5)).v.get 2 = 2 ∧
        (saved.execute keys (.loadFlags 5)).v.get 3 = new.flags.get 3 := by
  obtain ⟨new, hnew⟩ := exists_create_iff.mpr (rfl : (Config.standard .xoChip).Accepted)
  refine ⟨new, hnew, ?_⟩
  intro keys m stored saved
  have hm : m.WellFormed (Config.standard .xoChip) := { wellFormed_of_create hnew with }
  have hv (r : Register) : m.v.get r = UInt8.ofNat r.val := Vector.getElem_ofFn _
  obtain ⟨-, hstored, hreversed, -⟩ := transfers_are_lossless hm keys keys 1 4
  obtain ⟨-, -, -, -, hflags, -⟩ := transfers_are_lossless hm keys keys 2 5
  refine ⟨(hstored stored ⟨rfl, rfl⟩ 4).trans ?_, (hreversed stored ⟨rfl, rfl⟩ 4 1 rfl).trans ?_,
    (hflags saved rfl 2).trans ?_, hflags saved rfl 3⟩
  · exact hv 4
  · exact hv 1
  · exact hv 2

end Machine

end Chip8
