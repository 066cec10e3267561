import Mathlib.Data.Nat.ModEq
import Mathlib.Data.Set.Basic
import Mathlib.Order.Bounds.Defs
import Chip8.Memory

/-! # Reading back

Addresses with the same remainder reach the same cell. A byte that was written is read back, and
so is a block that does not lap the memory. Of a block that does, the last byte for each cell stays.
-/

namespace Chip8.Memory

variable {m : Memory} {a b c : Nat}

theorem read_congr (h : a % m.size = b % m.size) : m.read a = m.read b := by
  simp only [read, cell, h]

theorem word_congr (ha : a + 1 < 2 ^ 64) (hb : b + 1 < 2 ^ 64) (h : a % m.size = b % m.size) :
    m.word a = m.word b := by
  have ha' : (a + 1) % UInt64.size = a + 1 := Nat.mod_eq_of_lt ha
  have hb' : (b + 1) % UInt64.size = b + 1 := Nat.mod_eq_of_lt hb
  have h' : (a + 1) % m.size = (b + 1) % m.size := Nat.ModEq.add_right 1 h
  simp only [word, ha', hb', read_congr h, read_congr h']

theorem read_write (x : UInt8) :
    (m.write a x).read c = if c % m.size = a % m.size then x else m.read c := by
  have hs : (m.write a x).cell c = m.cell c := by simp only [cell, size_write]
  simp only [read, hs]
  simp only [write, Array.getElem_set, cell, eq_comm]

theorem toNat_word_div (a : Nat) : (m.word a).toNat / 256 = (m.read a).toNat := by
  have hhigh : (m.read a).toNat < 256 := (m.read a).toNat_lt
  have hlow : (m.read ((a + 1) % UInt64.size)).toNat < 256 := (m.read _).toNat_lt
  simp only [word, UInt16.toNat_add, UInt16.toNat_mul, UInt8.toNat_toUInt16, UInt16.reduceToNat]
  omega

theorem read_load_of_ne {data : List UInt8}
    (h : ∀ o < data.length, c % m.size ≠ (a + o) % m.size) : (m.load a data).read c = m.read c := by
  induction data generalizing m a with
  | nil => rfl
  | cons x data ih =>
    have hrest : ∀ o < data.length, c % (m.write a x).size ≠ (a + 1 + o) % (m.write a x).size := by
      intro o ho
      rw [size_write, show a + 1 + o = a + (o + 1) by omega]
      exact h (o + 1) (by simpa using ho)
    have hfirst : c % m.size ≠ a % m.size := h 0 (by simp)
    rw [load, ih hrest, read_write, if_neg hfirst]

theorem mod_add_ne {n k : Nat} (hk : 0 < k) (h : k < n) (a : Nat) : (a + k) % n ≠ a % n := by
  intro he
  have hdvd : n ∣ a + k - a := (Nat.modEq_iff_dvd' (by omega)).mp he.symm
  have hle := Nat.le_of_dvd (by omega) hdvd
  omega

/-- Where a block comes round to a cell more than once, the last byte stays. -/
theorem read_load_of_last {data : List UInt8} {o : Nat} (ho : o < data.length)
    (hlast : ∀ k < data.length, o < k → (a + k) % m.size ≠ (a + o) % m.size) :
    (m.load a data).read (a + o) = data[o] := by
  induction data generalizing m a o with
  | nil => simp at ho
  | cons x data ih =>
    have hshift (k : Nat) : a + 1 + k = a + (k + 1) := by omega
    cases o with
    | zero =>
      have hrest : ∀ k < data.length,
          a % (m.write a x).size ≠ (a + 1 + k) % (m.write a x).size := by
        intro k hk
        rw [size_write, hshift]
        exact (hlast (k + 1) (by simpa using hk) k.succ_pos).symm
      rw [Nat.add_zero, load, read_load_of_ne hrest, read_write, if_pos rfl]
      rfl
    | succ o =>
      have hrest : ∀ k < data.length, o < k →
          (a + 1 + k) % (m.write a x).size ≠ (a + 1 + o) % (m.write a x).size := by
        intro k hk hok
        rw [size_write, hshift, hshift]
        exact hlast (k + 1) (by simpa using hk) (Nat.succ_lt_succ hok)
      rw [load, ← hshift o, ih (by simpa using ho) hrest]
      rfl

theorem read_load {data : List UInt8} (hd : data.length ≤ m.size) {o : Nat} (ho : o < data.length) :
    (m.load a data).read (a + o) = data[o] := by
  apply read_load_of_last ho
  intro k hk hok
  have hne := mod_add_ne (k := k - o) (by omega) (by omega : k - o < m.size) (a + o)
  rwa [show a + o + (k - o) = a + k by omega] at hne

theorem readBlock_load {data : List UInt8} (hd : data.length ≤ m.size) :
    (m.load a data).readBlock a data.length = data := by
  apply List.ext_getElem
  · simp [readBlock]
  · intro o _ ho
    simp only [readBlock, List.getElem_map, List.getElem_range]
    exact read_load hd ho

theorem word_load {data : List UInt8} (hd : data.length ≤ m.size) {o : Nat}
    (ho : o + 1 < data.length) (ha : a + o + 1 < 2 ^ 64) :
    (m.load a data).word (a + o) = data[o].toUInt16 * 256 + data[o + 1].toUInt16 := by
  have hwrap : (a + o + 1) % UInt64.size = a + (o + 1) := Nat.mod_eq_of_lt ha
  rw [word, hwrap, read_load hd (by omega), read_load hd ho]

theorem toNat_word_load {data : List UInt8} (hd : data.length ≤ m.size) {o : Nat}
    (ho : o + 1 < data.length) (ha : a + o + 1 < 2 ^ 64) :
    ((m.load a data).word (a + o)).toNat = 256 * data[o].toNat + data[o + 1].toNat := by
  have hhigh : data[o].toNat < 256 := data[o].toNat_lt
  have hlow : data[o + 1].toNat < 256 := data[o + 1].toNat_lt
  rw [word_load hd ho ha]
  simp only [UInt16.toNat_add, UInt16.toNat_mul, UInt8.toNat_toUInt16, UInt16.reduceToNat]
  omega

theorem getElem?_bytes (h : c < m.size) : m.bytes[c]? = some (m.read c) := by
  have hcell : m.cell c = c := Nat.mod_eq_of_lt h
  simp only [read, hcell]
  exact Array.getElem?_eq_getElem h

/-- The offsets at which a block of `n` bytes from address `a` on comes to cell `c`. -/
def offsets (m : Memory) (a n c : Nat) : Set Nat := {o | o < n ∧ (a + o) % m.size = c}

section Cells

variable {data : List UInt8} (hc : c < m.size)
include hc

theorem getElem?_load_of_isGreatest {o : Nat} (ho : IsGreatest (m.offsets a data.length c) o) :
    (m.load a data).bytes[c]? = data[o]? := by
  obtain ⟨⟨hlt, hcell⟩, hgreatest⟩ := ho
  have hlast : ∀ k < data.length, o < k → (a + k) % m.size ≠ (a + o) % m.size := by
    intro k hk hok heq
    have hle : k ≤ o := hgreatest ⟨hk, heq.trans hcell⟩
    omega
  have hread : (m.load a data).read c = (m.load a data).read (a + o) := by
    apply read_congr
    rw [size_load, hcell, Nat.mod_eq_of_lt hc]
  rw [getElem?_bytes (by rwa [size_load]), hread, read_load_of_last hlt hlast,
    List.getElem?_eq_getElem hlt]

theorem getElem?_load_of_offsets_eq_empty (h : m.offsets a data.length c = ∅) :
    (m.load a data).bytes[c]? = m.bytes[c]? := by
  have hread : (m.load a data).read c = m.read c := by
    apply read_load_of_ne
    intro o ho heq
    have hmem : o ∈ m.offsets a data.length c := ⟨ho, heq.symm.trans (Nat.mod_eq_of_lt hc)⟩
    rw [h] at hmem
    exact hmem
  rw [getElem?_bytes hc, getElem?_bytes (by rwa [size_load]), hread]

end Cells

/-- A block of any length is loaded round the memory as often as it takes. Each cell is left with
the last byte that came to it, or as it was. So a block that does not come round to its own bytes is
read back, byte by byte and in words, wherever it goes round the end. -/
theorem load_keeps_last_bytes (m : Memory) (a : Nat) (data : List UInt8)
    (h : a + data.length < 2 ^ 64) :
    let loaded := m.load a data
    loaded.size = m.size ∧
    (∀ c < m.size,
      (∀ o, IsGreatest (m.offsets a data.length c) o → loaded.bytes[c]? = data[o]?) ∧
      (m.offsets a data.length c = ∅ → loaded.bytes[c]? = m.bytes[c]?)) ∧
    (data.length ≤ m.size →
      (∀ o (ho : o < data.length), loaded.read (a + o) = data[o]) ∧
      ∀ o (ho : o + 1 < data.length),
        (loaded.word (a + o)).toNat = 256 * data[o].toNat + data[o + 1].toNat) := by
  refine ⟨size_load m a data, fun c hc => ⟨fun o ho => ?_, fun hnone => ?_⟩, fun hd => ⟨?_, ?_⟩⟩
  · exact getElem?_load_of_isGreatest hc ho
  · exact getElem?_load_of_offsets_eq_empty hc hnone
  · intro o ho
    exact read_load hd ho
  · intro o ho
    exact toNat_word_load hd ho (by omega)

theorem load_keeps_last_bytes_of_three_cells :
    ∃ m : Memory, m.bytes = #[7, 8, 9] ∧
      (m.load 2 [1, 2, 3, 4, 5]).bytes[0]? = some 5 ∧
      (m.load 2 [1, 2, 3, 4, 5]).bytes[1]? = some 3 ∧
      (m.load 2 [1, 2]).bytes[1]? = some 8 ∧ ((m.load 2 [1, 2]).word 2).toNat = 0x0102 := by
  let m : Memory := ⟨#[7, 8, 9], by decide⟩
  have hsize : m.size = 3 := rfl
  have hlaps := (load_keeps_last_bytes m 2 [1, 2, 3, 4, 5] (by decide)).2.1
  obtain ⟨-, hcells, hfits⟩ := load_keeps_last_bytes m 2 [1, 2] (by decide)
  refine ⟨m, rfl, (hlaps 0 (by decide)).1 4 ⟨?_, ?_⟩, (hlaps 1 (by decide)).1 2 ⟨?_, ?_⟩,
    (hcells 1 (by decide)).2 ?_, (hfits (by decide)).2 0 (by decide)⟩
  · exact ⟨by decide, by rw [hsize]⟩
  · rintro o ⟨ho, -⟩
    exact Nat.le_of_lt_succ ho
  · exact ⟨by decide, by rw [hsize]⟩
  · rintro o ⟨ho, hcell⟩
    have hlength : o < 5 := ho
    rw [hsize] at hcell
    omega
  · refine Set.eq_empty_of_forall_notMem ?_
    rintro o ⟨ho, hcell⟩
    have hlength : o < 2 := ho
    rw [hsize] at hcell
    omega

end Chip8.Memory
