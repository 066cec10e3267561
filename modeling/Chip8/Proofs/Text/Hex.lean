import Chip8.Text

/-! # Reading hexadecimal text

The value of a row of digits, whatever zeros are written before them.
-/

namespace Chip8.Hex

def digits : List Char :=
  ['0', '1', '2', '3', '4', '5', '6', '7', '8', '9', 'A', 'B', 'C', 'D', 'E', 'F']

def value (cs : List Char) : Nat := cs.foldl (fun n c => 16 * n + digits.idxOf c) 0

def numeral (n : Nat) : List Char := (Nat.toDigits 16 n).map Char.toUpper

variable {n : Nat} {c : Char}

theorem numeral_of_lt (h : n < 16) : numeral n = [(Nat.digitChar n).toUpper] := by
  rw [numeral, Nat.toDigits_of_lt_base h, List.map_singleton]

theorem numeral_of_ge (h : 16 ≤ n) : numeral n = numeral (n / 16) ++ numeral (n % 16) := by
  rw [numeral_of_lt (Nat.mod_lt n (by decide)), numeral, Nat.toDigits_of_base_le (by decide) h,
    List.map_append, List.map_singleton]
  rfl

theorem getElem?_digits (h : n < 16) : digits[n]? = some (Nat.digitChar n).toUpper := by
  revert n
  decide

theorem toList_upper_one (h : n < 16) :
    ∃ digit, digits[n]? = some digit ∧ (upper 1 n).toList = [digit] := by
  refine ⟨_, getElem?_digits h, ?_⟩
  unfold upper
  rw [String.toList_ofList, Nat.toDigits_of_lt_base h]
  rfl

theorem value_singleton (c : Char) : value [c] = digits.idxOf c := by
  simp only [value, List.foldl_cons, List.foldl_nil, Nat.mul_zero, Nat.zero_add]

theorem value_concat (cs : List Char) (c : Char) :
    value (cs ++ [c]) = 16 * value cs + digits.idxOf c := by
  simp only [value, List.foldl_append, List.foldl_cons, List.foldl_nil]

theorem value_numeral (n : Nat) : value (numeral n) = n := by
  have hdigit : ∀ n < 16, digits.idxOf (Nat.digitChar n).toUpper = n := by decide
  induction n using Nat.strongRecOn with
  | ind n ih =>
    rcases Nat.lt_or_ge n 16 with h | h
    · rw [numeral_of_lt h, value_singleton, hdigit n h]
    · have hmod : n % 16 < 16 := Nat.mod_lt n (by decide)
      rw [numeral_of_ge h, numeral_of_lt hmod, value_concat, ih (n / 16) (by omega), hdigit _ hmod]
      omega

theorem mem_digits_of_mem_numeral (h : c ∈ numeral n) : c ∈ digits := by
  induction n using Nat.strongRecOn with
  | ind n ih =>
    rcases Nat.lt_or_ge n 16 with hn | hn
    · rw [numeral_of_lt hn, List.mem_singleton] at h
      exact h ▸ List.mem_of_getElem? (getElem?_digits hn)
    · rw [numeral_of_ge hn, List.mem_append] at h
      rcases h with h | h
      · exact ih (n / 16) (by omega) h
      · exact ih (n % 16) (by omega) h

theorem toList_upper (width n : Nat) :
    (upper width n).toList = List.replicate (width - (numeral n).length) '0' ++ numeral n := by
  rw [upper, String.toList_ofList]
  rfl

/-- Zeros on the left do not count, so that the value is independent of the width. -/
@[simp] theorem value_upper (width n : Nat) : value (upper width n).toList = n := by
  have hzeros (k : Nat) : value (List.replicate k '0') = 0 := by
    induction k with
    | zero => rfl
    | succ k ih => rw [List.replicate_succ', value_concat, ih]; rfl
  have h := value_numeral n
  rw [toList_upper, value, List.foldl_append]
  unfold value at hzeros h
  rw [hzeros, h]

theorem mem_digits_of_mem_upper {width : Nat} (h : c ∈ (upper width n).toList) : c ∈ digits := by
  rw [toList_upper, List.mem_append] at h
  rcases h with h | h
  · rw [List.eq_of_mem_replicate h]
    decide
  · exact mem_digits_of_mem_numeral h

end Chip8.Hex
