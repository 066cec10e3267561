import Mathlib.Data.Nat.Bitwise
import Chip8.Memory

/-! # Checked computation

The arithmetic and the array accesses of a host that stops where a number leaves its range or an
index its array. A checked computation that yields a value has met neither.
-/

namespace Chip8.Checked

abbrev word : Nat := 64

def add (bits a b : Nat) : Option Nat := if a + b < 2 ^ bits then some (a + b) else none

def mul (bits a b : Nat) : Option Nat := if a * b < 2 ^ bits then some (a * b) else none

def sub (a b : Nat) : Option Nat := if b ≤ a then some (a - b) else none

def rem (a b : Nat) : Option Nat := if b = 0 then none else some (a % b)

/-- Shifting by the whole width of a number or more is an overflow, too. -/
def shiftLeft (bits a k : Nat) : Option Nat :=
  if k < bits then some ((a <<< k) % 2 ^ bits) else none

def shiftRight (bits a k : Nat) : Option Nat := if k < bits then some (a >>> k) else none

def get {α : Type} {n : Nat} (xs : Vector α n) (i : Nat) : Option α := xs[i]?

def set {α : Type} {n : Nat} (xs : Vector α n) (i : Nat) (x : α) : Option (Vector α n) :=
  if h : i < n then some (xs.set i x h) else none

section Lemmas

variable {bits a b : Nat}

theorem add_eq (h : a + b < 2 ^ bits) : add bits a b = some (a + b) := if_pos h

theorem mul_eq (h : a * b < 2 ^ bits) : mul bits a b = some (a * b) := if_pos h

theorem add_word (h : a + b < 2 ^ 64) : add word a b = some (a + b) := add_eq h

theorem mul_word (h : a * b < 2 ^ 64) : mul word a b = some (a * b) := mul_eq h

theorem sub_eq (h : b ≤ a) : sub a b = some (a - b) := if_pos h

theorem rem_eq (h : b ≠ 0) : rem a b = some (a % b) := if_neg h

theorem shiftLeft_eq (h : b < bits) : shiftLeft bits a b = some ((a <<< b) % 2 ^ bits) := if_pos h

theorem shiftRight_eq (h : b < bits) : shiftRight bits a b = some (a >>> b) := if_pos h

theorem get_eq {α : Type} {n i : Nat} {xs : Vector α n} (h : i < n) : get xs i = some xs[i] :=
  Vector.getElem?_eq_getElem h

theorem set_eq {α : Type} {n i : Nat} {xs : Vector α n} {x : α} (h : i < n) :
    set xs i x = some (xs.set i x) := dif_pos h

theorem and_two_pow_eq_zero_iff {k : Nat} : a &&& 2 ^ k = 0 ↔ a.testBit k = false := by
  rw [Nat.and_two_pow]
  simp

end Lemmas

/-! ## Loops -/

section Loops

variable {σ : Type} {n : Nat} {s : σ} {f : σ → Nat → Option σ} {g : Nat → σ → σ}

theorem loop_states (state : Nat → σ) (step : ∀ k < n, f (state k) k = some (state (k + 1))) :
    (List.range n).foldlM f (state 0) = some (state n) := by
  induction n with
  | zero => rfl
  | succ n ih =>
    rw [List.range_succ, List.foldlM_append, ih fun k hk => step k (Nat.lt_succ_of_lt hk)]
    simpa using step n (Nat.lt_succ_self n)

/-- A loop whose every pass is checked: `P k` holds before pass `k`. -/
theorem loop_eq (P : Nat → σ → Prop) (h : P 0 s)
    (step : ∀ k < n, ∀ s, P k s → f s k = some (g k s) ∧ P (k + 1) (g k s)) :
    (List.range n).foldlM f s = some (n.fold (fun k _ s => g k s) s) ∧
      P n (n.fold (fun k _ s => g k s) s) := by
  induction n with
  | zero => exact ⟨rfl, h⟩
  | succ n ih =>
    obtain ⟨hloop, hn⟩ := ih fun k hk => step k (Nat.lt_succ_of_lt hk)
    obtain ⟨hpass, hs⟩ := step n (Nat.lt_succ_self n) _ hn
    rw [List.range_succ, List.foldlM_append, hloop, Nat.fold_succ]
    exact ⟨by simpa using hpass, hs⟩

theorem loop_total (h : ∀ k < n, ∀ s, f s k = some (g k s)) :
    (List.range n).foldlM f s = some (n.fold (fun k _ s => g k s) s) :=
  (loop_eq (fun _ _ => True) trivial fun k hk s _ => ⟨h k hk s, trivial⟩).1

/-- A checked loop from the last pass to the first, with one invariant for all passes. -/
theorem loopRev_eq (P : σ → Prop) (h : P s)
    (step : ∀ k < n, ∀ s, P s → f s k = some (g k s) ∧ P (g k s)) :
    (List.range n).reverse.foldlM f s = some (n.foldRev (fun k _ s => g k s) s) ∧
      P (n.foldRev (fun k _ s => g k s) s) := by
  induction n generalizing s with
  | zero => exact ⟨rfl, h⟩
  | succ n ih =>
    obtain ⟨hpass, hs⟩ := step n (Nat.lt_succ_self n) s h
    obtain ⟨hloop, hn⟩ := ih hs fun k hk => step k (Nat.lt_succ_of_lt hk)
    rw [List.range_succ, List.reverse_append, Nat.foldRev_succ]
    exact ⟨by simpa [hpass] using hloop, hn⟩

theorem mapM_eq {α β : Type} {l : List α} {f : α → Option β} {g : α → β}
    (h : ∀ a ∈ l, f a = some (g a)) : l.mapM f = some (l.map g) := by
  induction l with
  | nil => rfl
  | cons a l ih =>
    have hrest := ih fun a ha => h a (List.mem_cons_of_mem _ ha)
    simp [List.mapM_cons, h a List.mem_cons_self, hrest]

end Loops

end Chip8.Checked
