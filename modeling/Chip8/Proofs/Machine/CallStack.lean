import Mathlib.Data.List.Induction
import Mathlib.Data.List.Rotate
import Chip8.Proofs.Machine.Cycles
import Chip8.Proofs.Machine.WellFormed

/-! # The call stack as a stack

Read back from the slot filled last, the ring is a list that pushing extends in front and cuts at
the end, and that popping rotates. So addresses are popped in their order as long as no others were
written over them.
-/

namespace Chip8

inductive StackAccess
  | push (address : UInt16)
  | pop
  deriving DecidableEq, Repr

namespace CallStack

variable {s : CallStack} {a : UInt16}

/-- The slots from the one filled last back to the one that is filled next. -/
def newest (s : CallStack) : List UInt16 :=
  List.ofFn fun j : Fin 16 => s.slots[(s.pointer + (15 - j.val)) % 16]

def access (s : CallStack) : StackAccess → CallStack
  | .push a => s.push a
  | .pop => s.pop

@[simp] theorem length_newest : s.newest.length = 16 := List.length_ofFn

theorem getElem_newest {j : Nat} (h : j < s.newest.length) :
    s.newest[j] = s.slots[(s.pointer + (15 - j)) % 16] := by
  simp only [newest, List.getElem_ofFn]

theorem newest_push (s : CallStack) (a : UInt16) : (s.push a).newest = a :: s.newest.dropLast := by
  apply List.ext_getElem (by simp)
  intro j hj hj'
  rw [length_newest] at hj
  rw [getElem_newest]
  simp only [push, Vector.getElem_set]
  cases j with
  | zero =>
    have hslot : s.pointer % 16 = ((s.pointer + 1) % 16 + (15 - 0)) % 16 := by omega
    rw [if_pos hslot]
    rfl
  | succ j =>
    have hslot : ¬ s.pointer % 16 = ((s.pointer + 1) % 16 + (15 - (j + 1))) % 16 := by omega
    have hsame : ((s.pointer + 1) % 16 + (15 - (j + 1))) % 16 =
        (s.pointer + (15 - j)) % 16 := by omega
    rw [if_neg hslot, List.getElem_cons_succ, List.getElem_dropLast, getElem_newest]
    simp only [hsame]

theorem head?_newest (s : CallStack) : s.newest.head? = some s.top := by
  rw [List.head?_eq_getElem?, List.getElem?_eq_getElem (by simp), getElem_newest]
  rfl

/-- What is popped stays on the ring, as the oldest address. -/
theorem newest_pop (s : CallStack) : s.pop.newest = s.newest.rotate 1 := by
  apply List.ext_getElem (by simp)
  intro j hj hj'
  rw [length_newest] at hj
  have hslot : ((s.pointer + 15) % 16 + (15 - j)) % 16 =
      (s.pointer + (15 - (j + 1) % 16)) % 16 := by omega
  rw [List.getElem_rotate, getElem_newest, getElem_newest]
  simp only [pop, length_newest, hslot]

theorem newest_pops (s : CallStack) (j : Nat) :
    ((List.replicate j .pop).foldl access s).newest = s.newest.rotate j := by
  induction j generalizing s with
  | zero =>
    rw [List.rotate_zero]
    rfl
  | succ j ih =>
    have hnext : (List.replicate (j + 1) .pop).foldl access s =
        (List.replicate j .pop).foldl access s.pop := rfl
    rw [hnext, ih, newest_pop, List.rotate_rotate, Nat.add_comm]

end CallStack

/-! ## Unmatched addresses -/

namespace StackAccess

variable {as bs p : List StackAccess} {u : List UInt16} {address : UInt16}

def isPush : StackAccess → Bool
  | .push _ => true
  | .pop => false

def pushes (as : List StackAccess) : Nat := as.countP isPush

def pops (as : List StackAccess) : Nat := as.count .pop

/-- An access to a stack without bounds; there is nothing to pop from an empty one. -/
def onList (l : List UInt16) : StackAccess → List UInt16
  | .push a => a :: l
  | .pop => l.tail

/-- The addresses that are pushed and not popped again, from the newest back. -/
def unmatched (as : List StackAccess) : List UInt16 := as.foldl onList []

/-- Nowhere more has been popped than pushed. -/
def Open (as : List StackAccess) : Prop := ∀ p, p <+: as → pops p ≤ pushes p

/-- Every push is matched by a pop and every pop by a push, as brackets are. -/
inductive Balanced : List StackAccess → Prop
  | nil : Balanced []
  | bracket (address : UInt16) {as bs : List StackAccess} (has : Balanced as)
      (hbs : Balanced bs) : Balanced (.push address :: as ++ .pop :: bs)

@[simp] theorem pushes_concat (as : List StackAccess) (a : StackAccess) :
    pushes (as ++ [a]) = pushes as + a.isPush.toNat := by
  cases a <;> simp [pushes, isPush]

@[simp] theorem pops_concat (as : List StackAccess) (a : StackAccess) :
    pops (as ++ [a]) = pops as + (!a.isPush).toNat := by
  cases a <;> simp [pops, isPush]

theorem unmatched_concat (as : List StackAccess) (a : StackAccess) :
    unmatched (as ++ [a]) = onList (unmatched as) a := by
  simp [unmatched]

theorem length_unmatched (h : Open as) : (unmatched as).length + pops as = pushes as := by
  induction as using List.reverseRecOn with
  | nil => rfl
  | append_singleton as a ih =>
    have hlength := ih fun p hp => h p (hp.trans (List.prefix_append as [a]))
    have hall := h _ (List.prefix_refl _)
    rw [pops_concat, pushes_concat] at hall ⊢
    rw [unmatched_concat]
    cases a with
    | push a =>
      simp only [onList, List.length_cons, isPush, Bool.toNat_true, Bool.not_true,
        Bool.toNat_false]
      omega
    | pop =>
      simp only [isPush, Bool.toNat_true, Bool.not_false, Bool.toNat_false] at hall
      simp only [onList, List.length_tail, isPush, Bool.toNat_true, Bool.not_false,
        Bool.toNat_false]
      omega

/-- What is left open by `as` lies on top of what was there before. -/
theorem Open.foldl_onList (h : Open as) (l : List UInt16) :
    as.foldl onList l = unmatched as ++ l := by
  induction as using List.reverseRecOn with
  | nil => rfl
  | append_singleton as a ih =>
    have has : Open as := fun p hp => h p (hp.trans (List.prefix_append as [a]))
    rw [List.foldl_append, ih has, unmatched_concat]
    cases a with
    | push a => rfl
    | pop =>
      -- A pop of an open list finds an address there.
      have hlength := length_unmatched has
      have hall := h _ (List.prefix_refl _)
      simp only [pops_concat, pushes_concat, isPush, Bool.not_false, Bool.toNat_true,
        Bool.toNat_false] at hall
      have hne : unmatched as ≠ [] := List.ne_nil_of_length_pos (by omega)
      exact List.tail_append_of_ne_nil hne

theorem open_nil : Open [] := by
  intro p hp
  rw [List.prefix_nil.mp hp]
  exact Nat.le_refl 0

theorem Open.concat {a : StackAccess} (h : Open as)
    (ha : pops (as ++ [a]) ≤ pushes (as ++ [a])) : Open (as ++ [a]) := by
  intro p hp
  rcases List.prefix_concat_iff.mp hp with rfl | hp
  · exact ha
  · exact h p hp

theorem Open.concat_push (h : Open as) (address : UInt16) : Open (as ++ [.push address]) := by
  apply h.concat
  have hall := h _ (List.prefix_refl _)
  simp only [pops_concat, pushes_concat, isPush, Bool.not_true, Bool.toNat_true, Bool.toNat_false]
  omega

theorem Open.concat_pop (h : Open as) (hsome : 0 < (unmatched as).length) :
    Open (as ++ [.pop]) := by
  apply h.concat
  have hlength := length_unmatched h
  simp only [pops_concat, pushes_concat, isPush, Bool.not_false, Bool.toNat_true,
    Bool.toNat_false]
  omega

theorem exists_open_of_unmatched {n : Nat} (h : (unmatched as)[n]? = some address) :
    ∃ p bs, as = p ++ .push address :: bs ∧ Open (.push address :: bs) ∧
      (unmatched (.push address :: bs)).length = n + 1 := by
  induction as using List.reverseRecOn generalizing n with
  | nil => cases h
  | append_singleton as a ih =>
    rw [unmatched_concat] at h
    cases a with
    | push a =>
      cases n with
      | zero =>
        obtain rfl : a = address := by simpa [onList] using h
        exact ⟨as, [], rfl, open_nil.concat_push a, rfl⟩
      | succ n =>
        obtain ⟨p, bs, rfl, hopen, hlength⟩ := ih (n := n) (by simpa [onList] using h)
        have hlast : (unmatched (.push address :: bs ++ [.push a])).length = n + 1 + 1 := by
          rw [unmatched_concat, onList, List.length_cons, hlength]
        exact ⟨p, bs ++ [StackAccess.push a], List.append_assoc .., hopen.concat_push a, hlast⟩
    | pop =>
      obtain ⟨p, bs, rfl, hopen, hlength⟩ := ih (n := n + 1) (by simpa [onList] using h)
      have hlast : (unmatched (.push address :: bs ++ [.pop])).length = n + 1 := by
        rw [unmatched_concat, onList, List.length_tail, hlength, Nat.add_sub_cancel]
      exact ⟨p, bs ++ [StackAccess.pop], List.append_assoc .., hopen.concat_pop (by omega), hlast⟩

theorem Balanced.append (has : Balanced as) (hbs : Balanced bs) : Balanced (as ++ bs) := by
  induction has with
  | nil => exact hbs
  | bracket address has _ _ ih =>
    rw [List.append_assoc, List.cons_append]
    exact .bracket address has ih

theorem Balanced.foldl_onList (h : Balanced as) (l : List UInt16) : as.foldl onList l = l := by
  induction h generalizing l with
  | nil => rfl
  | bracket address _ _ has hbs =>
    rw [List.foldl_append, List.foldl_cons, List.foldl_cons, has, hbs]
    rfl

theorem unmatched_of_balanced (h : Balanced bs) (as : List StackAccess) (address : UInt16) :
    unmatched (as ++ .push address :: bs) = address :: unmatched as := by
  rw [unmatched, List.foldl_append, List.foldl_cons, h.foldl_onList]
  rfl

theorem exists_push_of_unmatched (h : unmatched as = address :: u) :
    ∃ p bs, as = p ++ .push address :: bs ∧ Balanced bs ∧ unmatched p = u := by
  induction hn : as.length using Nat.strong_induction_on generalizing as address u with
  | _ n ih =>
    subst hn
    induction as using List.reverseRecOn with
    | nil => cases h
    | append_singleton as a _ =>
      rw [unmatched_concat] at h
      cases a with
      | push a =>
        obtain ⟨rfl, rfl⟩ := List.cons.inj h
        exact ⟨as, [], rfl, .nil, rfl⟩
      | pop =>
        -- The pop matches the push above the one that is looked for.
        obtain ⟨b, hb⟩ : ∃ b, unmatched as = b :: address :: u := by
          cases hu : unmatched as with
          | nil => simp [onList, hu] at h
          | cons b v => exact ⟨b, by simpa [onList, hu] using h⟩
        obtain ⟨q, cs, rfl, hcs, hq⟩ := ih as.length (by simp) hb rfl
        obtain ⟨p, bs, rfl, hbs, hp⟩ := ih q.length (by simp) hq rfl
        exact ⟨p, bs ++ (.push b :: cs ++ [.pop]), by simp,
          hbs.append (.bracket b hcs .nil), hp⟩

end StackAccess

namespace CallStack

open StackAccess

variable {as : List StackAccess} {s : CallStack} {a : UInt16}

theorem cons_prefix_push {u : List UInt16} (h : u <+: s.newest) (hu : u.length < 16) :
    a :: u <+: (s.push a).newest := by
  rw [newest_push, List.cons_prefix_cons, List.dropLast_eq_take, List.prefix_take_iff,
    length_newest]
  exact ⟨rfl, h, Nat.le_of_lt_succ hu⟩

theorem prefix_pop {u : List UInt16} (h : a :: u <+: s.newest) : u <+: s.pop.newest := by
  obtain ⟨rest, hrest⟩ := h
  rw [newest_pop, ← hrest, List.cons_append, List.rotate_cons_succ, List.rotate_zero,
    List.append_assoc]
  exact List.prefix_append _ _

/-- As long as there are no more than sixteen of them, all unmatched addresses are on the ring. -/
theorem unmatched_prefix (s : CallStack) (h : ∀ p, p <+: as → (unmatched p).length ≤ 16) :
    unmatched as <+: (as.foldl access s).newest := by
  induction as using List.reverseRecOn with
  | nil => exact List.nil_prefix
  | append_singleton as a ih =>
    have ih := ih fun p hp => h p (hp.trans (List.prefix_append as [a]))
    have hall := h _ (List.prefix_refl _)
    rw [unmatched_concat] at hall ⊢
    rw [List.foldl_append]
    cases a with
    | push a => exact cons_prefix_push ih hall
    | pop =>
      cases hu : unmatched as with
      | nil => exact List.nil_prefix
      | cons b u =>
        rw [hu] at ih
        exact prefix_pop ih

theorem pointer_foldl (hs : s.pointer < 16) (as : List StackAccess) :
    ((as.foldl access s).pointer : Int) = (s.pointer + pushes as - pops as) % 16 := by
  induction as using List.reverseRecOn with
  | nil =>
    simp only [List.foldl_nil, pushes, pops, List.countP_nil, List.count_nil]
    omega
  | append_singleton as a ih =>
    rw [List.foldl_append, List.foldl_cons, List.foldl_nil, pushes_concat, pops_concat]
    cases a with
    | push a =>
      simp only [access, push, isPush, Bool.toNat_true, Bool.not_true, Bool.toNat_false]
      omega
    | pop =>
      simp only [access, pop, isPush, Bool.toNat_true, Bool.not_false, Bool.toNat_false]
      omega

end CallStack

/-! ## Calls and returns -/

def Instruction.stackAccess? (pc : UInt16) : Instruction → Option StackAccess
  | .call _ => some (.push pc)
  | .ret => some .pop
  | _ => none

namespace Operation

open Machine StackAccess CallStack

variable {m : Machine} {op : Operation} {ops : List Operation}

/-- What an operation does to the call stack. Frames, which are many cycles, and resets are not
looked into. -/
def stackAccess? (m : Machine) : Operation → Option StackAccess
  | .push a => some (.push a)
  | .pop => some .pop
  | .instruction _ i => i.stackAccess? m.pc
  | .opcode keys o =>
    match (m.executeOpcode keys o).result with
    | .ok i => i.stackAccess? (m.pc + (i.size - 2))
    | .error _ => none
  | .cycle keys =>
    match (m.cycle keys).result with
    | .ok (.executed t) => t.instruction.stackAccess? (m.pc + t.instruction.size)
    | _ => none
  | _ => none

def Single : Operation → Prop
  | .frame _ | .reset .. => False
  | _ => True

def stackAccesses (m : Machine) : List Operation → List StackAccess
  | [] => []
  | op :: ops => (op.stackAccess? m).toList ++ stackAccesses (op.apply m).machine ops

/-- The operation pops `address`: it hands it out, or the program goes on there. -/
def Takes (m : Machine) (op : Operation) (address : UInt16) : Prop :=
  op.stackAccess? m = some .pop ∧
    match op with
    | .pop => (op.apply m).result = .ok (.address address)
    | _ => (op.apply m).machine.pc = address

theorem stack_execute (keys : Keyboard) (i : Instruction) :
    (m.execute keys i).stack = (i.stackAccess? m.pc).toList.foldl access m.stack := by
  cases i <;> rfl

theorem pc_execute_of_pop {keys : Keyboard} {i : Instruction} {pc : UInt16}
    (h : i.stackAccess? pc = some .pop) : (m.execute keys i).pc = m.stack.top := by
  cases i with
  | ret => rfl
  | _ => cases h

theorem stack_apply (h : op.Single) :
    (op.apply m).machine.stack =
      (op.stackAccess? m).toList.foldl access m.stack := by
  cases op with
  | cycle keys =>
    obtain ⟨r, hr⟩ := exists_cyclesTo m keys
    simp only [apply, Reply.map, stackAccess?, hr.eq]
    cases hr with
    | await | receive | fault => rfl
    | execute hw hf => exact stack_execute keys _
  | opcode keys o =>
    simp only [apply, Reply.map, stackAccess?, executeOpcode]
    cases m.decode o (m.memory.word m.pc.toNat) (m.pc - 2) with
    | error e => rfl
    | ok i => exact stack_execute keys i
  | instruction keys i => exact stack_execute keys i
  | loadRom bytes =>
    simp only [apply, Reply.map, stackAccess?, Machine.loadRom]
    split <;> rfl
  | loadFile files name =>
    obtain ⟨memory, rom, hm⟩ := exists_machine_loadFile m files name
    simp only [apply, Reply.map, stackAccess?, hm]
    rfl
  | frame | reset => cases h
  | loadFonts =>
    simp only [apply, Machine.loadFonts]
    rfl
  | tick | push | pop | dump => rfl

theorem stack_run (h : ∀ op ∈ ops, op.Single) :
    (run m ops).stack = (stackAccesses m ops).foldl access m.stack := by
  induction ops generalizing m with
  | nil => rfl
  | cons op ops ih =>
    rw [run_cons, stackAccesses, List.foldl_append, ← stack_apply (h op List.mem_cons_self),
      ih fun op hop => h op (List.mem_cons_of_mem _ hop)]

theorem stackAccesses_append (m : Machine) (ops more : List Operation) :
    stackAccesses m (ops ++ more) = stackAccesses m ops ++ stackAccesses (run m ops) more := by
  induction ops generalizing m with
  | nil => rfl
  | cons op ops ih =>
    rw [List.cons_append, stackAccesses, stackAccesses, ih, run_cons, List.append_assoc]

theorem exists_of_stackAccesses {p bs : List StackAccess} {a : StackAccess}
    (h : stackAccesses m ops = p ++ a :: bs) :
    ∃ before op after, ops = before ++ op :: after ∧ stackAccesses m before = p ∧
      op.stackAccess? (run m before) = some a ∧
      stackAccesses (op.apply (run m before)).machine after = bs := by
  induction ops generalizing m p with
  | nil => simp [stackAccesses] at h
  | cons op ops ih =>
    rw [stackAccesses] at h
    cases ho : op.stackAccess? m with
    | none =>
      rw [ho] at h
      obtain ⟨before, o, after, rfl, hp, ha, hbs⟩ := ih h
      exact ⟨op :: before, o, after, rfl, by rw [stackAccesses, ho, hp]; rfl, ha, hbs⟩
    | some b =>
      rw [ho] at h
      cases p with
      | nil =>
        obtain ⟨rfl, hbs⟩ := List.cons.inj h
        exact ⟨[], op, ops, rfl, rfl, ho, hbs⟩
      | cons c p =>
        obtain ⟨rfl, hrest⟩ := List.cons.inj h
        obtain ⟨before, o, after, rfl, hp, ha, hbs⟩ := ih hrest
        exact ⟨op :: before, o, after, rfl, by rw [stackAccesses, ho, hp]; rfl, ha, hbs⟩

theorem takes_top (h : op.stackAccess? m = some .pop) : op.Takes m m.stack.top := by
  apply And.intro h
  cases op with
  | cycle keys =>
    obtain ⟨r, hr⟩ := exists_cyclesTo m keys
    simp only [apply, Reply.map, stackAccess?, hr.eq] at h ⊢
    cases hr with
    | await | receive | fault => cases h
    | execute hw hf => exact pc_execute_of_pop h
  | opcode keys o =>
    simp only [apply, Reply.map, stackAccess?, executeOpcode] at h ⊢
    cases hd : m.decode o (m.memory.word m.pc.toNat) (m.pc - 2) with
    | error e =>
      rw [hd] at h
      cases h
    | ok i =>
      rw [hd] at h
      exact pc_execute_of_pop h
  | instruction keys i => exact pc_execute_of_pop h
  | pop => rfl
  | _ => cases h

/-- After these operations the next pop matches a push of `address`. -/
def Pending (m : Machine) (ops : List Operation) (address : UInt16) : Prop :=
  ∃ before op after, ops = before ++ op :: after ∧
    op.stackAccess? (run m before) = some (.push address) ∧
    Balanced (stackAccesses (op.apply (run m before)).machine after)

/-- As long as nothing but pops follows, the addresses are taken in this order. -/
def Returns (m : Machine) (u : List UInt16) : Prop :=
  ∀ (more : List Operation) (op : Operation) (j : Nat) (a : UInt16), (∀ o ∈ more, o.Single) →
    stackAccesses m more = List.replicate j .pop → op.stackAccess? (run m more) = some .pop →
      u[j]? = some a → op.Takes (run m more) a

theorem pending_iff {address : UInt16} :
    Pending m ops address ↔ (unmatched (stackAccesses m ops)).head? = some address := by
  constructor
  · rintro ⟨before, op, after, rfl, hpush, hafter⟩
    rw [stackAccesses_append, stackAccesses, hpush, Option.toList_some, List.singleton_append,
      unmatched_of_balanced hafter, List.head?_cons]
  · intro h
    obtain ⟨u, hu⟩ := List.head?_eq_some_iff.mp h
    obtain ⟨p, bs, has, hbs, _⟩ := exists_push_of_unmatched hu
    obtain ⟨before, op, after, hops, _, hpush, hafter⟩ := exists_of_stackAccesses has
    exact ⟨before, op, after, hops, hpush, hafter ▸ hbs⟩

theorem takes_of_head? {a : UInt16} (h : op.stackAccess? m = some .pop)
    (ha : m.stack.newest.head? = some a) : op.Takes m a := by
  rw [head?_newest] at ha
  exact Option.some.inj ha ▸ takes_top h

theorem returns_of_prefix {u : List UInt16} (h : u <+: m.stack.newest) : Returns m u := by
  intro more op j a hmore hpops hop ha
  have hj : m.stack.newest[j]? = some a := by
    obtain ⟨rest, hrest⟩ := h
    rw [← hrest, List.getElem?_append_left (List.getElem?_eq_some_iff.mp ha).1, ha]
  refine takes_of_head? hop ?_
  rw [stack_run hmore, hpops, newest_pops, List.head?_rotate, hj]
  exact (List.getElem?_eq_some_iff.mp hj).1

theorem exists_pending (h : Open (stackAccesses m ops ++ [.pop])) : ∃ a, Pending m ops a := by
  have hlength := length_unmatched fun p hp => h p (hp.trans (List.prefix_append _ _))
  have hpop := h _ (List.prefix_refl _)
  simp only [pops_concat, pushes_concat, isPush, Bool.not_false, Bool.toNat_true,
    Bool.toNat_false] at hpop
  obtain ⟨a, u, hu⟩ := List.exists_cons_of_length_pos (l := unmatched (stackAccesses m ops))
    (by omega)
  exact ⟨a, pending_iff.mpr (by rw [hu, List.head?_cons])⟩

theorem exists_open {n : Nat} {a : UInt16} (h : (unmatched (stackAccesses m ops))[n]? = some a) :
    ∃ before op after, ops = before ++ op :: after ∧
      op.stackAccess? (run m before) = some (.push a) ∧
      Open (stackAccesses (run m before) (op :: after)) ∧
      (unmatched (stackAccesses (run m before) (op :: after))).length = n + 1 := by
  obtain ⟨p, bs, has, hopen, hlength⟩ := exists_open_of_unmatched h
  obtain ⟨before, op, after, hops, _, hpush, rfl⟩ := exists_of_stackAccesses has
  refine ⟨before, op, after, hops, hpush, ?_⟩
  rw [stackAccesses, hpush]
  exact ⟨hopen, hlength⟩

theorem takes_pending {a : UInt16} (hops : ∀ o ∈ ops, o.Single)
    (hdepth : ∀ p, p <+: stackAccesses m ops → (unmatched p).length ≤ 16)
    (hop : op.stackAccess? (run m ops) = some .pop) (ha : Pending m ops a) :
    op.Takes (run m ops) a := by
  have hthere := unmatched_prefix m.stack hdepth
  rw [← stack_run hops] at hthere
  obtain ⟨u, hu⟩ := List.head?_eq_some_iff.mp (pending_iff.mp ha)
  obtain ⟨rest, hrest⟩ := hthere
  refine takes_of_head? hop ?_
  rw [← hrest, hu, List.cons_append, List.head?_cons]

theorem takes_matching {before after : List Operation} (hops : ∀ o ∈ ops, o.Single)
    (hshallow : ∀ p, p <+: stackAccesses m ops → pops p ≤ pushes p ∧ pushes p ≤ pops p + 16)
    (heq : ops = before ++ op :: after) (hop : op.stackAccess? (run m before) = some .pop) :
    (∃ a, Pending m before a) ∧ ∀ a, Pending m before a → op.Takes (run m before) a := by
  have hprefix : stackAccesses m before ++ [.pop] <+: stackAccesses m ops := by
    refine ⟨stackAccesses (op.apply (run m before)).machine after, ?_⟩
    simp only [heq, stackAccesses_append, stackAccesses, hop, Option.toList_some,
      List.append_assoc]
  have hbefore : ∀ o ∈ before, o.Single := fun o ho => hops o (heq ▸ List.mem_append_left _ ho)
  constructor
  · apply exists_pending
    intro p hp
    exact (hshallow p (hp.trans hprefix)).1
  · intro a ha
    apply takes_pending hbefore ?_ hop ha
    intro p hp
    have hp : p <+: stackAccesses m ops := hp.trans ((List.prefix_append _ _).trans hprefix)
    have hlength := length_unmatched fun q hq => (hshallow q (hq.trans hp)).1
    have hle := (hshallow p hp).2
    omega

/-- The addresses left open after some point are on the ring, whatever was there before, if since
then never more than sixteen were open. -/
theorem open_prefix_newest {before after : List Operation} (hops : ∀ o ∈ ops, o.Single)
    (heq : ops = before ++ after)
    (hdepth : ∀ p, p <+: stackAccesses (run m before) after → (unmatched p).length ≤ 16) :
    unmatched (stackAccesses (run m before) after) <+: (run m ops).stack.newest := by
  have hrun : (run m ops).stack =
      (stackAccesses (run m before) after).foldl access (run m before).stack := by
    rw [← stack_run fun o ho => hops o (heq ▸ List.mem_append_right _ ho)]
    simp only [heq, run, List.foldl_append]
  rw [hrun]
  exact unmatched_prefix _ hdepth

/-- The call stack is a stack of sixteen addresses that go round. Read back from the newest, pushing
extends them in front and drops the oldest, and popping hands out the newest and makes it the
oldest. As long as nowhere more is popped than pushed and never more than sixteen addresses are
open, a pop takes the address of the push that it matches. With more addresses open, those from some
push on are left and returned in their order if never more than sixteen were open from that push
on; if they are sixteen, nothing else is left. -/
theorem call_stack_refines_lifo (m : Machine) (ops : List Operation) (hm : m.stack.pointer < 16)
    (hops : ∀ op ∈ ops, op.Single) :
    let as := stackAccesses m ops
    let left := (run m ops).stack
    (∀ s : CallStack, (∀ a, (s.push a).newest = a :: s.newest.dropLast) ∧
      s.newest.head? = some s.top ∧ s.pop.newest = s.newest.rotate 1) ∧
    left = as.foldl access m.stack ∧
    (left.pointer : Int) = (m.stack.pointer + pushes as - pops as) % 16 ∧
    ((∀ p, p <+: as → pops p ≤ pushes p ∧ pushes p ≤ pops p + 16) →
      ∀ before op after, ops = before ++ op :: after →
        op.stackAccess? (run m before) = some .pop →
          (∃ a, Pending m before a) ∧ ∀ a, Pending m before a → op.Takes (run m before) a) ∧
    (∀ n a, (unmatched as)[n]? = some a → ∃ before op after, ops = before ++ op :: after ∧
      op.stackAccess? (run m before) = some (.push a) ∧
        Open (stackAccesses (run m before) (op :: after)) ∧
        (unmatched (stackAccesses (run m before) (op :: after))).length = n + 1) ∧
    ∀ before after, ops = before ++ after →
      let above := stackAccesses (run m before) after
      Open above → (∀ p, p <+: above → (unmatched p).length ≤ 16) →
        unmatched as = unmatched above ++ unmatched (stackAccesses m before) ∧
        Returns (run m ops) (unmatched above) ∧
        ((unmatched above).length = 16 → left.newest = (unmatched as).take 16) := by
  intro as left
  have hleft : left = as.foldl access m.stack := stack_run hops
  refine ⟨fun s => ⟨s.newest_push, s.head?_newest, s.newest_pop⟩, hleft, ?_, ?_,
    fun n a => exists_open, ?_⟩
  · rw [hleft]
    exact pointer_foldl hm as
  · intro hshallow before op after heq hop
    exact takes_matching hops hshallow heq hop
  · intro before after heq above hopen hdepth
    have hunmatched : unmatched as = unmatched above ++ unmatched (stackAccesses m before) := by
      rw [← hopen.foldl_onList, unmatched, unmatched, ← List.foldl_append,
        ← stackAccesses_append, ← heq]
    have hthere : unmatched above <+: left.newest := open_prefix_newest hops heq hdepth
    refine ⟨hunmatched, returns_of_prefix hthere, fun hmany => ?_⟩
    rw [hunmatched, ← hmany, List.take_left]
    exact (hthere.eq_of_length (hmany.trans length_newest.symm)).symm

theorem forall_of_inits {as : List StackAccess} {P : List StackAccess → Prop}
    (h : ∀ p ∈ as.inits, P p) : ∀ p, p <+: as → P p :=
  fun p hp => h p ((List.mem_inits p as).mpr hp)

theorem returns_from_subroutine :
    ∃ m, Machine.create (.standard .chip8) default = .ok m ∧
      let ret := Operation.instruction Keypad.released.keyboard .ret
      let before := [.push 5, .instruction Keypad.released.keyboard (.call 0x300), .tick]
      let many := (List.range 18).map fun n => Operation.push (UInt16.ofNat n)
      ret.Takes (run m before) 0x200 ∧ Operation.pop.Takes (run m (before ++ [ret])) 5 ∧
        (run m many).stack.newest = [17, 16, 15, 14, 13, 12, 11, 10, 9, 8, 7, 6, 5, 4, 3, 2] := by
  obtain ⟨m, hm⟩ := exists_create_iff.mpr (rfl : (Config.standard .chip8).Accepted)
  refine ⟨m, hm, ?_⟩
  obtain ⟨-, -, hpc⟩ := start_of_create hm
  have hpointer : m.stack.pointer < 16 := (wellFormed_of_create hm).pointer
  intro ret before many
  have hcall : stackAccesses m (before ++ [ret, .pop]) = [.push 5, .push m.pc, .pop, .pop] := rfl
  have hmany : stackAccesses m many =
      (List.range 18).map fun n => StackAccess.push (UInt16.ofNat n) := rfl
  rw [hpc] at hcall
  have hshallow : ∀ p, p <+: stackAccesses m (before ++ [ret, .pop]) →
      pops p ≤ pushes p ∧ pushes p ≤ pops p + 16 := by
    rw [hcall]
    exact forall_of_inits (by decide)
  have habove : stackAccesses (run m (many.take 2)) (many.drop 2) =
      (List.range' 2 16).map fun n => StackAccess.push (UInt16.ofNat n) := rfl
  obtain ⟨-, -, -, htakes, -⟩ := call_stack_refines_lifo m (before ++ [ret, .pop]) hpointer
    (by simp [before, ret, Single])
  obtain ⟨-, -, -, -, -, habove_left⟩ := call_stack_refines_lifo m many hpointer
    (by simp [many, Single])
  have hpending : Pending m before m.pc := pending_iff.mpr rfl
  rw [hpc] at hpending
  have hleft := habove_left _ _ (List.take_append_drop 2 many).symm
  rw [habove, hmany] at hleft
  obtain ⟨-, -, hnewest⟩ := hleft (forall_of_inits (by decide)) (forall_of_inits (by decide))
  have hnewest := hnewest (by decide)
  refine ⟨(htakes hshallow before ret [.pop] rfl rfl).2 _ hpending,
    (htakes hshallow (before ++ [ret]) .pop [] rfl rfl).2 _ (pending_iff.mpr rfl),
    hnewest.trans ?_⟩
  decide

/-- The last two of eighteen addresses are written over the first two. They are popped again, but
the address in front of them does not come back, although in the end it is among the newest
sixteen. -/
theorem overwritten_addresses_are_lost :
    ∃ m, Machine.create (.standard .chip8) default = .ok m ∧
      let push (n : Nat) := Operation.push (UInt16.ofNat n)
      let ops := (List.range' 1 18).map push ++ [.pop, .pop, push 19]
      let as := stackAccesses m ops
      Open as ∧ 16 < (unmatched as).length ∧ (unmatched as)[15]? = some 2 ∧
        (run m ops).stack.newest ≠ (unmatched as).take 16 ∧
        Operation.pop.Takes (run m (ops ++ List.replicate 15 .pop)) 18 := by
  obtain ⟨m, hm⟩ := exists_create_iff.mpr (rfl : (Config.standard .chip8).Accepted)
  refine ⟨m, hm, ?_⟩
  have hstack : m.stack = .empty := by
    obtain ⟨_, memory, _, rfl⟩ := create_eq_ok_iff.mp hm
    rfl
  intro push ops as
  have has : as = (List.range' 1 18).map (fun n => .push (UInt16.ofNat n)) ++
    [.pop, .pop, .push 19] := rfl
  have hsingle : ∀ op ∈ ops ++ List.replicate 15 .pop, op.Single := by
    intro op hop
    simp only [ops, List.mem_append, List.mem_map, List.mem_cons, List.not_mem_nil, or_false,
      List.mem_replicate] at hop
    rcases hop with (⟨n, -, rfl⟩ | rfl | rfl | rfl) | ⟨-, rfl⟩ <;> trivial
  have hnewest : (run m ops).stack.newest = (as.foldl access .empty).newest := by
    rw [stack_run fun op hop => hsingle op (List.mem_append_left _ hop), hstack]
  have hlast : (run m (ops ++ List.replicate 15 .pop)).stack =
      (as ++ List.replicate 15 StackAccess.pop).foldl access .empty := by
    rw [stack_run hsingle, hstack]
    rfl
  refine ⟨?_, ?_, ?_, ?_, takes_of_head? rfl ?_⟩
  · rw [has]
    exact forall_of_inits (by decide)
  · rw [has]
    decide
  · rw [has]
    decide
  · rw [hnewest, has]
    decide
  · rw [hlast, has]
    decide

end Operation

end Chip8
