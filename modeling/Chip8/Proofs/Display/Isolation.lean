import Chip8.Proofs.Display.Drawing

/-! # Isolation of the planes

A change to the selected planes does with each of them what it would do with that plane alone, so
that the planes can be changed one at a time in any order. Only drawing tells them apart, by their
numbers among the selected ones.
-/

namespace Chip8.Display

/-- What can be done to the selected planes of a display. -/
inductive Change
  | clear
  | clearRow (y : Nat)
  | clearColumn (x : Nat)
  | copyRow (source target : Nat)
  | copyColumn (source target : Nat)
  | scrollDown (n : Nat)
  | scrollUp (n : Nat)
  | scrollRight
  | scrollLeft
  | draw (sprite : Sprite) (left top : Nat)

variable {d : Display} {c : Change} {p q k : Nat} {ps : List Nat} {mask : UInt8}

namespace Change

def Valid (r : Resolution) : Change → Prop
  | .clearRow y => y < r.height
  | .clearColumn x => x < r.width
  | .copyRow source target => source < r.height ∧ target < r.height
  | .copyColumn source target => source < r.width ∧ target < r.width
  | _ => True

def run? (d : Display) : Change → Option (Display × Nat)
  | .clear => some (d.clear, 0)
  | .clearRow y => (d.clearRow? y).map (·, 0)
  | .clearColumn x => (d.clearColumn? x).map (·, 0)
  | .copyRow source target => (d.copyRow? source target).map (·, 0)
  | .copyColumn source target => (d.copyColumn? source target).map (·, 0)
  | .scrollDown n => some (d.scrollDown n, 0)
  | .scrollUp n => some (d.scrollUp n, 0)
  | .scrollRight => some (d.scrollRight, 0)
  | .scrollLeft => some (d.scrollLeft, 0)
  | .draw s left top => some (d.draw s left top)

/-- The changed plane, if it is the first one that is selected, and the number of rows that hit. -/
def edit {r : Resolution} (b : Bitmap r) : Change → Bitmap r × Nat
  | .clear => (.blank r, 0)
  | .clearRow y => (b.clearRow y, 0)
  | .clearColumn x => (b.clearColumn x, 0)
  | .copyRow source target => (b.copyRow source target, 0)
  | .copyColumn source target => (b.copyColumn source target, 0)
  | .scrollDown n => (b.scrollDown n, 0)
  | .scrollUp n => (b.scrollUp n, 0)
  | .scrollRight => (b.scrollRight, 0)
  | .scrollLeft => (b.scrollLeft, 0)
  | .draw s left top => b.draw s left top

def skip (k : Nat) : Change → Change
  | .draw s left top =>
    .draw { s with address := s.address + k * s.height * (s.width / 8) } left top
  | c => c

def Uniform (c : Change) : Prop := ∀ s left top, c ≠ .draw s left top

theorem uniform_or_draw (c : Change) : c.Uniform ∨ ∃ s left top, c = .draw s left top := by
  cases c with
  | draw s left top => exact Or.inr ⟨s, left, top, rfl⟩
  | _ => exact Or.inl nofun

@[simp] theorem skip_zero (c : Change) : c.skip 0 = c := by
  cases c <;> simp [skip]

theorem skip_draw (s : Sprite) (left top k : Nat) :
    (draw s left top).skip k = draw (s.skip k) left top := by
  rw [skip, Sprite.skip, Sprite.stride, Nat.mul_assoc]

theorem Valid.skip {r : Resolution} (h : c.Valid r) (k : Nat) : (c.skip k).Valid r := by
  cases c with
  | draw => trivial
  | _ => exact h

theorem Uniform.skip_eq (h : c.Uniform) (k : Nat) : c.skip k = c := by
  cases c with
  | draw s left top => exact absurd rfl (h s left top)
  | _ => rfl

theorem Uniform.hits_edit (h : c.Uniform) {r : Resolution} (b : Bitmap r) : (c.edit b).2 = 0 := by
  cases c with
  | draw s left top => exact absurd rfl (h s left top)
  | _ => rfl

theorem Uniform.run?_eq (h : c.Uniform) (hc : c.Valid d.resolution) :
    c.run? d = some (d.onSelected fun b => (c.edit b).1, 0) := by
  have hline {valid : Bool} (hv : valid = true) (f : Bitmap d.resolution → Bitmap d.resolution) :
      (d.onSelectedIf valid f).map (·, 0) = some (d.onSelected f, 0) := by
    rw [onSelectedIf, hv]
    rfl
  cases c with
  | clearRow y => exact hline (decide_eq_true (p := y < d.height) hc) _
  | clearColumn x => exact hline (decide_eq_true (p := x < d.width) hc) _
  | copyRow | copyColumn =>
    exact hline (Bool.and_eq_true_iff.mpr ⟨decide_eq_true hc.1, decide_eq_true hc.2⟩) _
  | clear | scrollDown | scrollUp | scrollRight | scrollLeft => rfl
  | draw s left top => exact absurd rfl (h s left top)

end Change

/-! ## Changes plane by plane -/

def hitsAt (d : Display) (c : Change) (p : Nat) : Nat :=
  d.planes[p]?.elim 0 fun b => (c.edit b).2

/-- Plane `p` after each plane `q` of a list is changed by `g q`. -/
def editOn {r : Resolution} (ps : List Nat) (g : Nat → Change) (p : Nat) (b : Bitmap r) :
    Bitmap r :=
  if p ∈ ps then ((g p).edit b).1 else b

/-- Changes each plane `p` of a list by `g p` and counts the rows that hit. -/
def changeOn (d : Display) (ps : List Nat) (g : Nat → Change) : Display × Nat :=
  ({ d with planes := d.planes.mapIdx (editOn ps g) }, (ps.map fun p => d.hitsAt (g p) p).sum)

theorem hitsAt_of_size_le (h : d.planes.size ≤ p) : d.hitsAt c p = 0 := by
  rw [hitsAt, Array.getElem?_eq_none h, Option.elim_none]

theorem mem_selected : p ∈ d.selected ↔ p < d.planes.size ∧ d.selects p = true := by
  rw [selected, List.mem_filter, List.mem_range]

theorem nodup_selected : d.selected.Nodup := List.nodup_range.filter _

theorem hits_changeOn (hps : ps.Nodup) (g : Nat → Change) : (d.changeOn ps g).2 =
    ∑ p ∈ (Finset.range d.planes.size).filter (· ∈ ps), d.hitsAt (g p) p := by
  have hlisted : (d.changeOn ps g).2 = ∑ p ∈ ps.toFinset, d.hitsAt (g p) p :=
    (List.sum_toFinset _ hps).symm
  rw [hlisted]
  symm
  apply Finset.sum_subset
  · intro p hp
    exact List.mem_toFinset.mpr (Finset.mem_filter.mp hp).2
  · intro p hp hnone
    apply hitsAt_of_size_le
    by_contra hlt
    rw [Finset.mem_filter, Finset.mem_range] at hnone
    exact hnone ⟨Nat.not_le.mp hlt, List.mem_toFinset.mp hp⟩

theorem changeOn_congr {qs : List Nat} {g h : Nat → Change} (hps : ps.Nodup) (hqs : qs.Nodup)
    (hmem : ∀ p < d.planes.size, (p ∈ ps ↔ p ∈ qs))
    (hgh : ∀ p < d.planes.size, p ∈ ps → g p = h p) : d.changeOn ps g = d.changeOn qs h := by
  have hplanes : d.planes.mapIdx (editOn ps g) = d.planes.mapIdx (editOn qs h) := by
    apply Array.ext (by simp)
    intro p hp _
    rw [Array.size_mapIdx] at hp
    rw [Array.getElem_mapIdx, Array.getElem_mapIdx, editOn, editOn]
    by_cases hin : p ∈ ps
    · rw [if_pos hin, if_pos ((hmem p hp).mp hin), hgh p hp hin]
    · rw [if_neg hin, if_neg fun hq => hin ((hmem p hp).mpr hq)]
  apply Prod.ext
  · exact congrArg (Display.mk d.resolution d.mask) hplanes
  · rw [hits_changeOn hps, hits_changeOn hqs]
    apply Finset.sum_congr
    · exact Finset.filter_congr fun p hp => hmem p (Finset.mem_range.mp hp)
    · intro p hp
      obtain ⟨hp, hin⟩ := Finset.mem_filter.mp hp
      have hp := Finset.mem_range.mp hp
      rw [hgh p hp ((hmem p hp).mpr hin)]

theorem display_changeOn_selected (g : Nat → Change) :
    (d.changeOn d.selected g).1 = d.repaint fun p b => ((g p).edit b).1 := by
  apply congrArg (Display.mk d.resolution d.mask)
  apply Array.ext (by simp)
  intro p hp _
  rw [Array.size_mapIdx] at hp
  rw [Array.getElem_mapIdx, Array.getElem_mapIdx, editOn]
  simp only [mem_selected, hp, true_and]

theorem onSelected_eq_changeOn (h : c.Uniform) :
    (d.onSelected fun b => (c.edit b).1, 0) = d.changeOn d.selected fun _ => c := by
  have hnone (p : Nat) : d.hitsAt c p = 0 := by
    simp only [hitsAt, h.hits_edit]
    cases d.planes[p]? <;> rfl
  apply Prod.ext
  · exact (display_changeOn_selected _).symm
  · rw [hits_changeOn nodup_selected]
    simp only [hnone, Finset.sum_const_zero]

theorem draw_eq_changeOn (s : Sprite) (left top : Nat) :
    d.draw s left top =
      d.changeOn d.selected fun p => .draw (s.skip (d.rank p)) left top := by
  apply Prod.ext
  · rw [display_changeOn_selected]
    exact draw_eq_repaint
  · have hcount (p : Nat) (b : Bitmap d.resolution) (hb : d.planes[p]? = some b) :
        (if d.selects p then (b.draw (s.skip (d.rank p)) left top).2 else 0) =
          if p ∈ d.selected then d.hitsAt (.draw (s.skip (d.rank p)) left top) p else 0 := by
      have hp : p < d.planes.size := (Array.getElem?_eq_some_iff.mp hb).1
      simp only [mem_selected, hp, true_and, hitsAt, hb, Option.elim_some]
      rfl
    rw [hits_changeOn nodup_selected, Finset.sum_filter, ← sum_mapIdx hcount, draw_eq]

/-- A change does with each selected plane what it would do with that plane alone. -/
theorem run?_eq (hc : c.Valid d.resolution) :
    c.run? d = some (d.changeOn d.selected fun p => c.skip (d.rank p)) := by
  rcases c.uniform_or_draw with hu | ⟨s, left, top, rfl⟩
  · simp only [hu.run?_eq hc, hu.skip_eq, onSelected_eq_changeOn hu]
  · simp only [Change.run?, Change.skip_draw, draw_eq_changeOn]

/-! ## One plane at a time -/

/-- Makes the changes one after the other, each under a mask of its own, and counts all hits. -/
def changes? (d : Display) : List (UInt8 × Change) → Option (Display × Nat)
  | [] => some (d, 0)
  | (mask, c) :: rest => do
    let (d, hits) ← c.run? (d.setMask mask)
    let (d, more) ← changes? d rest
    return (d, hits + more)

def planeMask (p : Nat) : UInt8 := UInt8.ofNat (2 ^ p)

theorem selects_planeMask (hp : p < 8) (q : Nat) :
    (d.setMask (planeMask p)).selects q = decide (p = q) := by
  have hmask : (planeMask p).toNat = 2 ^ p := by
    rw [planeMask, UInt8.toNat_ofNat']
    exact Nat.mod_eq_of_lt (Nat.pow_lt_pow_right (by decide) hp)
  rw [selects, setMask, hmask, Nat.testBit_two_pow]

theorem rank_planeMask (hp : p < 8) : (d.setMask (planeMask p)).rank p = 0 := by
  rw [rank, List.length_eq_zero_iff, List.filter_eq_nil_iff]
  intro q hq
  rw [selects_planeMask hp, decide_eq_true_iff]
  exact (List.mem_range.mp hq).ne'

theorem run?_planeMask {g : Nat → Change} (hc : (g p).Valid d.resolution) (hp : p < 8) :
    (g p).run? (d.setMask (planeMask p)) =
      some ((d.setMask (planeMask p)).changeOn [p] g) := by
  rw [run?_eq (d := d.setMask (planeMask p)) hc]
  have hmem (q : Nat) : q ∈ (d.setMask (planeMask p)).selected ↔ q < d.planes.size ∧ p = q := by
    rw [mem_selected, selects_planeMask hp, decide_eq_true_iff]
    rfl
  apply congrArg some
  apply changeOn_congr nodup_selected (List.nodup_singleton p)
  · intro q hq
    rw [hmem, List.mem_singleton, eq_comm]
    exact and_iff_right hq
  · intro q _ hq
    obtain rfl := ((hmem q).mp hq).2
    rw [rank_planeMask hp, Change.skip_zero]

theorem changeOn_nil (g : Nat → Change) : d.changeOn [] g = (d, 0) := by
  refine Prod.ext (congrArg (Display.mk d.resolution d.mask) ?_) rfl
  exact Array.mapIdx_eq_iff.mpr fun p => Option.map_id'.symm

theorem hitsAt_changeOn (g : Nat → Change) (hp : p ∉ ps) :
    (d.changeOn ps g).1.hitsAt c p = d.hitsAt c p := by
  have hplane : (d.planes.mapIdx (editOn ps g))[p]? = d.planes[p]? := by
    have hsame : editOn (r := d.resolution) ps g p = fun b => b := funext fun b => if_neg hp
    rw [Array.getElem?_mapIdx, hsame, Option.map_id']
  exact congrArg (fun plane => plane.elim 0 fun b => (c.edit b).2) hplane

theorem editOn_cons {g : Nat → Change} {r : Resolution} (hp : p ∉ ps) (q : Nat) (b : Bitmap r) :
    editOn (p :: ps) g q b = editOn ps g q (editOn [p] g q b) := by
  unfold editOn
  by_cases hq : q = p
  · subst hq
    simp [hp]
  · simp [hq]

/-- Planes that are changed one after the other do not see each other's changes. -/
theorem changeOn_cons {g : Nat → Change} (hp : p ∉ ps) : d.changeOn (p :: ps) g =
    (((d.changeOn [p] g).1.changeOn ps g).1,
      (d.changeOn [p] g).2 + ((d.changeOn [p] g).1.changeOn ps g).2) := by
  have hplanes : d.planes.mapIdx (editOn (p :: ps) g) =
      (d.planes.mapIdx (editOn [p] g)).mapIdx (editOn ps g) := by
    rw [Array.mapIdx_mapIdx]
    exact congrArg (d.planes.mapIdx ·) (funext₂ fun q b => editOn_cons hp q b)
  refine Prod.ext (congrArg (Display.mk d.resolution d.mask) hplanes) ?_
  simp only [changeOn, List.map_cons, List.map_nil, List.sum_cons, List.sum_nil, Nat.add_zero]
  refine congrArg (d.hitsAt (g p) p + ·) (congrArg List.sum (List.map_congr_left ?_))
  intro q hq
  refine (hitsAt_changeOn g ?_).symm
  rw [List.mem_singleton]
  exact fun h => hp (h ▸ hq)

theorem changes?_planeMask {g : Nat → Change} (hps : ps.Nodup)
    (h : ∀ p ∈ ps, p < 8 ∧ (g p).Valid d.resolution) :
    ∃ mask, d.changes? (ps.map fun p => (planeMask p, g p)) =
      some ((d.setMask mask).changeOn ps g) := by
  induction ps generalizing d with
  | nil => exact ⟨d.mask, congrArg some (changeOn_nil g).symm⟩
  | cons p ps ih =>
    obtain ⟨hp, hps⟩ := List.nodup_cons.mp hps
    obtain ⟨h8, hvalid⟩ := h p List.mem_cons_self
    obtain ⟨mask, hrest⟩ := ih (d := ((d.setMask (planeMask p)).changeOn [p] g).1) hps
      fun q hq => h q (List.mem_cons_of_mem p hq)
    refine ⟨mask, ?_⟩
    rw [List.map_cons, changes?, run?_planeMask hvalid h8]
    simp only [Option.bind_eq_bind, Option.bind_some, hrest, changeOn_cons hp]
    rfl

theorem lt_of_selects (h : d.selects p = true) : p < 8 := by
  by_contra hp
  have hlt : d.mask.toNat < 2 ^ p :=
    d.mask.toNat_lt.trans_le (Nat.pow_le_pow_right (by decide) (Nat.not_lt.mp hp))
  rw [selects, Nat.testBit_lt_two_pow hlt] at h
  cases h

theorem changeOn_setMask (h : ∀ p < d.planes.size, mask.toNat.testBit p = d.selects p) :
    ((d.setMask mask).changeOn (d.setMask mask).selected fun p =>
        c.skip ((d.setMask mask).rank p)) =
      (d.setMask mask).changeOn d.selected fun p => c.skip (d.rank p) := by
  apply changeOn_congr nodup_selected nodup_selected
  · intro p hp
    rw [mem_selected, mem_selected]
    exact and_congr_right fun hp => Bool.eq_iff_iff.mp (h p hp)
  · intro p hp _
    have hrank : (d.setMask mask).rank p = d.rank p :=
      congrArg List.length (List.filter_congr fun q hq => h q ((List.mem_range.mp hq).trans hp))
    rw [hrank]

/-! ## Scrolls line by line -/

theorem foldl_range {α : Type} (f : α → Nat → α) (n : Nat) (a : α) :
    (List.range n).foldl f a = n.fold (fun i _ a => f a i) a := by
  induction n with
  | zero => rfl
  | succ n ih =>
    rw [List.range_succ, List.foldl_append, Nat.fold_succ, ih]
    rfl

theorem foldl_range_reverse {α : Type} (f : α → Nat → α) (n : Nat) (a : α) :
    (List.range n).reverse.foldl f a = n.foldRev (fun i _ a => f a i) a := by
  induction n generalizing a with
  | zero => rfl
  | succ n ih =>
    rw [List.range_succ, List.reverse_append, List.foldl_append, Nat.foldRev_succ, ← ih]
    rfl

namespace Change

/-- Copies each line of a list to its target, then clears other lines. -/
def shift (copy : Nat → Nat → Change) (sources : List Nat) (target : Nat → Nat)
    (blank : Nat → Change) (gaps : List Nat) : List Change :=
  sources.map (fun i => copy i (target i)) ++ gaps.map blank

def lines (r : Resolution) : Change → List Change
  | .scrollDown n =>
    let n := min n r.height
    shift .copyRow (List.range (r.height - n)).reverse (· + n) .clearRow (List.range n)
  | .scrollUp n =>
    let n := min n r.height
    shift .copyRow ((List.range (r.height - n)).map (· + n)) (· - n)
      .clearRow ((List.range n).map (r.height - · - 1))
  | .scrollRight =>
    let n := Bitmap.scrollWidth
    shift .copyColumn (List.range (r.width - n)).reverse (· + n) .clearColumn (List.range n)
  | .scrollLeft =>
    let n := Bitmap.scrollWidth
    shift .copyColumn ((List.range (r.width - n)).map (· + n)) (· - n)
      .clearColumn ((List.range n).map (r.width - · - 1))
  | c => [c]

theorem edit_lines {r : Resolution} (b : Bitmap r) (c : Change) :
    (c.lines r).foldl (fun b l => (l.edit b).1) b = (c.edit b).1 := by
  cases c with
  | scrollDown | scrollUp | scrollRight | scrollLeft =>
    simp only [lines, shift, List.foldl_append, List.foldl_map, foldl_range, foldl_range_reverse,
      Nat.add_sub_cancel]
    rfl
  | _ => rfl

theorem mem_shift {copy : Nat → Nat → Change} {blank : Nat → Change} {sources gaps : List Nat}
    {target : Nat → Nat} : c ∈ shift copy sources target blank gaps ↔
      (∃ i ∈ sources, copy i (target i) = c) ∨ ∃ i ∈ gaps, blank i = c := by
  rw [shift, List.mem_append, List.mem_map, List.mem_map]

theorem uniform_lines {r : Resolution} (h : c.Uniform) (hc : c.Valid r) {l : Change}
    (hl : l ∈ c.lines r) : l.Uniform ∧ l.Valid r := by
  have hwidth := r.scrollWidth_le
  cases c with
  | scrollDown | scrollRight =>
    simp only [lines, mem_shift, List.mem_reverse, List.mem_range] at hl
    rcases hl with ⟨i, hi, rfl⟩ | ⟨i, hi, rfl⟩
    · exact ⟨nofun, by omega, by omega⟩
    · exact ⟨nofun, show i < _ by omega⟩
  | scrollUp | scrollLeft =>
    simp only [lines, mem_shift, List.mem_map, List.mem_range] at hl
    rcases hl with ⟨_, ⟨i, hi, rfl⟩, rfl⟩ | ⟨_, ⟨i, hi, rfl⟩, rfl⟩
    · exact ⟨nofun, by omega, by omega⟩
    · exact ⟨nofun, show _ - i - 1 < _ by omega⟩
  | _ =>
    obtain rfl := List.mem_singleton.mp hl
    exact ⟨h, hc⟩

end Change

theorem changes?_uniform {cs : List Change}
    (h : ∀ c ∈ cs, c.Uniform ∧ c.Valid d.resolution) :
    d.changes? (cs.map fun c => (d.mask, c)) =
      some (d.onSelected fun b => cs.foldl (fun b c => (c.edit b).1) b, 0) := by
  induction cs generalizing d with
  | nil => exact congrArg (fun e => some (e, 0)) onSelected_id.symm
  | cons c cs ih =>
    obtain ⟨hu, hc⟩ := h c List.mem_cons_self
    have hfirst : c.run? (d.setMask d.mask) = some (d.onSelected fun b => (c.edit b).1, 0) :=
      hu.run?_eq hc
    have hrest : (d.onSelected fun b => (c.edit b).1).changes? (cs.map fun c => (d.mask, c)) = _ :=
      ih fun c hmem => h c (List.mem_cons_of_mem _ hmem)
    rw [List.map_cons, changes?, hfirst]
    simp only [Option.bind_eq_bind, Option.bind_some, hrest]
    exact congrArg (fun e => some (e, 0)) (onSelected_onSelected _ _)

/-- Going over all planes once for each line of a scroll does what the scroll does. -/
theorem changes?_lines (hc : c.Valid d.resolution) :
    d.changes? ((c.lines d.resolution).map fun l => (d.mask, l)) = c.run? d := by
  rcases c.uniform_or_draw with hu | ⟨s, left, top, rfl⟩
  · rw [changes?_uniform fun l => Change.uniform_lines hu hc, hu.run?_eq hc]
    simp only [Change.edit_lines]
  · rfl

/-! ## Isolation -/

/-- A change leaves the planes alone that the mask does not select, whatever its bits beyond the
planes are, and makes of each selected plane what follows from that plane and its number among the
selected ones; this number matters to a sprite only, whose pictures follow each other in memory.
The same planes and the same count come of changing the selected planes one at a time, in any order,
and of going over all planes once for each line of a scroll. -/
theorem planes_are_isolated (d : Display) (c : Change) (hc : c.Valid d.resolution) :
    ∃ (planes : Array (Bitmap d.resolution)) (hits : Nat),
      c.run? d = some ({ d with planes }, hits) ∧
      (∀ p, planes[p]? = d.planes[p]?.map fun b =>
        if d.selects p then ((c.skip (d.rank p)).edit b).1 else b) ∧
      (∀ k p, d.selected[k]? = some p ↔
        p < d.planes.size ∧ d.selects p = true ∧ d.rank p = k) ∧
      (c.Uniform → ∀ k, c.skip k = c) ∧
      (∀ mask : UInt8, (∀ p < d.planes.size, mask.toNat.testBit p = d.selects p) →
        c.run? (d.setMask mask) = some ({ d with mask, planes }, hits)) ∧
      (∀ ps : List Nat, ps.Nodup → (∀ p ∈ ps, d.selects p = true) →
        (∀ p ∈ d.selected, p ∈ ps) → ∃ mask,
          d.changes? (ps.map fun p => (planeMask p, c.skip (d.rank p))) =
            some ({ d with mask, planes }, hits)) ∧
      d.changes? ((c.lines d.resolution).map fun l => (d.mask, l)) =
        some ({ d with planes }, hits) := by
  let changed := d.changeOn d.selected fun p => c.skip (d.rank p)
  have happly : c.run? d = some changed := run?_eq hc
  refine ⟨changed.1.planes, changed.2, happly, ?_, fun k p => getElem?_selected,
    fun hu => hu.skip_eq, ?_, ?_, (changes?_lines hc).trans happly⟩
  · intro p
    refine Array.getElem?_mapIdx.trans ?_
    cases hb : d.planes[p]? with
    | none => rfl
    | some b =>
      have hp : p < d.planes.size := (Array.getElem?_eq_some_iff.mp hb).1
      simp only [Option.map_some, editOn, mem_selected, hp, true_and]
  · intro mask hmask
    rw [run?_eq (d := d.setMask mask) hc]
    exact congrArg some (changeOn_setMask hmask)
  · intro ps hps hselects hall
    have h8 (p : Nat) (hp : p ∈ ps) : p < 8 ∧ (c.skip (d.rank p)).Valid d.resolution :=
      ⟨lt_of_selects (hselects p hp), hc.skip _⟩
    obtain ⟨mask, hmask⟩ := changes?_planeMask hps h8
    have hmem (p : Nat) (hp : p < d.planes.size) : p ∈ ps ↔ p ∈ d.selected :=
      ⟨fun hin => mem_selected.mpr ⟨hp, hselects p hin⟩, hall p⟩
    exact ⟨mask, hmask.trans (congrArg some
      (changeOn_congr (d := d.setMask mask) hps nodup_selected hmem fun _ _ _ => rfl))⟩

/-- Two planes, of which the second one is changed first. -/
theorem second_plane_first :
    let d := (blank 2).setMask 3
    let s : Sprite := ⟨⟨#[0xC0, 0x40], by decide⟩, 0, 8, 1⟩
    (∃ planes hits mask, (Change.draw s 62 31).run? d = some ({ d with planes }, hits) ∧
      d.changes? [(planeMask 1, .draw { s with address := 1 } 62 31),
        (planeMask 0, .draw s 62 31)] = some ({ d with mask, planes }, hits)) ∧
    (Change.copyRow 0 31).Valid d.resolution ∧
      ∃ planes hits mask, (Change.copyRow 0 31).run? d = some ({ d with planes }, hits) ∧
        d.changes? [(planeMask 1, .copyRow 0 31), (planeMask 0, .copyRow 0 31)] =
          some ({ d with mask, planes }, hits) := by
  intro d s
  have hrow : (Change.copyRow 0 31).Valid d.resolution :=
    (by decide : 0 < Resolution.low.height ∧ 31 < Resolution.low.height)
  have hrank : d.rank 0 = 0 ∧ d.rank 1 = 1 := by decide
  have hmem : (∀ p ∈ [1, 0], d.selects p = true) ∧ ∀ p ∈ d.selected, p ∈ [1, 0] := by decide
  obtain ⟨drawn, hits, hdraw, -, -, -, -, hdraws, -⟩ :=
    planes_are_isolated d (.draw s 62 31) trivial
  obtain ⟨copied, none, hcopy, -, -, -, -, hcopies, -⟩ := planes_are_isolated d (.copyRow 0 31) hrow
  obtain ⟨mask, hdraws⟩ := hdraws [1, 0] (by decide) hmem.1 hmem.2
  obtain ⟨mask', hcopies⟩ := hcopies [1, 0] (by decide) hmem.1 hmem.2
  have hsecond : (Change.draw s 62 31).skip 1 = .draw { s with address := 1 } 62 31 := by
    simp [Change.skip, s]
  have hsame : (Change.copyRow 0 31).skip 1 = .copyRow 0 31 := rfl
  simp only [List.map_cons, List.map_nil, hrank, Change.skip_zero, hsecond, hsame]
    at hdraws hcopies
  exact ⟨⟨drawn, hits, mask, hdraw, hdraws⟩, hrow, copied, none, mask', hcopy, hcopies⟩

end Chip8.Display
