import Chip8.Proofs.Checked.Bitmap
import Chip8.Proofs.Display.Planes

/-! # The checked display

Loops over the selected planes, with a check of every plane number. Scrolling goes over the planes
once for each row or column.
-/

namespace Chip8.Checked

variable {d : Display}

def selects (d : Display) (p : Nat) : Option Bool :=
  if p < 8 then do
    let bit ← shiftLeft 8 1 p
    return d.mask.toNat &&& bit != 0
  else return false

def selected (d : Display) : Option (List Nat) :=
  (List.range d.planes.size).foldlM
    (fun ps p => do return if ← selects d p then ps ++ [p] else ps) []

def visitPlane {σ : Type} {r : Resolution} (f : σ → Bitmap r → Option (Bitmap r × σ))
    (state : Array (Bitmap r) × σ) (p : Nat) : Option (Array (Bitmap r) × σ) := do
  let b ← state.1[p]?
  let (b, s) ← f state.2 b
  if h : p < state.1.size then return (state.1.set p b h, s) else none

def visit {σ : Type} (d : Display)
    (f : σ → Bitmap d.resolution → Option (Bitmap d.resolution × σ)) (s : σ) :
    Option (Display × σ) := do
  let ps ← selected d
  let (planes, s) ← ps.foldlM (visitPlane f) (d.planes, s)
  return ({ d with planes }, s)

def onSelected (d : Display) (f : Bitmap d.resolution → Option (Bitmap d.resolution)) :
    Option Display := do
  let (d, _) ← visit d (fun _ b => do return (← f b, ())) ()
  return d

theorem selects_eq (p : Nat) : selects d p = some (d.selects p) := by
  unfold selects Display.selects
  split
  · next hp =>
    have hpow : 1 <<< p % 2 ^ 8 = 2 ^ p := by
      rw [Nat.one_shiftLeft]
      exact Nat.mod_eq_of_lt (Nat.pow_lt_pow_right (by decide) hp)
    simp only [shiftLeft_eq hp, hpow, Option.bind_eq_bind, Option.bind_some, Option.pure_def,
      Option.some.injEq]
    rw [Bool.eq_iff_iff]
    simp [and_two_pow_eq_zero_iff]
  · next hp =>
    have hlt : d.mask.toNat < 2 ^ p :=
      lt_of_lt_of_le d.mask.toNat_lt (Nat.pow_le_pow_right (by decide) (Nat.not_lt.mp hp))
    simp [Nat.testBit_lt_two_pow hlt]

theorem selected_eq : selected d = some d.selected := by
  refine loop_states (fun k => (List.range k).filter d.selects) fun k _ => ?_
  simp only [selects_eq, List.range_succ, List.filter_append, List.filter_cons, List.filter_nil]
  cases d.selects k <;> simp

/-- A visit succeeds if its every step does: `state p` is what is handed to plane `p`. -/
theorem visit_eq {σ : Type} {f : σ → Bitmap d.resolution → Option (Bitmap d.resolution × σ)}
    (state : Nat → σ) (g : Nat → Bitmap d.resolution → Bitmap d.resolution)
    (hselected : ∀ p (h : p < d.planes.size), d.selects p = true →
      f (state p) d.planes[p] = some (g p d.planes[p], state (p + 1)))
    (hskipped : ∀ p < d.planes.size, d.selects p = false → state (p + 1) = state p) :
    visit d f (state 0) =
      some ({ d with planes := d.planes.mapIdx fun p b => if d.selects p then g p b else b },
        state d.planes.size) := by
  let planes (k : Nat) : Array (Bitmap d.resolution) :=
    d.planes.mapIdx fun p b => if p < k ∧ d.selects p = true then g p b else b
  have hfirst : planes 0 = d.planes := by simp [planes, Array.mapIdx_eq_iff]
  have hlast : planes d.planes.size =
      d.planes.mapIdx fun p b => if d.selects p then g p b else b := by
    refine Array.ext (by simp [planes]) fun p hp _ => ?_
    have hp : p < d.planes.size := by simpa [planes] using hp
    simp [planes, hp]
  have hloop := loop_states (n := d.planes.size) (fun k => (planes k, state k))
    (f := fun s p => if d.selects p = true then visitPlane f s p else some s) fun k hk => ?_
  · rw [hfirst, hlast] at hloop
    simp [visit, selected_eq, Display.selected, List.foldlM_filter, hloop]
  · cases hs : d.selects k with
    | false =>
      have hsame : planes (k + 1) = planes k := by
        refine Array.ext (by simp [planes]) fun p _ _ => ?_
        by_cases hpk : p = k
        · simp [planes, hpk, hs]
        · have hiff : p < k + 1 ↔ p < k := by omega
          simp only [planes, Array.getElem_mapIdx, hiff]
      simp [hskipped k hk hs, hsame]
    | true =>
      have hk' : k < (planes k).size := by simpa [planes] using hk
      have hplane : (planes k)[k] = d.planes[k] := by simp [planes]
      have hset (hk : k < (planes k).size) :
          (planes k).set k (g k d.planes[k]) hk = planes (k + 1) := by
        refine Array.ext (by simp [planes]) fun p _ _ => ?_
        by_cases hpk : k = p
        · subst hpk
          simp [planes, hs]
        · have hiff : p < k + 1 ↔ p < k := by omega
          simp only [planes, Array.getElem_set, Array.getElem_mapIdx, hpk, hiff, if_false]
      simp [visitPlane, hk', hplane, hselected k hk hs, hset]

theorem onSelected_eq {f : Bitmap d.resolution → Option (Bitmap d.resolution)}
    {g : Bitmap d.resolution → Bitmap d.resolution} (h : ∀ b, f b = some (g b)) :
    onSelected d f = some (d.onSelected g) := by
  have hvisit : visit d (fun _ b => do return (← f b, ())) () = _ :=
    visit_eq (fun _ => ()) (fun _ => g) (fun p hp _ => by simp [h]) fun _ _ _ => rfl
  simp only [onSelected, hvisit]
  rfl

/-! ## Scrolling -/

def moveRow (d : Display) (source target : Nat) : Option Display :=
  onSelected d fun b => copyRow b source target

def blankRow (d : Display) (y : Nat) : Option Display := onSelected d fun b => clearRow b y

def moveColumn (d : Display) (source target : Nat) : Option Display :=
  onSelected d fun b => copyColumn b source target

def blankColumn (d : Display) (x : Nat) : Option Display := onSelected d fun b => clearColumn b x

def scrollDown (d : Display) (n : Nat) : Option Display := do
  let n := min n d.height
  let rest ← sub d.height n
  let d ← (List.range rest).reverse.foldlM (fun d y => do moveRow d y (← add word y n)) d
  (List.range n).foldlM (fun d y => blankRow d y) d

def scrollUp (d : Display) (n : Nat) : Option Display := do
  let height := d.height
  let n := min n height
  let rest ← sub height n
  let d ← (List.range rest).foldlM (fun d y => do moveRow d (← add word y n) y) d
  (List.range n).foldlM (fun d y => do blankRow d (← sub (← sub height y) 1)) d

def scrollRight (d : Display) : Option Display := do
  let n := Bitmap.scrollWidth
  let rest ← sub d.width n
  let d ← (List.range rest).reverse.foldlM (fun d x => do moveColumn d x (← add word x n)) d
  (List.range n).foldlM (fun d x => blankColumn d x) d

def scrollLeft (d : Display) : Option Display := do
  let width := d.width
  let n := Bitmap.scrollWidth
  let rest ← sub width n
  let d ← (List.range rest).foldlM (fun d x => do moveColumn d (← add word x n) x) d
  (List.range n).foldlM (fun d x => do blankColumn d (← sub (← sub width x) 1)) d

section Scrolling

variable {n rest : Nat} {f g : Display → Nat → Option Display}
  {F G : {r : Resolution} → Nat → Bitmap r → Bitmap r}

theorem fold_onSelected :
    n.fold (fun k _ d => d.onSelected (F k)) d =
      d.onSelected fun b => n.fold (fun k _ b => F k b) b := by
  induction n with
  | zero => exact Display.onSelected_id.symm
  | succ n ih =>
    rw [Nat.fold_succ, ih]
    exact Display.onSelected_onSelected _ (F n)

theorem foldRev_onSelected :
    n.foldRev (fun k _ d => d.onSelected (F k)) d =
      d.onSelected fun b => n.foldRev (fun k _ b => F k b) b := by
  induction n generalizing d with
  | zero => exact Display.onSelected_id.symm
  | succ n ih =>
    simp only [Nat.foldRev_succ, ih]
    exact Display.onSelected_onSelected (F n) _

/-- Whether each pass of a loop over displays of one size changes the selected planes by `F`. -/
def Passes (r : Resolution) (n : Nat) (f : Display → Nat → Option Display)
    (F : {r : Resolution} → Nat → Bitmap r → Bitmap r) : Prop :=
  ∀ k < n, ∀ e : Display, e.resolution = r → f e k = some (e.onSelected (F k))

theorem loop_onSelected (h : Passes d.resolution n f F) :
    (List.range n).foldlM f d = some (d.onSelected fun b => n.fold (fun k _ b => F k b) b) := by
  rw [← fold_onSelected]
  exact (loop_eq (fun _ (e : Display) => e.resolution = d.resolution) rfl
    fun k hk e he => ⟨h k hk e he, he⟩).1

theorem loopRev_onSelected (h : Passes d.resolution n f F) :
    (List.range n).reverse.foldlM f d =
      some (d.onSelected fun b => n.foldRev (fun k _ b => F k b) b) := by
  rw [← foldRev_onSelected]
  exact (loopRev_eq (fun (e : Display) => e.resolution = d.resolution) rfl
    fun k hk e he => ⟨h k hk e he, he⟩).1

theorem loop_after {H : Bitmap d.resolution → Bitmap d.resolution}
    (h : Passes d.resolution n g G) :
    (List.range n).foldlM g (d.onSelected H) =
      some (d.onSelected fun b => n.fold (fun k _ b => G k b) (H b)) :=
  (loop_onSelected (d := d.onSelected H) h).trans
    (congrArg some (Display.onSelected_onSelected _ _))

/-- Going over all planes once for each step does with each plane what the steps do. -/
theorem scroll_eq (hmove : Passes d.resolution rest f F) (hblank : Passes d.resolution n g G) :
    ((List.range rest).foldlM f d).bind (fun d => (List.range n).foldlM g d) =
      some (d.onSelected fun b =>
        n.fold (fun k _ b => G k b) (rest.fold (fun k _ b => F k b) b)) := by
  rw [loop_onSelected hmove, Option.bind_some]
  exact loop_after hblank

theorem scrollRev_eq (hmove : Passes d.resolution rest f F)
    (hblank : Passes d.resolution n g G) :
    ((List.range rest).reverse.foldlM f d).bind (fun d => (List.range n).foldlM g d) =
      some (d.onSelected fun b =>
        n.fold (fun k _ b => G k b) (rest.foldRev (fun k _ b => F k b) b)) := by
  rw [loopRev_onSelected hmove, Option.bind_some]
  exact loop_after hblank

theorem scrollDown_eq : scrollDown d n = some (d.scrollDown n) := by
  have hn : min n d.height ≤ d.height := Nat.min_le_right n d.height
  have hheight : d.height ≤ 64 := d.resolution.height_le
  simp only [scrollDown, sub_eq hn, Option.bind_eq_bind, Option.bind_some]
  refine scrollRev_eq (F := fun y b => b.copyRow y (y + min n d.height))
    (G := fun y b => b.clearRow y) (fun y hy e he => ?_) fun y hy e he => ?_
  · have hadd : add word y (min n d.height) = some (y + min n d.height) := add_word (by omega)
    have he : e.resolution.height = d.height := congrArg Resolution.height he
    simp only [hadd, Option.bind_some]
    exact onSelected_eq fun b => copyRow_eq (by omega) (by omega)
  · have he : e.resolution.height = d.height := congrArg Resolution.height he
    exact onSelected_eq fun b => clearRow_eq (by omega)

theorem scrollUp_eq : scrollUp d n = some (d.scrollUp n) := by
  have hn : min n d.height ≤ d.height := Nat.min_le_right n d.height
  have hheight : d.height ≤ 64 := d.resolution.height_le
  simp only [scrollUp, sub_eq hn, Option.bind_eq_bind, Option.bind_some]
  refine scroll_eq (F := fun y b => b.copyRow (y + min n d.height) y)
    (G := fun {r} y b => b.clearRow (r.height - y - 1)) (fun y hy e he => ?_) fun y hy e he => ?_
  · have hadd : add word y (min n d.height) = some (y + min n d.height) := add_word (by omega)
    have he : e.resolution.height = d.height := congrArg Resolution.height he
    simp only [hadd, Option.bind_some]
    exact onSelected_eq fun b => copyRow_eq (by omega) (by omega)
  · have he : e.resolution.height = d.height := congrArg Resolution.height he
    have hsub : sub d.height y = some (d.height - y) := sub_eq (by omega)
    have hsub' : sub (d.height - y) 1 = some (d.height - y - 1) := sub_eq (by omega)
    simp only [hsub, hsub', Option.bind_some]
    rw [← he]
    exact onSelected_eq fun b => clearRow_eq (by omega)

theorem scrollRight_eq : scrollRight d = some d.scrollRight := by
  have hwidth : Bitmap.scrollWidth ≤ d.width ∧ d.width ≤ 128 :=
    ⟨d.resolution.scrollWidth_le, d.resolution.width_le⟩
  simp only [scrollRight, sub_eq hwidth.1, Option.bind_eq_bind, Option.bind_some]
  refine scrollRev_eq (F := fun x b => b.copyColumn x (x + Bitmap.scrollWidth))
    (G := fun x b => b.clearColumn x) (fun x hx e he => ?_) fun x hx e he => ?_
  · have hadd : add word x Bitmap.scrollWidth = some (x + Bitmap.scrollWidth) :=
      add_word (by omega)
    have he : e.resolution.width = d.width := congrArg Resolution.width he
    simp only [hadd, Option.bind_some]
    exact onSelected_eq fun b => copyColumn_eq (by omega) (by omega)
  · have he : e.resolution.width = d.width := congrArg Resolution.width he
    exact onSelected_eq fun b => clearColumn_eq (by omega)

theorem scrollLeft_eq : scrollLeft d = some d.scrollLeft := by
  have hwidth : Bitmap.scrollWidth ≤ d.width ∧ d.width ≤ 128 :=
    ⟨d.resolution.scrollWidth_le, d.resolution.width_le⟩
  simp only [scrollLeft, sub_eq hwidth.1, Option.bind_eq_bind, Option.bind_some]
  refine scroll_eq (F := fun x b => b.copyColumn (x + Bitmap.scrollWidth) x)
    (G := fun {r} x b => b.clearColumn (r.width - x - 1)) (fun x hx e he => ?_) fun x hx e he => ?_
  · have hadd : add word x Bitmap.scrollWidth = some (x + Bitmap.scrollWidth) :=
      add_word (by omega)
    have he : e.resolution.width = d.width := congrArg Resolution.width he
    simp only [hadd, Option.bind_some]
    exact onSelected_eq fun b => copyColumn_eq (by omega) (by omega)
  · have he : e.resolution.width = d.width := congrArg Resolution.width he
    have hsub : sub d.width x = some (d.width - x) := sub_eq (by omega)
    have hsub' : sub (d.width - x) 1 = some (d.width - x - 1) := sub_eq (by omega)
    simp only [hsub, hsub', Option.bind_some]
    rw [← he]
    exact onSelected_eq fun b => clearColumn_eq (by omega)

end Scrolling

def clear (d : Display) : Option Display := onSelected d fun _ => some (.blank _)

def setResolution (d : Display) (r : Resolution) : Option Display := do
  let _ ← mul word r.width r.height
  return d.setResolution r

def initialise (d : Display) : Option Display := do
  let _ ← mul word Resolution.low.width Resolution.low.height
  return d.initialise

theorem clear_eq : clear d = some d.clear := onSelected_eq fun _ => rfl

theorem setResolution_eq (r : Resolution) : setResolution d r = some (d.setResolution r) := by
  have harea : mul word r.width r.height = some (r.width * r.height) := by
    cases r <;> exact mul_word (by decide)
  simp [setResolution, harea]

theorem initialise_eq : initialise d = some d.initialise := by
  have harea : mul word Resolution.low.width Resolution.low.height =
      some (Resolution.low.width * Resolution.low.height) := mul_word (by decide)
  simp [initialise, harea]

end Chip8.Checked
