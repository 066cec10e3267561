import Chip8.Proofs.Display.Cells

/-! # Switching the resolution

Cells keep their numbers when the resolution changes, not their places. A cell lasts as long as
there is one with its number; where there is one again later on, it is unlit.
-/

namespace Chip8

namespace Resolution

variable {r : Resolution} {i : Nat}

theorem low_area_le (r : Resolution) : low.area ≤ r.area := by cases r <;> decide

theorem lt_area_iff (hi : low.area ≤ i) (hi' : i < high.area) : i < r.area ↔ r = high := by
  cases r with
  | low => simp [Nat.not_lt.mpr hi]
  | high => simp [hi']

end Resolution

namespace Bitmap

variable {r : Resolution}

theorem getElem?_resize (b : Bitmap r) (s : Resolution) (i : Nat) :
    (b.resize s).cells[i]? = if i < s.area then some (b.cells[i]?.getD false) else none := by
  unfold resize
  rw [Vector.getElem?_ofFn]
  rfl

theorem resize_self (b : Bitmap r) : b.resize r = b := by
  ext i hi
  simp [resize]

end Bitmap

namespace Display

variable {d : Display} {r : Resolution} {rs : List Resolution} {p i x y : Nat}

def cell? (d : Display) (p i : Nat) : Option Bool := d.planes[p]?.bind fun b => b.cells[i]?

theorem pixel?_eq_cell? (d : Display) (p x y : Nat) :
    d.pixel? p x y = d.cell? p (Bitmap.cellIndex d.resolution x y) := rfl

theorem cell?_eq_none_of_size_le (hp : d.planes.size ≤ p) : d.cell? p i = none := by
  unfold cell?
  rw [Array.getElem?_eq_none hp]
  rfl

theorem cell?_eq_ite (hp : p < d.planes.size) :
    d.cell? p i =
      if i < d.resolution.area then some ((d.cell? p i).getD false) else none := by
  have hcell : d.cell? p i = d.planes[p].cells[i]? := by
    unfold cell?
    rw [Array.getElem?_eq_getElem hp, Option.bind_some]
  rw [hcell]
  split
  · next hi => rw [Vector.getElem?_eq_getElem hi, Option.getD_some]
  · next hi => exact Vector.getElem?_eq_none (Nat.not_lt.mp hi)

theorem cell?_setResolution (hp : p < d.planes.size) :
    (d.setResolution r).cell? p i =
      if i < r.area then some ((d.cell? p i).getD false) else none := by
  unfold cell? setResolution
  rw [Array.getElem?_map, Array.getElem?_eq_getElem hp]
  exact Bitmap.getElem?_resize _ r i

theorem setResolution_self (d : Display) : d.setResolution d.resolution = d := by
  obtain ⟨r, mask, planes⟩ := d
  simp [setResolution, Bitmap.resize_self]

def switches (d : Display) (rs : List Resolution) : Display := rs.foldl setResolution d

theorem resolution_switches : (d.switches rs).resolution = rs.getLastD d.resolution := by
  induction rs generalizing d with
  | nil => rfl
  | cons r rs ih =>
    rw [List.getLastD_cons]
    exact ih

theorem mask_switches : (d.switches rs).mask = d.mask := by
  induction rs generalizing d with
  | nil => rfl
  | cons r rs ih => exact ih

@[simp] theorem size_planes_switches : (d.switches rs).planes.size = d.planes.size := by
  induction rs generalizing d with
  | nil => rfl
  | cons r rs ih => exact ih.trans (size_planes_setResolution r)

/-- A cell keeps its value as long as there has always been one with its number. -/
theorem cell?_switches (hp : p < d.planes.size) :
    (d.switches rs).cell? p i =
      if i < (d.switches rs).resolution.area then
        some (if ∀ r ∈ d.resolution :: rs, i < r.area then (d.cell? p i).getD false else false)
      else none := by
  induction rs generalizing d with
  | nil =>
    have hcell : d.cell? p i = _ := cell?_eq_ite hp
    by_cases hi : i < d.resolution.area
    · simpa [switches, hi] using hcell
    · simpa [switches, hi] using hcell
  | cons r rs ih =>
    have hrest : (d.switches (r :: rs)).cell? p i =
        if i < (d.switches (r :: rs)).resolution.area then
          some (if ∀ s ∈ r :: rs, i < s.area then ((d.setResolution r).cell? p i).getD false
            else false)
        else none := ih (d := d.setResolution r) (by simpa using hp)
    rw [hrest]
    congr 2
    by_cases hlater : ∀ s ∈ r :: rs, i < s.area
    · have hr : i < r.area := hlater r List.mem_cons_self
      rw [if_pos hlater, cell?_setResolution hp, if_pos hr, Option.getD_some]
      by_cases hi : i < d.resolution.area
      · have hall : ∀ s ∈ d.resolution :: r :: rs, i < s.area :=
          List.forall_mem_cons.mpr ⟨hi, hlater⟩
        rw [if_pos hall]
      · rw [if_neg fun h => hi (h _ List.mem_cons_self), cell?_eq_ite hp, if_neg hi,
          Option.getD_none]
    · rw [if_neg hlater, if_neg fun h => hlater (List.forall_mem_cons.mp h).2]

/-! ## Between the two resolutions -/

theorem cell?_switches_of_lt (hi : i < Resolution.low.area) :
    (d.switches rs).cell? p i = d.cell? p i := by
  rcases Nat.lt_or_ge p d.planes.size with hp | hp
  · have hall (r : Resolution) : i < r.area := Nat.lt_of_lt_of_le hi r.low_area_le
    rw [cell?_switches hp, if_pos (hall _), if_pos fun r _ => hall r]
    exact ((cell?_eq_ite hp).trans (if_pos (hall _))).symm
  · rw [cell?_eq_none_of_size_le (by simpa using hp), cell?_eq_none_of_size_le hp]

theorem cell?_switches_of_ge (hp : p < d.planes.size) (hi : Resolution.low.area ≤ i)
    (hi' : i < Resolution.high.area) :
    (d.switches rs).cell? p i =
      if (d.switches rs).resolution = .low then none
      else if ∀ r ∈ d.resolution :: rs, r = .high then d.cell? p i
      else some false := by
  rw [cell?_switches hp]
  simp only [Resolution.lt_area_iff hi hi']
  cases (d.switches rs).resolution with
  | low => rfl
  | high =>
    by_cases hstay : ∀ r ∈ d.resolution :: rs, r = .high
    · have hcell : d.cell? p i = some ((d.cell? p i).getD false) := by
        rw [cell?_eq_ite hp, if_pos]
        · rfl
        · exact (Resolution.lt_area_iff hi hi').mpr (hstay _ List.mem_cons_self)
      rw [if_pos rfl, if_pos hstay, if_neg nofun, if_pos hstay]
      exact hcell.symm
    · rw [if_pos rfl, if_neg hstay, if_neg nofun, if_neg hstay]

/-- The large screen has room for two rows of the small one in each of its own. -/
theorem pixel?_enlarge (hd : d.resolution = .low) (hp : p < d.planes.size)
    (hx : x < Resolution.high.width) (hy : y < Resolution.high.height) :
    (d.setResolution .high).pixel? p x y =
      if y < 16 then d.pixel? p (x % 64) (2 * y + x / 64) else some false := by
  have hnumber : Bitmap.cellIndex .low (x % 64) (2 * y + x / 64) = Bitmap.cellIndex .high x y := by
    simp only [Bitmap.cellIndex, Resolution.width]
    omega
  have hold : Bitmap.cellIndex .high x y < Resolution.low.area ↔ y < 16 := by
    simp only [Bitmap.cellIndex, Resolution.area, Resolution.width, Resolution.height] at hx ⊢
    omega
  have hcell : d.cell? p (Bitmap.cellIndex .high x y) =
      if y < 16 then some ((d.cell? p (Bitmap.cellIndex .high x y)).getD false) else none := by
    simpa only [hd, hold] using cell?_eq_ite (i := Bitmap.cellIndex .high x y) hp
  have hnew : (d.setResolution .high).pixel? p x y =
      some ((d.cell? p (Bitmap.cellIndex .high x y)).getD false) :=
    (cell?_setResolution hp).trans (if_pos (Bitmap.cellIndex_lt hx hy))
  rw [hnew, pixel?_eq_cell?, hd, hnumber, hcell]
  split <;> rfl

theorem pixel?_reduce (hd : d.resolution = .high) (hp : p < d.planes.size)
    (hx : x < Resolution.low.width) (hy : y < Resolution.low.height) :
    (d.setResolution .low).pixel? p x y = d.pixel? p (x + 64 * (y % 2)) (y / 2) := by
  have hnumber : Bitmap.cellIndex .high (x + 64 * (y % 2)) (y / 2) = Bitmap.cellIndex .low x y := by
    simp only [Bitmap.cellIndex, Resolution.width]
    omega
  have hsmall : Bitmap.cellIndex .low x y < Resolution.low.area := Bitmap.cellIndex_lt hx hy
  have hlarge : Bitmap.cellIndex .low x y < d.resolution.area :=
    Nat.lt_of_lt_of_le hsmall (Resolution.low_area_le _)
  have hcell : d.cell? p (Bitmap.cellIndex .low x y) = some _ :=
    (cell?_eq_ite hp).trans (if_pos hlarge)
  rw [pixel?_eq_cell?, pixel?_eq_cell?, hd, hnumber, cell?_setResolution hp]
  exact (if_pos hsmall).trans hcell.symm

/-- Switching the resolution renumbers no cell of any plane, selected or not: the places of cells
follow from the width of a row, a switch to the present resolution changes nothing, and over any
number of switches the cells of the small screen keep their values, while those that only the large
screen has last until the first switch to the small one and are unlit after that. -/
theorem switches_keep_numbers (d : Display) :
    (d.resolution = .low → ∀ p < d.planes.size, ∀ x < 128, ∀ y < 64,
      (d.setResolution .high).pixel? p x y =
        if y < 16 then d.pixel? p (x % 64) (2 * y + x / 64) else some false) ∧
    (d.resolution = .high → ∀ p < d.planes.size, ∀ x < 64, ∀ y < 32,
      (d.setResolution .low).pixel? p x y = d.pixel? p (x + 64 * (y % 2)) (y / 2)) ∧
    d.setResolution d.resolution = d ∧
    ∀ rs, (d.switches rs).resolution = rs.getLastD d.resolution ∧
      (d.switches rs).mask = d.mask ∧
      (d.switches rs).planes.size = d.planes.size ∧
      (∀ p, ∀ i < 2048, (d.switches rs).cell? p i = d.cell? p i) ∧
      ∀ p < d.planes.size, ∀ i, 2048 ≤ i → i < 8192 →
        (d.switches rs).cell? p i =
          if (d.switches rs).resolution = .low then none
          else if ∀ r ∈ d.resolution :: rs, r = .high then d.cell? p i
          else some false := by
  refine ⟨?_, ?_, setResolution_self d, fun rs => ⟨resolution_switches, mask_switches,
    size_planes_switches, ?_, ?_⟩⟩
  · intro hd p hp x hx y hy
    exact pixel?_enlarge hd hp hx hy
  · intro hd p hp x hx y hy
    exact pixel?_reduce hd hp hx hy
  · intro p i hi
    exact cell?_switches_of_lt hi
  · intro p hp i hi hi'
    exact cell?_switches_of_ge hp hi hi'

theorem switches_keep_lit_cell :
    let d : Display := ⟨.low, 0, #[(Bitmap.blank .low).set 5 1 true]⟩
    d.pixel? 0 5 1 = some true ∧
      (d.setResolution .high).pixel? 0 69 0 = some true ∧
      (d.setResolution .high).pixel? 0 5 16 = some false ∧
      ((d.setResolution .high).setResolution .low).pixel? 0 5 1 = some true ∧
      (d.switches [.high, .low, .high]).cell? 0 69 = some true ∧
      (d.switches [.high, .low, .high]).cell? 0 2048 = some false := by
  intro d
  have hcell : d.pixel? 0 5 1 = some true := by
    exact Vector.getElem?_setIfInBounds_self_of_lt (by decide)
  have hlarge := (switches_keep_numbers d).1 rfl 0 (by decide)
  have hsmall := (switches_keep_numbers (d.setResolution .high)).2.1 rfl 0 (by simp [d])
  obtain ⟨_, _, _, hfirst, hrest⟩ := (switches_keep_numbers d).2.2.2 [.high, .low, .high]
  have hthere : (d.setResolution .high).pixel? 0 69 0 = some true :=
    (hlarge 69 (by decide) 0 (by decide)).trans hcell
  refine ⟨hcell, hthere, ?_, ?_, ?_, ?_⟩
  · exact hlarge 5 (by decide) 16 (by decide)
  · exact (hsmall 5 (by decide) 1 (by decide)).trans hthere
  · exact (hfirst 0 69 (by decide)).trans hcell
  · exact hrest 0 (by decide) 2048 (by decide) (by decide)

end Display

end Chip8
