import Mathlib.Data.Nat.Bitwise
import Chip8.Proofs.Display.Planes

/-! # Planes out of reach

A mask of a few bits cannot select the planes above them. If these planes are blank, no operation
on the selected planes lights a cell in them.
-/

namespace Chip8.Display

def BlankFrom (k : Nat) (d : Display) : Prop :=
  ∀ p (b : Bitmap d.resolution), k ≤ p → d.planes[p]? = some b → b = .blank _

/-- Only planes below `k` are in use: the mask selects none of the others, and they are blank. -/
structure Confined (k : Nat) (d : Display) : Prop where
  mask : d.mask.toNat < 2 ^ k
  blank : d.BlankFrom k

variable {d : Display} {k l p : Nat}

theorem BlankFrom.mono (h : d.BlankFrom k) (hkl : k ≤ l) : d.BlankFrom l :=
  fun p b hp hb => h p b (Nat.le_trans hkl hp) hb

theorem Confined.selects (h : d.Confined k) (hp : k ≤ p) : d.selects p = false :=
  Nat.testBit_lt_two_pow (Nat.lt_of_lt_of_le h.mask (Nat.pow_le_pow_right (by decide) hp))

theorem blankFrom_blank (planes k : Nat) : (blank planes).BlankFrom k := by
  intro p b _ hb
  have hb : (Array.replicate planes (Bitmap.blank .low))[p]? = some b := hb
  rw [Array.getElem?_replicate] at hb
  split at hb
  · exact (Option.some.inj hb).symm
  · cases hb

theorem confined_blank (planes : Nat) (hk : 1 ≤ k) : (blank planes).Confined k where
  mask := Nat.one_lt_two_pow (Nat.ne_of_gt hk)
  blank := blankFrom_blank planes k

theorem Confined.onSelected (h : d.Confined k) (f : Bitmap d.resolution → Bitmap d.resolution) :
    (d.onSelected f).Confined k where
  mask := h.mask
  blank := by
    intro p b hp hb
    have hb : (d.planes.mapIdx fun p b => if d.selects p then f b else b)[p]? = some b := hb
    simp only [Array.getElem?_mapIdx, h.selects hp, Bool.false_eq_true, if_false,
      Option.map_id'] at hb
    exact h.blank p b hp hb

theorem Confined.draw (h : d.Confined k) (s : Sprite) (left top : Nat) :
    (d.draw s left top).1.Confined k := by
  rw [draw_eq]
  refine ⟨h.mask, fun p b hp hb => ?_⟩
  simp only [Array.getElem?_mapIdx, h.selects hp, Bool.false_eq_true, if_false,
    Option.map_id'] at hb
  exact h.blank p b hp hb

theorem Confined.setResolution (h : d.Confined k) (r : Resolution) :
    (d.setResolution r).Confined k where
  mask := h.mask
  blank := by
    intro p b hp hb
    have hb : (d.planes.map fun b => b.resize r)[p]? = some b := hb
    rw [Array.getElem?_map] at hb
    obtain ⟨b', hb', rfl⟩ := Option.map_eq_some_iff.mp hb
    rw [h.blank p b' hp hb']
    exact Bitmap.resize_blank r

theorem Confined.setMask (h : d.Confined k) {mask : UInt8} (hm : mask.toNat < 2 ^ k) :
    (d.setMask mask).Confined k where
  mask := hm
  blank := h.blank

end Chip8.Display
