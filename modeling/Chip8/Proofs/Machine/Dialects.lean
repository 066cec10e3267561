import Chip8.Proofs.Machine.Beat
import Chip8.Proofs.Machine.Loading

/-! # Dialects

The dialects disagree on shifts, offset jumps and block transfers, and even there only if the
registers concerned differ or the compatibility mode is off. Two machines that differ in their
dialects alone reply the same until one of these instructions is executed.
-/

namespace Chip8

open Register

/-- Only shifts look at the dialect, and they do not if both registers hold the same. -/
theorem Alu.apply_congr {op : Alu} {d e : Dialect} {v : Registers} {x y : Register}
    (h : op = .shiftRight ∨ op = .shiftLeft → d.shiftsVy = e.shiftsVy ∨ v.get x = v.get y) :
    op.apply d v x y = op.apply e v x y := by
  have hsource (hop : op = .shiftRight ∨ op = .shiftLeft) :
      (if d.shiftsVy then v.get y else v.get x) = if e.shiftsVy then v.get y else v.get x := by
    rcases h hop with hd | hv
    · rw [hd]
    · rw [hv, ite_self, ite_self]
  cases op with
  | shiftRight => simp only [apply, hsource (.inl rfl)]
  | shiftLeft => simp only [apply, hsource (.inr rfl)]
  | _ => rfl

namespace Machine

variable {m n : Machine} {d : Dialect} {keys : Keyboard} {i : Instruction} {x : Register}

def speaking (m : Machine) (d : Dialect) : Machine :=
  { m with config := { m.config with dialect := d } }

structure SameButDialect (m n : Machine) : Prop where
  fields : n = m.speaking n.config.dialect

/-- The machine does something else in the dialect `d` when it executes the instruction. -/
def Forks (m : Machine) (d : Dialect) : Instruction → Prop
  | .alu .shiftRight x y | .alu .shiftLeft x y =>
    m.config.dialect.shiftsVy ≠ d.shiftsVy ∧ m.v.get x ≠ m.v.get y
  | .jumpOffset x _ => m.config.dialect.jumpsByVx ≠ d.jumpsByVx ∧ m.v.get x ≠ m.v.get 0
  | .storeRegisters _ | .loadRegisters _ =>
    m.config.dialect.advancesIndex ≠ d.advancesIndex ∧ m.compatibility = false
  | _ => False

def Unforked (d : Dialect) (m : Machine) (beat : Beat) : Prop :=
  ∀ keys t, beat = .cycle keys → (m.cycle keys).result = .ok (.executed t) →
    ¬ m.Forks d t.instruction

theorem indexAfter_speaking
    (h : ¬ (m.config.dialect.advancesIndex ≠ d.advancesIndex ∧ m.compatibility = false)) :
    (m.speaking d).indexAfter x = m.indexAfter x := by
  have hadvances : (m.speaking d).advancesIndex = m.advancesIndex := by
    rw [not_and_or, not_not, Bool.not_eq_false] at h
    simp only [advancesIndex, speaking]
    rcases h with hd | hc
    · rw [hd]
    · rw [hc, Bool.or_true, Bool.or_true]
  unfold indexAfter
  rw [hadvances]
  rfl

theorem execute_speaking (h : ¬ m.Forks d i) :
    (m.speaking d).execute keys i = (m.execute keys i).speaking d := by
  cases i with
  | alu op x y =>
    have hv : op.apply d m.v x y = op.apply m.config.dialect m.v x y := by
      refine Alu.apply_congr fun hop => ?_
      rcases hop with rfl | rfl <;>
      · rw [Forks, not_and_or, not_not, not_not, eq_comm] at h
        exact h
    simp only [execute, speaking, hv]
  | jumpOffset x a =>
    have hoffset : m.v.get (if d.jumpsByVx then x else 0) =
        m.v.get (if m.config.dialect.jumpsByVx then x else 0) := by
      rw [Forks, not_and_or, not_not, not_not] at h
      rcases h with hd | hv
      · rw [hd]
      · rw [apply_ite m.v.get, apply_ite m.v.get, hv, ite_self, ite_self]
    exact congrArg (fun offset : UInt8 => { m.speaking d with pc := a + offset.toUInt16 }) hoffset
  | storeRegisters x =>
    have hindex : (m.speaking d).indexAfter x = m.indexAfter x := indexAfter_speaking h
    simp only [execute, hindex]
    rfl
  | loadRegisters x =>
    have hindex : (m.speaking d).indexAfter x = m.indexAfter x := indexAfter_speaking h
    simp only [execute, hindex]
    rfl
  | loadFlags x => simp only [execute, loadedFlags, speaking]
  | loadAudio => simp only [execute, speaking]
  | _ => rfl

theorem aside_speaking (d : Dialect) : Aside fun m => m.speaking d where
  waiting _ := rfl
  keyRegister _ := rfl
  pc _ := rfl
  fetch _ := rfl
  advance _ _ := rfl
  receive _ _ _ := rfl

theorem cycle_speaking (h : Unforked d m (.cycle keys)) :
    (m.cycle keys).Related (fun m n => n = m.speaking d) ((m.speaking d).cycle keys) := by
  have hcycle : (m.speaking d).cycle keys = _ := (aside_speaking d).cycle fun t ht => by
    have ht : ¬ (m.advance t.instruction.size).Forks d t.instruction := h keys t rfl ht
    exact execute_speaking ht
  rw [hcycle]
  exact ⟨rfl, rfl, rfl⟩

theorem beat_speaking {beat : Beat} (h : Unforked d m beat) :
    (beat.operation.apply m).Related (fun m n => n = m.speaking d)
      (beat.operation.apply (m.speaking d)) := by
  cases beat with
  | cycle keys => exact (cycle_speaking h).map _
  | tick => exact ⟨rfl, rfl, rfl⟩

/-- Until the first machine executes an instruction at which the dialect of the second one forks
off, the dialects make no difference to replies, notices and machines. Every run ends before that
instruction or has a beginning that does. -/
theorem dialects_agree_until_fork {beats : List Beat} (h : SameButDialect m n)
    (hb : Beat.Throughout (Unforked n.config.dialect) m beats) :
    List.Forall₂ (Reply.Related SameButDialect) (Beat.replies m beats) (Beat.replies n beats) ∧
      SameButDialect (Beat.run m beats) (Beat.run n beats) := by
  have hsame {m' n' : Machine} (h' : n' = m'.speaking n.config.dialect) : SameButDialect m' n' := by
    subst h'
    exact ⟨rfl⟩
  have hrefl : List.Forall₂ (· = ·) beats beats := List.forall₂_refl beats
  obtain ⟨hreplies, hrun⟩ := Beat.lockstep_of_throughout
    (R := fun m' n' => n' = m'.speaking n.config.dialect)
    (fun h' hab hp => by
      subst h' hab
      exact beat_speaking hp)
    hrefl h.fields hb
  exact ⟨hreplies.imp fun _ _ hr => hr.imp fun _ _ => hsame, hsame hrun⟩

/-- `8016` with the same in both registers, on which the dialects agree for once. -/
theorem dialects_agree_on_equal_registers :
    ∃ m, create (.standard .chip8) default = .ok m ∧
      let loaded := (m.loadRom [0x80, 0x16]).machine
      let beats : List Beat := [.cycle Keypad.released.keyboard, .tick]
      loaded.config.dialect.shiftsVy ≠ Dialect.hp48.shiftsVy ∧
        (loaded.cycle Keypad.released.keyboard).result =
          .ok (.executed ⟨0x200, 0x8016, .alu .shiftRight 0 1⟩) ∧
        List.Forall₂ (Reply.Related SameButDialect) (Beat.replies loaded beats)
          (Beat.replies (loaded.speaking .hp48) beats) := by
  obtain ⟨m, hm⟩ := exists_create_iff.mpr (rfl : (Config.standard .chip8).Accepted)
  have hplaces : (Config.standard .chip8).Places [0x80, 0x16] :=
    ⟨rfl, by decide, by decide, by decide⟩
  have hstarting := starting_loadRom (i := .alu .shiftRight 0 1) hm hplaces fun _ => rfl
  have hcycle : ((m.loadRom [0x80, 0x16]).machine.cycle Keypad.released.keyboard).result =
      .ok (.executed ⟨0x200, 0x8016, .alu .shiftRight 0 1⟩) := by
    rw [cycle_of_fetch hstarting.waiting hstarting.fetch]
    rfl
  have hunforked : Beat.Throughout (Unforked .hp48) (m.loadRom [0x80, 0x16]).machine
      [.cycle Keypad.released.keyboard, .tick] := by
    refine ⟨?_, ?_, trivial⟩
    · rintro keys t ⟨⟩ ht hforks
      obtain rfl : _ = t := Outcome.executed.inj (Except.ok.inj (hcycle.symm.trans ht))
      obtain ⟨_, hne⟩ := hforks
      rw [(loadRom_of_places hm hplaces).2] at hne
      obtain ⟨_, memory, _, rfl⟩ := create_eq_ok_iff.mp hm
      exact hne rfl
    · rintro keys t ⟨⟩
  refine ⟨m, hm, ?_, hcycle, (dialects_agree_until_fork ⟨rfl⟩ hunforked).1⟩
  rw [hstarting.config]
  decide

end Machine

end Chip8
