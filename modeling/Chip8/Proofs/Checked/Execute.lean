import Chip8.Machine.Execute
import Chip8.Proofs.Checked.Drawing
import Chip8.Proofs.Machine.Registers

/-! # Checked execution

Every instruction, with a check of each access and of each number that an instruction computes
without wrapping on purpose.
-/

namespace Chip8.Checked

open Register

/-! ## Registers -/

def register (v : Registers) (x : Register) : Option UInt8 := get v x.val

def setRegister (m : Machine) (x : Register) (b : UInt8) : Option Machine := do
  return { m with v := ← set m.v x.val b }

@[simp] theorem register_eq (v : Registers) (x : Register) : register v x = some (v.get x) :=
  get_eq x.isLt

@[simp] theorem setRegister_eq (m : Machine) (x : Register) (b : UInt8) :
    setRegister m x b = some { m with v := m.v.update x b } := by
  simp [setRegister, set_eq x.isLt, Registers.update]

def storeBlock (memory : Memory) (v : Registers) (a o : Nat) : List Register → Option Memory
  | [] => some memory
  | r :: rs => do
    let memory ← write memory (← add word a o) (← register v r)
    storeBlock memory v a (o + 1) rs

def loadBlock (memory : Memory) (v : Registers) (a o : Nat) : List Register → Option Registers
  | [] => some v
  | r :: rs => do
    let v ← set v r.val (← read memory (← add word a o))
    loadBlock memory v a (o + 1) rs

def fill {k : Nat} (count : Nat) (byte : Nat → Option UInt8) (target : Vector UInt8 k) :
    Option (Vector UInt8 k) :=
  (List.range count).foldlM (fun target i => do set target i (← byte i)) target

def copyPrefix {n k : Nat} (count : Nat) (source : Vector UInt8 n) (target : Vector UInt8 k) :
    Option (Vector UInt8 k) :=
  if count ≤ n ∧ count ≤ k then fill count (get source) target else none

section Blocks

variable {memory : Memory} {v : Registers} {a o : Nat} {rs : List Register}

theorem storeBlock_eq (h : a + o + rs.length ≤ 2 ^ 64) :
    storeBlock memory v a o rs = some (memory.load (a + o) (rs.map v.get)) := by
  induction rs generalizing memory o with
  | nil => rfl
  | cons r rs ih =>
    simp only [List.length_cons] at h
    have hadd : add word a o = some (a + o) := add_word (by omega)
    have hrest (memory : Memory) : storeBlock memory v a (o + 1) rs = _ := ih (by omega)
    simpa [storeBlock, hadd, Memory.load, Nat.add_assoc] using hrest _

theorem loadBlock_eq (h : a + o + rs.length ≤ 2 ^ 64) :
    loadBlock memory v a o rs =
      some (v.assign rs ((List.range' o rs.length).map fun o => memory.read (a + o))) := by
  induction rs generalizing v o with
  | nil => rfl
  | cons r rs ih =>
    simp only [List.length_cons] at h
    have hadd : add word a o = some (a + o) := add_word (by omega)
    have hrest (v : Registers) : loadBlock memory v a (o + 1) rs = _ := ih (by omega)
    simpa [loadBlock, hadd, set_eq r.isLt, List.range'_succ, Registers.assign,
      Registers.update] using hrest _

theorem fill_eq {k count : Nat} {byte : Nat → Option UInt8} {f : Nat → UInt8}
    {target : Vector UInt8 k} (hk : count ≤ k) (h : ∀ i < count, byte i = some (f i)) :
    fill count byte target =
      some (Vector.ofFn fun i => if i.val < count then f i.val else target[i]) := by
  let filled (j : Nat) : Vector UInt8 k :=
    Vector.ofFn fun i => if i.val < j then f i.val else target[i]
  have hfirst : filled 0 = target := by
    ext i hi
    simp [filled]
  have hloop := loop_states (n := count) filled
    (f := fun target i => do set target i (← byte i)) fun i hi => ?_
  · rwa [hfirst] at hloop
  · have hset : set (filled i) i (f i) = some ((filled i).set i (f i)) := set_eq (by omega)
    simp only [h i hi, hset, Option.bind_eq_bind, Option.bind_some, Option.some.injEq]
    refine Vector.ext fun j hj => ?_
    by_cases hij : i = j
    · simp [filled, hij]
    · have hiff : j < i + 1 ↔ j < i := by omega
      simp only [filled, Vector.getElem_set, Vector.getElem_ofFn, hij, hiff, if_false]

theorem copyPrefix_eq {n k count : Nat} {source : Vector UInt8 n} {target : Vector UInt8 k}
    (hn : count ≤ n) (hk : count ≤ k) :
    copyPrefix count source target = some (Vector.ofFn fun i =>
      if h : i.val < count then source[i.val] else target[i]) := by
  have hbyte (i : Nat) (hi : i < count) : get source i = some (source[i]?.getD 0) := by
    simp [get_eq (Nat.lt_of_lt_of_le hi hn), Nat.lt_of_lt_of_le hi hn]
  rw [copyPrefix, if_pos ⟨hn, hk⟩, fill_eq hk hbyte, Option.some.injEq]
  ext i hi
  by_cases hcount : i < count
  · simp [hcount, Nat.lt_of_lt_of_le hcount hn]
  · simp [hcount]

theorem length_range_le (x y : Register) : (range x y).length ≤ 16 := by
  rw [length_range]
  omega

end Blocks

/-! ## Instructions -/

def holds (v : Registers) (keys : Keyboard) : Condition → Option Bool
  | .isByte x b => do return (← register v x) == b
  | .isNotByte x b => do return (← register v x) != b
  | .same x y => do return (← register v x) == (← register v y)
  | .different x y => do return (← register v x) != (← register v y)
  | .keyDown x => do return keys.isDown ((← register v x) &&& 0x0F)
  | .keyUp x => do return !keys.isDown ((← register v x) &&& 0x0F)

/-- The sum overflows if the second number exceeds the room above the first one. -/
def alu (m : Machine) (op : Alu) (x y : Register) : Option Machine := do
  let a ← register m.v x
  let b ← register m.v y
  let s := if m.config.dialect.shiftsVy then b else a
  match op with
  | .move => setRegister m x b
  | .or => setRegister m x (a ||| b)
  | .and => setRegister m x (a &&& b)
  | .xor => setRegister m x (a ^^^ b)
  | .add =>
    let room ← sub 0xFF a.toNat
    setRegister (← setRegister m vf (flag (room < b.toNat))) x (a + b)
  | .sub => setRegister (← setRegister m vf (flag (b ≤ a))) x (a - b)
  | .subReverse => setRegister (← setRegister m vf (flag (a ≤ b))) x (b - a)
  | .shiftRight => setRegister (← setRegister m x (s >>> 1)) vf (s &&& 1)
  | .shiftLeft => setRegister (← setRegister m x (s <<< 1)) vf (s >>> 7)

def drawSprite (m : Machine) (x y : Register) (width height : Nat) : Option Machine := do
  let left ← register m.v x
  let top ← register m.v y
  let (display, hits) ←
    draw m.display ⟨m.memory, m.index.toNat, width, height⟩ left.toNat top.toNat
  let m ← setRegister { m with display } vf (UInt8.ofNat hits)
  return { m with redraw := true }

def indexAfter (m : Machine) (x : Register) : Option UInt16 :=
  if m.advancesIndex then do
    let count ← add 16 x.val 1
    return m.index + UInt16.ofNat count
  else return m.index

/-- The address of a glyph, which does not wrap. -/
def glyph (base height : UInt16) (digit : UInt8) : Option UInt16 := do
  let offset ← mul 16 height.toNat digit.toNat
  return UInt16.ofNat (← add 16 base.toNat offset)

def saveFlags (m : Machine) (x : Register) : Option (Vector UInt8 8) := do
  copyPrefix (min (← add word x.val 1) 8) m.v m.flags

def loadFlags (m : Machine) (x : Register) : Option Registers := do
  copyPrefix (min (← add word x.val 1) 8) m.flags m.v

def loadAudio (m : Machine) : Option (Vector UInt8 16) :=
  fill 16 (fun i => do read m.memory (← add word m.index.toNat i)) m.audio

def execute (m : Machine) (keys : Keyboard) : Instruction → Option Machine
  | .clear => do return m.present (← clear m.display)
  | .ret => do
    let (pc, stack) ← pop m.stack
    return { m with pc, stack }
  | .jump a => return { m with pc := a }
  | .call a => do
    let stack ← push m.stack m.pc
    return { m with pc := a, stack }
  | .skip c => do return { m with pc := if ← holds m.v keys c then m.pc + 2 else m.pc }
  | .setByte x b => setRegister m x b
  | .addByte x b => do setRegister m x ((← register m.v x) + b)
  | .alu op x y => alu m op x y
  | .setIndex a => return { m with index := a }
  | .jumpOffset x a => do
    let offset ← register m.v (if m.config.dialect.jumpsByVx then x else 0)
    return { m with pc := a + offset.toUInt16 }
  | .random x mask =>
    let (byte, m) := m.randomByte
    setRegister m x (byte &&& mask)
  | .draw x y n => drawSprite m x y 8 n.toNat
  | .readDelay x => setRegister m x m.delay
  | .awaitKey x => return { m with waiting := true, keyRegister := x }
  | .setDelay x => do return { m with delay := ← register m.v x }
  | .setSound x => do return { m with sound := ← register m.v x }
  | .addIndex x => do
    let value ← register m.v x
    let sum ← add 32 m.index.toNat value.toNat
    let m ← setRegister m vf (flag (0xFFF < sum))
    return { m with index := m.index + value.toUInt16 }
  | .smallGlyph x => do
    return { m with index := ← glyph Font.smallAddress Font.smallHeight (← register m.v x) }
  | .storeDecimal x => do
    let b ← register m.v x
    let memory ← write m.memory m.index.toNat (b / 100)
    let memory ← write memory (← add word m.index.toNat 1) (b % 100 / 10)
    let memory ← write memory (← add word m.index.toNat 2) (b % 10)
    return { m with memory }
  | .storeRegisters x => do
    let memory ← storeBlock m.memory m.v m.index.toNat 0 (upTo x)
    return { m with memory, index := ← indexAfter m x }
  | .loadRegisters x => do
    let v ← loadBlock m.memory m.v m.index.toNat 0 (upTo x)
    return { m with v, index := ← indexAfter m x }
  | .scrollDown n => do return m.present (← scrollDown m.display n.toNat)
  | .scrollRight => do return m.present (← scrollRight m.display)
  | .scrollLeft => do return m.present (← scrollLeft m.display)
  | .exit => return { m with finished := true }
  | .setResolution r => do return m.present (← setResolution m.display r)
  | .compatibility => return { m with compatibility := true }
  | .drawLarge x y => drawSprite m x y 16 16
  | .largeGlyph x => do
    return { m with index := ← glyph Font.largeAddress Font.largeHeight (← register m.v x) }
  | .saveFlags x => do return { m with flags := ← saveFlags m x }
  | .loadFlags x => do return { m with v := ← loadFlags m x }
  | .scrollUp n => do return m.present (← scrollUp m.display n.toNat)
  | .storeRange x y => do
    return { m with memory := ← storeBlock m.memory m.v m.index.toNat 0 (range x y) }
  | .loadRange x y => do
    return { m with v := ← loadBlock m.memory m.v m.index.toNat 0 (range x y) }
  | .setIndexLong a => return { m with index := a }
  | .loadAudio => do return { m with audio := ← loadAudio m }
  | .selectPlanes mask => return { m with display := m.display.setMask mask }

section Lemmas

variable {m : Machine} {keys : Keyboard}

theorem holds_eq (v : Registers) (c : Condition) : holds v keys c = some (c.holds v keys) := by
  cases c <;> simp [holds, Condition.holds]

theorem toNat_le (b : UInt8) : b.toNat ≤ 255 := Nat.le_of_lt_succ b.toNat_lt

theorem flag_congr {p q : Prop} [Decidable p] [Decidable q] (h : p ↔ q) : flag p = flag q := by
  simp only [flag, h]

theorem alu_eq (op : Alu) (x y : Register) :
    alu m op x y = some { m with v := op.apply m.config.dialect m.v x y } := by
  have hx := toNat_le (m.v.get x)
  have hroom : sub 0xFF (m.v.get x).toNat = some (0xFF - (m.v.get x).toNat) := sub_eq hx
  have hcarry : flag (0xFF - (m.v.get x).toNat < (m.v.get y).toNat) =
      flag (255 < (m.v.get x).toNat + (m.v.get y).toNat) := flag_congr (by omega)
  cases op <;> simp [alu, Alu.apply, hroom, hcarry]

theorem indexAfter_eq (x : Register) : indexAfter m x = some (m.indexAfter x) := by
  have hadd : add 16 x.val 1 = some (x.val + 1) := add_eq (by omega)
  unfold indexAfter Machine.indexAfter
  split <;> simp [hadd]

theorem glyph_eq {base height : UInt16} (h : base.toNat + height.toNat * 255 < 2 ^ 16)
    (digit : UInt8) : glyph base height digit = some (base + height * digit.toUInt16) := by
  have hdigit : height.toNat * digit.toNat ≤ height.toNat * 255 :=
    Nat.mul_le_mul_left _ (toNat_le digit)
  have hmul : mul 16 height.toNat digit.toNat = some (height.toNat * digit.toNat) :=
    mul_eq (by omega)
  have hadd : add 16 base.toNat (height.toNat * digit.toNat) =
      some (base.toNat + height.toNat * digit.toNat) := add_eq (by omega)
  simp only [glyph, hmul, hadd, Option.bind_eq_bind, Option.bind_some, Option.pure_def,
    Option.some.injEq]
  rw [← UInt16.toNat_inj]
  simp

theorem drawSprite_eq {x y : Register} {width height : Nat} (hplanes : m.display.planes.size ≤ 8)
    (hwidth : width ≤ 16) (hheight : height ≤ 255) :
    drawSprite m x y width height = some (m.drawSprite x y width height) := by
  have haddress : m.index.toNat < 2 ^ 16 := m.index.toNat_lt
  have hdrawable : Drawable ⟨m.memory, m.index.toNat, width, height⟩ (m.v.get x).toNat
      (m.v.get y).toNat :=
    ⟨Nat.lt_trans haddress (by decide), hwidth, hheight, toNat_le _, toNat_le _⟩
  simp [drawSprite, draw_eq hdrawable haddress hplanes, Machine.drawSprite]

theorem storeListed_eq (x y : Register) :
    storeBlock m.memory m.v m.index.toNat 0 (range x y) =
      some (m.memory.load m.index.toNat (m.contents (range x y))) := by
  have hindex : m.index.toNat < 2 ^ 16 := m.index.toNat_lt
  have hlength := length_range_le x y
  exact storeBlock_eq (by omega)

theorem loadListed_eq (x y : Register) :
    loadBlock m.memory m.v m.index.toNat 0 (range x y) = some (m.loadBlock (range x y)) := by
  have hindex : m.index.toNat < 2 ^ 16 := m.index.toNat_lt
  have hlength := length_range_le x y
  rw [loadBlock_eq (by omega), ← List.range_eq_range']
  rfl

theorem saveFlags_eq (x : Register) : saveFlags m x = some (m.savedFlags x) := by
  have hadd : add word x.val 1 = some (x.val + 1) := add_word (by omega)
  have hcopy : copyPrefix (min (x.val + 1) 8) m.v m.flags = _ :=
    copyPrefix_eq (by omega) (by omega)
  simp only [saveFlags, hadd, hcopy, Option.bind_eq_bind, Option.bind_some, Option.some.injEq]
  refine congrArg Vector.ofFn (funext fun i => ?_)
  by_cases hx : i.val ≤ x.val
  · rw [dif_pos (by omega), if_pos hx]
  · rw [dif_neg (by omega), if_neg hx]
    rfl

theorem loadFlags_eq (x : Register) : loadFlags m x = some (m.loadedFlags x) := by
  have hadd : add word x.val 1 = some (x.val + 1) := add_word (by omega)
  have hcopy : copyPrefix (min (x.val + 1) 8) m.flags m.v = _ :=
    copyPrefix_eq (by omega) (by omega)
  simp only [loadFlags, hadd, hcopy, Option.bind_eq_bind, Option.bind_some, Option.some.injEq]
  refine congrArg Vector.ofFn (funext fun i => ?_)
  have hle : i ≤ x ↔ i.val ≤ x.val := Iff.rfl
  by_cases hx : i.val < 8 ∧ i ≤ x
  · rw [dif_pos (by omega), dif_pos hx]
  · rw [dif_neg (by omega), dif_neg hx]
    rfl

theorem loadAudio_eq :
    loadAudio m = some (Vector.ofFn fun i => m.memory.read (m.index.toNat + i.val)) := by
  have hindex : m.index.toNat < 2 ^ 16 := m.index.toNat_lt
  have hbyte (i : Nat) (hi : i < 16) : (do read m.memory (← add word m.index.toNat i)) =
      some (m.memory.read (m.index.toNat + i)) := by
    simp [add_word (show m.index.toNat + i < 2 ^ 64 by omega)]
  rw [loadAudio, fill_eq (Nat.le_refl 16) hbyte]
  simp

theorem execute_eq (hplanes : m.display.planes.size ≤ 8) (hpointer : m.stack.pointer < 16)
    (i : Instruction) : execute m keys i = some (m.execute keys i) := by
  have hindex : m.index.toNat < 2 ^ 16 := m.index.toNat_lt
  cases i with
  | clear => simp [execute, clear_eq, Machine.execute]
  | ret => simp [execute, pop_eq hpointer, Machine.execute]
  | call a => simp [execute, push_eq hpointer, Machine.execute]
  | skip c => simp [execute, holds_eq, Machine.execute]
  | alu op x y => exact alu_eq op x y
  | draw x y n => exact drawSprite_eq hplanes (by decide) (toNat_le n)
  | drawLarge x y => exact drawSprite_eq hplanes (by decide) (by decide)
  | scrollDown n => simp [execute, scrollDown_eq, Machine.execute]
  | scrollUp n => simp [execute, scrollUp_eq, Machine.execute]
  | scrollRight => simp [execute, scrollRight_eq, Machine.execute]
  | scrollLeft => simp [execute, scrollLeft_eq, Machine.execute]
  | setResolution r => simp [execute, setResolution_eq, Machine.execute]
  | random x mask => simp [execute, Machine.randomByte, Machine.execute]
  | addIndex x =>
    have hvalue := toNat_le (m.v.get x)
    have hadd : add 32 m.index.toNat (m.v.get x).toNat = some (m.index.toNat + (m.v.get x).toNat) :=
      add_eq (by omega)
    simp [execute, hadd, Machine.execute]
  | smallGlyph x =>
    have h : glyph Font.smallAddress Font.smallHeight (m.v.get x) = _ :=
      glyph_eq (by decide) (m.v.get x)
    simp [execute, h, Machine.execute, Font.smallGlyph]
  | largeGlyph x =>
    have h : glyph Font.largeAddress Font.largeHeight (m.v.get x) = _ :=
      glyph_eq (by decide) (m.v.get x)
    simp [execute, h, Machine.execute, Font.largeGlyph]
  | storeDecimal x =>
    have hone : add word m.index.toNat 1 = some (m.index.toNat + 1) := add_word (by omega)
    have htwo : add word m.index.toNat 2 = some (m.index.toNat + 2) := add_word (by omega)
    simp [execute, hone, htwo, Machine.execute, Memory.load]
  | storeRegisters x => simp [execute, upTo, storeListed_eq, indexAfter_eq, Machine.execute]
  | loadRegisters x => simp [execute, upTo, loadListed_eq, indexAfter_eq, Machine.execute]
  | storeRange x y => simp [execute, storeListed_eq, Machine.execute]
  | loadRange x y => simp [execute, loadListed_eq, Machine.execute]
  | saveFlags x =>
    simp only [execute, saveFlags_eq, Option.bind_eq_bind, Option.bind_some, Option.pure_def,
      Machine.execute]
  | loadFlags x =>
    simp only [execute, loadFlags_eq, Option.bind_eq_bind, Option.bind_some, Option.pure_def,
      Machine.execute]
  | loadAudio =>
    simp only [execute, loadAudio_eq, Option.bind_eq_bind, Option.bind_some, Option.pure_def,
      Machine.execute]
  | _ => simp [execute, Machine.execute]

end Lemmas

end Chip8.Checked
