import Chip8.Machine.Basic

/-! # Execution

What each instruction does. No instruction can fail; the program counter is expected to point past
the instruction already.
-/

namespace Chip8

open Register

namespace Machine

def advancesIndex (m : Machine) : Bool := m.config.dialect.advancesIndex || m.compatibility

def indexAfter (m : Machine) (x : Register) : UInt16 :=
  if m.advancesIndex then m.index + UInt16.ofNat (x.val + 1) else m.index

def contents (m : Machine) (rs : List Register) : List UInt8 := rs.map m.v.get

def loadBlock (m : Machine) (rs : List Register) : Registers :=
  Registers.assign m.v rs (m.memory.readBlock m.index.toNat rs.length)

/-- The flags once the registers up to `x` are saved, as far as there are flags. -/
def savedFlags (m : Machine) (x : Register) : Vector UInt8 8 :=
  Vector.ofFn fun i => if i.val ≤ x then m.v[i.val] else m.flags.get i

def loadedFlags (m : Machine) (x : Register) : Registers :=
  Vector.ofFn fun i => if h : i.val < 8 ∧ i ≤ x then m.flags[i.val] else m.v.get i

/-- Draws the sprite at `I`; `VF` counts the rows that hit. -/
def drawSprite (m : Machine) (x y : Register) (width height : Nat) : Machine :=
  let sprite : Sprite := ⟨m.memory, m.index.toNat, width, height⟩
  let (display, hits) := m.display.draw sprite (m.v.get x).toNat (m.v.get y).toNat
  { m with display, v := m.v.update vf (UInt8.ofNat hits), redraw := true }

def present (m : Machine) (display : Display) : Machine := { m with display, redraw := true }

def execute (m : Machine) (keys : Keyboard) : Instruction → Machine
  | .clear => m.present m.display.clear
  | .ret => { m with pc := m.stack.top, stack := m.stack.pop }
  | .jump a => { m with pc := a }
  | .call a => { m with pc := a, stack := m.stack.push m.pc }
  | .skip c => { m with pc := if c.holds m.v keys then m.pc + 2 else m.pc }
  | .setByte x b => { m with v := m.v.update x b }
  | .addByte x b => { m with v := m.v.update x (m.v.get x + b) }
  | .alu op x y => { m with v := op.apply m.config.dialect m.v x y }
  | .setIndex a => { m with index := a }
  | .jumpOffset x a =>
    let offset := m.v.get (if m.config.dialect.jumpsByVx then x else 0)
    { m with pc := a + offset.toUInt16 }
  | .random x mask =>
    { m with v := m.v.update x (m.random.byte &&& mask), random := m.random.next }
  | .draw x y n => m.drawSprite x y 8 n.toNat
  | .readDelay x => { m with v := m.v.update x m.delay }
  | .awaitKey x => { m with waiting := true, keyRegister := x }
  | .setDelay x => { m with delay := m.v.get x }
  | .setSound x => { m with sound := m.v.get x }
  | .addIndex x =>
    { m with
      v := m.v.update vf (flag (0xFFF < m.index.toNat + (m.v.get x).toNat))
      index := m.index + (m.v.get x).toUInt16 }
  | .smallGlyph x => { m with index := Font.smallGlyph (m.v.get x) }
  | .storeDecimal x =>
    let b := m.v.get x
    { m with memory := m.memory.load m.index.toNat [b / 100, b % 100 / 10, b % 10] }
  | .storeRegisters x =>
    let block := m.contents (upTo x)
    let index := m.indexAfter x
    { m with memory := m.memory.load m.index.toNat block, index }
  | .loadRegisters x => { m with v := m.loadBlock (upTo x), index := m.indexAfter x }
  | .scrollDown n => m.present (m.display.scrollDown n.toNat)
  | .scrollRight => m.present m.display.scrollRight
  | .scrollLeft => m.present m.display.scrollLeft
  | .exit => { m with finished := true }
  | .setResolution r => m.present (m.display.setResolution r)
  | .compatibility => { m with compatibility := true }
  | .drawLarge x y => m.drawSprite x y 16 16
  | .largeGlyph x => { m with index := Font.largeGlyph (m.v.get x) }
  | .saveFlags x => { m with flags := m.savedFlags x }
  | .loadFlags x => { m with v := m.loadedFlags x }
  | .scrollUp n => m.present (m.display.scrollUp n.toNat)
  | .storeRange x y =>
    let block := m.contents (range x y)
    { m with memory := m.memory.load m.index.toNat block }
  | .loadRange x y => { m with v := m.loadBlock (range x y) }
  | .setIndexLong a => { m with index := a }
  | .loadAudio =>
    { m with audio := Vector.ofFn fun i => m.memory.read (m.index.toNat + i.val) }
  | .selectPlanes mask => { m with display := m.display.setMask mask }

end Machine

def Instruction.notices (i : Instruction) (pc : UInt16) : Array Notice :=
  match i with
  | .setResolution r => #[.remark (.resolutionRequested r), .event (.resolutionSet r)]
  | .exit => #[.remark (.programExited (pc - 2))]
  | .selectPlanes mask => #[.remark (.planesSelected mask)]
  | _ => #[]

def Machine.perform (m : Machine) (keys : Keyboard) (i : Instruction) : Reply Unit :=
  let notices := i.notices m.pc
  ⟨.ok (), m.execute keys i, notices⟩

end Chip8
