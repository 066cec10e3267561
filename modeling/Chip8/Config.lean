import Chip8.Variant
import Chip8.Fault

/-! # Configurations

What a host decides before it creates a machine.
-/

namespace Chip8

structure Config where
  variant : Variant
  dialect : Dialect
  memorySize : Nat
  planes : Nat
  loadAddress : UInt16
  startAddress : UInt16
  allowMisaligned : Bool
  cyclesPerFrame : Nat
  /-- Without a seed the random numbers are others each time. -/
  seed : Option UInt64
  deriving DecidableEq, Repr

namespace Config

def programStart : UInt16 := 0x200

def minimumMemory : Nat := 0x200

def maximumMemory : Nat := 0x10000

def standard (v : Variant) : Config where
  variant := v
  dialect := v.dialect
  memorySize := match v with
    | .xoChip => 0x10000
    | _ => 0x1000
  planes := match v with
    | .xoChip => 2
    | _ => 1
  loadAddress := programStart
  startAddress := programStart
  allowMisaligned := false
  cyclesPerFrame := match v with
    | .chip8 => 13
    | _ => 22
  seed := none

/-- Why no machine can be made to a configuration, the first reason if there are several. -/
def refusal? (c : Config) : Option Refusal :=
  if c.memorySize < minimumMemory then some .fontsDoNotFit
  else if maximumMemory < c.memorySize then some .memoryTooLarge
  else if c.planes < 1 ∨ 8 < c.planes then some .planeCount
  else if c.cyclesPerFrame = 0 then some .noCycles
  else none

end Config

end Chip8
