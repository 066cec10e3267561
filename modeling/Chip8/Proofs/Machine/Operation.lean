import Chip8.Display.Basic
import Chip8.Machine.Frame
import Chip8.Machine.Rom

/-! # Operations

Everything that a host can have a machine do, and what comes of it.
-/

namespace Chip8

def Notice.events (told : Array Notice) : Array Event := told.filterMap Notice.event?

@[simp] theorem Notice.events_append (told more : Array Notice) :
    events (told ++ more) = events told ++ events more := by
  simp [events]

@[simp] theorem Notice.events_push_remark (told : Array Notice) (r : Remark) :
    events (told.push (.remark r)) = events told := by
  rw [Array.push_eq_append, events_append]
  exact Array.append_empty

/-- What a host that records events takes down. -/
def Reply.events {α : Type} (r : Reply α) : Array Event := Notice.events r.notices

def Reply.map {α β : Type} (f : α → β) (r : Reply α) : Reply β where
  result := r.result.map f
  machine := r.machine
  notices := r.notices

inductive Operation
  | cycle (keys : Keyboard)
  | opcode (keys : Keyboard) (opcode : UInt16)
  | instruction (keys : Keyboard) (instruction : Instruction)
  | tick
  | frame (keys : Nat → Keyboard)
  | loadRom (bytes : List UInt8)
  | loadFile (files : Files) (name : String)
  | reset (files : Files) (entropy : Random.Key)
  | loadFonts
  | push (address : UInt16)
  | pop
  | dump

/-- What a host gets back from an operation. -/
inductive Answer
  | done
  | outcome (outcome : Outcome)
  | instruction (instruction : Instruction)
  | cycles (count : Nat)
  | address (address : UInt16)
  | text (text : String)
  deriving DecidableEq, Repr

namespace Operation

def apply (m : Machine) : Operation → Reply Answer
  | .cycle keys => (m.cycle keys).map .outcome
  | .opcode keys o => (m.executeOpcode keys o).map .instruction
  | .instruction keys i => (m.perform keys i).map fun _ => .done
  | .tick => m.tick.map fun _ => .done
  | .frame keys => (m.frame keys).map .cycles
  | .loadRom bytes => (m.loadRom bytes).map fun _ => .done
  | .loadFile files name => (m.loadFile files name).map fun _ => .done
  | .reset files entropy => (m.reset files entropy).map fun _ => .done
  | .loadFonts => ⟨.ok .done, m.loadFonts, #[]⟩
  | .push address => ⟨.ok .done, m.push address, #[]⟩
  | .pop => ⟨.ok (.address m.pop.1), m.pop.2, #[]⟩
  | .dump => ⟨.ok (.text m.display.dump), m, #[]⟩

/-- The machine that a list of operations leaves behind, one done after the other whether they
succeed or not. -/
def run (m : Machine) (ops : List Operation) : Machine :=
  ops.foldl (fun m op => (op.apply m).machine) m

@[simp] theorem run_nil (m : Machine) : run m [] = m := rfl

@[simp] theorem run_cons (m : Machine) (op : Operation) (ops : List Operation) :
    run m (op :: ops) = run (op.apply m).machine ops := rfl

theorem run_induction {P : Machine → Prop} {m : Machine} {ops : List Operation} (h : P m)
    (step : ∀ m, P m → ∀ op ∈ ops, P (apply m op).machine) : P (run m ops) := by
  induction ops generalizing m with
  | nil => exact h
  | cons op ops ih =>
    exact ih (step m h op List.mem_cons_self)
      fun m hm op hop => step m hm op (List.mem_cons_of_mem _ hop)

end Operation

/-- The machines that operations lead to from a new one. -/
def Machine.Reachable (m : Machine) : Prop :=
  ∃ c entropy m₀ ops, Machine.create c entropy = .ok m₀ ∧ m = Operation.run m₀ ops

end Chip8
