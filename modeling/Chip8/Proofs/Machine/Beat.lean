import Mathlib.Data.List.Forall2
import Chip8.Proofs.Machine.WellFormed

/-! # Beats

A machine that runs a program is driven by cycles and ticks in some order. Two machines stay in
step over a run if every beat keeps them in step.
-/

namespace Chip8

/-- Two replies with the same result and the same notices, which leave related machines behind. -/
structure Reply.Related (R : Machine → Machine → Prop) {α : Type} (r s : Reply α) : Prop where
  result : s.result = r.result
  notices : s.notices = r.notices
  machines : R r.machine s.machine

namespace Machine

variable {m n : Machine} {keys : Keyboard} {R : Machine → Machine → Prop}

/-- What a host does to a machine that runs a program. -/
inductive Beat
  | cycle (keys : Keyboard)
  | tick

namespace Beat

def operation : Beat → Operation
  | .cycle keys => .cycle keys
  | .tick => .tick

def replies (m : Machine) : List Beat → List (Reply Answer)
  | [] => []
  | beat :: beats =>
    let reply := beat.operation.apply m
    reply :: replies reply.machine beats

/-- `P` holds of each beat of a run and the machine that takes it. -/
def Throughout (P : Machine → Beat → Prop) (m : Machine) : List Beat → Prop
  | [] => True
  | beat :: beats => P m beat ∧ Throughout P (beat.operation.apply m).machine beats

theorem throughout_of_replies {Allowed : Reply Answer → Prop} {m : Machine} {beats : List Beat}
    (h : ∀ r ∈ replies m beats, Allowed r) :
    Throughout (fun m beat => Allowed (beat.operation.apply m)) m beats := by
  induction beats generalizing m with
  | nil => trivial
  | cons beat beats ih =>
    exact ⟨h _ List.mem_cons_self, ih fun r hr => h r (List.mem_cons_of_mem _ hr)⟩

def run (m : Machine) (beats : List Beat) : Machine := Operation.run m (beats.map operation)

def told (m : Machine) (beats : List Beat) : Array Notice :=
  Operation.told m (beats.map operation)

def outcomes (m : Machine) : List Beat → List (Except Fault Outcome)
  | [] => []
  | .cycle keys :: beats => (m.cycle keys).result :: outcomes (m.cycle keys).machine beats
  | .tick :: beats => outcomes m.tick.machine beats

/-- Two beats that differ in nothing but the keys that are held down. -/
inductive UpToKeys : Beat → Beat → Prop
  | cycle (keys keys' : Keyboard) : UpToKeys (.cycle keys) (.cycle keys')
  | tick : UpToKeys .tick .tick

end Beat

theorem config_pollKey : (m.pollKey keys).machine.config = m.config :=
  (steps_pollKey (A := fun _ => True) keys).config

@[simp] theorem config_beat (beat : Beat) : (beat.operation.apply m).machine.config = m.config :=
  Operation.config_apply

end Machine

theorem Reply.Related.map {α β : Type} {R : Machine → Machine → Prop} {r s : Reply α}
    (h : r.Related R s) (f : α → β) : (r.map f).Related R (s.map f) :=
  ⟨congrArg (Except.map f) h.result, h.notices, h.machines⟩

theorem Reply.Related.imp {α : Type} {R S : Machine → Machine → Prop} {r s : Reply α}
    (h : r.Related R s) (hRS : ∀ m n, R m n → S m n) : r.Related S s :=
  ⟨h.result, h.notices, hRS _ _ h.machines⟩

namespace Machine

/-- If related machines stay related over beats that belong together, as long as `P` holds of the
first machine and its beat, then they stay related over runs. -/
theorem Beat.lockstep_of_throughout {R : Machine → Machine → Prop} {B : Beat → Beat → Prop}
    {P : Machine → Beat → Prop}
    (step : ∀ {m n a b}, R m n → B a b → P m a →
      (a.operation.apply m).Related R (b.operation.apply n))
    {m n : Machine} {as bs : List Beat} (hb : List.Forall₂ B as bs) (h : R m n)
    (hp : Throughout P m as) :
    List.Forall₂ (Reply.Related R) (replies m as) (replies n bs) ∧ R (run m as) (run n bs) := by
  induction hb generalizing m n with
  | nil => exact ⟨.nil, h⟩
  | cons hab _ ih =>
    have hfirst := step h hab hp.1
    have hrest := ih hfirst.machines hp.2
    exact ⟨.cons hfirst hrest.1, hrest.2⟩

theorem Beat.lockstep {R : Machine → Machine → Prop} {B : Beat → Beat → Prop}
    {Allowed : Reply Answer → Prop}
    (step : ∀ {m n a b}, R m n → B a b → Allowed (a.operation.apply m) →
      (a.operation.apply m).Related R (b.operation.apply n))
    {m n : Machine} {as bs : List Beat} (hb : List.Forall₂ B as bs) (h : R m n)
    (ha : ∀ r ∈ replies m as, Allowed r) :
    List.Forall₂ (Reply.Related R) (replies m as) (replies n bs) ∧ R (run m as) (run n bs) :=
  lockstep_of_throughout step hb h (throughout_of_replies ha)

end Machine

end Chip8
