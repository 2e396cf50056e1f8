import Chip8.Proofs.Reachable

namespace Chip8

def Failure.fault? : Failure → Option Fault
  | .fault f => some f
  | _ => none

-- The fault that a reply reports.
def Reply.fault? : Reply → Option Fault
  | .entry e => e.fault
  | _ => none

namespace Machine

-- The fault of an outcome: the one that fails it, or one that its answer reports.
def fault? {α : Type} (reported : α → Option Fault) : Outcome α → Option Fault
  | .ok a _ => reported a
  | .error e _ => e.fault?

def outcomes (m : Machine) : List (Float × Call) → List (Outcome Reply)
  | [] => []
  | (now, call) :: rest => m.answer now call :: (m.afterCall now call).outcomes rest

variable {α : Type} {config : Config} {m m' : Machine} {now : Float} {e : Failure}

theorem fault?_replied (reply : α → Reply) (o : Outcome α) :
    fault? Reply.fault? (replied reply o) = fault? (fun a => (reply a).fault?) o := by
  cases o <;> rfl

-- A clock that cannot be read is no fault.
theorem fault?_of_tick (t : m.tick now = .error e) : e.fault? = none := by
  simp only [tick, Metronome.beat, Timescale.quotient] at t
  split at t
  case isTrue =>
    cases t
    rfl
  case isFalse =>
    cases d : Double.ofFloat (Timescale.since now m.metronome.last / m.metronome.period) <;>
      simp only [d, Double.integer, Except.map] at t <;> cases t <;> rfl

-- A step reports its fault in its entry. Only a step of a halted machine fails with one.
theorem fault?_of_step (h : m.Sound config) (running : m.halted = false) (s : m.step now = .error e m') :
    e.fault? = none := by
  cases t : m.tick now with
  | error e =>
    rw [step_of_tick_error running t] at s
    cases s
    exact fault?_of_tick t
  | ok p =>
    obtain ⟨_, _, other⟩ := cycle_error (h.tick t) ((step_of_tick running t).symm.trans s)
    cases e with
    | fault f => exact absurd rfl (other f)
    | _ => rfl

end Machine
end Chip8
