import Chip8.Proofs.Insulation
import Chip8.Proofs.Outcomes

namespace Chip8

-- A reply without what it shows of a trace.
def Reply.bare : Reply → Reply
  | .entry e => .entry e.bare
  | .trace _ => .trace #[]
  | .summary s => .summary { s with traceLength := 0 }
  | .nothing => .nothing
  | .number n => .number n
  | .truth b => .truth b

namespace Machine

-- The machine as it would be if it kept no trace.
def untraced (m : Machine) : Machine :=
  { m with traced := false, trace := #[] }

-- An outcome as it would be if the machine kept no trace.
def bared {α β : Type} (bare : α → β) : Outcome α → Outcome β
  | .ok a m => .ok (bare a) m.untraced
  | .error e m => .error e m.untraced

variable (m : Machine) (now : Float)

theorem untraced_record (e : Entry) : (m.record e).untraced = m.untraced := by
  rw [record]
  split <;> rfl

theorem tick_untraced : m.untraced.tick now = (m.tick now).map fun (periods, m) => (periods, m.untraced) := by
  have same : m.untraced.metronome = m.metronome := rfl
  simp only [tick, same]
  cases m.metronome.beat now <;> rfl

theorem cycle_untraced : m.untraced.cycle = bared Entry.bare m.cycle := by
  have same : m.untraced.core.cycle m.untraced.config.dialect = m.core.cycle m.config.dialect := rfl
  simp only [cycle, same]
  -- A cycle looks at the flag when its core has run, so the cases are how that went.
  cases m.core.cycle m.config.dialect with
  | mk fetched ran =>
    cases ran with
    | ok _ core =>
      simp only [bared, untraced_record]
      rfl
    | error e core =>
      cases e
      case fault f =>
        simp only [bared, untraced_record]
        rfl
      all_goals rfl

theorem step_untraced : m.untraced.step now = bared Entry.bare (m.step now) := by
  have same : m.untraced.halted = m.halted := rfl
  cases running : m.halted with
  | true =>
    rw [step_of_halted running, step_of_halted (same.trans running)]
    rfl
  | false =>
    have ticks := m.tick_untraced now
    cases t : m.tick now with
    | error e =>
      rw [t] at ticks
      rw [step_of_tick_error running t, step_of_tick_error (same.trans running) ticks]
      rfl
    | ok p =>
      rw [t] at ticks
      rw [step_of_tick running t, step_of_tick (same.trans running) ticks, cycle_untraced]

theorem runSteps_untraced (n : Nat) (later : List Float) :
    m.untraced.runSteps now n later = bared id (m.runSteps now n later) := by
  induction n generalizing m now later with
  | zero => rfl
  | succ n ih =>
    rw [runSteps, runSteps, step_untraced]
    cases m.step now with
    | error e m' => rfl
    | ok e m' =>
      have same : e.bare.fault = e.fault := rfl
      simp only [bared, same]
      cases e.fault with
      | some f => rfl
      | none => exact ih m' _ _

theorem run_untraced (limit : Option Int) (later : List Float) :
    m.untraced.run now limit later = bared (fun _ => #[]) (m.run now limit later) := by
  rw [run, run, runSteps_untraced]
  cases m.runSteps now (limit.getD defaultLimit).toNat later <;> rfl

theorem answer_untraced (call : Call) : m.untraced.answer now call = bared Reply.bare (m.answer now call) := by
  have core : m.untraced.core = m.core := rfl
  cases call <;> simp only [answer]
  case load image start =>
    have config : m.untraced.config = m.config := rfl
    simp only [load, bind, Except.bind, config, core]
    cases m.core.memory.load (start.getD m.config.startPc) image <;> rfl
  case reset => rfl
  case step =>
    rw [step_untraced]
    cases m.step now <;> rfl
  case run limit later =>
    rw [run_untraced]
    cases m.run now limit later <;> rfl
  case tick =>
    rw [tick_untraced]
    cases m.tick now <;> rfl
  case setKey key down =>
    simp only [setKey, core]
    cases m.core.setKey key down <;> rfl
  case readPixel x y =>
    rw [core]
    cases m.core.screen.read x y <;> rfl
  case writePixel x y lit =>
    simp only [writePixel, core]
    cases m.core.writePixel x y lit <;> rfl
  case readMemory a =>
    rw [core]
    cases m.core.memory.read a <;> rfl
  case writeMemory a v =>
    simp only [writeMemory, core]
    cases m.core.writeMemory a v <;> rfl
  case takeDisplaySignal | takeSoundSignal | summary => rfl

theorem afterCall_untraced (call : Call) : m.untraced.afterCall now call = (m.afterCall now call).untraced := by
  rw [afterCall_eq, afterCall_eq, answer_untraced]
  cases m.answer now call <;> rfl

theorem outcomes_untraced (history : List (Float × Call)) :
    m.untraced.outcomes history = (m.outcomes history).map (bared Reply.bare) := by
  induction history generalizing m with
  | nil => rfl
  | cons p history ih => rw [outcomes, outcomes, List.map_cons, answer_untraced, afterCall_untraced, ih]

-- Of two new machines, one traced and one not, the one that is not has the outcomes of the other without the trace, at
-- every call of a history. It never has a trace.
theorem tracing_disturbs_nothing (config : Config) (source : Source) (history : List (Float × Call)) :
    let traced := Machine.new config source true now
    let plain := Machine.new config source false now
    plain.outcomes history = (traced.outcomes history).map (bared Reply.bare) ∧
      ∀ o ∈ plain.outcomes history, (left o).trace = #[] ∧
        ∀ entries, answer? o = some (.trace entries) → entries = #[] := by
  intro traced plain
  have same : plain.outcomes history = (traced.outcomes history).map (bared Reply.bare) :=
    traced.outcomes_untraced history
  refine ⟨same, fun o mem => ?_⟩
  rw [same] at mem
  have ⟨o', _, out⟩ := List.mem_map.mp mem
  subst out
  cases o' with
  | error e m => exact ⟨rfl, nofun⟩
  | ok r m =>
    refine ⟨rfl, fun entries answered => ?_⟩
    cases r <;> cases answered
    rfl

end Machine
end Chip8
