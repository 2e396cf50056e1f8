import Chip8.Proofs.Faults
import Mathlib.Data.List.Infix

namespace Chip8

namespace Operation

theorem after_calls (op : Operation) (d : Dialect) (w : Opcode) (c : Core) :
    (op.after d w c).state.calls = if op = ret then c.state.calls.tail
      else if op = call ∧ op.failure? w c = none then c.state.pc :: c.state.calls else c.state.calls := by
  cases op <;>
    simp only [after, Core.modifyState, State.skipIf_eq, State.advance_eq, reduceCtorEq, false_and, true_and, if_false,
      if_true]
  case ret =>
    cases stack : c.state.calls with
    | nil => exact stack
    | cons a calls => rfl
  case call =>
    cases call.failure? w c <;> rfl
  case skipHeld | skipReleased | random | draw | awaitKey | storeRegisters | loadRegisters => split <;> rfl
  all_goals rfl

end Operation

namespace Core

variable {c : Core} {d : Dialect} {op : Operation}

theorem next_of_word (h : c.word?.bind Operation.decode = some op) :
    c.next d = op.after d c.nextWord c.fetched ∧ c.failure? = op.failure? c.nextWord c.fetched := by
  simp only [word?] at h
  simp only [next, failure?]
  cases fetch : c.fetchFailure? with
  | some e => simp [fetch] at h
  | none =>
    have decode : Operation.decode c.nextWord = some op := by simpa [fetch] using h
    simp only [decode]
    exact ⟨rfl, rfl⟩

theorem next_of_no_word (h : c.word?.bind Operation.decode = none) :
    (c.next d).state.calls = c.state.calls := by
  simp only [word?] at h
  simp only [next]
  cases fetch : c.fetchFailure? with
  | some e => rfl
  | none =>
    have decode : Operation.decode c.nextWord = none := by simpa [fetch] using h
    simp only [decode]
    rfl

end Core

namespace Machine

variable {config : Config} {m m' : Machine} {now : Float} {op : Operation} {e : Entry}

-- A step that performs an operation without fault.
def Performs (m : Machine) (now : Float) (op : Operation) (m' : Machine) : Prop :=
  ∃ e, m.step now = .ok e m' ∧ e.operation? = some op ∧ e.fault = none

theorem cycle_of_succeeds (h : m.Sound config) (succeeds : m.core.failure? = none) :
    ∃ e m', m.cycle = .ok e m' ∧ e.fetched = m.core.word? ∧ e.fault = none := by
  rw [cycle_eq h, succeeds]
  exact ⟨_, _, rfl, rfl, rfl⟩

theorem tick_preserves_calls {periods : Int} (t : m.tick now = .ok (periods, m')) :
    m'.state.calls = m.state.calls := by
  have ⟨_, _, core⟩ := tick_core t
  rw [state, core]
  rfl

theorem stack_cycle (h : m.Sound config) :
    (left m.cycle).state.calls = (m.core.next m.config.dialect).state.calls ∧
      (left m.cycle).state.pc = (m.core.next m.config.dialect).state.pc := by
  have ⟨_, _, core⟩ := core_cycle h
  rw [state, core]
  exact ⟨rfl, rfl⟩

theorem fetched_of_step (h : m.Sound config) (s : m.step now = .ok e m') : e.fetched = m.core.word? := by
  obtain ⟨_, _, m₁, t, c⟩ := step_ok s
  rw [(cycle_leaves (h.tick t) c).seen.2.2, (tick_preserves_cycle t).1]

theorem Performs.faces (h : m.Sound config) (p : m.Performs now op m') : m.core.Faces config op := by
  obtain ⟨e, s, operation, _⟩ := p
  rw [Entry.operation?, fetched_of_step h s] at operation
  exact h.core.faces_iff.mpr operation

-- The operation is performed on the core that the step finds, except that time has passed for the timers. The step
-- counts itself besides.
theorem Performs.leaves (h : m.Sound config) (p : m.Performs now op m') : ∃ delay sound halted cycles,
    let c := m.core.modifyState fun s => { s with delayTimer := delay, soundTimer := sound }
    op.failure? m.core.nextWord c.fetched = none ∧
      m'.core = (op.after config.dialect m.core.nextWord c.fetched).modifyState fun s =>
        { s with halted := halted, cycles := cycles } := by
  have faces := p.faces h
  obtain ⟨e, s, _, fine⟩ := p
  obtain ⟨_, _, m₁, t, c⟩ := step_ok s
  have h₁ := h.tick t
  have faces₁ : m₁.core.Faces config op := (tick_faces t).mpr faces
  have failure := (cycle_leaves h₁ c).failure
  obtain ⟨halted, cycles, after⟩ := core_cycle h₁
  rw [fine, Option.map_none, faces₁.failure?_eq h₁.core] at failure
  rw [c, left, h₁.config_eq, faces₁.next_eq h₁.core] at after
  obtain ⟨delay, sound, core⟩ := tick_core t
  rw [core] at failure after
  exact ⟨delay, sound, halted, cycles, failure, after⟩

theorem exists_performs {m₁ : Machine} {periods : Int} (h : m.Sound config) (running : m.halted = false)
    (t : m.tick now = .ok (periods, m₁)) (faces : m.core.Faces config op)
    (fine : op.failure? m.core.nextWord m.core.fetched = none) : ∃ m', m.Performs now op m' := by
  obtain ⟨word, failure, _⟩ := tick_preserves_cycle t
  rw [faces.failure?_eq h.core, fine] at failure
  obtain ⟨e, m', c, fetched, fine⟩ := cycle_of_succeeds (h.tick t) failure
  refine ⟨m', e, (step_of_tick running t).trans c, ?_, fine⟩
  rw [Entry.operation?, fetched, word, h.core.faces_iff.mp faces]

theorem calls_of_call (h : m.Sound config) (call : m.Performs now .call m') :
    m'.state.calls = word (m.state.pc + 2) :: m.state.calls := by
  obtain ⟨_, _, _, _, fine, core⟩ := call.leaves h
  rw [state, core, Core.modifyState, Operation.after_calls, if_neg (by decide), if_pos ⟨rfl, fine⟩]
  rfl

-- A cycle that comes to a return finds the stack empty, or goes back to the address on its top.
theorem cycle_of_ret (h : m.Sound config) (ret : m.core.word?.bind Operation.decode = some .ret) :
    (left m.cycle).state.calls = m.state.calls ∨
    (∃ e, m.cycle = .ok e (left m.cycle) ∧ e.operation? = some .ret ∧ e.fault = none) ∧
      m.state.calls = (left m.cycle).state.pc :: (left m.cycle).state.calls := by
  obtain ⟨calls, pc⟩ := stack_cycle h
  obtain ⟨next, failure⟩ := Core.next_of_word (d := m.config.dialect) ret
  rw [next] at calls pc
  cases stack : m.state.calls with
  | nil =>
    rw [Operation.after_calls, if_pos rfl] at calls
    exact .inl (calls.trans (congrArg List.tail stack))
  | cons a rest =>
    have stack : m.core.fetched.state.calls = a :: rest := stack
    simp only [Operation.after, Operation.failure?, stack] at calls pc failure
    obtain ⟨e, m', c, fetched, fine⟩ := cycle_of_succeeds h failure
    refine .inr ⟨⟨e, ?_, ?_, fine⟩, ?_⟩
    case refine_1 => rw [c, left]
    case refine_2 => rw [Entry.operation?, fetched, ret]
    case refine_3 =>
      rw [calls, pc]
      rfl

-- A step leaves the stack as it is, puts an address on its top, or goes back to the address there.
theorem calls_stepped (h : m.Sound config) (now : Float) :
    (m.stepped now).state.calls = m.state.calls ∨
    (∃ a, (m.stepped now).state.calls = a :: m.state.calls) ∨
    m.Performs now .ret (m.stepped now) ∧
      m.state.calls = (m.stepped now).state.pc :: (m.stepped now).state.calls := by
  cases m.stepped_cases now with
  | inl idle => exact .inl (by rw [idle])
  | inr made =>
    have ⟨running, _, m₁, t, out⟩ := made
    have h₁ := h.tick t
    rw [Performs, step_of_tick running t, out, ← tick_preserves_calls t]
    cases op : m₁.core.word?.bind Operation.decode with
    | none => exact .inl ((stack_cycle h₁).1.trans (Core.next_of_no_word op))
    | some op' =>
      by_cases ret : op' = .ret
      case pos => exact (cycle_of_ret h₁ (ret ▸ op)).imp_right .inr
      case neg =>
        have calls := (stack_cycle h₁).1
        rw [(Core.next_of_word op).1, Operation.after_calls, if_neg ret] at calls
        split at calls
        case isTrue => exact .inr (.inl ⟨_, calls⟩)
        case isFalse => exact .inl calls

end Machine

-- Calls that make one step at the most and do not start over.
def Call.isSingle : Call → Bool
  | .reset _ | .run .. => false
  | _ => true

namespace Machine

variable {config : Config} {source : Source} {m m' : Machine} {now : Float} {call : Call} {op : Operation}
  {back : Int} {below : List Int} {history : List (Float × Call)}

theorem calls_afterCall (single : call.isSingle = true) (other : call ≠ .step) :
    (m.afterCall now call).state.calls = m.state.calls := by
  by_cases quiet : call.isQuiet = true
  case pos =>
    obtain ⟨_, _, _, core, _⟩ := m.afterCall_quiet now quiet other
    rw [state, core]
    rfl
  case neg =>
    rw [afterCall_eq]
    cases call <;> simp only [answer]
    case load image start =>
      cases l : m.load image start with
      | error e => rfl
      | ok m' =>
        obtain ⟨_, _, _, _, out⟩ := load_ok l
        rw [out]
        rfl
    case writePixel =>
      refine left_changed (P := (·.state.calls = m.state.calls)) rfl fun w => ?_
      obtain ⟨_, _, out⟩ := writePixel_ok w
      rw [out]
      rfl
    case writeMemory =>
      refine left_changed (P := (·.state.calls = m.state.calls)) rfl fun w => ?_
      obtain ⟨_, _, out⟩ := writeMemory_ok w
      rw [out]
      rfl
    case takeDisplaySignal => rfl
    case reset | run => cases single
    all_goals exact absurd rfl quiet

-- What lies on the stack stays there, until a return takes its top.
theorem suffix_or_returns (now : Float) (h : m.Sound config) (single : call.isSingle = true)
    (above : back :: below <:+ m.state.calls) :
    back :: below <:+ (m.afterCall now call).state.calls ∨
    call = .step ∧ m.Performs now .ret (m.afterCall now call) ∧
      (m.afterCall now call).state.calls = below ∧ (m.afterCall now call).state.pc = back := by
  by_cases step : call = .step
  case neg => exact .inl ((calls_afterCall single step).symm ▸ above)
  case pos =>
    rw [step, afterCall_step]
    obtain same | ⟨a, pushed⟩ | ⟨returns, popped⟩ := calls_stepped h now
    · exact .inl (same.symm ▸ above)
    · exact .inl (pushed.symm ▸ above.trans (List.suffix_cons ..))
    · rw [popped] at above
      cases List.suffix_cons_iff.mp above with
      | inl top =>
        have ⟨pc, calls⟩ := List.cons.inj top
        exact .inr ⟨rfl, returns, calls.symm, pc.symm⟩
      | inr deeper => exact .inl deeper

-- All along a history there are more than so many calls that have not returned.
def StaysAbove (m : Machine) (depth : Nat) (history : List (Float × Call)) : Prop :=
  ∀ before ∈ history.inits, depth < (m.afterCalls before).state.sp

theorem StaysAbove.tail {p : Float × Call} {depth : Nat} (stays : m.StaysAbove depth (p :: history)) :
    depth < (m.afterCall p.1 p.2).state.sp ∧ (m.afterCall p.1 p.2).StaysAbove depth history := by
  simp only [StaysAbove, List.inits_cons, List.forall_mem_cons, List.forall_mem_map] at stays
  have ⟨_, rest⟩ := stays
  exact ⟨rest [] ((List.mem_inits ..).mpr List.nil_prefix), rest⟩

theorem suffix_afterCalls (h : m.Sound config) (single : ∀ p ∈ history, p.2.isSingle = true)
    (above : back :: below <:+ m.state.calls) (stays : m.StaysAbove below.length history) :
    (m.afterCalls history).Sound config ∧ back :: below <:+ (m.afterCalls history).state.calls := by
  induction history generalizing m with
  | nil => exact ⟨h, above⟩
  | cons p history ih =>
    have ⟨first, rest⟩ := List.forall_mem_cons.mp single
    have ⟨more, later⟩ := stays.tail
    cases suffix_or_returns p.1 h first above with
    | inl kept => exact ih (h.afterCall p.1 p.2) rest kept later
    | inr returned =>
      have ⟨_, _, calls, _⟩ := returned
      rw [State.sp, calls] at more
      exact absurd more (Nat.lt_irrefl _)

theorem Performs.stepped (p : m.Performs now op m') : m.stepped now = m' := by
  have ⟨e, step, _⟩ := p
  rw [Machine.stepped, step, left]

-- Until a call returns, the stack holds what it held and the address behind the call. The first step that leaves
-- no more than it held is a return to that address.
theorem call_returns (r : m.Reachable config source) (call : m.Performs now .call m')
    (single : ∀ p ∈ history, p.2.isSingle = true) (stays : m'.StaysAbove m.state.sp history) :
    m.state.stack ++ [word (m.state.pc + 2)] <+: (m'.afterCalls history).state.stack ∧
    ∀ now' call', call'.isSingle = true →
      let m'' := (m'.afterCalls history).afterCall now' call'
      m''.state.sp ≤ m.state.sp → call' = .step ∧ (m'.afterCalls history).Performs now' .ret m'' ∧
        m''.state.stack = m.state.stack ∧ m''.state.pc = word (m.state.pc + 2) := by
  have h' : m'.Sound config := call.stepped ▸ (changes_step m now).sound r.sound
  have above : word (m.state.pc + 2) :: m.state.calls <:+ m'.state.calls := by
    rw [calls_of_call r.sound call]
  have ⟨sound, kept⟩ := suffix_afterCalls h' single above stays
  constructor
  case left =>
    rw [State.stack, State.stack, ← List.reverse_cons]
    exact List.reverse_prefix.mpr kept
  case right =>
    intro now' call' single' m'' short
    cases suffix_or_returns now' sound single' kept with
    | inl still =>
      have longer := still.length_le
      rw [List.length_cons] at longer
      exact absurd (Nat.le_trans longer short) (Nat.not_succ_le_self _)
    | inr returned =>
      have ⟨step, returns, calls, pc⟩ := returned
      exact ⟨step, returns, congrArg List.reverse calls, pc⟩

theorem performs_stepped
    (h : (answer? (m.step now)).map (fun e => (e.operation?, e.fault)) = some (some op, none)) :
    m.Performs now op (m.stepped now) := by
  have ⟨e, answered, out⟩ := Option.map_eq_some_iff.mp h
  have ⟨m', step⟩ := exists_of_answer? answered
  have ⟨ret, fine⟩ := Prod.mk.inj out
  exact ⟨e, by rw [stepped, step, left], ret, fine⟩

-- A program that calls a routine which calls another one.
def nesting : Machine :=
  (Machine.new (.small .strict) .zeros false 0).afterCall 0
    (.load [0x20, 0x64, 0x10, 0x62, 0x20, 0x68, 0x00, 0xee, 0x00, 0xee] none)

theorem nesting_returns :
    let m' := nesting.stepped 0
    let history := [(0, .step), (0, .setKey 3 true), (0, .step)]
    nesting.Performs 0 .call m' ∧ (∀ p ∈ history, p.2.isSingle = true) ∧
      m'.StaysAbove nesting.state.sp history ∧ (m'.afterCalls [(0, .step)]).state.stack = [0x62, 0x66] ∧
      ((m'.afterCalls history).afterCall 0 .step).state.sp ≤ nesting.state.sp ∧
      ((m'.afterCalls history).afterCall 0 .step).state.pc = 0x62 := by
  intro m' history
  have reachable : nesting.Reachable (.small .strict) .zeros := (Reachable.new false 0).call 0 _
  have call : nesting.Performs 0 .call m' := performs_stepped (by decide +kernel)
  have single : ∀ p ∈ history, p.2.isSingle = true := by decide
  have stays : m'.StaysAbove nesting.state.sp history := by
    unfold StaysAbove
    decide +kernel
  have short : ((m'.afterCalls history).afterCall 0 .step).state.sp ≤ nesting.state.sp := by decide +kernel
  have ⟨_, returns⟩ := call_returns reachable call single stays
  have ⟨_, _, _, pc⟩ := returns 0 .step rfl short
  have behind : word (nesting.state.pc + 2) = 0x62 := by decide +kernel
  exact ⟨call, single, stays, by decide +kernel, short, pc.trans behind⟩

end Machine
end Chip8
