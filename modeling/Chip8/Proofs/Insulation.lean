import Chip8.Proofs.Reachable
import Mathlib.Data.List.Forall2

namespace Chip8

namespace Operation

-- Operations that hand a program a random byte, a key or the delay timer.
def readsInput : Operation → Bool
  | random | skipHeld | skipReleased | awaitKey | loadDelay => true
  | _ => false

end Operation

namespace Core

-- A core in an environment in which nothing happens.
def blind (c : Core) : Core :=
  { c with
    state := { c.state with delayTimer := 0, soundTimer := 0 }
    keys := .empty
    wait := none
    source := .zeros }

variable {c : Core}

theorem blind_skip (c : Core) (b : Bool) :
    (c.blind.modifyState fun s => if b then s.skip else s).blind =
      (c.modifyState fun s => if b then s.skip else s).blind := by
  cases b <;> rfl

theorem blind_advance (c : Core) (d : Dialect) (count : Nat) :
    (c.blind.modifyState (·.advance d count)).blind = (c.modifyState (·.advance d count)).blind := by
  simp only [modifyState, State.advance]
  split <;> rfl

end Core

namespace Operation

variable {op : Operation}

theorem failure?_blind (quiet : op.readsInput = false) (w : Opcode) (c : Core) :
    op.failure? w c.blind = op.failure? w c := by
  cases op
  case random => cases quiet
  all_goals rfl

theorem after_blind (quiet : op.readsInput = false) (d : Dialect) (w : Opcode) (c : Core) :
    (op.after d w c.blind).blind = (op.after d w c).blind := by
  have failure := failure?_blind quiet w c
  cases op
  case random | skipHeld | skipReleased | awaitKey | loadDelay => cases quiet
  case ret =>
    have calls : c.blind.state.calls = c.state.calls := rfl
    simp only [after, calls]
    cases stack : c.state.calls <;> rfl
  case skipEqualByte | skipUnequalByte | skipEqual | skipUnequal => exact c.blind_skip _
  case call =>
    simp only [after, apply_ite Core.blind]
    rfl
  case draw =>
    simp only [after, apply_ite Core.blind]
    rfl
  -- Block transfers move the index register of a core that has changed already.
  case storeRegisters =>
    let stored := c.state.registers.take (c.memory.reach c.state.index (w.x + 1))
    simp only [after, failure]
    split
    · rfl
    · exact Core.blind_advance { c with memory := c.memory.store c.state.index stored } d _
  case loadRegisters =>
    let bytes := c.memory.bytesFrom c.state.index (c.memory.reach c.state.index (w.x + 1))
    simp only [after, failure]
    split
    · rfl
    · exact Core.blind_advance (c.modifyState (·.load bytes)) d _
  all_goals rfl

end Operation

namespace Core

variable {c : Core}

-- Whether the next instruction hands the program something of its environment.
def readsInput (c : Core) : Bool :=
  (c.word?.bind Operation.decode).any Operation.readsInput

theorem cycle_blind (quiet : c.readsInput = false) (d : Dialect) :
    c.blind.failure? = c.failure? ∧ (c.blind.next d).blind = (c.next d).blind := by
  have fetch : c.blind.fetchFailure? = c.fetchFailure? := rfl
  have word : c.blind.nextWord = c.nextWord := rfl
  simp only [readsInput, word?] at quiet
  simp only [failure?, next, fetch, word]
  cases fetches : c.fetchFailure? with
  | some e => exact ⟨rfl, rfl⟩
  | none =>
    simp only [fetches] at quiet
    cases decode : Operation.decode c.nextWord with
    | none => exact ⟨rfl, rfl⟩
    | some op =>
      have quiet : op.readsInput = false := by simpa [decode] using quiet
      have failure := Operation.failure?_blind quiet c.nextWord c.fetched
      have after := Operation.after_blind quiet d c.nextWord c.fetched
      exact ⟨failure, after⟩

end Core

-- An entry without the states that a trace keeps in it.
def Entry.bare (e : Entry) : Entry :=
  { e with before := none, after := none }

-- What of a machine does not depend on its environment.
structure View where
  core : Core
  displayWritten : Bool
  fault : Option Fault

namespace Machine

def view (m : Machine) : View :=
  ⟨m.core.blind, m.displayWritten, m.fault⟩

-- Whether a step of the machine hands the program something of its environment.
def takesInput (m : Machine) : Bool :=
  !m.halted && m.core.readsInput

-- Whether the clock lets a step happen. A machine that has halted does not look at it.
def Ticks (m : Machine) (now : Float) : Prop :=
  m.halted = true ∨ (m.tick now).isOk = true

instance (m : Machine) (now : Float) : Decidable (m.Ticks now) :=
  inferInstanceAs (Decidable (_ ∨ _))

-- The steps of a history that the clock lets happen: the machine that each of them finds, and its time.
def steps (m : Machine) : List (Float × Call) → List (Machine × Float)
  | [] => []
  | (now, call) :: rest =>
    let later := (m.afterCall now call).steps rest
    if call = .step ∧ m.Ticks now then (m, now) :: later else later

-- Outcomes that differ in the environment alone.
inductive Agree : Outcome Entry → Outcome Entry → Prop
  | ok {e e' : Entry} {m m' : Machine} : e.bare = e'.bare → m.view = m'.view → Agree (.ok e m) (.ok e' m')
  | error (e : Failure) {m m' : Machine} : m.view = m'.view → Agree (.error e m) (.error e m')

variable {config : Config} {m m' : Machine} {now now' : Float} {periods : Int} {call : Call}

theorem Agree.left {o o' : Outcome Entry} (a : Agree o o') : (left o).view = (left o').view := by
  cases a with
  | ok _ view => exact view
  | error _ view => exact view

theorem view_eq (core : m.core.blind = m'.core.blind) (signal : m.displayWritten = m'.displayWritten)
    (fault : m.fault = m'.fault) : m.view = m'.view := by
  rw [view, view, core, signal, fault]

theorem view_tick (t : m.tick now = .ok (periods, m')) : m'.view = m.view := by
  have ⟨_, _, out⟩ := tick_ok t
  have ⟨_, _, core⟩ := tick_core t
  rw [view, core, out]
  rfl

theorem view_of_not_step (quiet : call.isQuiet = true) (other : call ≠ .step) :
    (m.afterCall now call).view = m.view := by
  have ⟨_, _, _, core, signal, fault⟩ := m.afterCall_quiet now quiet other
  rw [view, core, signal, fault]
  rfl

-- A step that the clock does not let happen is none.
theorem stepped_of_not_ticks (idle : ¬ m.Ticks now) : m.stepped now = m := by
  cases m.stepped_cases now with
  | inl same => exact same
  | inr made =>
    have ⟨_, _, _, t, _⟩ := made
    exact absurd (.inr (by rw [t]; rfl)) idle

theorem halted_of_view (same : m.view = m'.view) : m.halted = m'.halted :=
  congrArg (fun v : View => v.core.state.halted) same

theorem readsInput_of_view (same : m.view = m'.view) : m.core.readsInput = m'.core.readsInput :=
  congrArg (fun v : View => v.core.readsInput) same

theorem recorded_agrees {after after' : Machine} (fault : Option Fault) (same : m.view = m'.view)
    (left : after.view = after'.view) : Agree (m.recorded after fault) (m'.recorded after' fault) := by
  have view (m : Machine) (e : Entry) : (m.record e).view = m.view := by
    rw [record]
    split <;> rfl
  have pc : m.state.pc = m'.state.pc := congrArg (fun v : View => v.core.state.pc) same
  have word : m.core.word? = m'.core.word? := congrArg (fun v : View => v.core.word?) same
  have cycles : after.state.cycles = after'.state.cycles :=
    congrArg (fun v : View => v.core.state.cycles) left
  refine .ok ?_ ?_
  case refine_1 => simp only [Entry.bare, entry, pc, word, cycles]
  case refine_2 => rw [view, view, left]

theorem cycle_agrees (h : m.Sound config) (h' : m'.Sound config) (same : m.view = m'.view)
    (quiet : m.core.readsInput = false) : Agree m.cycle m'.cycle := by
  have quiet' : m'.core.readsInput = false := readsInput_of_view same ▸ quiet
  have core : m.core.blind = m'.core.blind := congrArg View.core same
  have word : m.core.word? = m'.core.word? := congrArg (fun v : View => v.core.word?) same
  have signal : m.displayWritten = m'.displayWritten := congrArg View.displayWritten same
  have cause : m.fault = m'.fault := congrArg View.fault same
  have ⟨failure, next⟩ := Core.cycle_blind quiet config.dialect
  have ⟨failure', next'⟩ := Core.cycle_blind quiet' config.dialect
  have fails : m.core.failure? = m'.core.failure? := by rw [← failure, ← failure', core]
  have left : m.advanced.core.blind = m'.advanced.core.blind := by
    rw [advanced, advanced, h.config_eq, h'.config_eq, ← next, ← next', core]
  rw [cycle_eq h, cycle_eq h', fails]
  cases m'.core.failure? with
  | none =>
    refine recorded_agrees none same ?_
    have counted : (m.advanced.succeed m.core.word?).core.blind =
        (m'.advanced.succeed m'.core.word?).core.blind :=
      congrArg (·.modifyState fun s => { s with cycles := s.cycles + 1 }) left
    have shown : (m.advanced.succeed m.core.word?).displayWritten =
        (m'.advanced.succeed m'.core.word?).displayWritten := by
      simp only [succeed, advanced, signal, word]
    exact view_eq counted shown cause
  | some e =>
    cases e
    case fault f =>
      refine recorded_agrees (some f) same ?_
      have halted : (m.advanced.halt f).core.blind = (m'.advanced.halt f).core.blind :=
        congrArg (·.modifyState fun s => { s with halted := true }) left
      exact view_eq halted signal rfl
    all_goals exact .error _ (view_eq left signal cause)

theorem step_agrees (h : m.Sound config) (h' : m'.Sound config) (same : m.view = m'.view)
    (quiet : m.takesInput = false) (ticks : m.Ticks now) (ticks' : m'.Ticks now') :
    Agree (m.step now) (m'.step now') := by
  have halts := halted_of_view same
  have cause : m.fault = m'.fault := congrArg View.fault same
  cases running : m.halted with
  | true =>
    rw [step_of_halted running, step_of_halted (halts ▸ running), cause]
    exact .error _ same
  | false =>
    have running' : m'.halted = false := halts ▸ running
    have ⟨_, _, t⟩ := tick_of_isOk (ticks.resolve_left (by simp [running]))
    have ⟨_, _, t'⟩ := tick_of_isOk (ticks'.resolve_left (by simp [running']))
    rw [step_of_tick running t, step_of_tick running' t']
    have quiet : m.core.readsInput = false := by simpa [takesInput, running] using quiet
    exact cycle_agrees (h.tick t) (h'.tick t') ((view_tick t).trans (same.trans (view_tick t').symm))
      ((readsInput_of_view (view_tick t)).trans quiet)

-- Up to the first step of a history nothing happens that a program can tell.
theorem steps_eq_cons {history : List (Float × Call)} {s : Machine × Float} {later : List (Machine × Float)}
    (h : m.Sound config) (quiet : ∀ p ∈ history, p.2.isQuiet = true)
    (steps : m.steps history = s :: later) :
    s.1.Sound config ∧ s.1.view = m.view ∧ s.1.Ticks s.2 ∧
      ∃ rest, (∀ p ∈ rest, p.2.isQuiet = true) ∧ later = (s.1.stepped s.2).steps rest := by
  induction history generalizing m with
  | nil => cases steps
  | cons p history ih =>
    have ⟨first, rest⟩ := List.forall_mem_cons.mp quiet
    have goOn := ih (h.afterCall p.1 p.2) rest
    simp only [Machine.steps] at steps
    by_cases step : p.2 = .step
    case neg =>
      rw [if_neg fun made => step made.1] at steps
      rw [view_of_not_step first step] at goOn
      exact goOn steps
    case pos =>
      rw [step, afterCall_step] at steps goOn
      by_cases ticks : m.Ticks p.1
      case neg =>
        rw [if_neg fun made => ticks made.2] at steps
        rw [stepped_of_not_ticks ticks] at steps goOn
        exact goOn steps
      case pos =>
        rw [if_pos ⟨rfl, ticks⟩] at steps
        cases steps
        exact ⟨h, rfl, ticks, history, rest, rfl⟩

-- The calls between two steps do not have to match, so the induction is on the number of steps.
theorem steps_agree {history history' : List (Float × Call)} (h : m.Sound config) (h' : m'.Sound config)
    (same : m.view = m'.view) (calls : ∀ p ∈ history, p.2.isQuiet = true)
    (calls' : ∀ p ∈ history', p.2.isQuiet = true) (n : Nat) (enough : n ≤ (m.steps history).length)
    (enough' : n ≤ (m'.steps history').length)
    (quiet : ∀ s ∈ (m.steps history).take n, s.1.takesInput = false) :
    List.Forall₂ (fun s s' => Agree (s.1.step s.2) (s'.1.step s'.2))
      ((m.steps history).take n) ((m'.steps history').take n) := by
  induction n generalizing m m' history history' with
  | zero => exact .nil
  | succ n ih =>
    cases made : m.steps history with
    | nil => simp [made] at enough
    | cons s later =>
      cases made' : m'.steps history' with
      | nil => simp [made'] at enough'
      | cons s' later' =>
        have ⟨found, seen, ticks, rest, calm, goesOn⟩ := steps_eq_cons h calls made
        have ⟨found', seen', ticks', rest', calm', goesOn'⟩ := steps_eq_cons h' calls' made'
        rw [made, List.take_succ_cons] at quiet
        have ⟨first, others⟩ := List.forall_mem_cons.mp quiet
        have agree := step_agrees found found' (seen.trans (same.trans seen'.symm)) first ticks ticks'
        simp only [made, made', goesOn, goesOn', List.length_cons, Nat.add_le_add_iff_right] at enough enough'
        rw [goesOn] at others
        rw [List.take_succ_cons, List.take_succ_cons, goesOn, goesOn']
        exact .cons agree <| ih ((changes_step ..).sound found) ((changes_step ..).sound found') agree.left
          calm calm' enough enough' others

-- Two machines with the same program, in environments that do not have to have anything in common.
theorem insulated (config : Config) (image : List Int) (source source' : Source) (traced traced' : Bool)
    (now now' : Float) (history history' : List (Float × Call))
    (calls : ∀ p ∈ history, p.2.isQuiet = true) (calls' : ∀ p ∈ history', p.2.isQuiet = true) (n : Nat) :
    let m := (Machine.new config source traced now).afterCall now (.load image none)
    let m' := (Machine.new config source' traced' now').afterCall now' (.load image none)
    n ≤ (m.steps history).length → n ≤ (m'.steps history').length →
      (∀ s ∈ (m.steps history).take n, s.1.takesInput = false) →
        List.Forall₂ (fun s s' => Agree (s.1.step s.2) (s'.1.step s'.2))
          ((m.steps history).take n) ((m'.steps history').take n) := by
  intro m m' enough enough' quiet
  have sound : m.Sound config := (Sound.new config source traced now).afterCall now _
  have sound' : m'.Sound config := (Sound.new config source' traced' now').afterCall now' _
  have same : m.view = m'.view := by
    simp only [m, m', afterCall, answer, load, new, Core.new]
    cases Memory.load _ _ _ <;> rfl
  exact steps_agree sound sound' same calls calls' n enough enough' quiet

-- A program that sets both timers and draws, undisturbed and while keys go down and time passes.
theorem drawing_insulated :
    let image := [0x60, 0x05, 0xf0, 0x15, 0xf0, 0x18, 0xd0, 0x05]
    let history := [(0, .step), (0, .step), (0, .step), (0, .step)]
    let history' := [(1, .setKey 3 true), (1, .step), (2, .step), (2, .tick), (2, .setKey 5 true), (2, .step),
      (3, .takeSoundSignal), (3, .step), (3, .step)]
    let m := (Machine.new (.small .strict) .zeros false 0).afterCall 0 (.load image none)
    let m' := (Machine.new (.small .strict) (.cycle #[7] 2) true 1).afterCall 1 (.load image none)
    (∀ p ∈ history, p.2.isQuiet = true) ∧ (∀ p ∈ history', p.2.isQuiet = true) ∧
      4 ≤ (m.steps history).length ∧ 4 ≤ (m'.steps history').length ∧
      (∀ s ∈ (m.steps history).take 4, s.1.takesInput = false) ∧
      List.Forall₂ (fun s s' => Agree (s.1.step s.2) (s'.1.step s'.2))
        ((m.steps history).take 4) ((m'.steps history').take 4) := by
  intro image history history' m m'
  have calls : ∀ p ∈ history, p.2.isQuiet = true := by decide
  have calls' : ∀ p ∈ history', p.2.isQuiet = true := by decide
  have enough : 4 ≤ (m.steps history).length := by decide +kernel
  have enough' : 4 ≤ (m'.steps history').length := by decide +kernel
  have quiet : ∀ s ∈ (m.steps history).take 4, s.1.takesInput = false := by decide +kernel
  exact ⟨calls, calls', enough, enough', quiet,
    insulated (.small .strict) image _ _ _ _ _ _ history history' calls calls' 4 enough enough' quiet⟩

end Machine
end Chip8
