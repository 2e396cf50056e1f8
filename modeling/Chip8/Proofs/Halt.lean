import Chip8.Proofs.Faults

namespace Chip8

namespace Core

instance (config : Config) (c : Core) : Decidable (c.Fetches config) :=
  inferInstanceAs (Decidable (_ → _))

variable (config : Config) (c : Core)

-- The operation of the next instruction, if there is one.
def facing? : Option Operation :=
  if c.Fetches config then Operation.decode c.nextWord else none

-- How many of the addresses from the index register on lie in memory.
def room : Nat :=
  (config.memorySize - c.state.index).toNat

-- What the next instruction leaves if it is at fault.

def pcAtFault : Int :=
  if c.Fetches config then word (c.state.pc + 2) else c.state.pc

def registersAtFault : List Int :=
  match c.facing? config with
  | some .loadRegisters => (c.state.load (c.memory.bytesFrom c.state.index (c.room config))).registers
  | _ => c.state.registers

def memoryAtFault : Memory :=
  match c.facing? config with
  | some .storeDigits =>
    c.memory.store c.state.index ((Operation.digits (c.state.value c.nextWord.x)).take (c.room config))
  | some .storeRegisters => c.memory.store c.state.index (c.state.registers.take (c.room config))
  | _ => c.memory

def screenAtFault : Screen :=
  match c.facing? config with
  | some .draw =>
    let rows := c.memory.bytesFrom c.state.index (c.room config)
    (Screen.Drawing.rows (c.screen, false) (c.state.value c.nextWord.x) (c.state.value c.nextWord.y) rows).1
  | _ => c.screen

def atFault : Core :=
  { c with
    state := { c.state with pc := c.pcAtFault config, registers := c.registersAtFault config }
    memory := c.memoryAtFault config
    screen := c.screenAtFault config }

variable {config : Config} {c : Core} {f : Fault} {op : Operation} {d : Dialect}

-- A row of addresses that leaves memory reaches as far as there is room.
theorem Sound.reach_of_shortage (h : c.Sound config) {n : Nat}
    (short : c.memory.shortage? c.state.index n = some (.fault f)) :
    c.memory.reach c.state.index n = c.room config := by
  have lt : c.memory.reach c.state.index n < n := by
    by_contra full
    simp [Memory.shortage?, full] at short
  obtain ⟨wraps, _⟩ := Memory.reach_lt_iff.mp lt
  unfold Memory.reach at lt ⊢
  rw [room, ← h.size]
  rw [if_neg (by simp [wraps])] at lt ⊢
  omega

theorem atFault_of_not_fetches (short : ¬ c.Fetches config) : c.atFault config = c := by
  simp only [atFault, pcAtFault, registersAtFault, memoryAtFault, screenAtFault, facing?, if_neg short]

theorem atFault_of_unknown (fetches : c.Fetches config) (unknown : Operation.decode c.nextWord = none) :
    c.atFault config = c.fetched := by
  simp only [atFault, pcAtFault, registersAtFault, memoryAtFault, screenAtFault, facing?, if_pos fetches,
    unknown]
  rfl

theorem atFault_of_decode (fetches : c.Fetches config) (decode : Operation.decode c.nextWord = some op)
    (h : c.Sound config) (fails : op.failure? c.nextWord c.fetched = some (.fault f)) :
    c.atFault config = op.after d c.nextWord c.fetched := by
  simp only [atFault, pcAtFault, registersAtFault, memoryAtFault, screenAtFault, facing?, if_pos fetches,
    decode]
  cases op <;> simp only [Operation.failure?, reduceCtorEq] at fails
  case hostRoutine => rfl
  case ret =>
    split at fails
    case isTrue empty =>
      simp only [Operation.after, empty]
      rfl
    case isFalse => cases fails
  case call =>
    split at fails
    case isTrue full =>
      simp only [Operation.after, Operation.failure?, if_pos full]
      rfl
    case isFalse => cases fails
  case skipHeld | skipReleased =>
    split at fails
    case isTrue beyond =>
      simp only [Operation.after, Operation.failure?, if_pos beyond]
      rfl
    case isFalse => cases fails
  case random => split at fails <;> cases fails
  case storeDigits =>
    have reach : c.fetched.memory.reach c.fetched.state.index 3 = c.room config :=
      h.fetched.reach_of_shortage fails
    simp only [Operation.after, reach]
    rfl
  case storeRegisters =>
    have reach : c.fetched.memory.reach c.fetched.state.index (c.nextWord.x + 1) = c.room config :=
      h.fetched.reach_of_shortage fails
    simp only [Operation.after, Operation.failure?, fails, reach]
    rfl
  case loadRegisters =>
    have reach : c.fetched.memory.reach c.fetched.state.index (c.nextWord.x + 1) = c.room config :=
      h.fetched.reach_of_shortage fails
    simp only [Operation.after, Operation.failure?, fails, reach]
    rfl
  case draw =>
    have reach : c.fetched.memory.reach c.fetched.state.index c.nextWord.n = c.room config :=
      h.fetched.reach_of_shortage fails
    simp only [Operation.after, Operation.failure?, fails, Operation.drawing, reach]
    rfl

theorem Sound.next_of_fault (h : c.Sound config) (fails : c.failure? = some (.fault f)) :
    c.next d = c.atFault config := by
  by_cases fetches : c.Fetches config
  case neg =>
    have short := Option.isSome_iff_ne_none.mpr (mt h.fetchFailure?_eq_none_iff.mp fetches)
    rw [Core.next, if_pos short, atFault_of_not_fetches fetches]
  case pos =>
    have fetch := h.fetchFailure?_eq_none_iff.mpr fetches
    simp only [failure?, fetch, Option.or] at fails
    simp only [Core.next, fetch]
    cases decode : Operation.decode c.nextWord with
    | none => exact (atFault_of_unknown fetches decode).symm
    | some op =>
      rw [decode] at fails
      exact (atFault_of_decode fetches decode h fails).symm

end Core

-- Calls that leave a halted machine as it is, but for its keys, its memory and what the host has been told.
def Call.isIdle : Call → Bool
  | .reset _ | .tick | .writePixel .. => false
  | _ => true

namespace Machine

variable {config : Config} {source : Source} {m m' m₁ : Machine} {now : Float} {periods : Int} {e : Entry}
  {f : Fault} {call : Call} {history : List (Float × Call)}

-- Everything that a machine at a fault leaves, after the time of its step has passed.
def atFault (m m₁ : Machine) (f : Fault) : Machine :=
  { m₁ with
    core := { m₁.core with
      state := { m₁.state with
        pc := m.core.pcAtFault m.config
        registers := m.core.registersAtFault m.config
        halted := true }
      memory := m.core.memoryAtFault m.config
      screen := m.core.screenAtFault m.config }
    fault := some f }

theorem memory_atFault (m m₁ : Machine) (f : Fault) :
    (m.atFault m₁ f).core.memory = m.core.memoryAtFault m.config :=
  rfl

theorem pc_atFault (m m₁ : Machine) (f : Fault) :
    (m.atFault m₁ f).core.state.pc = m.core.pcAtFault m.config :=
  rfl

theorem tick_atFault (t : m.tick now = .ok (periods, m₁)) :
    { m₁ with core := m₁.core.atFault m.config }.halt f = m.atFault m₁ f := by
  have ⟨_, _, core⟩ := tick_core t
  simp only [halt, atFault, Core.atFault, state, core]
  rfl

theorem step_at_fault (h : m.Sound config) (s : m.step now = .ok e m') (fault : e.fault = some f) :
    ∃ periods m₁, m.tick now = .ok (periods, m₁) ∧ m' = (m.atFault m₁ f).record e := by
  have ⟨_, periods, m₁, t, cycle⟩ := step_ok s
  have h₁ := h.tick t
  have ⟨fails, out⟩ := cycle_of_fault h₁ cycle fault
  refine ⟨periods, m₁, t, ?_⟩
  rw [out, advanced, h₁.core.next_of_fault fails, ← h.config_eq, tick_atFault t]

-- Two machines that show the same state, screen, trace and fault.
structure Alike (m m' : Machine) : Prop where
  state : m'.state = m.state
  screen : m'.core.screen = m.core.screen
  trace : m'.trace = m.trace
  fault : m'.fault = m.fault

theorem Alike.refl (m : Machine) : m.Alike m :=
  ⟨rfl, rfl, rfl, rfl⟩

theorem Alike.trans {m'' : Machine} (h : m.Alike m') (h' : m'.Alike m'') : m.Alike m'' :=
  ⟨h'.state.trans h.state, h'.screen.trans h.screen, h'.trace.trans h.trace, h'.fault.trans h.fault⟩

theorem Alike.halted (h : m.Alike m') (halted : m.halted = true) : m'.halted = true :=
  (congrArg State.halted h.state).trans halted

-- A halted machine does not run, but it answers a run of no steps.
theorem run_of_halted (halted : m.halted = true) (limit : Option Int) (later : List Float) :
    m.run now limit later = if 0 < limit.getD defaultLimit then .error (.fault (.haltedBy m.fault)) m
      else .ok m.trace m := by
  split
  case isTrue some =>
    have ⟨n, steps⟩ := Nat.exists_eq_add_one_of_ne_zero (show (limit.getD defaultLimit).toNat ≠ 0 by omega)
    simp only [run, steps, runSteps, step_of_halted halted]
  case isFalse none =>
    have steps : (limit.getD defaultLimit).toNat = 0 := by omega
    simp only [run, steps, runSteps]

theorem Alike.afterCall (halted : m.halted = true) (idle : call.isIdle = true) :
    m.Alike (m.afterCall now call) := by
  rw [afterCall_eq]
  cases call <;> simp only [answer]
  case load image start =>
    cases l : m.load image start with
    | error e => exact .refl m
    | ok m' =>
      obtain ⟨_, _, _, _, out⟩ := load_ok l
      rw [out]
      exact ⟨rfl, rfl, rfl, rfl⟩
  case step =>
    rw [left_replied, step_of_halted halted]
    exact .refl m
  case run limit later =>
    rw [left_replied, run_of_halted halted]
    split <;> exact .refl m
  case setKey =>
    refine left_changed (P := (m.Alike ·)) (.refl m) fun k => ?_
    obtain ⟨_, _, out⟩ := setKey_ok k
    exact out ▸ ⟨rfl, rfl, rfl, rfl⟩
  case writeMemory =>
    refine left_changed (P := (m.Alike ·)) (.refl m) fun w => ?_
    obtain ⟨_, _, out⟩ := writeMemory_ok w
    exact out ▸ ⟨rfl, rfl, rfl, rfl⟩
  case readPixel | readMemory =>
    rw [left_asked]
    exact .refl m
  case takeDisplaySignal | takeSoundSignal => exact ⟨rfl, rfl, rfl, rfl⟩
  case summary => exact .refl m
  all_goals cases idle

theorem Alike.afterCalls (halted : m.halted = true) (idle : ∀ p ∈ history, p.2.isIdle = true) :
    m.Alike (m.afterCalls history) := by
  induction history generalizing m with
  | nil => exact .refl m
  | cons p history ih =>
    have ⟨first, rest⟩ := List.forall_mem_cons.mp idle
    have here : m.Alike (m.afterCall p.1 p.2) := .afterCall halted first
    exact here.trans (ih (here.halted halted) rest)

-- A fault leaves what is due, and then nothing changes any more and every step fails, until a reset.
theorem fault_halts (r : m.Reachable config source) (s : m.step now = .ok e m') (fault : e.fault = some f) :
    (∃ periods m₁, m.tick now = .ok (periods, m₁) ∧ m' = (m.atFault m₁ f).record e) ∧
    ∀ history : List (Float × Call), (∀ p ∈ history, p.2.isIdle = true) →
      let m'' := m'.afterCalls history
      m'.Alike m'' ∧
      (∀ now, m''.step now = .error (.fault (.haltedBy f)) m'') ∧
      (∀ now limit later, m''.run now limit later = if 0 < limit.getD defaultLimit
        then .error (.fault (.haltedBy f)) m'' else .ok m''.trace m'') ∧
      ∀ clearMemory now, (m''.reset clearMemory now).halted = false := by
  have ⟨periods, m₁, t, out⟩ := step_at_fault r.sound s fault
  refine ⟨⟨periods, m₁, t, out⟩, ?_⟩
  intro history idle m''
  have halted : m'.halted = true := by
    rw [out, Machine.halted, record_core]
    rfl
  have cause : m'.fault = some f := by
    rw [out, record]
    split <;> rfl
  have alike : m'.Alike m'' := .afterCalls halted idle
  have stays := alike.halted halted
  have fault'' := alike.fault.trans cause
  refine ⟨alike, ?_, ?_, fun _ _ => rfl⟩
  case refine_1 =>
    intro now
    rw [step_of_halted stays, fault'']
  case refine_2 =>
    intro now limit later
    rw [run_of_halted stays, fault'']

-- A machine about to store three digits where memory has room for two.
def spilling : Machine :=
  (Machine.new (.small .strict) .zeros false 0).afterCalls
    [(0, .load [0x60, 0xff, 0xa0, 0x7e, 0xf0, 0x33] none), (0, .step), (0, .step)]

theorem spilling_halts : ∃ e m', spilling.step 0 = .ok e m' ∧ e.fault = some (.address 0x80 0x80) ∧
    m'.core.memory.bytesFrom 0x7e 2 = [2, 5] ∧ m'.state.pc = 0x66 ∧
    ∀ now later, (m'.afterCalls [(0, .setKey 3 true), (0, .step)]).run now none later =
      .error (.fault (.haltedBy (some (.address 0x80 0x80))))
        (m'.afterCalls [(0, .setKey 3 true), (0, .step)]) := by
  have answer : (answer? (spilling.step 0)).bind Entry.fault = some (.address 0x80 0x80) := by
    decide +kernel
  have ⟨e, answered, fault⟩ := Option.bind_eq_some_iff.mp answer
  have ⟨m', s⟩ := exists_of_answer? answered
  have reachable : spilling.Reachable (.small .strict) .zeros := (Reachable.new false 0).calls _
  have ⟨⟨_, m₁, _, out⟩, halts⟩ := fault_halts reachable s fault
  have ⟨_, _, runs, _⟩ := halts [(0, .setKey 3 true), (0, .step)] (by simp [Call.isIdle])
  refine ⟨e, m', s, fault, ?_, ?_, fun now => runs now none⟩
  case refine_1 =>
    rw [out, record_core, memory_atFault]
    decide +kernel
  case refine_2 =>
    rw [out, state, record_core, pc_atFault]
    decide +kernel

end Machine
end Chip8
