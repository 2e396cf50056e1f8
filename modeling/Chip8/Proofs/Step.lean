import Chip8.Machine.Loop
import Chip8.Proofs.Cycle

namespace Chip8

theorem exists_of_map {α β : Type} {x : Except Failure α} {f : α → β} {b : β} (h : x.map f = .ok b) :
    ∃ a, x = .ok a ∧ f a = b := by
  cases x with
  | error e => cases h
  | ok a => exact ⟨a, rfl, Except.ok.inj h⟩

end Chip8

namespace Chip8.State

variable (s : State) (periods : Int)

-- Time passes for the timers alone.
theorem elapse_eq : ∃ delay sound,
    (s.elapse periods).1 = { s with delayTimer := delay, soundTimer := sound } := by
  unfold elapse
  split
  · exact ⟨_, _, rfl⟩
  · exact ⟨_, _, rfl⟩

end Chip8.State

namespace Chip8.Machine

-- What a call leaves of a machine, whether it failed or not.
def left {α : Type} : Outcome α → Machine
  | .ok _ m | .error _ m => m

-- What a call answers, unless it fails.
def answer? {α : Type} : Outcome α → Option α
  | .ok a _ => some a
  | .error _ _ => none

theorem exists_of_answer? {α : Type} {r : Outcome α} {a : α} (h : answer? r = some a) :
    ∃ m, r = .ok a m := by
  cases r with
  | ok b m =>
    cases h
    exact ⟨m, rfl⟩
  | error e m => cases h

-- A machine after a step, whether the step failed or not.
def stepped (m : Machine) (now : Float) : Machine :=
  left (m.step now)

structure Sound (config : Config) (m : Machine) : Prop where
  config_eq : m.config = config
  core : m.core.Sound config

-- The machine with the core that a cycle leaves.
def advanced (m : Machine) : Machine :=
  { m with core := m.core.next m.config.dialect }

-- The machine with so many periods charged to its timers.
def elapse (m : Machine) (periods : Int) : Machine :=
  { m with
    core := { m.core with state := (m.core.state.elapse periods).1 }
    soundEnded := m.soundEnded || (m.core.state.elapse periods).2 }

-- The entry of a cycle that leaves a given machine.
def entry (m after : Machine) (fault : Option Fault) : Entry where
  cycle := after.state.cycles
  pc := m.state.pc
  fetched := m.core.word?
  fault := fault
  before := m.snapshot
  after := after.snapshot

-- A machine as it is recorded with the entry of the cycle that leaves it.
def recorded (m after : Machine) (fault : Option Fault) : Outcome Entry :=
  .ok (m.entry after fault) (after.record (m.entry after fault))

variable {config : Config} {m m' : Machine} {now : Float} {periods : Int}

theorem cycle_eq (h : m.Sound config) : m.cycle = match m.core.failure? with
    | none => m.recorded (m.advanced.succeed m.core.word?) none
    | some (.fault f) => m.recorded (m.advanced.halt f) (some f)
    | some e => .error e m.advanced := by
  have core : m.core.cycle _ = _ := Core.cycle_eq h.core m.config.dialect
  simp only [cycle, core]
  cases m.core.failure? with
  | none => rfl
  | some e => cases e <;> rfl

theorem tick_ok (t : m.tick now = .ok (periods, m')) :
    ∃ metronome, m.metronome.beat now = .ok (periods, metronome) ∧ m' = { m with
      core := { m.core with state := (m.core.state.elapse periods).1 }
      metronome := metronome
      soundEnded := m.soundEnded || (m.core.state.elapse periods).2 } := by
  obtain ⟨⟨_, metronome⟩, beat, out⟩ := exists_of_map t
  cases out
  exact ⟨metronome, beat, rfl⟩

theorem tick_of_isOk (ticks : (m.tick now).isOk = true) :
    ∃ periods m', m.tick now = .ok (periods, m') := by
  cases beat : m.tick now with
  | error e =>
    rw [beat] at ticks
    cases ticks
  | ok p => exact ⟨p.1, p.2, rfl⟩

theorem tick_core (t : m.tick now = .ok (periods, m')) : ∃ delay sound, m'.core = { m.core with
    state := { m.core.state with delayTimer := delay, soundTimer := sound } } := by
  have ⟨_, _, out⟩ := tick_ok t
  have ⟨delay, sound, time⟩ := m.core.state.elapse_eq periods
  exact ⟨delay, sound, by rw [out, time]⟩

theorem step_of_halted (h : m.halted = true) : m.step now = .error (.fault (.haltedBy m.fault)) m := by
  rw [step, if_pos h]

theorem step_of_tick (h : m.halted = false) (t : m.tick now = .ok (periods, m')) :
    m.step now = m'.cycle := by
  rw [step, if_neg (by simp [h]), t]

theorem step_of_tick_error {e : Failure} (h : m.halted = false) (t : m.tick now = .error e) :
    m.step now = .error e m := by
  rw [step, if_neg (by simp [h]), t]

theorem step_ok {e : Entry} {after : Machine} (s : m.step now = .ok e after) :
    m.halted = false ∧ ∃ periods m', m.tick now = .ok (periods, m') ∧ m'.cycle = .ok e after := by
  cases running : m.halted with
  | true => cases (step_of_halted running).symm.trans s
  | false =>
    cases t : m.tick now with
    | error e => cases (step_of_tick_error running t).symm.trans s
    | ok p => exact ⟨rfl, _, _, rfl, (step_of_tick running t).symm.trans s⟩

-- What an entry at fault tells of its cycle.
theorem cycle_of_fault {e : Entry} {f : Fault} (h : m.Sound config) (c : m.cycle = .ok e m')
    (fault : e.fault = some f) :
    m.core.failure? = some (.fault f) ∧ m' = (m.advanced.halt f).record e := by
  rw [cycle_eq h] at c
  split at c
  case h_1 =>
    cases c
    cases fault
  case h_2 g fails =>
    cases c
    cases fault
    exact ⟨fails, rfl⟩
  case h_3 => cases c

theorem stepped_of_halted (h : m.halted = true) : m.stepped now = m := by
  rw [stepped, step_of_halted h]
  rfl

theorem stepped_of_tick (h : m.halted = false) (t : m.tick now = .ok (periods, m')) :
    m.stepped now = left m'.cycle := by
  rw [stepped, step_of_tick h t]

-- A step that is not made leaves the machine as it is: one that has halted, or whose clock fails.
theorem stepped_cases (m : Machine) (now : Float) : m.stepped now = m ∨
    m.halted = false ∧ ∃ periods m', m.tick now = .ok (periods, m') ∧ m.stepped now = left m'.cycle := by
  cases running : m.halted with
  | true => exact .inl (stepped_of_halted running)
  | false =>
    cases t : m.tick now with
    | error e => exact .inl (congrArg left (step_of_tick_error running t))
    | ok p => exact .inr ⟨rfl, _, _, rfl, stepped_of_tick running t⟩

theorem record_core (m : Machine) (e : Entry) : (m.record e).core = m.core := by
  rw [record]
  split <;> rfl

theorem record_config (m : Machine) (e : Entry) : (m.record e).config = m.config := by
  rw [record]
  split <;> rfl

theorem record_displayWritten (m : Machine) (e : Entry) :
    (m.record e).displayWritten = m.displayWritten := by
  rw [record]
  split <;> rfl

theorem record_eq (m : Machine) (e : Entry) :
    m.record e = { m with trace := if m.traced then m.trace.push e else m.trace } := by
  rw [record]
  split <;> rfl

theorem metronome_cycle (m : Machine) : (left m.cycle).metronome = m.metronome := by
  have record (m : Machine) (e : Entry) : (m.record e).metronome = m.metronome := by
    rw [record_eq]
  simp only [cycle]
  split <;> simp only [left, record] <;> rfl

theorem core_cycle (h : m.Sound config) : ∃ halted cycles, (left m.cycle).core =
    (m.core.next m.config.dialect).modifyState fun s => { s with halted := halted, cycles := cycles } := by
  rw [cycle_eq h]
  split
  case h_1 =>
    simp only [recorded, left, record_core]
    exact ⟨_, _, rfl⟩
  case h_2 =>
    simp only [recorded, left, record_core]
    exact ⟨_, _, rfl⟩
  case h_3 => exact ⟨_, _, rfl⟩

-- All that the entry of a cycle, and the machine behind it, have to do with the machine before.
structure Leaves (m : Machine) (e : Entry) (m' : Machine) : Prop where
  entry : e = m.entry m' e.fault
  failure : m.core.failure? = e.fault.map .fault
  traced : m'.traced = m.traced
  trace : m'.trace = if m.traced then m.trace.push e else m.trace
  fault : m'.fault = e.fault.or m.fault
  halted : m'.halted = (e.fault.isSome || m.halted)
  cycles : m'.state.cycles = m.state.cycles + if e.fault.isNone then 1 else 0

theorem advanced_progress (m : Machine) :
    m.advanced.state.halted = m.state.halted ∧ m.advanced.state.cycles = m.state.cycles :=
  m.core.next_progress m.config.dialect

theorem cycle_leaves {e : Entry} (h : m.Sound config) (c : m.cycle = .ok e m') : m.Leaves e m' := by
  have ⟨halted, cycles⟩ := m.advanced_progress
  rw [cycle_eq h] at c
  split at c
  case h_1 succeeds =>
    cases c
    rw [record_eq]
    exact ⟨rfl, succeeds, rfl, rfl, rfl, halted, congrArg (· + 1) cycles⟩
  case h_2 f fails =>
    cases c
    rw [record_eq]
    exact ⟨rfl, fails, rfl, rfl, rfl, rfl, cycles.trans (Int.add_zero _).symm⟩
  case h_3 => cases c

-- A cycle that leaves no entry has failed without a fault.
theorem cycle_error {failure : Failure} (h : m.Sound config) (c : m.cycle = .error failure m') :
    m' = m.advanced ∧ m.core.failure? = some failure ∧ ∀ f, failure ≠ .fault f := by
  rw [cycle_eq h] at c
  split at c
  case h_1 | h_2 => cases c
  case h_3 other fails =>
    cases c
    exact ⟨rfl, fails, other⟩

namespace Leaves

variable {e : Entry}

theorem trace_concat (l : m.Leaves e m') (traced : m.traced = true) :
    m'.trace.toList = m.trace.toList ++ [e] := by
  rw [l.trace, if_pos traced, Array.toList_push]

theorem seen (l : m.Leaves e m') : e.cycle = m'.state.cycles ∧ e.pc = m.state.pc ∧ e.fetched = m.core.word? := by
  rw [l.entry]
  exact ⟨rfl, rfl, rfl⟩

theorem states (l : m.Leaves e m') (traced : m.traced = true) :
    e.before = some m.state ∧ e.after = some m'.state := by
  rw [l.entry]
  exact ⟨if_pos traced, if_pos (l.traced.trans traced)⟩

end Leaves

-- What the calls of a host that go well leave of a machine.

theorem load_ok {image : List Int} {start : Option Int} (l : m.load image start = .ok m') :
    ∃ (i : Fin m.core.memory.cells.size) (bytes : List UInt8), bytesOf image = .ok bytes ∧
      m.core.memory.cell (start.getD m.config.startPc) = .ok i ∧ m' = { m with
        core := { m.core with memory := m.core.memory.place i bytes }
        programSize := m.core.memory.room i bytes.length } := by
  simp only [load, Memory.load, bind, Except.bind] at l
  cases bytes : bytesOf image with
  | error e => simp [bytes] at l
  | ok bytes' =>
    cases cell : m.core.memory.cell (start.getD m.config.startPc) with
    | error e => simp [bytes, cell] at l
    | ok i =>
      simp only [bytes, cell, pure, Except.pure, Except.ok.injEq] at l
      exact ⟨i, bytes', rfl, rfl, l.symm⟩

theorem setKey_ok {key : Int} {down : Bool} (k : m.setKey key down = .ok m') :
    ∃ keys, m.core.keys.set key down = .ok keys ∧ m' = { m with core := { m.core with keys := keys } } := by
  obtain ⟨_, core, rfl⟩ := exists_of_map k
  obtain ⟨keys, set, rfl⟩ := exists_of_map core
  exact ⟨keys, set, rfl⟩

theorem writeMemory_ok {a v : Int} (w : m.writeMemory a v = .ok m') :
    ∃ i, m.core.memory.cell a = .ok i ∧
      m' = { m with core := { m.core with memory := m.core.memory.put i v } } := by
  obtain ⟨_, core, rfl⟩ := exists_of_map w
  obtain ⟨i, cell, rfl⟩ := exists_of_map core
  exact ⟨i, cell, rfl⟩

theorem writePixel_ok {x y : Int} {lit : Bool} (w : m.writePixel x y lit = .ok m') :
    ∃ i, m.core.screen.index x y .noPlace = .ok i ∧
      m' = { m with core := { m.core with screen := m.core.screen.put i lit } } := by
  obtain ⟨_, core, rfl⟩ := exists_of_map w
  obtain ⟨_, screen, rfl⟩ := exists_of_map core
  obtain ⟨i, place, rfl⟩ := exists_of_map screen
  exact ⟨i, place, rfl⟩

theorem start_ok (s : m.start = .ok m') : m.halted = false ∧ m' = { m with looping := true } := by
  simp only [start] at s
  split at s
  case isTrue => cases s
  case isFalse =>
    split at s
    case isTrue => cases s
    case isFalse running =>
      cases s
      exact ⟨by simpa using running, rfl⟩

end Chip8.Machine

namespace Chip8.Machine.Sound

variable {config : Config} {m m' : Machine} {now : Float} {periods : Int}

theorem new (config : Config) (source : Source) (traced : Bool) (now : Float) :
    (Machine.new config source traced now).Sound config :=
  ⟨rfl, Core.new_sound config source⟩

theorem withCore {c : Core} (h : m.Sound config) (core : c.Sound config) :
    { m with core := c }.Sound config :=
  ⟨h.config_eq, core⟩

theorem elapse (h : m.Sound config) (periods : Int) : (m.elapse periods).Sound config := by
  have ⟨delay, sound, time⟩ := m.core.state.elapse_eq periods
  refine ⟨h.config_eq, h.core.withState (h.core.valid.elapse periods) ?_ ?_⟩
  · rw [time]
  · rw [time]

theorem tick (h : m.Sound config) (t : m.tick now = .ok (periods, m')) : m'.Sound config := by
  have ⟨_, _, out⟩ := tick_ok t
  have sound := h.elapse periods
  exact out ▸ ⟨sound.config_eq, sound.core⟩

theorem advanced (h : m.Sound config) : m.advanced.Sound config := by
  have dialect : m.config.dialect = config.dialect := by rw [h.config_eq]
  exact h.withCore (dialect ▸ h.core.next)

theorem succeed (h : m.Sound config) (w : Option Opcode) : (m.succeed w).Sound config := by
  have cycles := h.core.valid.cycles
  refine ⟨h.config_eq, h.core.withState { h.core.valid with cycles := ?_ }⟩
  dsimp only
  omega

theorem halt (h : m.Sound config) (f : Fault) : (m.halt f).Sound config :=
  ⟨h.config_eq, h.core.withState { h.core.valid with }⟩

theorem record (h : m.Sound config) (e : Entry) : (m.record e).Sound config :=
  ⟨(m.record_config e).trans h.config_eq, m.record_core e ▸ h.core⟩

theorem cycle (h : m.Sound config) : (left m.cycle).Sound config := by
  rw [cycle_eq h]
  split
  · exact (h.advanced.succeed _).record _
  · exact (h.advanced.halt _).record _
  · exact h.advanced

theorem load {image : List Int} {start : Option Int} (h : m.Sound config)
    (l : m.load image start = .ok m') : m'.Sound config := by
  have ⟨i, bytes, _, _, out⟩ := load_ok l
  rw [out]
  exact ⟨h.config_eq, h.core.withMemory (Memory.size_place _ _ (Nat.le_of_lt i.isLt)) rfl⟩

-- Memory is set up anew by a reset that clears it.
theorem freshMemory_eq (h : m.Sound config) (source : Source) :
    m.freshMemory = (Core.new config source).memory := by
  rw [freshMemory, Memory.clear, h.core.size, h.core.wraps, h.config_eq]
  rfl

theorem reset (h : m.Sound config) (clearMemory : Bool) (now : Float) :
    (m.reset clearMemory now).Sound config := by
  have fresh := Core.new_sound config m.core.source
  have size : m.freshMemory.size = config.memorySize := by
    rw [h.freshMemory_eq m.core.source]
    exact fresh.size
  obtain ⟨rfl, core⟩ := h
  refine ⟨rfl, { core with
    valid := fresh.valid
    depth := rfl
    returns := fresh.returns
    size := ?_
    wraps := ?_ }⟩
  case refine_1 =>
    cases clearMemory
    · exact core.size
    · exact size
  case refine_2 =>
    cases clearMemory
    · exact core.wraps
    · exact core.wraps

theorem writeMemory {a v : Int} (h : m.Sound config) (w : m.writeMemory a v = .ok m') :
    m'.Sound config := by
  have ⟨i, _, out⟩ := writeMemory_ok w
  exact out ▸ h.withCore (h.core.withMemory (Memory.size_put ..) rfl)

theorem setKey {key : Int} {down : Bool} (h : m.Sound config) (k : m.setKey key down = .ok m') :
    m'.Sound config := by
  have ⟨keys, _, out⟩ := setKey_ok k
  exact out ▸ h.withCore (h.core.withKeys keys)

theorem writePixel {x y : Int} {lit : Bool} (h : m.Sound config)
    (w : m.writePixel x y lit = .ok m') : m'.Sound config := by
  have ⟨i, _, out⟩ := writePixel_ok w
  exact out ▸ h.withCore (h.core.withScreen (.put ..))

theorem start (h : m.Sound config) (s : m.start = .ok m') : m'.Sound config := by
  have ⟨_, out⟩ := start_ok s
  exact out ▸ ⟨h.config_eq, h.core⟩

end Chip8.Machine.Sound

namespace Chip8.Machine

variable {config : Config} {m m' : Machine} {now : Float} {periods : Int}

-- A step whose cycle has no failure counts one cycle more.
theorem step_of_succeeds (h : m.Sound config) (running : m.halted = false)
    (t : m.tick now = .ok (periods, m')) (succeeds : m'.core.failure? = none) :
    ∃ e after, m.step now = .ok e after ∧ e.fault = none ∧ after.core =
      (m'.core.next config.dialect).modifyState fun s => { s with cycles := s.cycles + 1 } := by
  have sound := h.tick t
  have step : m.step now = m'.recorded (m'.advanced.succeed m'.core.word?) none := by
    rw [step_of_tick running t, cycle_eq sound, succeeds]
  refine ⟨_, _, step, rfl, ?_⟩
  rw [record_core, ← sound.config_eq]
  rfl

end Chip8.Machine
