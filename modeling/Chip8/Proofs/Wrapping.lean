import Chip8.Proofs.Faults
import Chip8.Proofs.Outcomes

namespace Chip8

def Fault.isAddress : Fault → Bool
  | address .. => true
  | _ => false

def Config.wrapping (config : Config) : Config :=
  { config with addressMode := .wrap }

namespace Memory

def wrapping (m : Memory) : Memory :=
  { m with wraps := true }

variable {m : Memory} {a : Int} {n : Nat}

theorem cell_wrapping {i : Fin m.cells.size} (h : m.cell a = .ok i) : m.wrapping.cell a = .ok i := by
  simp only [cell, wrapping] at h ⊢
  split at h
  case isTrue inside => rw [dif_pos inside, h]
  case isFalse outside =>
    split at h
    case isTrue =>
      rw [dif_neg outside]
      exact h
    case isFalse => cases h

theorem cell_of_inside_memory (pos : 0 < m.size)
    (h : ∀ b size, m.cell a ≠ .error (.fault (.address b size))) : ∃ i, m.cell a = .ok i := by
  by_cases reaches : m.Reaches a
  case pos => exact cell_of_reaches pos reaches
  case neg => exact absurd (cell_of_not_reaches reaches) (h _ _)

theorem byteAt_wrapping (pos : 0 < m.size) (h : m.Reaches a) : m.wrapping.byteAt a = m.byteAt a := by
  have ⟨i, hi⟩ := cell_of_reaches pos h
  simp only [byteAt, read, hi, cell_wrapping hi]
  rfl

theorem poke_wrapping (pos : 0 < m.size) (h : m.Reaches a) (v : Int) :
    m.wrapping.poke a v = (m.poke a v).wrapping := by
  have ⟨i, hi⟩ := cell_of_reaches pos h
  simp only [poke, hi, cell_wrapping hi]
  rfl

theorem reaches_poke {b v : Int} : (m.poke a v).Reaches b ↔ m.Reaches b := by
  rw [Reaches, Reaches, size_poke, wraps_poke]

theorem store_wrapping (pos : 0 < m.size) (vs : List Int) (h : ∀ i < vs.length, m.Reaches (a + i)) :
    m.wrapping.store a vs = (m.store a vs).wrapping := by
  induction vs generalizing m a with
  | nil => rfl
  | cons v vs ih =>
    have first : m.Reaches a := by simpa using h 0 (by simp)
    rw [store, store, poke_wrapping pos first]
    apply ih
    · rwa [size_poke]
    · intro i hi
      have next := h (i + 1) (by simpa using hi)
      rw [Int.natCast_succ, Int.add_comm (i : Int), ← Int.add_assoc] at next
      exact reaches_poke.mpr next

theorem bytesFrom_wrapping (pos : 0 < m.size) (h : ∀ i < n, m.Reaches (a + i)) :
    m.wrapping.bytesFrom a n = m.bytesFrom a n := by
  apply List.map_congr_left
  intro i hi
  exact byteAt_wrapping pos (h i (List.mem_range.mp hi))

theorem shortage?_of_wraps (wraps : m.wraps = true) (a : Int) (n : Nat) : m.shortage? a n = none := by
  rw [shortage?, reach_of_wraps wraps, if_neg (Nat.lt_irrefl n)]

theorem reach_wrapping (m : Memory) (a : Int) (n : Nat) : m.wrapping.reach a n = n :=
  reach_of_wraps rfl a n

theorem shortage?_wrapping (m : Memory) (a : Int) (n : Nat) : m.wrapping.shortage? a n = none :=
  shortage?_of_wraps rfl a n

theorem reach_of_no_shortage (h : m.shortage? a n = none) : m.reach a n = n := by
  have := m.reach_le a n
  simp only [shortage?] at h
  split at h
  case isTrue => cases h
  case isFalse => omega

-- A row of addresses that is not short of memory in strict mode is read and written alike in both modes.
theorem reaches_of_no_shortage (ha : 0 ≤ a) (h : m.shortage? a n = none) :
    ∀ i < n, m.Reaches (a + i) := by
  intro i hi
  apply reaches_of_lt_reach ha
  rwa [reach_of_no_shortage h]

theorem no_shortage (h : ∀ b size, m.shortage? a n ≠ some (.fault (.address b size))) :
    m.shortage? a n = none := by
  simp only [shortage?] at h ⊢
  split
  case isTrue short => exact absurd (if_pos short) (h _ _)
  case isFalse => rfl

end Memory

def Core.wrapping (c : Core) : Core :=
  { c with memory := c.memory.wrapping }

namespace Operation

variable {config : Config} {c : Core} {op : Operation} {d : Dialect} {w : Opcode}

theorem wrapping_eq (h : c.Sound config)
    (clean : ∀ a size, op.failure? w c ≠ some (.fault (.address a size))) :
    op.failure? w c.wrapping = op.failure? w c ∧ op.after d w c.wrapping = (op.after d w c).wrapping := by
  have pos := h.memory_pos
  have index := h.valid.index.1
  cases op
  case ret =>
    refine ⟨rfl, ?_⟩
    simp only [after, Core.wrapping]
    cases c.state.calls <;> rfl
  case call | skipHeld | skipReleased =>
    refine ⟨rfl, ?_⟩
    simp only [after, apply_ite Core.wrapping]
    rfl
  case random =>
    refine ⟨rfl, ?_⟩
    simp only [after, Core.wrapping]
    cases c.source.draw? <;> rfl
  case storeDigits =>
    have full := Memory.no_shortage clean
    have stored := Memory.store_wrapping pos (digits (c.state.value w.x))
      (Memory.reaches_of_no_shortage index full)
    refine ⟨(c.memory.shortage?_wrapping ..).trans full.symm, ?_⟩
    simp only [after, Core.wrapping, Memory.reach_of_no_shortage full, Memory.reach_wrapping]
    exact congrArg (fun memory => { c with memory := memory }) stored
  case storeRegisters =>
    have full := Memory.no_shortage clean
    have length : (c.state.registers.take (w.x + 1)).length ≤ w.x + 1 := List.length_take_le ..
    have stored := Memory.store_wrapping pos (c.state.registers.take (w.x + 1))
      fun i hi => Memory.reaches_of_no_shortage index full i (Nat.lt_of_lt_of_le hi length)
    refine ⟨(c.memory.shortage?_wrapping ..).trans full.symm, ?_⟩
    simp only [after, failure?, Core.wrapping, Memory.shortage?_wrapping, full,
      Memory.reach_of_no_shortage full, Memory.reach_wrapping, stored]
    rfl
  case loadRegisters =>
    have full := Memory.no_shortage clean
    have loaded := Memory.bytesFrom_wrapping pos (Memory.reaches_of_no_shortage index full)
    refine ⟨(c.memory.shortage?_wrapping ..).trans full.symm, ?_⟩
    simp only [after, failure?, Core.wrapping, Memory.shortage?_wrapping, full,
      Memory.reach_of_no_shortage full, Memory.reach_wrapping, loaded]
    rfl
  case draw =>
    have full := Memory.no_shortage clean
    have drawn := Memory.bytesFrom_wrapping pos (Memory.reaches_of_no_shortage index full)
    refine ⟨(c.memory.shortage?_wrapping ..).trans full.symm, ?_⟩
    simp only [after, failure?, drawing, Core.wrapping, Memory.shortage?_wrapping, full,
      Memory.reach_of_no_shortage full, Memory.reach_wrapping, drawn]
    rfl
  all_goals exact ⟨rfl, rfl⟩

end Operation
namespace Core

variable {config : Config} {c : Core} {d : Dialect}

theorem Sound.wrapping (h : c.Sound config) : c.wrapping.Sound config.wrapping where
  valid := h.valid
  depth := h.depth
  returns := h.returns
  size := h.size
  wraps := rfl
  width := h.width
  height := h.height

theorem cycle_wrapping (h : c.Sound config)
    (clean : ∀ a size, c.failure? ≠ some (.fault (.address a size))) :
    c.wrapping.word? = c.word? ∧ c.wrapping.failure? = c.failure? ∧
      c.wrapping.next d = (c.next d).wrapping := by
  have fetches : c.memory.shortage? c.state.pc 2 = none :=
    Memory.no_shortage fun a size short => clean a size (by simp only [failure?, fetchFailure?, short, Option.or])
  have wraps : c.wrapping.memory.shortage? c.wrapping.state.pc 2 = none := c.memory.shortage?_wrapping ..
  have reaches := Memory.reaches_of_no_shortage h.valid.pc.1 fetches
  have high : c.wrapping.memory.byteAt c.state.pc = c.memory.byteAt c.state.pc :=
    Memory.byteAt_wrapping h.memory_pos (by simpa using reaches 0 (by decide))
  have low : c.wrapping.memory.byteAt (c.state.pc + 1) = c.memory.byteAt (c.state.pc + 1) :=
    Memory.byteAt_wrapping h.memory_pos (reaches 1 (by decide))
  have same : c.wrapping.nextWord = c.nextWord := congrArg₂ Opcode.ofBytes high low
  simp only [failure?, fetchFailure?, fetches, Option.or] at clean
  simp only [word?, failure?, next, fetchFailure?, fetches, wraps, same, Option.or]
  cases decode : Operation.decode c.nextWord with
  | none => exact ⟨trivial, rfl, rfl⟩
  | some op =>
    rw [decode] at clean
    obtain ⟨failure, after⟩ := Operation.wrapping_eq (d := d) h.fetched clean
    exact ⟨trivial, failure, after⟩

theorem failure?_of_wraps (wraps : c.memory.wraps = true) (a size : Int) :
    c.failure? ≠ some (.fault (.address a size)) := by
  have full (b : Int) (n : Nat) : c.memory.shortage? b n = none := Memory.shortage?_of_wraps wraps b n
  have later (b : Int) (n : Nat) : c.fetched.memory.shortage? b n = none := full b n
  rw [failure?, fetchFailure?, full, Option.none_or]
  cases Operation.decode c.nextWord with
  | none => simp
  | some op =>
    cases op <;> simp only [Operation.failure?, later]
    case ret | call | skipHeld | skipReleased | random => split <;> simp
    all_goals simp

end Core

namespace Machine

def wrapping (m : Machine) : Machine :=
  { m with config := m.config.wrapping, core := m.core.wrapping }

-- The same outcome, of a machine that wraps.
def wrapped {α : Type} : Outcome α → Outcome α
  | .ok a m => .ok a m.wrapping
  | .error e m => .error e m.wrapping

-- The outcome is not at fault for an address outside memory.
def InBounds {α : Type} (reported : α → Option Fault) (o : Outcome α) : Prop :=
  ∀ a size, fault? reported o ≠ some (.address a size)

instance {α : Type} (reported : α → Option Fault) (o : Outcome α) : Decidable (InBounds reported o) :=
  decidable_of_iff (∀ f ∈ fault? reported o, f.isAddress = false) <| by
    constructor
    case mp =>
      intro h a size out
      cases h _ out
    case mpr =>
      intro h f out
      cases f
      case address a size => exact absurd out (h a size)
      all_goals rfl

variable {config : Config} {m : Machine} {now : Float}

theorem Sound.wrapping (h : m.Sound config) : m.wrapping.Sound config.wrapping :=
  ⟨congrArg Config.wrapping h.config_eq, h.core.wrapping⟩

theorem tick_wrapping (m : Machine) (now : Float) :
    m.wrapping.tick now = (m.tick now).map fun (periods, m) => (periods, m.wrapping) := by
  have same : m.wrapping.metronome = m.metronome := rfl
  simp only [tick, same]
  cases m.metronome.beat now <;> rfl

theorem record_wrapping (m : Machine) (e : Entry) : m.wrapping.record e = (m.record e).wrapping := by
  simp only [record, apply_ite wrapping]
  rfl

theorem recorded_wrapping (after : Machine) (fault : Option Fault)
    (word : m.wrapping.core.word? = m.core.word?) :
    m.wrapping.recorded after.wrapping fault = wrapped (m.recorded after fault) := by
  have entry : m.wrapping.entry after.wrapping fault = m.entry after fault := by
    simp only [Machine.entry, word]
    rfl
  simp only [recorded, wrapped, entry, record_wrapping]

theorem cycle_wrapping (h : m.Sound config) (inside : InBounds Entry.fault m.cycle) :
    m.wrapping.cycle = wrapped m.cycle := by
  have clean (a size : Int) : m.core.failure? ≠ some (.fault (.address a size)) := by
    intro fails
    rw [cycle_eq h, fails] at inside
    exact inside a size rfl
  have ⟨word, failure, next⟩ := Core.cycle_wrapping (d := m.config.dialect) h.core clean
  have advanced : m.wrapping.advanced = m.advanced.wrapping :=
    congrArg (fun core => { m.wrapping with core := core }) next
  have sound : m.wrapping.core.word? = m.core.word? := word
  have fails : m.wrapping.core.failure? = m.core.failure? := failure
  rw [cycle_eq h.wrapping, cycle_eq h, fails, sound, advanced]
  cases m.core.failure? with
  | none => exact recorded_wrapping (m.advanced.succeed m.core.word?) none sound
  | some e =>
    cases e
    case fault f => exact recorded_wrapping (m.advanced.halt f) (some f) sound
    all_goals rfl

theorem step_wrapping (h : m.Sound config) (inside : InBounds Entry.fault (m.step now)) :
    m.wrapping.step now = wrapped (m.step now) := by
  cases running : m.halted with
  | true =>
    have halted : m.wrapping.halted = true := running
    rw [step_of_halted running, step_of_halted halted]
    rfl
  | false =>
    have runs : m.wrapping.halted = false := running
    have ticks := m.tick_wrapping now
    cases t : m.tick now with
    | error e =>
      rw [t] at ticks
      rw [step_of_tick_error running t, step_of_tick_error runs ticks]
      rfl
    | ok p =>
      rw [t] at ticks
      rw [step_of_tick running t] at inside ⊢
      rw [step_of_tick runs ticks]
      exact cycle_wrapping (h.tick t) inside

-- A run fails with the fault of its last step.
theorem InBounds.step {n : Nat} {later : List Float}
    (inside : InBounds (fun _ => none) (m.runSteps now (n + 1) later)) :
    InBounds Entry.fault (m.step now) := by
  intro a size out
  apply inside a size
  rw [runSteps]
  cases s : m.step now with
  | error e m' =>
    rw [s] at out
    exact out
  | ok e m' =>
    rw [s] at out
    have fault : e.fault = some (.address a size) := out
    simp only [fault]
    rfl

theorem runSteps_wrapping (h : m.Sound config) (n : Nat) (later : List Float)
    (inside : InBounds (fun _ => none) (m.runSteps now n later)) :
    m.wrapping.runSteps now n later = wrapped (m.runSteps now n later) := by
  induction n generalizing m now later with
  | zero => rfl
  | succ n ih =>
    have stepped := (changes_step m now).sound h
    have same := step_wrapping h inside.step
    rw [runSteps] at inside
    rw [Machine.stepped] at stepped
    rw [runSteps, runSteps, same]
    cases s : m.step now with
    | error e m' => rfl
    | ok e m' =>
      rw [s] at inside stepped
      simp only [wrapped]
      cases fault : e.fault with
      | some f => rfl
      | none =>
        simp only [fault] at inside
        exact ih stepped _ inside

theorem fault?_run (m : Machine) (now : Float) (limit : Option Int) (later : List Float) :
    fault? (fun _ => none) (m.run now limit later) =
      fault? (fun _ => none) (m.runSteps now (limit.getD defaultLimit).toNat later) := by
  rw [run]
  cases m.runSteps now (limit.getD defaultLimit).toNat later <;> rfl

theorem run_wrapping (h : m.Sound config) (limit : Option Int) (later : List Float)
    (inside : InBounds (fun _ => none) (m.run now limit later)) :
    m.wrapping.run now limit later = wrapped (m.run now limit later) := by
  rw [InBounds, fault?_run] at inside
  rw [run, run, runSteps_wrapping h _ later inside]
  cases m.runSteps now (limit.getD defaultLimit).toNat later <;> rfl

-- An address that lies in memory has the same cell in both modes.
theorem cell_wrapping (h : m.Sound config) (a : Int)
    (inside : ∀ b size, m.core.memory.cell a ≠ .error (.fault (.address b size))) :
    ∃ i, m.core.memory.cell a = .ok i ∧ m.wrapping.core.memory.cell a = .ok i := by
  have ⟨i, cell⟩ := Memory.cell_of_inside_memory h.core.memory_pos inside
  exact ⟨i, cell, Memory.cell_wrapping cell⟩

theorem load_wrapping (h : m.Sound config) (image : List Int) (start : Option Int)
    (inside : ∀ a size, m.load image start ≠ .error (.fault (.address a size))) :
    m.wrapping.load image start = (m.load image start).map wrapping := by
  have same : m.wrapping.config.startPc = m.config.startPc := rfl
  simp only [load, Memory.load, bind, Except.bind, same] at inside ⊢
  cases bytes : bytesOf image with
  | error e => rfl
  | ok bytes' =>
    simp only [bytes] at inside
    obtain ⟨i, cell, wraps⟩ := cell_wrapping h (start.getD m.config.startPc) fun a size out =>
      inside a size (by rw [out])
    simp only [cell, wraps]
    rfl

theorem answer_wrapping (h : m.Sound config) (call : Call)
    (inside : InBounds Reply.fault? (m.answer now call)) :
    m.wrapping.answer now call = wrapped (m.answer now call) := by
  cases call <;> simp only [answer] at inside ⊢
  case load image start =>
    have clean (a size : Int) : m.load image start ≠ .error (.fault (.address a size)) := by
      intro out
      rw [out] at inside
      exact inside a size rfl
    rw [load_wrapping h image start clean]
    cases m.load image start <;> rfl
  case reset clearMemory => cases clearMemory <;> rfl
  case step =>
    have clean : InBounds Entry.fault (m.step now) := by
      rw [InBounds, fault?_replied] at inside
      exact inside
    rw [step_wrapping h clean]
    cases m.step now <;> rfl
  case run limit later =>
    have clean : InBounds (fun _ => none) (m.run now limit later) := by
      rw [InBounds, fault?_replied] at inside
      exact inside
    rw [run_wrapping h limit later clean]
    cases m.run now limit later <;> rfl
  case tick =>
    rw [tick_wrapping]
    cases m.tick now <;> rfl
  case setKey key down =>
    have same : m.wrapping.setKey key down = (m.setKey key down).map wrapping := by
      simp only [setKey, Core.setKey, wrapping, Core.wrapping]
      cases m.core.keys.set key down <;> rfl
    rw [same]
    cases m.setKey key down <;> rfl
  case readPixel x y =>
    have same : m.wrapping.core.screen.read x y = m.core.screen.read x y := rfl
    rw [same]
    cases m.core.screen.read x y <;> rfl
  case writePixel x y lit =>
    have same : m.wrapping.writePixel x y lit = (m.writePixel x y lit).map wrapping := by
      simp only [writePixel, Core.writePixel, wrapping, Core.wrapping]
      cases m.core.screen.write x y lit <;> rfl
    rw [same]
    cases m.writePixel x y lit <;> rfl
  case readMemory a =>
    obtain ⟨i, cell, wraps⟩ := cell_wrapping h a fun b size out =>
      inside b size (by rw [Memory.read, out]; rfl)
    rw [Memory.read, Memory.read, cell, wraps]
    rfl
  case writeMemory a v =>
    obtain ⟨i, cell, wraps⟩ := cell_wrapping h a fun b size out =>
      inside b size (by rw [writeMemory, Core.writeMemory, out]; rfl)
    rw [writeMemory, writeMemory, Core.writeMemory, Core.writeMemory, cell, wraps]
    rfl
  case takeDisplaySignal | takeSoundSignal | summary => rfl

theorem afterCall_wrapping {call : Call} (h : m.Sound config)
    (inside : InBounds Reply.fault? (m.answer now call)) :
    m.wrapping.afterCall now call = (m.afterCall now call).wrapping := by
  rw [afterCall_eq, afterCall_eq, answer_wrapping h call inside]
  cases m.answer now call <;> rfl

theorem outcomes_wrapping (h : m.Sound config) (history : List (Float × Call))
    (inside : ∀ o ∈ m.outcomes history, InBounds Reply.fault? o) :
    m.wrapping.outcomes history = (m.outcomes history).map wrapped := by
  induction history generalizing m with
  | nil => rfl
  | cons p history ih =>
    have ⟨first, rest⟩ := List.forall_mem_cons.mp inside
    rw [outcomes, outcomes, List.map_cons, answer_wrapping h p.2 first, afterCall_wrapping h first,
      ih (h.afterCall p.1 p.2) rest]

theorem inBounds_step (now : Float) (h : m.Sound config) (wraps : m.core.memory.wraps = true) :
    InBounds Entry.fault (m.step now) := by
  intro a size out
  cases s : m.step now with
  | ok e m' =>
    rw [s] at out
    have ⟨_, _, m₁, t, cycle⟩ := step_ok s
    have ⟨fails, _⟩ := cycle_of_fault (h.tick t) cycle out
    have ⟨_, _, core⟩ := tick_core t
    exact Core.failure?_of_wraps (by rw [core]; exact wraps) a size fails
  | error e m' =>
    rw [s] at out
    cases running : m.halted with
    | true =>
      rw [step_of_halted running] at s
      cases s
      cases out
    | false => cases (fault?_of_step h running s).symm.trans out

theorem inBounds_runSteps (now : Float) (h : m.Sound config) (wraps : config.addressMode = .wrap) (n : Nat)
    (later : List Float) : InBounds (fun _ => none) (m.runSteps now n later) := by
  induction n generalizing m now later with
  | zero => nofun
  | succ n ih =>
    have stepped := (changes_step m now).sound h
    have inside := inBounds_step now h (by rw [h.core.wraps, Config.wraps, wraps]; rfl)
    rw [Machine.stepped] at stepped
    rw [runSteps]
    cases s : m.step now with
    | error e m' =>
      rw [s] at inside
      exact inside
    | ok e m' =>
      rw [s] at inside stepped
      cases fault : e.fault with
      | some f =>
        simp only [fault]
        intro a size out
        cases out
        exact inside a size fault
      | none =>
        simp only [fault]
        exact ih _ stepped _

-- Loading at an address in memory may fail for a number that is no byte, and for nothing else.
theorem inBounds_load (now : Float) {image : List Int} {start : Option Int}
    (inside : ∃ i, m.core.memory.cell (start.getD m.config.startPc) = .ok i) :
    InBounds Reply.fault? (m.answer now (.load image start)) := by
  obtain ⟨i, cell⟩ := inside
  intro a size
  have sane : (none : Option Fault) ≠ some (.address a size) := (Option.some_ne_none _).symm
  simp only [answer, load, Memory.load, bind, Except.bind, cell]
  cases bytes : bytesOf image with
  | ok bytes' => exact sane
  | error e =>
    rw [bytesOf] at bytes
    split at bytes
    case isTrue => cases bytes
    case isFalse =>
      cases bytes
      exact sane

theorem inBounds_answer (h : m.Sound config) (wraps : config.addressMode = .wrap) (call : Call) :
    InBounds Reply.fault? (m.answer now call) := by
  have cells := h.core.wraps_of_wrap wraps
  have cell (a : Int) : ∃ i, m.core.memory.cell a = .ok i :=
    Memory.cell_of_reaches h.core.memory_pos (.inl cells)
  intro a size
  have sane : (none : Option Fault) ≠ some (.address a size) := (Option.some_ne_none _).symm
  cases call <;> simp only [answer]
  case load image start =>
    exact inBounds_load now (cell _) a size
  case reset => exact sane
  case step =>
    rw [fault?_replied]
    exact inBounds_step now h cells a size
  case run limit later =>
    have runs := inBounds_runSteps now h wraps (limit.getD defaultLimit).toNat later a size
    rw [← fault?_run] at runs
    rw [fault?_replied]
    exact runs
  case tick =>
    cases t : m.tick now with
    | ok p => exact sane
    | error e =>
      intro out
      cases (fault?_of_tick t).symm.trans out
  case setKey key down =>
    simp only [setKey, Core.setKey, KeySet.set, KeySet.key]
    split
    case isTrue => exact sane
    case isFalse =>
      intro out
      cases out
  case readPixel x y =>
    obtain ⟨i, place, _⟩ := m.core.screen.index_of_pos h.core.width_pos h.core.height_pos x y .noElement
    rw [Screen.read, place]
    exact sane
  case writePixel x y lit =>
    obtain ⟨i, place, _⟩ := m.core.screen.index_of_pos h.core.width_pos h.core.height_pos x y .noPlace
    rw [writePixel, Core.writePixel, Screen.write, place]
    exact sane
  case readMemory b =>
    obtain ⟨i, cell⟩ := cell b
    rw [Memory.read, cell]
    exact sane
  case writeMemory b v =>
    obtain ⟨i, cell⟩ := cell b
    rw [writeMemory, Core.writeMemory, cell]
    exact sane
  case takeDisplaySignal | takeSoundSignal | summary => exact sane

-- Wrapping changes nothing as long as no address is outside memory, and where addresses wrap none ever is.
theorem wrapping_extends_strict (config : Config) (source : Source) :
    (∀ traced now image history,
      let m := (Machine.new config source traced now).afterCall now (.load image none)
      let m' := (Machine.new config.wrapping source traced now).afterCall now (.load image none)
      (∀ o ∈ m.outcomes history, InBounds Reply.fault? o) →
        m' = m.wrapping ∧ m'.outcomes history = (m.outcomes history).map wrapped) ∧
    (config.addressMode = .wrap → ∀ m : Machine, m.Reachable config source → ∀ now call,
      InBounds Reply.fault? (m.answer now call)) := by
  constructor
  case right => exact fun wraps m r now call => inBounds_answer r.sound wraps call
  case left =>
    intro traced now image history m m' inside
    let fresh := Machine.new config source traced now
    have sound : fresh.Sound config := .new config source traced now
    have start : (config.startPc : Int) < fresh.core.memory.size := by
      rw [sound.core.size]
      exact Int.ofNat_lt.mpr config.startPc_lt
    have loads : InBounds Reply.fault? (fresh.answer now (.load image none)) :=
      inBounds_load now ⟨_, Memory.cell_of_inside _ ⟨Int.natCast_nonneg _, start⟩⟩
    have same : m' = m.wrapping := afterCall_wrapping sound loads
    refine ⟨same, ?_⟩
    rw [same]
    exact outcomes_wrapping (sound.afterCall now _) history inside

-- Two registers are stored in the last two bytes of memory.
theorem storing_wraps :
    let image := [0xa0, 0x7e, 0xf1, 0x55]
    let history := [(0, .step), (0, .setKey 3 true), (0, .step)]
    let m := (Machine.new (.small .strict) .zeros false 0).afterCall 0 (.load image none)
    let m' := (Machine.new (.small .wrap) .zeros false 0).afterCall 0 (.load image none)
    (∀ o ∈ m.outcomes history, InBounds Reply.fault? o) ∧
      m'.outcomes history = (m.outcomes history).map wrapped ∧
      InBounds Reply.fault? (m'.answer 0 .step) := by
  intro image history m m'
  have inside : ∀ o ∈ m.outcomes history, InBounds Reply.fault? o := by decide +kernel
  have ⟨_, same⟩ := (wrapping_extends_strict (.small .strict) .zeros).1 false 0 image history inside
  have reachable : m'.Reachable (.small .wrap) .zeros := .call 0 _ (.new false 0)
  exact ⟨inside, same, (wrapping_extends_strict (.small .wrap) .zeros).2 rfl m' reachable 0 .step⟩

end Machine
end Chip8
