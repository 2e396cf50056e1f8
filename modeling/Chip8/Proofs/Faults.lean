import Chip8.Proofs.Reachable
import Chip8.Proofs.Table

namespace Chip8

namespace Core

-- Both bytes at the program counter have a cell.
def Fetches (config : Config) (c : Core) : Prop :=
  config.addressMode = .strict → c.state.pc + 1 < config.memorySize

-- The next instruction can be fetched and stands for this operation.
structure Faces (config : Config) (c : Core) (op : Operation) : Prop where
  fetches : c.Fetches config
  meant : op.IsMeant c.nextWord

def outside (config : Config) (a : Int) : Fault :=
  .address (max a config.memorySize) config.memorySize

-- The faults that the next instruction leads to, of which there is one at most.
inductive Due (config : Config) (c : Core) : Fault → Prop
  | fetch : config.addressMode = .strict → config.memorySize ≤ c.state.pc + 1 →
    Due config c (outside config c.state.pc)
  | unknown : c.Fetches config → (∀ op : Operation, ¬ op.Fits c.nextWord) →
    Due config c (.unknownOpcode c.nextWord.toNat (some c.state.pc))
  | hostRoutine : c.Faces config .hostRoutine →
    Due config c (.hostRoutine c.nextWord.toNat (some c.state.pc))
  | underflow : c.Faces config .ret → c.state.calls = [] → Due config c .stackUnderflow
  | overflow : c.Faces config .call → c.state.calls.length = config.stackDepth →
    Due config c (.stackOverflow config.stackDepth)
  | key : c.Faces config .skipHeld ∨ c.Faces config .skipReleased → 15 < c.state.value c.nextWord.x →
    Due config c (.invalidKey (c.state.value c.nextWord.x))
  | digits : c.Faces config .storeDigits → config.addressMode = .strict →
    config.memorySize ≤ c.state.index + 2 → Due config c (outside config c.state.index)
  | block : c.Faces config .storeRegisters ∨ c.Faces config .loadRegisters →
    config.addressMode = .strict → config.memorySize ≤ c.state.index + c.nextWord.x →
    Due config c (outside config c.state.index)
  | sprite : c.Faces config .draw → config.addressMode = .strict → 1 ≤ c.nextWord.n →
    config.memorySize ≤ c.state.index + c.nextWord.n - 1 → Due config c (outside config c.state.index)

variable {config : Config} {c : Core} {e : Failure} {f : Fault} {op : Operation}

-- A row of addresses up to `last` is short of memory.
theorem Sound.shortage?_eq_some_iff (h : c.Sound config) {a : Int} {n : Nat} (last : Int)
    (l : a + n = last + 1) : c.memory.shortage? a n = some e ↔
      e = .fault (outside config a) ∧ config.addressMode = .strict ∧ 1 ≤ n ∧ config.memorySize ≤ last := by
  have strict : c.memory.wraps = false ↔ config.addressMode = .strict := by
    rw [h.wraps, Config.wraps]
    cases config.addressMode <;> simp
  have row : a + n - 1 = last := by omega
  simp only [Memory.shortage?, Memory.reach_lt_iff, strict, h.size, outside, row]
  split
  case isTrue short => simp [short, eq_comm]
  case isFalse full => simp [full]

theorem Sound.fetchFailure?_eq_some_iff (h : c.Sound config) : c.fetchFailure? = some e ↔
    e = .fault (outside config c.state.pc) ∧ config.addressMode = .strict ∧
      config.memorySize ≤ c.state.pc + 1 := by
  rw [fetchFailure?, h.shortage?_eq_some_iff (c.state.pc + 1) (by omega)]
  simp

theorem Sound.shortage?_fetched (h : c.Sound config) {n : Nat} (last : Int)
    (l : c.state.index + n = last + 1) :
    c.fetched.memory.shortage? c.fetched.state.index n = some e ↔
      e = .fault (outside config c.state.index) ∧ config.addressMode = .strict ∧ 1 ≤ n ∧
        config.memorySize ≤ last :=
  h.shortage?_eq_some_iff last l

theorem Sound.fetchFailure?_eq_none_iff (h : c.Sound config) :
    c.fetchFailure? = none ↔ c.Fetches config := by
  rw [Option.eq_none_iff_forall_ne_some]
  simp only [ne_eq, h.fetchFailure?_eq_some_iff, Fetches]
  constructor
  case mp =>
    intro none strict
    have within : ¬ config.memorySize ≤ c.state.pc + 1 := fun short => none _ ⟨rfl, strict, short⟩
    omega
  case mpr =>
    intro fetches e ⟨_, strict, short⟩
    have within := fetches strict
    omega

-- The counter has moved past the instruction when it fails, and the fault names the place before.
theorem word_back {a : Int} (h : 0 ≤ a ∧ a ≤ 0xffff) : word (word (a + 2) - 2) = a := by
  simp only [word]
  omega

theorem due_of_failure? (h : c.Sound config) (draws : c.source.isEmpty = false)
    (fails : c.failure? = some e) : ∃ f, e = .fault f ∧ c.Due config f := by
  cases fetch : c.fetchFailure? with
  | some e' =>
    obtain ⟨out, strict, short⟩ := h.fetchFailure?_eq_some_iff.mp fetch
    simp only [failure?, fetch, Option.or, Option.some.injEq] at fails
    exact ⟨_, fails ▸ out, .fetch strict short⟩
  | none =>
    have fetches := h.fetchFailure?_eq_none_iff.mp fetch
    simp only [failure?, fetch, Option.or] at fails
    cases d : Operation.decode c.nextWord with
    | none =>
      simp only [d, Option.some.injEq] at fails
      exact ⟨_, fails.symm, .unknown fetches (Operation.decode_eq_none_iff.mp d)⟩
    | some op =>
      have faces : c.Faces config op := ⟨fetches, Operation.isMeant_of_decode d⟩
      simp only [d] at fails
      cases op <;> simp only [Operation.failure?] at fails
      case hostRoutine =>
        have back : word (c.fetched.state.pc - 2) = c.state.pc := word_back h.valid.pc
        rw [back, Option.some.injEq] at fails
        exact ⟨_, fails.symm, .hostRoutine faces⟩
      case ret =>
        split at fails
        case isTrue empty => exact ⟨_, (Option.some.inj fails).symm, .underflow faces empty⟩
        case isFalse => cases fails
      case call =>
        split at fails
        case isTrue full =>
          have depth : c.fetched.state.stackDepth = config.stackDepth := h.depth
          have all := Int.le_antisymm h.fetched.valid.calls full
          rw [depth] at all fails
          exact ⟨_, (Option.some.inj fails).symm, .overflow faces (Int.ofNat_inj.mp all)⟩
        case isFalse => cases fails
      case skipHeld =>
        split at fails
        case isTrue beyond => exact ⟨_, (Option.some.inj fails).symm, .key (.inl faces) beyond⟩
        case isFalse => cases fails
      case skipReleased =>
        split at fails
        case isTrue beyond => exact ⟨_, (Option.some.inj fails).symm, .key (.inr faces) beyond⟩
        case isFalse => cases fails
      case random =>
        have filled : c.fetched.source.isEmpty = false := draws
        simp [filled] at fails
      case storeDigits =>
        obtain ⟨out, strict, _, short⟩ := (h.shortage?_fetched (c.state.index + 2) (by omega)).mp fails
        exact ⟨_, out, .digits faces strict short⟩
      case storeRegisters =>
        obtain ⟨out, strict, _, short⟩ :=
          (h.shortage?_fetched (c.state.index + c.nextWord.x) (by omega)).mp fails
        exact ⟨_, out, .block (.inl faces) strict short⟩
      case loadRegisters =>
        obtain ⟨out, strict, _, short⟩ :=
          (h.shortage?_fetched (c.state.index + c.nextWord.x) (by omega)).mp fails
        exact ⟨_, out, .block (.inr faces) strict short⟩
      case draw =>
        obtain ⟨out, strict, rows, short⟩ :=
          (h.shortage?_fetched (c.state.index + c.nextWord.n - 1) (by omega)).mp fails
        exact ⟨_, out, .sprite faces strict rows short⟩
      all_goals cases fails

theorem performWord_of_isMeant {w : Opcode} (d : Dialect) (pc : Int) (meant : op.IsMeant w) :
    performWord d pc w = op.perform d w := by
  rw [performWord, Operation.decode_of_isMeant meant]

-- What a core faces is a matter of its memory and its program counter.
theorem Faces.of_same {c' : Core} (faces : c.Faces config op) (pc : c'.state.pc = c.state.pc)
    (memory : c'.memory = c.memory) : c'.Faces config op where
  fetches := by
    rw [Fetches, pc]
    exact faces.fetches
  meant := by
    rw [nextWord, pc, memory]
    exact faces.meant

theorem Faces.failure?_eq (h : c.Sound config) (faces : c.Faces config op) :
    c.failure? = op.failure? c.nextWord c.fetched := by
  have fetch := h.fetchFailure?_eq_none_iff.mpr faces.fetches
  have d := Operation.decode_of_isMeant faces.meant
  simp only [failure?, fetch, d, Option.or]

theorem Faces.next_eq (h : c.Sound config) (faces : c.Faces config op) (d : Dialect) :
    c.next d = op.after d c.nextWord c.fetched := by
  have fetch := h.fetchFailure?_eq_none_iff.mpr faces.fetches
  simp only [next, fetch, Operation.decode_of_isMeant faces.meant]
  rfl

-- What a cycle changes is changed by the operation that it comes to.
theorem Sound.faces_of_next {α : Type} {d : Dialect} (h : c.Sound config) (view : Core → α)
    (blind : view c.fetched = view c) (unlike : view (c.next d) ≠ view c) :
    ∃ op, c.Faces config op ∧ view (op.after d c.nextWord c.fetched) ≠ view c.fetched := by
  by_cases fetches : c.Fetches config
  case neg =>
    have fails := Option.isSome_iff_ne_none.mpr (mt h.fetchFailure?_eq_none_iff.mp fetches)
    rw [Core.next, if_pos fails] at unlike
    exact absurd rfl unlike
  case pos =>
    cases decode : Operation.decode c.nextWord with
    | none =>
      simp only [Core.next, h.fetchFailure?_eq_none_iff.mpr fetches, decode] at unlike
      exact absurd blind unlike
    | some op =>
      have faces : c.Faces config op := ⟨fetches, Operation.isMeant_of_decode decode⟩
      rw [faces.next_eq h, ← blind] at unlike
      exact ⟨op, faces, unlike⟩

theorem failure?_of_due (h : c.Sound config) (due : c.Due config f) : c.failure? = some (.fault f) := by
  cases due
  case fetch strict short =>
    have fetch := h.fetchFailure?_eq_some_iff.mpr ⟨rfl, strict, short⟩
    simp only [failure?, fetch, Option.or]
  case unknown fetches unfit =>
    have fetch := h.fetchFailure?_eq_none_iff.mpr fetches
    have d := Operation.decode_eq_none_iff.mpr unfit
    simp only [failure?, fetch, d, Option.or]
  case hostRoutine faces =>
    have back : word (c.fetched.state.pc - 2) = c.state.pc := word_back h.valid.pc
    rw [faces.failure?_eq h, Operation.failure?, back]
  case underflow faces empty =>
    rw [faces.failure?_eq h]
    exact if_pos empty
  case overflow faces full =>
    have depth : c.fetched.state.stackDepth = config.stackDepth := h.depth
    have all : (config.stackDepth : Int) ≤ c.fetched.state.calls.length :=
      Int.ofNat_le.mpr (Nat.le_of_eq full.symm)
    rw [faces.failure?_eq h, Operation.failure?, depth, if_pos all]
  case key faces beyond =>
    cases faces with
    | inl faces | inr faces =>
      rw [faces.failure?_eq h]
      exact if_pos beyond
  case digits faces strict short =>
    rw [faces.failure?_eq h]
    exact (h.shortage?_fetched _ (by omega)).mpr ⟨rfl, strict, by decide, short⟩
  case block faces strict short =>
    have fails := (h.shortage?_fetched (n := c.nextWord.x + 1) _ (by omega)).mpr
      ⟨rfl, strict, Nat.le_add_left .., short⟩
    cases faces with
    | inl faces | inr faces => exact (faces.failure?_eq h).trans fails
  case sprite faces strict rows short =>
    rw [faces.failure?_eq h]
    exact (h.shortage?_fetched _ (by omega)).mpr ⟨rfl, strict, rows, short⟩

-- A failing cycle of a sound core fails with the fault that is due, if its source has bytes.
theorem failure?_eq_some_iff (h : c.Sound config) (draws : c.source.isEmpty = false) :
    c.failure? = some e ↔ ∃ f, e = .fault f ∧ c.Due config f := by
  constructor
  case mp => exact due_of_failure? h draws
  case mpr =>
    intro ⟨f, out, due⟩
    exact out ▸ failure?_of_due h due

theorem Due.strict {a size : Int} (due : c.Due config (.address a size)) :
    config.addressMode = .strict := by
  generalize out : Fault.address a size = f at due
  cases due
  case fetch strict _ | digits strict _ | block strict _ | sprite strict _ _ => exact strict
  all_goals cases out

theorem word?_of_fetches (h : c.Sound config) (fetches : c.Fetches config) :
    c.word? = some c.nextWord := by
  rw [word?, h.fetchFailure?_eq_none_iff.mpr fetches]
  rfl

theorem word?_of_not_fetches (h : c.Sound config) (short : ¬ c.Fetches config) : c.word? = none := by
  have fails := Option.isSome_iff_ne_none.mpr (mt h.fetchFailure?_eq_none_iff.mp short)
  rw [word?, if_pos fails]

theorem Sound.faces_iff (h : c.Sound config) : c.Faces config op ↔ c.word?.bind Operation.decode = some op := by
  by_cases fetches : c.Fetches config
  case pos =>
    rw [word?_of_fetches h fetches]
    exact ⟨fun faces => Operation.decode_of_isMeant faces.meant, fun d => ⟨fetches, Operation.isMeant_of_decode d⟩⟩
  case neg =>
    rw [word?_of_not_fetches h fetches]
    exact ⟨fun faces => absurd faces.fetches fetches, nofun⟩

end Core

namespace Machine

variable {config : Config} {source : Source} {m m₁ : Machine} {now : Float} {periods : Int} {f : Fault}

-- Time does not change what a cycle fetches, nor how it fails.
theorem tick_preserves_cycle (t : m.tick now = .ok (periods, m₁)) :
    m₁.core.word? = m.core.word? ∧ m₁.core.failure? = m.core.failure? ∧
      m₁.state.pc = m.state.pc ∧ m₁.core.source = m.core.source := by
  have ⟨_, _, core⟩ := tick_core t
  rw [state, core]
  exact ⟨rfl, rfl, rfl, rfl⟩

theorem tick_faces {op : Operation} (t : m.tick now = .ok (periods, m₁)) :
    m₁.core.Faces config op ↔ m.core.Faces config op := by
  have ⟨_, _, core⟩ := tick_core t
  rw [core]
  exact ⟨(·.of_same rfl rfl), (·.of_same rfl rfl)⟩

theorem step_recorded (h : m.Sound config) (draws : m.core.source.isEmpty = false)
    (running : m.halted = false) (t : m.tick now = .ok (periods, m₁)) :
    ∃ after fault, m.step now = m₁.recorded after fault ∧ ∀ f, fault = some f ↔ m.core.Due config f := by
  have ⟨_, fails, _, _⟩ := tick_preserves_cycle t
  have due {e : Failure} := Core.failure?_eq_some_iff (e := e) h.core draws
  rw [step_of_tick running t, cycle_eq (h.tick t), fails]
  cases failure : m.core.failure? with
  | none =>
    refine ⟨_, none, rfl, fun f => ?_⟩
    have never : ¬ m.core.Due config f := fun d => by cases failure.symm.trans (due.mpr ⟨f, rfl, d⟩)
    simp [never]
  | some e =>
    have ⟨f, out, d⟩ := due.mp failure
    subst out
    refine ⟨_, some f, rfl, fun g => ?_⟩
    have once := due (e := .fault g)
    simpa [failure] using once

-- A step of a running machine leaves an entry, whose fault is the one that is due.
theorem step_faults_as_due (r : m.Reachable config source) (draws : source.isEmpty = false)
    (running : m.halted = false) (t : m.tick now = .ok (periods, m₁)) :
    ∃ e m', m.step now = .ok e m' ∧ e.pc = m.state.pc ∧
      (∀ f, e.fault = some f ↔ m.core.Due config f) ∧
      (m.core.Fetches config → e.opcode = m.core.nextWord) ∧
      (¬ m.core.Fetches config → e.opcode = 0 ∧ e.key = "OP_INVALID" ∧ e.mnemonic = "") ∧
      (config.addressMode = .wrap → ∀ a size, e.fault ≠ some (.address a size)) := by
  have h := r.sound
  have ⟨word, _, pc, _⟩ := tick_preserves_cycle t
  have ⟨after, fault, step, due⟩ := step_recorded h (r.isEmpty_source.trans draws) running t
  have fetched : (m₁.entry after fault).fetched = m.core.word? := word
  refine ⟨m₁.entry after fault, _, step, pc, due, ?_, ?_, ?_⟩
  case refine_1 =>
    intro fetches
    rw [Entry.opcode, fetched, Core.word?_of_fetches h.core fetches]
    rfl
  case refine_2 =>
    intro short
    rw [Entry.opcode, Entry.key, Entry.operation?, Entry.mnemonic, fetched,
      Core.word?_of_not_fetches h.core short]
    exact ⟨rfl, rfl, rfl⟩
  case refine_3 =>
    intro wraps a size out
    have strict := ((due _).mp out).strict
    rw [wraps] at strict
    cases strict

-- A machine without a program asks for a routine of the host.
theorem step_of_blank :
    let m := Machine.new (.small .strict) .zeros false 0
    ∃ e m', m.step 0 = .ok e m' ∧ e.fault = some (.hostRoutine 0 (some 0x60)) := by
  intro m
  have ⟨_, _, t⟩ := tick_of_isOk (show (m.tick 0).isOk = true by decide +kernel)
  have zero : m.core.nextWord = 0 := by decide +kernel
  have ⟨e, m', step, _, due, _⟩ := step_faults_as_due (.new false 0) rfl rfl t
  have faces : m.core.Faces (.small .strict) .hostRoutine :=
    ⟨fun _ => by decide +kernel, zero ▸ Operation.isMeant_of_decode rfl⟩
  have routine := Core.Due.hostRoutine faces
  rw [zero] at routine
  exact ⟨e, m', step, (due _).mpr routine⟩

end Machine
end Chip8
