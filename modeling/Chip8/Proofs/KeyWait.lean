import Chip8.Proofs.Faults

namespace Chip8

namespace Core

-- A core that differs from another in its keys, its timers, its count of cycles and its wait alone.
structure Rests (c c' : Core) : Prop where
  pc : c'.state.pc = c.state.pc
  registers : c'.state.registers = c.state.registers
  index : c'.state.index = c.state.index
  calls : c'.state.calls = c.state.calls
  halted : c'.state.halted = c.state.halted
  memory : c'.memory = c.memory
  screen : c'.screen = c.screen

variable {config : Config} {c c' c'' : Core} {op : Operation} {d : Dialect}

theorem Rests.refl (c : Core) : c.Rests c :=
  ⟨rfl, rfl, rfl, rfl, rfl, rfl, rfl⟩

theorem Rests.trans (h : c.Rests c') (h' : c'.Rests c'') : c.Rests c'' :=
  ⟨h'.pc.trans h.pc, h'.registers.trans h.registers, h'.index.trans h.index, h'.calls.trans h.calls,
    h'.halted.trans h.halted, h'.memory.trans h.memory, h'.screen.trans h.screen⟩

theorem Rests.nextWord (h : c.Rests c') : c'.nextWord = c.nextWord := by
  rw [Core.nextWord, Core.nextWord, h.pc, h.memory]

theorem Rests.faces (h : c.Rests c') (faces : c.Faces config op) : c'.Faces config op :=
  faces.of_same h.pc h.memory

-- Without an answer the counter goes back to the instruction.
theorem next_of_poll_none {wait : Option KeySet} (h : c.Sound config) (awaits : c.Faces config .awaitKey)
    (poll : c.keys.poll c.wait = (none, wait)) : c.next d = { c with wait := wait } := by
  have back : word (word (c.state.pc + 2) - 2) = c.state.pc := word_back h.valid.pc
  rw [awaits.next_eq h]
  simp only [Operation.after, fetched, modifyState, poll, back]

theorem next_of_poll_some {key : Fin 16} {wait : Option KeySet} (h : c.Sound config)
    (awaits : c.Faces config .awaitKey) (poll : c.keys.poll c.wait = (some key, wait)) :
    c.next d = { c with
      state := { c.state with pc := word (c.state.pc + 2) }.put c.nextWord.x key
      wait := wait } := by
  rw [awaits.next_eq h]
  simp only [Operation.after, fetched, modifyState, poll]

end Core

namespace Machine

-- The keys held at those steps of a history that the clock lets happen.
def polls (m : Machine) : List (Float × Call) → List KeySet
  | [] => []
  | (now, call) :: rest =>
    let later := (m.afterCall now call).polls rest
    if call = .step ∧ (m.tick now).isOk then m.core.keys :: later else later

-- A machine that has made no progress since it came to a wait, and whose wait remembers these keys.
structure Waits (m m' : Machine) (last : Option KeySet) : Prop where
  rests : m.core.Rests m'.core
  wait : m'.core.wait = last

variable {config : Config} {source : Source} {m m' m₁ : Machine} {now : Float} {periods : Int}
  {last : Option KeySet} {call : Call} {history : List (Float × Call)}

theorem Waits.tick (w : m.Waits m' last) (t : m'.tick now = .ok (periods, m₁)) :
    m.Waits m₁ last ∧ m₁.core.keys = m'.core.keys ∧ m₁.state.cycles = m'.state.cycles := by
  have ⟨_, _, core⟩ := tick_core t
  have rests : m'.core.Rests m₁.core := by
    rw [core]
    exact ⟨rfl, rfl, rfl, rfl, rfl, rfl, rfl⟩
  rw [state, core]
  exact ⟨⟨w.rests.trans rests, by rw [core, w.wait]⟩, rfl, rfl⟩

-- A poll that finds no new key held. The first poll never does.
theorem Waits.step_of_subset (h : m'.Sound config) (awaits : m.core.Faces config .awaitKey)
    (running : m.halted = false) (w : m.Waits m' last) (still : ∀ keys ∈ last, m'.core.keys ⊆ keys)
    (t : m'.tick now = .ok (periods, m₁)) :
    ∃ e m'', m'.step now = .ok e m'' ∧ e.fault = none ∧
      m.Waits m'' (some m'.core.keys) ∧ m''.state.cycles = m'.state.cycles + 1 := by
  have ⟨w₁, keys, cycles⟩ := w.tick t
  have faces := w₁.rests.faces awaits
  have h₁ := h.tick t
  have goes : m'.halted = false := w.rests.halted.trans running
  have ⟨e, m'', step, fault, core⟩ := step_of_succeeds h goes t (faces.failure?_eq h₁.core)
  have poll : m₁.core.keys.poll m₁.core.wait = (none, some m'.core.keys) := by
    rw [w₁.wait, keys]
    cases last with
    | none => rfl
    | some last => exact KeySet.poll_of_subset (still last rfl)
  rw [Core.next_of_poll_none h₁.core faces poll] at core
  refine ⟨e, m'', step, fault, ⟨w₁.rests.trans ?_, ?_⟩, ?_⟩
  case refine_1 =>
    rw [core]
    exact ⟨rfl, rfl, rfl, rfl, rfl, rfl, rfl⟩
  case refine_2 =>
    rw [core]
    rfl
  case refine_3 =>
    rw [state, core, ← cycles]
    rfl

theorem byte_key (key : Fin 16) : byte key = (key : Nat) := by
  simp only [byte]
  omega

-- A machine that has been given a key since it came to a wait.
structure Answered (m m' : Machine) (key : Fin 16) : Prop where
  registers : m'.state.registers = m.state.registers.set m.core.nextWord.x key
  pc : m'.state.pc = word (m.state.pc + 2)
  wait : m'.core.wait = none
  index : m'.state.index = m.state.index
  calls : m'.state.calls = m.state.calls
  halted : m'.halted = m.halted
  memory : m'.core.memory = m.core.memory
  screen : m'.core.screen = m.core.screen

theorem Waits.step_of_not_subset {keys : KeySet} (h : m'.Sound config)
    (awaits : m.core.Faces config .awaitKey) (running : m.halted = false) (w : m.Waits m' (some keys))
    (edge : ¬ m'.core.keys ⊆ keys) (t : m'.tick now = .ok (periods, m₁)) :
    ∃ e m'' key, m'.step now = .ok e m'' ∧ e.fault = none ∧ m.Answered m'' key ∧
      IsLeast {j | j ∈ m'.core.keys ∧ j ∉ keys} key ∧ m''.state.cycles = m'.state.cycles + 1 := by
  have ⟨w₁, held, cycles⟩ := w.tick t
  have faces := w₁.rests.faces awaits
  have h₁ := h.tick t
  have goes : m'.halted = false := w.rests.halted.trans running
  have ⟨e, m'', step, fault, core⟩ := step_of_succeeds h goes t (faces.failure?_eq h₁.core)
  have ⟨key, poll, least⟩ := KeySet.poll_of_not_subset edge
  rw [← held, ← w₁.wait] at poll
  rw [Core.next_of_poll_some h₁.core faces poll] at core
  have rests := w₁.rests
  refine ⟨e, m'', key, step, fault, ?_, least, ?_⟩
  case refine_1 =>
    rw [rests.nextWord, rests.pc] at core
    constructor <;> simp only [state, halted, core]
    case registers =>
      rw [← rests.registers]
      exact congrArg (m₁.core.state.registers.set m.core.nextWord.x) (byte_key key)
    case wait => rfl
    case pc => rfl
    case index => exact rests.index
    case calls => exact rests.calls
    case halted => exact rests.halted
    case memory => exact rests.memory
    case screen => exact rests.screen
  case refine_2 =>
    rw [state, core, ← cycles]
    rfl

-- A call that is no poll: a step that the clock does not let happen, or no step at all.
theorem Waits.afterCall (w : m.Waits m' last) (quiet : call.isQuiet = true)
    (other : ¬ (call = .step ∧ (m'.tick now).isOk = true)) :
    m.Waits (m'.afterCall now call) last ∧
      (m'.afterCall now call).state.cycles = m'.state.cycles := by
  by_cases step : call = .step
  case pos =>
    have idle : m'.afterCall now call = m' := by
      rw [step, afterCall_step]
      cases m'.stepped_cases now with
      | inl idle => exact idle
      | inr made =>
        have ⟨_, _, _, t, _⟩ := made
        exact absurd ⟨step, by rw [t]; rfl⟩ other
    rw [idle]
    exact ⟨w, rfl⟩
  case neg =>
    have ⟨_, _, _, core, _⟩ := m'.afterCall_quiet now quiet step
    rw [state, core]
    refine ⟨⟨w.rests.trans ?_, ?_⟩, rfl⟩
    case refine_1 =>
      rw [core]
      exact ⟨rfl, rfl, rfl, rfl, rfl, rfl, rfl⟩
    case refine_2 => rw [core, w.wait]

-- No key goes down from one poll to the next.
def Steady (polls : List KeySet) : Prop :=
  polls.IsChain fun last held => held ⊆ last

theorem Steady.head {keys : KeySet} {later : List KeySet}
    (steady : Steady (last.toList ++ keys :: later)) :
    (∀ l ∈ last, keys ⊆ l) ∧ Steady ((some keys).toList ++ later) := by
  cases last with
  | none => exact ⟨nofun, steady⟩
  | some last =>
    have ⟨still, later⟩ := List.isChain_cons_cons.mp steady
    refine ⟨?_, later⟩
    intro l hl
    cases hl
    exact still

-- The wait goes on as long as no key goes down, and it remembers the keys of the last poll.
theorem Waits.afterCalls (h : m'.Sound config) (awaits : m.core.Faces config .awaitKey)
    (running : m.halted = false) (w : m.Waits m' last) (quiet : ∀ p ∈ history, p.2.isQuiet = true)
    (steady : Steady (last.toList ++ m'.polls history)) :
    m.Waits (m'.afterCalls history) (last.toList ++ m'.polls history).getLast? ∧
      (m'.afterCalls history).state.cycles = m'.state.cycles + (m'.polls history).length := by
  induction history generalizing m' last with
  | nil => cases last <;> exact ⟨w, by simp [polls, afterCalls]⟩
  | cons p history ih =>
    obtain ⟨first, rest⟩ := List.forall_mem_cons.mp quiet
    have h' := (changes_afterCall m' p.1 p.2).sound h
    have out : m'.afterCalls (p :: history) = (m'.afterCall p.1 p.2).afterCalls history := rfl
    by_cases polled : p.2 = .step ∧ (m'.tick p.1).isOk = true
    case pos =>
      have polls : m'.polls (p :: history) = m'.core.keys :: (m'.afterCall p.1 p.2).polls history :=
        if_pos polled
      obtain ⟨step, ticks⟩ := polled
      rw [polls] at steady
      obtain ⟨still, later⟩ := steady.head
      obtain ⟨_, _, beat⟩ := tick_of_isOk ticks
      obtain ⟨_, m'', made, _, w'', cycles⟩ := w.step_of_subset h awaits running still beat
      have here : m'.afterCall p.1 p.2 = m'' := by
        rw [step, afterCall_step, stepped, made]
        rfl
      obtain ⟨waits, count⟩ := ih h' (here ▸ w'') rest later
      rw [polls, out]
      constructor
      case left =>
        cases last with
        | none => exact waits
        | some last =>
          rw [Option.toList_some, List.singleton_append, List.getLast?_cons_cons]
          exact waits
      case right =>
        rw [count, here, cycles, List.length_cons]
        omega
    case neg =>
      have polls : m'.polls (p :: history) = (m'.afterCall p.1 p.2).polls history := if_neg polled
      obtain ⟨w', cycles⟩ := w.afterCall first polled
      rw [polls] at steady
      rw [polls, out, ← cycles]
      exact ih h' w' rest steady

-- A wait is answered by the first key that goes down between two of its polls, and until then nothing happens.
theorem wait_answers_first_edge (r : m.Reachable config source) (running : m.halted = false)
    (awaits : m.core.Faces config .awaitKey) (idle : m.core.wait = none)
    (quiet : ∀ p ∈ history, p.2.isQuiet = true) (steady : Steady (m.polls history)) :
    let m' := m.afterCalls history
    let last := (m.polls history).getLast?
    m.Waits m' last ∧ m'.state.cycles = m.state.cycles + (m.polls history).length ∧
    ∀ now periods m₁, m'.tick now = .ok (periods, m₁) → ∃ e m'', m'.step now = .ok e m'' ∧
      e.fault = none ∧ m''.state.cycles = m'.state.cycles + 1 ∧
      ((∀ keys ∈ last, m'.core.keys ⊆ keys) → m.Waits m'' (some m'.core.keys)) ∧
      ∀ keys ∈ last, ¬ m'.core.keys ⊆ keys → ∃ key, m.Answered m'' key ∧
        IsLeast {j | j ∈ m'.core.keys ∧ j ∉ keys} key := by
  intro m' last
  have begun : m.Waits m none := ⟨.refl _, idle⟩
  have ⟨w, cycles⟩ := begun.afterCalls r.sound awaits running quiet steady
  have sound : m'.Sound config := (r.calls history).sound
  refine ⟨w, cycles, ?_⟩
  intro now periods m₁ t
  by_cases still : ∀ keys ∈ last, m'.core.keys ⊆ keys
  case pos =>
    have ⟨e, m'', step, fault, w', count⟩ := w.step_of_subset sound awaits running still t
    refine ⟨e, m'', step, fault, count, fun _ => w', ?_⟩
    intro keys hk edge
    exact absurd (still keys hk) edge
  case neg =>
    have ⟨keys, hk, edge⟩ : ∃ keys ∈ last, ¬ m'.core.keys ⊆ keys := by
      by_contra none
      exact still fun keys hk => by_contra fun edge => none ⟨keys, hk, edge⟩
    have answered : m.Waits m' (some keys) := hk ▸ w
    have ⟨e, m'', key, step, fault, given, least, count⟩ :=
      answered.step_of_not_subset sound awaits running edge t
    refine ⟨e, m'', step, fault, count, fun all => absurd all still, ?_⟩
    intro other ho _
    cases hk.symm.trans ho
    exact ⟨key, given, least⟩

-- A machine whose only instruction waits for a key.
def waiting : Machine :=
  (Machine.new (.small .strict) .zeros false 0).afterCalls [(0, .load [0xf0, 0x0a] none)]

-- The key that is pressed after the first step is the answer to the second.
theorem waiting_answered :
    let m' := waiting.afterCalls [(0, .step), (0, .setKey 7 true)]
    ∃ e m'', m'.step 0 = .ok e m'' ∧ e.fault = none ∧ waiting.Answered m'' 7 := by
  intro m'
  have awaits : waiting.core.Faces (.small .strict) .awaitKey :=
    ⟨fun _ => by decide +kernel, Operation.isMeant_of_decode (by decide +kernel)⟩
  have polls : waiting.polls [(0, .step), (0, .setKey 7 true)] = [.empty] := by decide +kernel
  have steady : Steady (waiting.polls [(0, .step), (0, .setKey 7 true)]) := by
    rw [polls]
    exact .singleton _
  have ⟨_, _, t⟩ := tick_of_isOk (show (m'.tick 0).isOk = true by decide +kernel)
  have reachable : waiting.Reachable (.small .strict) .zeros := (Reachable.new false 0).calls _
  have ⟨_, _, next⟩ := wait_answers_first_edge reachable (by decide +kernel) awaits
    (by decide +kernel) (by simp [Call.isQuiet]) steady
  have ⟨e, m'', step, fault, _, _, edge⟩ := next 0 _ _ t
  have pressed : ∀ key, key ∈ m'.core.keys ↔ key = 7 := by decide +kernel
  have ⟨key, answered, least⟩ := edge .empty (polls ▸ rfl) (fun all => by
    have held := all 7 ((pressed 7).mpr rfl)
    exact KeySet.not_mem_empty held)
  cases (pressed key).mp least.1.1
  exact ⟨e, m'', step, fault, answered⟩

end Machine
end Chip8
