import Chip8.Proofs.Faults

namespace Chip8

namespace Core

-- The next instruction draws a sprite that leaves memory, and the rows in memory change the screen.
structure Tears (config : Config) (c : Core) : Prop where
  draws : c.Faces config .draw
  strict : config.addressMode = .strict
  rows : 1 ≤ c.nextWord.n
  short : config.memorySize ≤ c.state.index + c.nextWord.n - 1
  changes : (Operation.drawing c.nextWord c).1 ≠ c.screen

variable {config : Config} {c : Core} {op : Operation}

theorem Tears.failure?_eq (h : c.Sound config) (t : c.Tears config) :
    c.failure? = some (.fault (outside config c.state.index)) :=
  failure?_of_due h (.sprite t.draws t.strict t.rows t.short)

theorem Tears.screen_next (h : c.Sound config) (t : c.Tears config) (d : Dialect) :
    (c.next d).screen = (Operation.drawing c.nextWord c).1 := by
  rw [t.draws.next_eq h, Operation.after_screen]
  rfl

-- A cycle that changes the screen clears it or draws on it.
theorem faces_of_screen_next {d : Dialect} (h : c.Sound config) (unlike : (c.next d).screen ≠ c.screen) :
    c.Faces config .clearScreen ∨ c.Faces config .draw := by
  obtain ⟨op, faces, unlike⟩ := h.faces_of_next Core.screen rfl unlike
  rw [Operation.after_screen] at unlike
  by_cases clears : op = .clearScreen
  case pos => exact .inl (clears ▸ faces)
  case neg =>
    by_cases draws : op = .draw
    case pos => exact .inr (draws ▸ faces)
    case neg =>
      rw [if_neg clears, if_neg draws] at unlike
      exact absurd rfl unlike

end Core

namespace Machine

variable {config : Config} {m m₁ : Machine} {now : Float} {periods : Int} {op : Operation}

theorem screen_cycle (h : m.Sound config) :
    (left m.cycle).core.screen = (m.core.next m.config.dialect).screen := by
  rw [cycle_eq h]
  split
  case h_1 | h_2 =>
    simp only [recorded, left, record_core]
    rfl
  case h_3 => rfl

theorem signal_of_fails (h : m.Sound config) (fails : m.core.failure? ≠ none) :
    (left m.cycle).displayWritten = m.displayWritten := by
  rw [cycle_eq h]
  split
  case h_1 none => exact absurd none fails
  case h_2 =>
    simp only [recorded, left, record_displayWritten]
    rfl
  case h_3 => rfl

theorem signal_of_succeeds (h : m.Sound config) (succeeds : m.core.failure? = none) :
    (left m.cycle).displayWritten = (m.displayWritten ||
      (m.core.word?.bind Operation.decode).any Operation.showsOnScreen) := by
  rw [cycle_eq h, succeeds]
  simp only [recorded, left, record_displayWritten]
  rfl

theorem signal_of_faces (h : m.Sound config) (faces : m.core.Faces config op)
    (shows : op.showsOnScreen = true) (succeeds : m.core.failure? = none) :
    (left m.cycle).displayWritten = true := by
  rw [signal_of_succeeds h succeeds, Core.word?_of_fetches h.core faces.fetches]
  simp [Operation.decode_of_isMeant faces.meant, shows]

-- A set signal stays set.
theorem signal_of_signal (h : m.Sound config) (signal : m.displayWritten = true) :
    (left m.cycle).displayWritten = true := by
  by_cases succeeds : m.core.failure? = none
  case pos => simp [signal_of_succeeds h succeeds, signal]
  case neg => exact (signal_of_fails h succeeds).trans signal

theorem signal_or_tears (h : m.Sound config) (unlike : (left m.cycle).core.screen ≠ m.core.screen) :
    (left m.cycle).displayWritten = true ∨ m.core.Tears config := by
  rw [screen_cycle h] at unlike
  cases Core.faces_of_screen_next h.core unlike with
  | inl clears => exact .inl (signal_of_faces h clears rfl (clears.failure?_eq h.core))
  | inr draws =>
    cases fails : m.core.failure? with
    | none => exact .inl (signal_of_faces h draws rfl fails)
    | some e =>
      have short := (draws.failure?_eq h.core).symm.trans fails
      have ⟨_, strict, rows, short⟩ :=
        (h.core.shortage?_fetched (m.core.state.index + m.core.nextWord.n - 1) (by omega)).mp short
      rw [draws.next_eq h.core, Operation.after_screen] at unlike
      exact .inr ⟨draws, strict, rows, short, unlike⟩

theorem cycle_of_tears (h : m.Sound config) (t : m.core.Tears config) :
    (left m.cycle).core.screen ≠ m.core.screen ∧ (left m.cycle).displayWritten = m.displayWritten ∧
      (left m.cycle).halted = true := by
  have fails := t.failure?_eq h.core
  refine ⟨?_, signal_of_fails h (by simp [fails]), ?_⟩
  case refine_1 =>
    rw [screen_cycle h, t.screen_next h.core]
    exact t.changes
  case refine_2 =>
    rw [cycle_eq h, fails]
    simp only [recorded, left, halted, record_core]
    rfl

-- Time changes neither the screen nor the signal, nor what the next instruction draws.
theorem tick_display (config : Config) (t : m.tick now = .ok (periods, m₁)) :
    m₁.core.screen = m.core.screen ∧ m₁.displayWritten = m.displayWritten ∧
      (m₁.core.Tears config ↔ m.core.Tears config) := by
  have ⟨_, _, out⟩ := tick_ok t
  have ⟨_, _, core⟩ := tick_core t
  refine ⟨by rw [core], by rw [out], ?_⟩
  rw [core]
  constructor
  all_goals
    intro ⟨⟨fetches, meant⟩, strict, rows, short, changes⟩
    exact ⟨⟨fetches, meant⟩, strict, rows, short, changes⟩

-- A step that comes to an instruction which tears the screen.
structure Tears (config : Config) (m : Machine) (now : Float) : Prop where
  running : m.halted = false
  ticks : (m.tick now).isOk = true
  core : m.core.Tears config

theorem stepped_of_tears (h : m.Sound config) (t : m.Tears config now) :
    (m.stepped now).core.screen ≠ m.core.screen ∧
      (m.stepped now).displayWritten = m.displayWritten ∧ (m.stepped now).halted = true := by
  have ⟨_, _, beat⟩ := tick_of_isOk t.ticks
  have ⟨screen, signal, tears⟩ := tick_display config beat
  have torn := cycle_of_tears (h.tick beat) (tears.mpr t.core)
  rwa [screen, signal, ← stepped_of_tick t.running beat] at torn

theorem stepped_signal (h : m.Sound config) (signal : m.displayWritten = true) :
    (m.stepped now).displayWritten = true := by
  cases m.stepped_cases now with
  | inl idle => rw [idle, signal]
  | inr made =>
    have ⟨_, _, _, t, out⟩ := made
    have ⟨_, same, _⟩ := tick_display config t
    rw [out]
    exact signal_of_signal (h.tick t) (same.trans signal)

theorem stepped_signal_or_tears (h : m.Sound config)
    (unlike : (m.stepped now).core.screen ≠ m.core.screen) :
    (m.stepped now).displayWritten = true ∨ m.Tears config now := by
  cases m.stepped_cases now with
  | inl idle => exact absurd (congrArg (·.core.screen) idle) unlike
  | inr made =>
    have ⟨running, _, _, t, out⟩ := made
    have ⟨screen, _, tears⟩ := tick_display config t
    rw [out, ← screen] at unlike
    rw [out]
    cases signal_or_tears (h.tick t) unlike with
    | inl signal => exact .inl signal
    | inr torn => exact .inr ⟨running, by simp [t, Except.isOk, Except.toBool], tears.mp torn⟩

variable {source : Source} {call : Call} {history : List (Float × Call)}

theorem afterCall_display (quiet : call.isQuiet = true) (other : call ≠ .step) :
    (m.afterCall now call).core.screen = m.core.screen ∧
      (m.afterCall now call).displayWritten = m.displayWritten ∧
      (m.afterCall now call).halted = m.halted := by
  have ⟨_, _, _, core, signal, _⟩ := m.afterCall_quiet now quiet other
  rw [halted, core]
  exact ⟨rfl, signal, rfl⟩

-- A halted machine keeps its screen and its signal, whatever quiet calls are made.
theorem afterCalls_of_halted (quiet : ∀ p ∈ history, p.2.isQuiet = true) (halted : m.halted = true) :
    (m.afterCalls history).core.screen = m.core.screen ∧
      (m.afterCalls history).displayWritten = m.displayWritten := by
  induction history generalizing m with
  | nil => exact ⟨rfl, rfl⟩
  | cons p history ih =>
    have ⟨first, rest⟩ := List.forall_mem_cons.mp quiet
    have same : (m.afterCall p.1 p.2).core.screen = m.core.screen ∧
        (m.afterCall p.1 p.2).displayWritten = m.displayWritten ∧
        (m.afterCall p.1 p.2).halted = m.halted := by
      by_cases step : p.2 = .step
      case neg => exact afterCall_display first step
      case pos =>
        rw [step, afterCall_step, stepped_of_halted halted]
        exact ⟨rfl, rfl, rfl⟩
    have ⟨screen, signal, stays⟩ := same
    have ⟨screens, signals⟩ := ih rest (stays.trans halted)
    exact ⟨screens.trans screen, signals.trans signal⟩

-- One of the steps of a history tears the screen while the signal is off.
def TornIn (config : Config) (m : Machine) (history : List (Float × Call)) : Prop :=
  ∃ before now after, history = before ++ (now, .step) :: after ∧
    (m.afterCalls before).displayWritten = false ∧ (m.afterCalls before).Tears config now

theorem tornIn_cons : m.TornIn config ((now, call) :: history) ↔
    call = .step ∧ m.displayWritten = false ∧ m.Tears config now ∨
      (m.afterCall now call).TornIn config history := by
  constructor
  case mp =>
    intro ⟨before, t, after, out, signal, tears⟩
    cases before with
    | nil =>
      cases out
      exact .inl ⟨rfl, signal, tears⟩
    | cons p before =>
      cases out
      exact .inr ⟨before, t, after, rfl, signal, tears⟩
  case mpr =>
    intro torn
    cases torn with
    | inl first =>
      have ⟨step, signal, tears⟩ := first
      exact ⟨[], now, history, step ▸ rfl, signal, tears⟩
    | inr later =>
      have ⟨before, t, after, out, signal, tears⟩ := later
      exact ⟨(now, call) :: before, t, after, by rw [out]; rfl, signal, tears⟩

-- The screen has changed and the signal is off.
def Unsignalled (m m' : Machine) : Prop :=
  m'.core.screen ≠ m.core.screen ∧ m'.displayWritten = false

theorem stepped_unsignalled_iff (h : m.Sound config) :
    m.Unsignalled (m.stepped now) ↔ m.displayWritten = false ∧ m.Tears config now := by
  constructor
  case mp =>
    intro ⟨unlike, off⟩
    have before : m.displayWritten = false := by
      by_contra on
      rw [Bool.not_eq_false] at on
      rw [stepped_signal h on] at off
      cases off
    cases stepped_signal_or_tears h unlike with
    | inl on =>
      rw [on] at off
      cases off
    | inr tears => exact ⟨before, tears⟩
  case mpr =>
    intro ⟨off, tears⟩
    have ⟨unlike, same, _⟩ := stepped_of_tears h tears
    exact ⟨unlike, same.trans off⟩

theorem afterCalls_signal (h : m.Sound config) (quiet : ∀ p ∈ history, p.2.isQuiet = true)
    (signal : m.displayWritten = true) : (m.afterCalls history).displayWritten = true := by
  induction history generalizing m with
  | nil => exact signal
  | cons p history ih =>
    have ⟨first, rest⟩ := List.forall_mem_cons.mp quiet
    apply ih (h.afterCall p.1 p.2) rest
    by_cases step : p.2 = .step
    case pos =>
      rw [step, afterCall_step]
      exact stepped_signal h signal
    case neg => exact (afterCall_display first step).2.1.trans signal

-- A first call that leaves the screen as it was does not tear it, and one that changes it is a step.
theorem afterCall_unsignalled_iff (h : m.Sound config) (quiet : call.isQuiet = true) :
    m.Unsignalled (m.afterCall now call) ↔
      call = .step ∧ m.displayWritten = false ∧ m.Tears config now := by
  by_cases step : call = .step
  case pos =>
    rw [step, afterCall_step, stepped_unsignalled_iff h]
    simp
  case neg =>
    have screen : (m.afterCall now call).core.screen = m.core.screen := (afterCall_display quiet step).1
    simp [Unsignalled, step, screen]

-- After a step that tears the screen the machine has halted, and nothing changes any more.
theorem unsignalled_lasts (h : m.Sound config) (quiet : call.isQuiet = true)
    (rest : ∀ p ∈ history, p.2.isQuiet = true) (here : m.Unsignalled (m.afterCall now call)) :
    ((m.afterCall now call).afterCalls history).core.screen = (m.afterCall now call).core.screen ∧
      ((m.afterCall now call).afterCalls history).displayWritten = false := by
  have ⟨step, _, tears⟩ := (afterCall_unsignalled_iff h quiet).mp here
  have halted : (m.afterCall now call).halted = true := by
    rw [step, afterCall_step]
    exact (stepped_of_tears h tears).2.2
  have ⟨screen, signal⟩ := afterCalls_of_halted rest halted
  exact ⟨screen, signal.trans here.2⟩

theorem afterCalls_unsignalled_iff (h : m.Sound config) (quiet : ∀ p ∈ history, p.2.isQuiet = true) :
    m.Unsignalled (m.afterCalls history) ↔ m.TornIn config history := by
  induction history generalizing m with
  | nil => simp [Unsignalled, afterCalls, TornIn]
  | cons p history ih =>
    have ⟨first, rest⟩ := List.forall_mem_cons.mp quiet
    let m' := m.afterCall p.1 p.2
    have h' : m'.Sound config := h.afterCall p.1 p.2
    have out : m.afterCalls (p :: history) = m'.afterCalls history := rfl
    rw [tornIn_cons, ← afterCall_unsignalled_iff h first, ← ih h' rest, out]
    -- The signal is off at the end, so it is off after the first call.
    have off (signal : (m'.afterCalls history).displayWritten = false) : m'.displayWritten = false := by
      by_contra on
      rw [Bool.not_eq_false] at on
      rw [afterCalls_signal h' rest on] at signal
      cases signal
    by_cases same : m'.core.screen = m.core.screen
    case pos => simp [Unsignalled, m', same]
    case neg =>
      constructor
      case mp => exact fun ⟨_, signal⟩ => .inl ⟨same, off signal⟩
      case mpr =>
        intro torn
        have signal : m'.displayWritten = false := torn.elim (·.2) (off ·.2)
        have ⟨screen, last⟩ := unsignalled_lasts h first rest ⟨same, signal⟩
        exact ⟨fun e => same (screen.symm.trans e), last⟩

-- The signal misses a change of the screen exactly if a step tears the screen while the signal is off.
theorem change_unsignalled_iff (r : m.Reachable config source) :
    (∀ now, (m.stepped now).core.screen ≠ m.core.screen ∧ (m.stepped now).displayWritten = false ↔
      m.displayWritten = false ∧ m.Tears config now) ∧
    ∀ history : List (Float × Call), (∀ p ∈ history, p.2.isQuiet = true) →
      let seen := m.takeDisplaySignal.2
      ((seen.afterCalls history).core.screen ≠ m.core.screen ∧
        (seen.afterCalls history).takeDisplaySignal.1 = false ↔ seen.TornIn config history) := by
  have h := r.sound
  constructor
  case left => exact fun now => stepped_unsignalled_iff h
  case right =>
    intro history quiet seen
    have sound : seen.Sound config := ⟨h.config_eq, h.core⟩
    exact afterCalls_unsignalled_iff sound quiet

-- A machine about to draw two rows, the second of which has no byte in memory.
def torn : Machine :=
  (Machine.new (.small .strict) .zeros false 0).afterCalls
    [(0, .load ([0xa0, 0x7f, 0xd0, 0x02] ++ List.replicate 27 0 ++ [0x80]) none), (0, .step)]

theorem torn_reachable : torn.Reachable (.small .strict) .zeros :=
  (Reachable.new false 0).calls _

theorem torn_unsignalled : torn.Reachable (.small .strict) .zeros ∧
    (torn.stepped 0).core.screen ≠ torn.core.screen ∧ (torn.stepped 0).displayWritten = false :=
  ⟨torn_reachable, by decide +kernel, by decide +kernel⟩

theorem torn_tears : torn.Tears (.small .strict) 0 :=
  (((change_unsignalled_iff torn_reachable).1 0).mp ⟨by decide +kernel, by decide +kernel⟩).2

end Machine
end Chip8
