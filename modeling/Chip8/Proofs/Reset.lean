import Chip8.Proofs.Outcomes
import Mathlib.Data.List.Forall2

namespace Chip8

deriving instance DecidableEq for Twister, Source

namespace Source

-- Sources with the same bytes to come.
def Alike (s s' : Source) : Prop :=
  ∀ n, s.nth? n = s'.nth? n

variable {s s' : Source}

theorem Alike.first (alike : s.Alike s') : s.draw?.map (·.1) = s'.draw?.map (·.1) :=
  alike 0

theorem Alike.isEmpty (alike : s.Alike s') : s.isEmpty = s'.isEmpty := by
  rw [Bool.eq_iff_iff, ← draw?_eq_none, ← draw?_eq_none, ← Option.map_eq_none_iff, alike.first,
    Option.map_eq_none_iff]

theorem Alike.next (alike : s.Alike s') : s.next.Alike s'.next := by
  intro n
  have later := alike (1 + n)
  rw [nth?, nth?, after_add, after_add] at later
  exact later

-- A source that hands out nothing but zeros does so from wherever it is.
theorem alike_zeros (drawn drawn' : Nat) : (cycle #[0] drawn).Alike (cycle #[0] drawn') := by
  have after (drawn n : Nat) : (cycle #[0] drawn).after n = cycle #[0] (drawn + n) := by
    induction n with
    | zero => rfl
    | succ n ih => simp [Source.after, ih, Source.next, draw?, Nat.mod_one, Nat.add_assoc]
  intro n
  rw [nth?, nth?, after, after]
  simp [draw?, Nat.mod_one]

end Source

namespace Core

def withSource (c : Core) (s : Source) : Core :=
  { c with source := s }

def Twin (c c' : Core) : Prop :=
  ∃ s, s.Alike c.source ∧ c' = c.withSource s

end Core

namespace Operation

variable {c c' : Core} {s : Source}

theorem failure?_withSource (alike : s.Alike c.source) (op : Operation) (w : Opcode) :
    op.failure? w (c.withSource s) = op.failure? w c := by
  cases op
  case random => simp only [failure?, Core.withSource, alike.isEmpty]
  all_goals rfl

theorem after_withSource (alike : s.Alike c.source) (op : Operation) (d : Dialect) (w : Opcode) :
    op.after d w (c.withSource s) =
      (op.after d w c).withSource (if op = random then s.next else s) := by
  have failure := failure?_withSource alike op w
  cases op <;> simp only [reduceCtorEq, if_false, if_true]
  case ret =>
    have calls : (c.withSource s).state.calls = c.state.calls := rfl
    simp only [after, calls]
    cases c.state.calls <;> rfl
  case random =>
    have first := alike.first
    simp only [after, Core.withSource, Source.next]
    cases drawn : s.draw? with
    | none =>
      rw [drawn, Option.map_none, eq_comm, Option.map_eq_none_iff] at first
      simp only [first]
      rfl
    | some p =>
      rw [drawn, Option.map_some, eq_comm, Option.map_eq_some_iff] at first
      obtain ⟨q, drawn', byte⟩ := first
      simp only [drawn', byte]
      rfl
  case call | skipHeld | skipReleased | storeRegisters | loadRegisters | draw =>
    simp only [after, failure]
    split <;> rfl
  all_goals rfl

end Operation

namespace Core

variable {c c' : Core}

theorem Twin.cycle (twin : c.Twin c') (d : Dialect) :
    c'.word? = c.word? ∧ c'.failure? = c.failure? ∧ (c.next d).Twin (c'.next d) := by
  obtain ⟨s, alike, rfl⟩ := twin
  have fetch : (c.withSource s).fetchFailure? = c.fetchFailure? := rfl
  have word : (c.withSource s).nextWord = c.nextWord := rfl
  refine ⟨rfl, ?_, ?_⟩
  case refine_1 =>
    simp only [failure?, fetch, word]
    cases Operation.decode c.nextWord with
    | none => rfl
    | some op =>
      have fails := Operation.failure?_withSource (c := c.fetched) alike op c.nextWord
      exact congrArg c.fetchFailure?.or fails
  case refine_2 =>
    simp only [next, fetch, word]
    split
    case isTrue => exact ⟨s, alike, rfl⟩
    case isFalse =>
      cases Operation.decode c.nextWord with
      | none => exact ⟨s, alike, rfl⟩
      | some op =>
        refine ⟨_, ?_, Operation.after_withSource (c := c.fetched) alike op d c.nextWord⟩
        rw [Operation.after_source]
        split
        case isTrue => exact alike.next
        case isFalse => exact alike

end Core

namespace Machine

def withSource (m : Machine) (s : Source) : Machine :=
  { m with core := m.core.withSource s }

def Twin (m m' : Machine) : Prop :=
  ∃ s, s.Alike m.core.source ∧ m' = m.withSource s

-- The same answer, or the same failure, and twins behind it.
inductive Twins {α : Type} : Outcome α → Outcome α → Prop
  | ok (a : α) {m m' : Machine} : m.Twin m' → Twins (.ok a m) (.ok a m')
  | error (e : Failure) {m m' : Machine} : m.Twin m' → Twins (.error e m) (.error e m')

variable {config : Config} {source s : Source} {m m' after after' : Machine} {now : Float} {α : Type}

theorem Twins.left {o o' : Outcome α} (twins : Twins o o') : (left o).Twin (left o') := by
  cases twins with
  | ok _ twin => exact twin
  | error _ twin => exact twin

theorem Twin.sound (h : m.Sound config) (twin : m.Twin m') : m'.Sound config := by
  obtain ⟨s, _, rfl⟩ := twin
  exact h.withCore (h.core.withSource s)

theorem Twin.core (twin : m.Twin m') : m.core.Twin m'.core := by
  obtain ⟨s, alike, rfl⟩ := twin
  exact ⟨s, alike, rfl⟩

theorem Twin.advanced (twin : m.Twin m') : m.advanced.Twin m'.advanced := by
  have ⟨_, _, s', alike', next⟩ := twin.core.cycle m.config.dialect
  obtain ⟨s, _, rfl⟩ := twin
  exact ⟨s', alike', congrArg (fun c => { m with core := c }) next⟩

theorem Twin.succeed (twin : m.Twin m') (w : Option Opcode) : (m.succeed w).Twin (m'.succeed w) := by
  obtain ⟨s, alike, rfl⟩ := twin
  exact ⟨s, alike, rfl⟩

theorem Twin.halt (twin : m.Twin m') (f : Fault) : (m.halt f).Twin (m'.halt f) := by
  obtain ⟨s, alike, rfl⟩ := twin
  exact ⟨s, alike, rfl⟩

theorem Twin.recorded (twin : m.Twin m') (left : after.Twin after') (fault : Option Fault) :
    Twins (m.recorded after fault) (m'.recorded after' fault) := by
  obtain ⟨s, _, rfl⟩ := twin
  obtain ⟨s', alike, rfl⟩ := left
  refine .ok (m.entry after fault) ⟨s', ?_, ?_⟩
  case refine_1 =>
    rw [record_core]
    exact alike
  case refine_2 =>
    have traced : (after.withSource s').traced = after.traced := rfl
    simp only [record, traced]
    split <;> rfl

theorem Twin.cycle (h : m.Sound config) (twin : m.Twin m') : Twins m.cycle m'.cycle := by
  have ⟨word, failure, _⟩ := twin.core.cycle config.dialect
  rw [cycle_eq h, cycle_eq (twin.sound h), word, failure]
  cases m.core.failure? with
  | none => exact twin.recorded (twin.advanced.succeed _) none
  | some e =>
    cases e with
    | fault f => exact twin.recorded (twin.advanced.halt f) (some f)
    | _ => exact .error _ twin.advanced

theorem tick_withSource (m : Machine) (s : Source) (now : Float) : (m.withSource s).tick now =
    (m.tick now).map fun (periods, m') => (periods, m'.withSource s) := by
  have beat : (m.withSource s).metronome.beat now = m.metronome.beat now := rfl
  simp only [tick, beat]
  cases m.metronome.beat now <;> rfl

theorem Twin.step (h : m.Sound config) (twin : m.Twin m') (now : Float) :
    Twins (m.step now) (m'.step now) := by
  obtain ⟨s, alike, rfl⟩ := twin
  cases running : m.halted with
  | true =>
    rw [step_of_halted running, step_of_halted (show (m.withSource s).halted = true from running)]
    exact .error _ ⟨s, alike, rfl⟩
  | false =>
    have running' : (m.withSource s).halted = false := running
    have ticks := m.tick_withSource s now
    cases t : m.tick now with
    | error e =>
      rw [t] at ticks
      rw [step_of_tick_error running t, step_of_tick_error running' ticks]
      exact .error e ⟨s, alike, rfl⟩
    | ok p =>
      rw [t] at ticks
      rw [step_of_tick running t, step_of_tick running' ticks]
      have ⟨_, _, core⟩ := tick_core t
      have alike' : s.Alike p.2.core.source := by
        rw [core]
        exact alike
      exact Twin.cycle (h.tick t) ⟨s, alike', rfl⟩

theorem Twin.runSteps (h : m.Sound config) (twin : m.Twin m') (now : Float) (n : Nat) (later : List Float) :
    Twins (m.runSteps now n later) (m'.runSteps now n later) := by
  induction n generalizing m m' now later with
  | zero => exact .ok () twin
  | succ n ih =>
    have sound := (changes_step m now).sound h
    have step := twin.step h now
    rw [stepped] at sound
    rw [Machine.runSteps, Machine.runSteps]
    generalize m.step now = o at step sound
    generalize m'.step now = o' at step
    cases step with
    | error e twin => exact .error e twin
    | ok e twin =>
      dsimp only
      cases e.fault with
      | some f => exact .error (.fault f) twin
      | none => exact ih sound twin _ _

theorem Twin.run (h : m.Sound config) (twin : m.Twin m') (now : Float) (limit : Option Int) (later : List Float) :
    Twins (m.run now limit later) (m'.run now limit later) := by
  have steps := twin.runSteps h now (limit.getD defaultLimit).toNat later
  simp only [Machine.run]
  generalize m.runSteps now (limit.getD defaultLimit).toNat later = o at steps
  generalize m'.runSteps now (limit.getD defaultLimit).toNat later = o' at steps
  cases steps with
  | error e twin => exact .error e twin
  | ok _ twin =>
    obtain ⟨s, alike, rfl⟩ := twin
    exact .ok _ ⟨s, alike, rfl⟩

theorem Twins.replied {o o' : Outcome α} (reply : α → Reply) (twins : Twins o o') :
    Twins (replied reply o) (replied reply o') := by
  cases twins with
  | ok a twin => exact .ok (reply a) twin
  | error e twin => exact .error e twin

theorem Twins.asked (twin : m.Twin m') (r : Except Failure Reply) : Twins (m.asked r) (m'.asked r) := by
  cases r with
  | error e => exact .error e twin
  | ok r => exact .ok r twin

theorem Twin.answer (h : m.Sound config) (twin : m.Twin m') (now : Float) (call : Call) :
    Twins (m.answer now call) (m'.answer now call) := by
  cases call <;> simp only [Machine.answer]
  case step => exact (twin.step h now).replied _
  case run limit later => exact (twin.run h now limit later).replied _
  all_goals obtain ⟨s, alike, rfl⟩ := twin
  case load image start =>
    simp only [Machine.load, withSource, Core.withSource]
    cases m.core.memory.load _ image with
    | error e => exact .error e ⟨s, alike, rfl⟩
    | ok p => exact .ok _ ⟨s, alike, rfl⟩
  case tick =>
    rw [tick_withSource]
    cases t : m.tick now with
    | error e => exact .error e ⟨s, alike, rfl⟩
    | ok p =>
      obtain ⟨_, _, out⟩ := tick_ok t
      exact .ok _ ⟨s, by rw [out]; exact alike, rfl⟩
  case setKey key down =>
    simp only [Machine.setKey, Core.setKey, withSource, Core.withSource]
    cases m.core.keys.set key down with
    | error e => exact .error e ⟨s, alike, rfl⟩
    | ok keys => exact .ok Reply.nothing ⟨s, alike, rfl⟩
  case writePixel x y lit =>
    simp only [Machine.writePixel, Core.writePixel, withSource, Core.withSource]
    cases m.core.screen.write x y lit with
    | error e => exact .error e ⟨s, alike, rfl⟩
    | ok screen => exact .ok Reply.nothing ⟨s, alike, rfl⟩
  case writeMemory address value =>
    simp only [Machine.writeMemory, Core.writeMemory, withSource, Core.withSource]
    cases m.core.memory.cell address with
    | error e => exact .error e ⟨s, alike, rfl⟩
    | ok i => exact .ok Reply.nothing ⟨s, alike, rfl⟩
  case readPixel | readMemory => exact .asked ⟨s, alike, rfl⟩ _
  case reset | takeDisplaySignal | takeSoundSignal | summary => exact .ok _ ⟨s, alike, rfl⟩

theorem Twin.outcomes (h : m.Sound config) (twin : m.Twin m') (history : List (Float × Call)) :
    List.Forall₂ Twins (m.outcomes history) (m'.outcomes history) := by
  induction history generalizing m m' with
  | nil => exact .nil
  | cons p history ih =>
    have first := twin.answer h p.1 p.2
    have left := first.left
    rw [← afterCall_eq, ← afterCall_eq] at left
    exact .cons first (ih (h.afterCall p.1 p.2) left)

namespace Reachable

-- The timers of every reachable machine beat at the rate that it was set up with.
theorem period (r : m.Reachable config source) : m.metronome.period = 1.0 / config.timerHz := by
  refine r.induct (P := fun m => m.metronome.period = 1.0 / config.timerHz) (fun _ _ => rfl) ?_
  intro m m' h kept c
  cases c
  case load l =>
    have ⟨_, _, _, _, out⟩ := load_ok l
    rw [out]
    exact kept
  case tick t =>
    have ⟨_, beat, out⟩ := tick_ok t
    rw [out]
    exact (Metronome.beat_preserves_period beat).trans kept
  case cycle => exact (congrArg Metronome.period m.metronome_cycle).trans kept
  case setKey k =>
    have ⟨_, _, out⟩ := setKey_ok k
    rw [out]
    exact kept
  case writeMemory w =>
    have ⟨_, _, out⟩ := writeMemory_ok w
    rw [out]
    exact kept
  case writePixel w =>
    have ⟨_, _, out⟩ := writePixel_ok w
    rw [out]
    exact kept
  case start s =>
    have ⟨_, out⟩ := start_ok s
    rw [out]
    exact kept
  case reset | takeDisplaySignal | takeSoundSignal | endLoop => exact kept

end Reachable

-- What a machine keeps through a reset is its set-up: the rate of its timers, the sizes of its memory and its
-- screen, and whether it is traced.
theorem reset_twin (r : m.Reachable config source) (alike : s.Alike m.core.source) (now : Float) :
    let fresh := { Machine.new config s m.traced now with looping := m.looping }
    (m.reset true now).Twin fresh ∧ (m.reset false now).Twin { fresh with
      core := { fresh.core with memory := m.core.memory }
      programSize := m.programSize } := by
  intro fresh
  have period := r.period
  have memory := r.sound.freshMemory_eq s
  obtain ⟨rfl, core⟩ := r.sound
  have screen : m.core.screen.clear = (Core.new m.config s).screen := by
    rw [Screen.clear, core.width, core.height]
    rfl
  constructor
  case left =>
    refine ⟨s, alike, ?_⟩
    simp only [reset, withSource, Core.withSource, memory, screen, period, if_true]
    rfl
  case right =>
    refine ⟨s, alike, ?_⟩
    simp only [reset, withSource, Core.withSource, screen, period, Bool.false_eq_true, if_false]
    rfl

-- A machine that is reset can from then on not be told from a new one, nor from a new one into which its memory was
-- copied if it was not to be cleared. A loop goes on through a reset.
theorem reset_renews (r : m.Reachable config source) (alike : s.Alike m.core.source) (now : Float)
    (history : List (Float × Call)) :
    let fresh := { Machine.new config s m.traced now with looping := m.looping }
    let filled := { fresh with
      core := { fresh.core with memory := m.core.memory }
      programSize := m.programSize }
    ((m.reset true now).Twin fresh ∧
      List.Forall₂ Twins ((m.reset true now).outcomes history) (fresh.outcomes history)) ∧
    (m.reset false now).Twin filled ∧
      List.Forall₂ Twins ((m.reset false now).outcomes history) (filled.outcomes history) := by
  intro fresh filled
  have ⟨cleared, kept⟩ := reset_twin r alike now
  have sound (clearMemory : Bool) := r.sound.reset clearMemory now
  exact ⟨⟨cleared, cleared.outcomes (sound true) history⟩, kept, kept.outcomes (sound false) history⟩

-- A machine that has drawn a random byte and waits for a key while one is held.
def waitingTraced : Machine :=
  (Machine.new (.small .strict) .zeros true 0).afterCalls
    [(0, .load [0xc0, 0xff, 0xf0, 0x0a] none), (0, .setKey 3 true), (0, .step), (0, .step)]

theorem waitingTraced_renewed :
    let history := [(0, .step), (0, .load [0xf0, 0x0a] none), (1, .run (some 2) [2]), (3, .setKey 3 true), (3, .step)]
    let fresh := { Machine.new (.small .strict) .zeros waitingTraced.traced 0 with
      looping := waitingTraced.looping }
    waitingTraced.core.waiting = true ∧ waitingTraced.core.source = .cycle #[0] 1 ∧
      List.Forall₂ Twins ((waitingTraced.reset true 0).outcomes history) (fresh.outcomes history) := by
  intro history fresh
  have reachable : waitingTraced.Reachable (.small .strict) .zeros := (Reachable.new true 0).calls _
  have drawn : waitingTraced.core.source = .cycle #[0] 1 := by decide +kernel
  have alike : (Source.zeros).Alike waitingTraced.core.source := drawn ▸ Source.alike_zeros 0 1
  have ⟨⟨_, renewed⟩, _⟩ := reset_renews reachable alike 0 history
  exact ⟨by decide +kernel, drawn, renewed⟩

end Machine
end Chip8
