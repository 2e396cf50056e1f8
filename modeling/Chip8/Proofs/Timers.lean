import Chip8.Proofs.Reachable
import Mathlib.Algebra.Order.BigOperators.Group.List
import Mathlib.Algebra.Order.Group.Int
import Mathlib.Algebra.Ring.Int.Defs
import Mathlib.Data.List.Infix

namespace Chip8

inductive Timer where
  | delay
  | sound
deriving DecidableEq

namespace Timer

-- What can happen to the timers and to the signal.
inductive Event where
  | passed (periods : Int)
  | loaded (timer : Timer) (value : Int)
  | taken
  | reset
deriving DecidableEq

namespace Event

-- What an event puts into a timer.
def puts? (t : Timer) : Event → Option Int
  | loaded timer value => if timer = t then some value else none
  | reset => some 0
  | passed _ | taken => none

def periods : Event → Int
  | passed periods => periods
  | _ => 0

end Event

-- A past is a list of events, the latest first.

-- What was last put into a timer.
def stored (t : Timer) (past : List Event) : Int :=
  (past.findSome? (·.puts? t)).getD 0

-- The periods that have passed since.
def charged (t : Timer) (past : List Event) : Int :=
  ((past.takeWhile fun e => (e.puts? t).isNone).map Event.periods).sum

def remaining (t : Timer) (past : List Event) : Int :=
  max 0 (t.stored past - t.charged past)

-- Whether the latest event is a tick in which the timer ran down.
def ends (t : Timer) : List Event → Bool
  | .passed periods :: past => 0 < t.remaining past ∧ t.remaining (.passed periods :: past) = 0
  | _ => false

-- How often the timer has run down.
def endings (t : Timer) (past : List Event) : Nat :=
  past.tails.countP t.ends

variable {t : Timer} {e : Event} {v : Int} {past before : List Event}

theorem remaining_nonneg (t : Timer) (past : List Event) : 0 ≤ t.remaining past :=
  Int.le_max_left ..

theorem remaining_of_puts (puts : e.puts? t = some v) : t.remaining (e :: past) = max 0 v := by
  simp [remaining, stored, charged, puts]

theorem remaining_of_keeps (keeps : e.puts? t = none) (time : 0 ≤ e.periods) :
    t.remaining (e :: past) = max 0 (t.remaining past - e.periods) := by
  have stored : t.stored (e :: past) = t.stored past := by simp [Timer.stored, keeps]
  have charged : t.charged (e :: past) = e.periods + t.charged past := by simp [Timer.charged, keeps]
  rw [remaining, remaining, stored, charged]
  omega

theorem remaining_of_idle (keeps : e.puts? t = none) (idle : e.periods = 0) :
    t.remaining (e :: past) = t.remaining past := by
  have := t.remaining_nonneg past
  rw [remaining_of_keeps keeps (Int.le_of_eq idle.symm), idle]
  omega

-- Saturation composes: however the periods are spread over ticks, their sum is what counts.
theorem remaining_append {after : List Event} (keeps : ∀ e ∈ after, e.puts? t = none)
    (time : ∀ e ∈ after, 0 ≤ e.periods) :
    t.remaining (after ++ before) = max 0 (t.remaining before - (after.map Event.periods).sum) := by
  induction after with
  | nil =>
    have := t.remaining_nonneg before
    simp only [List.nil_append, List.map_nil, List.sum_nil]
    omega
  | cons e after ih =>
    have ⟨keeps, keepOn⟩ := List.forall_mem_cons.mp keeps
    have ⟨time, timeOn⟩ := List.forall_mem_cons.mp time
    rw [List.cons_append, remaining_of_keeps keeps time, ih keepOn timeOn, List.map_cons, List.sum_cons]
    omega

theorem ends_iff (keeps : e.puts? t = none) (time : 0 ≤ e.periods) (past : List Event) :
    t.ends (e :: past) = true ↔ 0 < t.remaining past ∧ t.remaining past ≤ e.periods := by
  cases e with
  | passed periods =>
    have left : t.remaining (.passed periods :: past) = max 0 (t.remaining past - periods) :=
      remaining_of_keeps keeps time
    rw [ends, left, decide_eq_true_iff, Event.periods]
    omega
  | reset => cases keeps
  | loaded | taken =>
    simp only [ends, Event.periods, Bool.false_eq_true, false_iff]
    omega

theorem endings_cons (t : Timer) (e : Event) (past : List Event) :
    t.endings (e :: past) = t.endings past + if t.ends (e :: past) then 1 else 0 := by
  rw [endings, endings, List.tails, List.countP_cons]

theorem endings_of_puts (puts : e.puts? t = some v) : t.endings (e :: past) = t.endings past := by
  cases e with
  | passed | taken => cases puts
  | loaded | reset => simp [endings_cons, ends]

-- As long as nothing is put into it, a timer runs down once at the most.
theorem endings_append {after : List Event} (keeps : ∀ e ∈ after, e.puts? t = none)
    (time : ∀ e ∈ after, 0 ≤ e.periods) :
    t.endings (after ++ before) = t.endings before +
      if 0 < t.remaining before ∧ t.remaining before ≤ (after.map Event.periods).sum then 1 else 0 := by
  induction after with
  | nil =>
    rw [if_neg]
    · rfl
    · simp only [List.map_nil, List.sum_nil]
      omega
  | cons e after ih =>
    have ⟨keeps, keepOn⟩ := List.forall_mem_cons.mp keeps
    have ⟨time, timeOn⟩ := List.forall_mem_cons.mp time
    -- The last event is an ending exactly if its periods take the sum past what there was.
    have total : 0 ≤ (after.map Event.periods).sum := List.sum_nonneg (List.forall_mem_map.mpr timeOn)
    have last := ends_iff keeps time (after ++ before)
    rw [remaining_append keepOn timeOn] at last
    rw [List.cons_append, endings_cons, ih keepOn timeOn, List.map_cons, List.sum_cons]
    simp only [last]
    split <;> split <;> split <;> omega

-- Two periods after a load of two, and five more when there is nothing left.
example : Timer.sound.endings [.passed 5, .passed 2, .loaded .sound 2] = 1 := by decide

end Timer

-- Whether the sound timer has run down since a host last asked or started over.
def Signalled (past : List Timer.Event) : Prop :=
  ∃ after before, past = after ++ before ∧ Timer.sound.ends before = true ∧
    .taken ∉ after ∧ .reset ∉ after

theorem signalled_cons {e : Timer.Event} {past : List Timer.Event} : Signalled (e :: past) ↔
    Timer.sound.ends (e :: past) = true ∨ e ≠ .taken ∧ e ≠ .reset ∧ Signalled past := by
  constructor
  case mp =>
    intro ⟨after, before, split, ends, untaken, kept⟩
    cases after with
    | nil => exact .inl (split ▸ ends)
    | cons e' after =>
      cases split
      simp only [List.mem_cons, not_or] at untaken kept
      exact .inr ⟨Ne.symm untaken.1, Ne.symm kept.1, after, before, rfl, ends, untaken.2, kept.2⟩
  case mpr =>
    intro h
    cases h with
    | inl ends => exact ⟨[], _, rfl, ends, nofun, nofun⟩
    | inr earlier =>
      have ⟨untaken, kept, after, before, split, ends, untaken', kept'⟩ := earlier
      refine ⟨e :: after, before, congrArg _ split, ends, ?_, ?_⟩
      · simp [untaken.symm, untaken']
      · simp [kept.symm, kept']

namespace State

def timer (s : State) : Timer → Int
  | .delay => s.delayTimer
  | .sound => s.soundTimer

variable {s : State} {periods : Int}

theorem timer_elapse (time : 0 ≤ periods) {t : Timer} (nonneg : 0 ≤ s.timer t) :
    (s.elapse periods).1.timer t = max 0 (s.timer t - periods) := by
  cases t <;> simp only [timer, elapse] at nonneg ⊢ <;> split
  case delay.isTrue | sound.isTrue =>
    dsimp only
    omega
  case delay.isFalse => rfl
  case sound.isFalse =>
    dsimp only
    split <;> omega

theorem ended_elapse (time : 0 ≤ periods) :
    (s.elapse periods).2 = true ↔ 0 < s.timer .sound ∧ s.timer .sound ≤ periods := by
  simp only [timer, elapse]
  split
  case isTrue =>
    simp only [Bool.false_eq_true, false_iff]
    omega
  case isFalse =>
    simp only [Bool.and_eq_true, decide_eq_true_eq, beq_iff_eq]
    split <;> omega

end State

namespace Operation

-- The timer that an operation loads.
def timer? : Operation → Option Timer
  | setDelay => some .delay
  | setSound => some .sound
  | _ => none

theorem after_timer (op : Operation) (d : Dialect) (w : Opcode) (c : Core) (t : Timer) :
    (op.after d w c).state.timer t =
      if op.timer? = some t then c.state.value w.x else c.state.timer t := by
  cases op <;> simp only [after, Core.modifyState, State.skipIf_eq, State.advance_eq]
  case setDelay | setSound => cases t <;> rfl
  case ret | call | skipHeld | skipReleased | random | storeRegisters | loadRegisters | draw | awaitKey =>
    split <;> rfl
  all_goals rfl

end Operation

namespace Core

variable {config : Config} {c : Core} {e : Timer.Event}

-- What the next instruction loads into a timer, if it is one that does.
def load? (c : Core) : Option Timer.Event :=
  c.word?.bind fun w =>
    ((Operation.decode w).bind Operation.timer?).map fun t => .loaded t (c.state.value w.x)

theorem timer_next (c : Core) (d : Dialect) (t : Timer) :
    (c.next d).state.timer t = (c.load?.bind (·.puts? t)).getD (c.state.timer t) := by
  have timer : c.fetched.state.timer t = c.state.timer t := rfl
  have value (w : Opcode) : c.fetched.state.value w.x = c.state.value w.x := rfl
  simp only [next, load?, word?]
  cases c.fetchFailure? with
  | some _ => rfl
  | none =>
    cases decode : Operation.decode c.nextWord with
    | none => simp [decode, timer]
    | some op =>
      have after := op.after_timer d c.nextWord c.fetched t
      rw [timer, value] at after
      cases loads : op.timer? with
      | none => simpa [decode, loads] using after
      | some t' =>
        by_cases same : t' = t <;> simpa [decode, loads, Timer.Event.puts?, same] using after

theorem Sound.load?_eq (h : c.Sound config) (loads : c.load? = some e) :
    ∃ t v, e = .loaded t v ∧ 0 ≤ v := by
  simp only [load?, Option.bind_eq_some_iff, Option.map_eq_some_iff] at loads
  have ⟨w, _, t, _, out⟩ := loads
  exact ⟨t, _, out.symm, (h.valid.value_range w.x_lt).1⟩

end Core

namespace Machine

-- What happens in a step: the time that passes, and after it what the instruction loads.
def stepEvents (m : Machine) (now : Float) : List Timer.Event :=
  if m.halted then []
  else match m.tick now with
    | .ok (periods, m) => m.core.load?.toList ++ [.passed periods]
    | .error _ => []

def runEvents (m : Machine) (now : Float) (n : Nat) (later : List Float) : List Timer.Event :=
  match n with
  | 0 => []
  | n + 1 => match m.step now with
    | .ok e m' =>
      (if e.fault.isSome then [] else m'.runEvents (later.headD now) n later.tail) ++ m.stepEvents now
    | .error _ _ => m.stepEvents now

def callEvents (m : Machine) (now : Float) : Call → List Timer.Event
  | .step => m.stepEvents now
  | .run limit later => m.runEvents now (limit.getD defaultLimit).toNat later
  | .tick => match m.tick now with
    | .ok (periods, _) => [.passed periods]
    | .error _ => []
  | .takeSoundSignal => [.taken]
  | .reset _ => [.reset]
  | _ => []

-- What happens in a history of calls, the latest first.
def events (m : Machine) : List (Float × Call) → List Timer.Event
  | [] => []
  | (now, call) :: rest => (m.afterCall now call).events rest ++ m.callEvents now call

-- The timers and the signal of a machine are what its past tells.
structure Tells (m : Machine) (past : List Timer.Event) : Prop where
  timer : ∀ t, m.state.timer t = t.remaining past
  nonneg : ∀ e ∈ past, 0 ≤ e.periods
  signal : m.soundEnded = true ↔ Signalled past

variable {config : Config} {m m' : Machine} {past : List Timer.Event} {now : Float} {periods : Int}

theorem timer_cycle (h : m.Sound config) (t : Timer) :
    (left m.cycle).state.timer t = (m.core.load?.bind (·.puts? t)).getD (m.state.timer t) := by
  have next := m.core.timer_next m.config.dialect t
  rw [cycle_eq h]
  split
  case h_1 | h_2 =>
    simp only [recorded, left, state, record_core]
    exact next
  case h_3 => exact next

namespace Tells

-- A change of anything else.
theorem keep (h : m.Tells past) (timer : ∀ t, m'.state.timer t = m.state.timer t)
    (signal : m'.soundEnded = m.soundEnded) : m'.Tells past where
  timer t := (timer t).trans (h.timer t)
  nonneg := h.nonneg
  signal := by rw [signal, h.signal]

theorem changed {r : Except Failure Machine} (h : m.Tells past)
    (kept : ∀ {m'}, r = .ok m' → m'.state = m.state ∧ m'.soundEnded = m.soundEnded) :
    (left (m.changed r)).Tells past := by
  refine left_changed (P := (·.Tells past)) h fun c => ?_
  have ⟨state, signal⟩ := kept c
  exact h.keep (fun t => congrArg (·.timer t) state) signal

theorem cons {e : Timer.Event} (h : m.Tells past) (time : 0 ≤ e.periods)
    (timer : ∀ t, m'.state.timer t = t.remaining (e :: past))
    (signal : m'.soundEnded = true ↔
      Timer.sound.ends (e :: past) = true ∨ e ≠ .taken ∧ e ≠ .reset ∧ m.soundEnded = true) :
    m'.Tells (e :: past) where
  timer := timer
  nonneg := List.forall_mem_cons.mpr ⟨time, h.nonneg⟩
  signal := by rw [signal, signalled_cons, h.signal]

theorem tick (h : m.Tells past) (t : m.tick now = .ok (periods, m')) : m'.Tells (.passed periods :: past) := by
  have ⟨_, beat, out⟩ := tick_ok t
  have time : 0 ≤ periods := Metronome.beat_nonneg beat
  refine h.cons time ?timer ?signal
  case timer =>
    intro t
    have shows := h.timer t
    have nonneg : 0 ≤ m.core.state.timer t := shows ▸ t.remaining_nonneg past
    rw [Timer.remaining_of_keeps (e := .passed periods) rfl time, ← shows, out]
    exact State.timer_elapse time nonneg
  case signal =>
    have ends := Timer.ends_iff (t := .sound) (e := .passed periods) rfl time past
    rw [← h.timer] at ends
    simp only [ends, out, Bool.or_eq_true, State.ended_elapse time]
    simp only [ne_eq, reduceCtorEq, not_false_eq_true, true_and]
    exact or_comm

theorem cycle (h : m.Tells past) (sound : m.Sound config) :
    (left m.cycle).Tells (m.core.load?.toList ++ past) := by
  have timer := timer_cycle sound
  have signal : (left m.cycle).soundEnded = m.soundEnded := by
    have record (m : Machine) (e : Entry) : (m.record e).soundEnded = m.soundEnded := by
      rw [Machine.record]
      split <;> rfl
    rw [cycle_eq sound]
    split
    case h_1 | h_2 => exact record ..
    case h_3 => rfl
  cases loads : m.core.load? with
  | none =>
    rw [loads] at timer
    exact h.keep timer signal
  | some e =>
    obtain ⟨loaded, v, rfl, nonneg⟩ := sound.core.load?_eq loads
    refine h.cons Int.le_rfl ?_ ?_
    case refine_1 =>
      intro t
      rw [timer, loads]
      by_cases same : loaded = t
      case pos =>
        have puts : Timer.Event.puts? t (.loaded loaded v) = some v := if_pos same
        rw [Timer.remaining_of_puts puts]
        simp only [Option.bind, puts, Option.getD]
        omega
      case neg =>
        have keeps : Timer.Event.puts? t (.loaded loaded v) = none := if_neg same
        rw [Timer.remaining_of_idle keeps rfl, ← h.timer]
        simp only [Option.bind, keeps, Option.getD]
    case refine_2 => simp [signal, Timer.ends]

theorem step (h : m.Tells past) (sound : m.Sound config) (now : Float) :
    (m.stepped now).Tells (m.stepEvents now ++ past) := by
  cases running : m.halted with
  | true =>
    rw [stepped_of_halted running, stepEvents, if_pos running]
    exact h
  | false =>
    rw [stepEvents, if_neg (by simp [running])]
    cases t : m.tick now with
    | error e =>
      rw [stepped, step_of_tick_error running t]
      exact h
    | ok p =>
      rw [stepped_of_tick running t, List.append_assoc]
      exact (h.tick t).cycle (sound.tick t)

theorem runSteps (h : m.Tells past) (sound : m.Sound config) (now : Float) (n : Nat) (later : List Float) :
    (left (m.runSteps now n later)).Tells (m.runEvents now n later ++ past) := by
  induction n generalizing m past now later with
  | zero => exact h
  | succ n ih =>
    have first := h.step sound now
    have sound := (changes_step m now).sound sound
    rw [stepped] at first sound
    rw [Machine.runSteps, runEvents]
    cases s : m.step now with
    | error e m' =>
      rw [s] at first
      exact first
    | ok e m' =>
      rw [s] at first sound
      cases fault : e.fault with
      | some f =>
        simp only [fault]
        exact first
      | none =>
        simp only [fault, Option.isSome_none, Bool.false_eq_true, if_false, List.append_assoc]
        exact ih first sound _ _

theorem afterCall (h : m.Tells past) (sound : m.Sound config) (now : Float) (call : Call) :
    (m.afterCall now call).Tells (m.callEvents now call ++ past) := by
  rw [afterCall_eq]
  cases call <;> simp only [answer, callEvents]
  case step =>
    rw [left_replied]
    exact h.step sound now
  case run limit later =>
    rw [left_replied, left_run]
    exact h.runSteps sound now _ later
  case tick =>
    cases t : m.tick now with
    | error e => exact h
    | ok p => exact h.tick t
  case reset clearMemory =>
    refine h.cons Int.le_rfl ?_ ?_
    case refine_1 =>
      intro t
      rw [Timer.remaining_of_puts rfl]
      cases t <;> rfl
    case refine_2 => simp [left, Machine.reset, Timer.ends]
  case takeSoundSignal =>
    refine h.cons Int.le_rfl ?_ ?_
    case refine_1 =>
      intro t
      rw [Timer.remaining_of_idle (e := .taken) rfl rfl]
      exact h.timer t
    case refine_2 => simp [left, Machine.takeSoundSignal, Timer.ends]
  case load image start =>
    cases l : m.load image start with
    | error e => exact h
    | ok m' =>
      obtain ⟨_, _, _, _, out⟩ := load_ok l
      rw [out]
      exact h.keep (fun _ => rfl) rfl
  case setKey =>
    refine h.changed fun k => ?_
    obtain ⟨_, _, out⟩ := setKey_ok k
    exact out ▸ ⟨rfl, rfl⟩
  case writePixel =>
    refine h.changed fun w => ?_
    obtain ⟨_, _, out⟩ := writePixel_ok w
    exact out ▸ ⟨rfl, rfl⟩
  case writeMemory =>
    refine h.changed fun w => ?_
    obtain ⟨_, _, out⟩ := writeMemory_ok w
    exact out ▸ ⟨rfl, rfl⟩
  case readPixel | readMemory =>
    rw [left_asked]
    exact h
  case takeDisplaySignal => exact h.keep (fun _ => rfl) rfl
  case summary => exact h

theorem afterCalls (h : m.Tells past) (sound : m.Sound config) (history : List (Float × Call)) :
    (m.afterCalls history).Tells (m.events history ++ past) := by
  induction history generalizing m past with
  | nil => exact h
  | cons p history ih =>
    rw [events, List.append_assoc]
    exact ih (h.afterCall sound p.1 p.2) (sound.afterCall p.1 p.2)

theorem new (config : Config) (source : Source) (traced : Bool) (now : Float) :
    (Machine.new config source traced now).Tells [] where
  timer t := by cases t <;> rfl
  nonneg := nofun
  signal := by
    simp only [Machine.new, Bool.false_eq_true, false_iff]
    intro ⟨after, before, split, ends, _⟩
    have ⟨_, empty⟩ := List.append_eq_nil_iff.mp split.symm
    rw [empty] at ends
    cases ends

end Tells

-- Whatever a host does, a timer is charged with each period once. The sound timer runs down once for every value
-- loaded that is counted down before another one takes its place, if it is not zero, and at no other time.
theorem timers_count_down (config : Config) (source : Source) (traced : Bool) (now : Float)
    (history : List (Float × Call)) :
    let fresh := Machine.new config source traced now
    let m := fresh.afterCalls history
    let past := fresh.events history
    (∀ e ∈ past, 0 ≤ e.periods) ∧
    (∀ t, m.state.timer t = t.remaining past) ∧
    (m.soundEnded = true ↔ Signalled past) ∧
    (∀ after value before, after ++ .loaded .sound value :: before <:+ past →
      (∀ e ∈ after, e.puts? .sound = none) →
        Timer.sound.endings (after ++ .loaded .sound value :: before) = Timer.sound.endings before +
          if 0 < value ∧ value ≤ (after.map Timer.Event.periods).sum then 1 else 0) ∧
    (∀ after before, after ++ before <:+ past → before = [] ∨ before.head? = some .reset →
      (∀ e ∈ after, e.puts? .sound = none) →
        Timer.sound.endings (after ++ before) = Timer.sound.endings before) := by
  intro fresh m past
  have told : m.Tells past := by
    have told := (Tells.new config source traced now).afterCalls (.new config source traced now) history
    rwa [List.append_nil] at told
  have time {after before : List Timer.Event} (part : after ++ before <:+ past) :
      ∀ e ∈ after, 0 ≤ e.periods :=
    fun e found => told.nonneg e (part.subset (List.mem_append_left _ found))
  refine ⟨told.nonneg, told.timer, told.signal, ?_, ?_⟩
  case refine_1 =>
    intro after value before part keeps
    have loads : Timer.Event.puts? .sound (.loaded .sound value) = some value := rfl
    rw [Timer.endings_append keeps (time part), Timer.remaining_of_puts loads, Timer.endings_of_puts loads]
    split <;> split <;> omega
  case refine_2 =>
    intro after before part start keeps
    have silent : Timer.sound.remaining before = 0 := by
      cases before with
      | nil => rfl
      | cons e before =>
        cases start with
        | inl none => cases none
        | inr reset =>
          cases reset
          exact Timer.remaining_of_puts (e := .reset) rfl
    rw [Timer.endings_append keeps (time part), silent]
    rfl

-- Two periods for the sound timer, and then a second passes.
theorem beep_counts_down :
    let history := [(0, .load [0x60, 0x02, 0xf0, 0x18] none), (0, .step), (0, .step), (1, .tick)]
    let fresh := Machine.new (.small .strict) .zeros false 0
    let m := fresh.afterCalls history
    fresh.events history = [.passed 60] ++ .loaded .sound 2 :: [.passed 0, .passed 0] ∧
      m.state.soundTimer = 0 ∧ m.soundEnded = true ∧ Timer.sound.endings (fresh.events history) = 1 := by
  intro history fresh m
  have past : fresh.events history = [.passed 60] ++ .loaded .sound 2 :: [.passed 0, .passed 0] := by
    decide +kernel
  obtain ⟨_, timer, signal, once, _⟩ := timers_count_down (.small .strict) .zeros false 0 history
  have shows := timer .sound
  have ended := once [.passed 60] 2 [.passed 0, .passed 0] ⟨[], past.symm⟩ (by decide)
  rw [past] at shows signal
  have rings : Signalled ([.passed 60] ++ .loaded .sound 2 :: [.passed 0, .passed 0]) :=
    ⟨[], _, rfl, by decide, nofun, nofun⟩
  exact ⟨past, shows, signal.mpr rings, past ▸ ended⟩

end Machine
end Chip8
