import Chip8.Proofs.Timers
import Mathlib.Algebra.Order.Field.Basic
import Mathlib.Data.Rat.Floor
import Mathlib.Tactic.Linarith
import Mathlib.Tactic.Ring

namespace Chip8

theorem exists_of_fst {α β : Type} {x : Except Failure (α × β)} {a : α} (h : x.toOption.map Prod.fst = some a) :
    ∃ b, x = .ok (a, b) := by
  cases x with
  | error e => cases h
  | ok p =>
    cases h
    exact ⟨p.2, rfl⟩

namespace Metronome

-- The whole periods since the last beat that a reading of the clock shows, none if it goes back behind that beat.
def due (m : Metronome Rat) (now : Rat) : Int :=
  max 0 ⌊(now - m.last) / m.period⌋

-- The most periods that one of several readings shows.
def dueBy (m : Metronome Rat) (readings : List Rat) : Int :=
  (readings.map m.due).foldr max 0

-- The metronome so many periods later.
def forward (m : Metronome Rat) (periods : Int) : Metronome Rat :=
  { m with last := m.last + periods * m.period }

variable {m : Metronome Rat} {now top : Rat} {n : Int} {readings : List Rat}

theorem forward_zero (m : Metronome Rat) : m.forward 0 = m := by
  simp [forward]

theorem forward_forward (m : Metronome Rat) (a b : Int) : (m.forward a).forward b = m.forward (a + b) := by
  simp only [forward, Int.cast_add, add_mul, add_assoc]

-- A quotient is cut towards zero, so none that is negative counts.
theorem beat_eq (pos : 0 < m.period) (now : Rat) : m.beat now = .ok (m.due now, m.forward (m.due now)) := by
  let q := (now - m.last) / m.period
  have quotient : Timescale.quotient (Timescale.since now m.last) m.period =
      .ok (if 0 ≤ q then q.floor else q.ceil) :=
    if_neg pos.ne'
  rw [beat, quotient, Except.map]
  by_cases later : 0 ≤ q
  case pos =>
    have whole : 0 ≤ q.floor := Rat.le_floor_iff.mpr later
    have counted : m.due now = q.floor := max_eq_right whole
    rw [if_pos later, counted]
    split
    case isTrue none => rw [Int.le_antisymm none whole, forward_zero]
    case isFalse => rfl
  case neg =>
    have back : q < 0 := not_le.mp later
    have below : ⌊q⌋ < 0 := Int.floor_lt.mpr back
    have counted : m.due now = 0 := max_eq_left below.le
    have none : q.ceil ≤ 0 := Rat.ceil_le_iff.mpr back.le
    rw [if_neg later, counted, if_pos none, forward_zero]

theorem due_nonneg (m : Metronome Rat) (now : Rat) : 0 ≤ m.due now :=
  Int.le_max_left ..

theorem due_eq_zero (pos : 0 < m.period) (within : now - m.last < m.period) : m.due now = 0 := by
  have floor : ⌊(now - m.last) / m.period⌋ < 1 := Int.floor_lt.mpr (by simpa [div_lt_one pos] using within)
  unfold due
  omega

theorem due_le_due (pos : 0 < m.period) (le : now ≤ top) : m.due now ≤ m.due top := by
  have spans : (now - m.last) / m.period ≤ (top - m.last) / m.period := by gcongr
  have floors := Int.floor_mono spans
  unfold due
  omega

-- A period that has been charged is not due again.
theorem due_forward (pos : 0 < m.period) (nonneg : 0 ≤ n) (now : Rat) :
    (m.forward n).due now = max 0 (m.due now - n) := by
  have spans : (now - (m.last + n * m.period)) / m.period = (now - m.last) / m.period - n := by
    rw [sub_add_eq_sub_sub, sub_div, mul_div_cancel_right₀ _ pos.ne']
  unfold due forward
  rw [spans, Int.floor_sub_intCast]
  omega

theorem dueBy_nil (m : Metronome Rat) : m.dueBy [] = 0 :=
  rfl

theorem dueBy_cons (m : Metronome Rat) (now : Rat) (readings : List Rat) :
    m.dueBy (now :: readings) = max (m.due now) (m.dueBy readings) :=
  rfl

theorem dueBy_singleton (m : Metronome Rat) (now : Rat) : m.dueBy [now] = m.due now :=
  Int.max_eq_left (m.due_nonneg now)

theorem dueBy_nonneg (m : Metronome Rat) (readings : List Rat) : 0 ≤ m.dueBy readings := by
  induction readings with
  | nil => exact Int.le_refl 0
  | cons now readings ih =>
    rw [dueBy_cons]
    omega

theorem dueBy_forward (pos : 0 < m.period) (nonneg : 0 ≤ n) (readings : List Rat) :
    (m.forward n).dueBy readings = max 0 (m.dueBy readings - n) := by
  induction readings with
  | nil =>
    simp only [dueBy, List.map_nil, List.foldr_nil]
    omega
  | cons now readings ih =>
    rw [dueBy_cons, dueBy_cons, ih, due_forward pos nonneg]
    omega

theorem due_add_dueBy (pos : 0 < m.period) (now : Rat) (readings : List Rat) :
    m.due now + (m.forward (m.due now)).dueBy readings = m.dueBy (now :: readings) := by
  have nonneg := m.due_nonneg now
  rw [dueBy_forward pos nonneg, dueBy_cons]
  omega

theorem dueBy_le (pos : 0 < m.period) (latest : ∀ r ∈ readings, r ≤ top) : m.dueBy readings ≤ m.due top := by
  induction readings with
  | nil => exact m.due_nonneg top
  | cons now readings ih =>
    have ⟨first, rest⟩ := List.forall_mem_cons.mp latest
    exact Int.max_le.mpr ⟨due_le_due pos first, ih rest⟩

theorem due_le_dueBy (here : now ∈ readings) : m.due now ≤ m.dueBy readings := by
  induction readings with
  | nil => cases here
  | cons r readings ih =>
    rw [dueBy_cons]
    cases here with
    | head => exact Int.le_max_left ..
    | tail _ later => exact (ih later).trans (Int.le_max_right ..)

-- The latest reading decides.
theorem dueBy_eq (pos : 0 < m.period) (here : top ∈ readings) (latest : ∀ r ∈ readings, r ≤ top) :
    m.dueBy readings = m.due top :=
  Int.le_antisymm (dueBy_le pos latest) (due_le_dueBy here)

-- What is left of the time since the last beat, once the periods that are due have been charged.
theorem rest_range (pos : 0 < m.period) (le : m.last ≤ now) :
    0 ≤ now - (m.forward (m.due now)).last ∧ now - (m.forward (m.due now)).last < m.period := by
  let q := (now - m.last) / m.period
  have span : now - m.last = q * m.period := (div_mul_cancel₀ _ pos.ne').symm
  have later : 0 ≤ q := div_nonneg (sub_nonneg.mpr le) pos.le
  have counted : m.due now = ⌊q⌋ := max_eq_right (Int.floor_nonneg.mpr later)
  have rest : now - (m.forward (m.due now)).last = (q - ⌊q⌋) * m.period := by
    rw [counted, forward, sub_add_eq_sub_sub, span, sub_mul]
  rw [rest]
  have below := Int.floor_le q
  have above := Int.lt_floor_add_one q
  exact ⟨mul_nonneg (sub_nonneg.mpr below) pos.le, mul_lt_of_lt_one_left pos (by linarith)⟩

-- A metronome that has not gone on for longer than is due is not ahead of the clock.
theorem last_forward_le (pos : 0 < m.period) (le : m.last ≤ now) (n_le : n ≤ m.due now) : (m.forward n).last ≤ now := by
  have beats : (n : Rat) * m.period ≤ m.due now * m.period := by gcongr
  have rest := (rest_range pos le).1
  simp only [forward] at rest ⊢
  linarith

-- A span takes the whole periods in it, and one more if the time left from before makes it up.
theorem due_add {span : Rat} (pos : 0 < m.period) (rest : 0 ≤ now - m.last ∧ now - m.last < m.period)
    (nonneg : 0 ≤ span) :
    m.due (now + span) = ⌊span / m.period⌋ ∨ m.due (now + span) = ⌊span / m.period⌋ + 1 := by
  let q := span / m.period
  let r := (now - m.last) / m.period
  have sum : (now + span - m.last) / m.period = q + r := by
    rw [← add_div]
    congr 1
    ring
  have range : 0 ≤ r ∧ r < 1 := ⟨div_nonneg rest.1 pos.le, (div_lt_one pos).mpr rest.2⟩
  have whole : 0 ≤ ⌊q⌋ := Int.floor_nonneg.mpr (div_nonneg nonneg pos.le)
  have least : ⌊q⌋ ≤ ⌊q + r⌋ := Int.floor_mono (by linarith)
  have most : ⌊q + r⌋ < ⌊q⌋ + 2 := by
    have above := Int.lt_floor_add_one q
    rw [Int.floor_lt]
    push_cast
    linarith
  rw [due, sum]
  change max 0 ⌊q + r⌋ = ⌊q⌋ ∨ max 0 ⌊q + r⌋ = ⌊q⌋ + 1
  omega

end Metronome

-- Charging periods at once comes to the same as charging some of them first.
theorem State.elapse_elapse (s : State) {a b : Int} (first : 0 ≤ a) (second : 0 ≤ b) :
    ((s.elapse a).1.elapse b).1 = (s.elapse (a + b)).1 ∧
      ((s.elapse a).2 || ((s.elapse a).1.elapse b).2) = (s.elapse (a + b)).2 := by
  obtain rfl | passes := first.eq_or_lt
  case inl => simp [elapse]
  obtain rfl | goes := second.eq_or_lt
  case inl => simp [elapse]
  simp only [elapse, if_neg passes.not_ge, if_neg goes.not_ge, if_neg (add_pos passes goes).not_ge]
  constructor
  case left =>
    ext1 <;> try rfl
    case delayTimer =>
      dsimp only
      omega
    case soundTimer =>
      dsimp only
      split
      case isTrue => split <;> omega
      case isFalse => rfl
  case right =>
    rw [Bool.eq_iff_iff]
    simp only [Bool.or_eq_true, Bool.and_eq_true, decide_eq_true_eq, beq_iff_eq]
    split
    case isTrue => split <;> omega
    case isFalse => exact or_self_iff

-- What an instruction loads takes no time.
theorem Core.sum_load (c : Core) : (c.load?.toList.map Timer.Event.periods).sum = 0 := by
  cases loads : c.load? with
  | none => rfl
  | some e =>
    simp only [load?, Option.bind_eq_some_iff, Option.map_eq_some_iff] at loads
    obtain ⟨w, _, t, _, rfl⟩ := loads
    rfl

namespace Machine

theorem elapse_elapse (m : Machine) {a b : Int} (first : 0 ≤ a) (second : 0 ≤ b) :
    (m.elapse a).elapse b = m.elapse (a + b) := by
  obtain ⟨state, ended⟩ := m.core.state.elapse_elapse first second
  simp only [elapse, state, Bool.or_assoc, ended]

theorem load?_elapse (m : Machine) (periods : Int) : (m.elapse periods).core.load? = m.core.load? := by
  obtain ⟨_, _, time⟩ := m.core.state.elapse_eq periods
  simp only [elapse, time]
  rfl

theorem elapse_zero (m : Machine) : m.elapse 0 = m := by
  simp [elapse, State.elapse]

end Machine

-- A machine that keeps time by a metronome of its own, over any arithmetic of times. Over doubles it is a machine like
-- any other, see `whole_polls`.
structure Timed (τ : Type) where
  machine : Machine
  metronome : Metronome τ

-- What a host does as it reads the clock.
inductive Poll where
  | tick
  | step
deriving DecidableEq

def Poll.call : Poll → Call
  | tick => .tick
  | step => .step

namespace Timed

section

variable {τ : Type} [Timescale τ]

def tick (t : Timed τ) (now : τ) : Except Failure (Int × Timed τ) :=
  (t.metronome.beat now).map fun (periods, metronome) => (periods, ⟨t.machine.elapse periods, metronome⟩)

-- What happens to the timers at a reading of the clock, the latest first.
def poll (t : Timed τ) (now : τ) : Poll → Except Failure (List Timer.Event × Timed τ)
  | .tick => (t.tick now).map fun (periods, t) => ([.passed periods], t)
  | .step =>
    if t.machine.halted then .error (.fault (.haltedBy t.machine.fault))
    else (t.tick now).map fun (periods, t) =>
      (t.machine.core.load?.toList ++ [.passed periods], { t with machine := Machine.left t.machine.cycle })

def polls (t : Timed τ) : List (τ × Poll) → Except Failure (List Timer.Event × Timed τ)
  | [] => .ok ([], t)
  | (now, poll) :: rest => (t.poll now poll).bind fun (events, t) =>
    (t.polls rest).map fun (later, t) => (later ++ events, t)

theorem polls_cons {t t' : Timed τ} {now : τ} {poll : Poll} {calls : List (τ × Poll)} {events : List Timer.Event}
    (p : t.polls ((now, poll) :: calls) = .ok (events, t')) : ∃ first t₁ later, t.poll now poll = .ok (first, t₁) ∧
      t₁.polls calls = .ok (later, t') ∧ events = later ++ first := by
  rw [polls] at p
  cases here : t.poll now poll with
  | error e =>
    rw [here] at p
    cases p
  | ok q =>
    obtain ⟨first, t₁⟩ := q
    rw [here] at p
    obtain ⟨⟨later, _⟩, rest, out⟩ := exists_of_map p
    cases out
    exact ⟨first, t₁, later, rfl, rest, rfl⟩

end

-- A machine that keeps time in doubles, as a whole.
def whole (t : Timed Float) : Machine :=
  { t.machine with metronome := t.metronome }

theorem tick_whole (t : Timed Float) (now : Float) :
    t.whole.tick now = (t.tick now).map fun (periods, t) => (periods, t.whole) := by
  rw [Machine.tick, tick, whole]
  cases t.metronome.beat now <;> rfl

theorem left_cycle_whole (t : Timed Float) :
    Machine.left t.whole.cycle = { t with machine := Machine.left t.machine.cycle }.whole := by
  simp only [Machine.cycle, whole]
  obtain ⟨fetched, result⟩ := t.machine.core.cycle t.machine.config.dialect
  cases result with
  | ok _ core =>
    simp only [Machine.left, Machine.record_eq]
    rfl
  | error e core =>
    cases e
    case fault =>
      simp only [Machine.left, Machine.record_eq]
      rfl
    all_goals rfl

theorem whole_poll {t t' : Timed Float} {now : Float} {poll : Poll} {events : List Timer.Event}
    (p : t.poll now poll = .ok (events, t')) :
    t.whole.afterCall now poll.call = t'.whole ∧ t.whole.callEvents now poll.call = events := by
  have ticks := tick_whole t now
  cases poll with
  | tick =>
    obtain ⟨_, tick, out⟩ := exists_of_map p
    cases out
    rw [tick] at ticks
    rw [Machine.afterCall_eq, Poll.call, Machine.answer, Machine.callEvents, ticks]
    exact ⟨rfl, rfl⟩
  | step =>
    rw [Timed.poll] at p
    split at p
    case isTrue => cases p
    case isFalse running =>
      have running : t.whole.halted = false := Bool.eq_false_iff.mpr running
      obtain ⟨_, tick, out⟩ := exists_of_map p
      cases out
      rw [tick] at ticks
      rw [Poll.call, Machine.afterCall_step, Machine.stepped_of_tick running ticks, Machine.callEvents,
        Machine.stepEvents, if_neg (by simp [running]), ticks]
      exact ⟨left_cycle_whole _, rfl⟩

-- Over doubles, ticks and steps are those of the machine itself.
theorem whole_polls {t t' : Timed Float} {calls : List (Float × Poll)} {events : List Timer.Event}
    (p : t.polls calls = .ok (events, t')) :
    let history := calls.map fun (now, poll) => (now, poll.call)
    t.whole.afterCalls history = t'.whole ∧ t.whole.events history = events := by
  induction calls generalizing t events with
  | nil =>
    cases p
    exact ⟨rfl, rfl⟩
  | cons call calls ih =>
    obtain ⟨now, poll⟩ := call
    obtain ⟨first, t₁, later, here, rest, rfl⟩ := polls_cons p
    obtain ⟨whole, events⟩ := whole_poll here
    obtain ⟨whole', events'⟩ := ih rest
    rw [← whole] at whole' events'
    exact ⟨whole', congrArg₂ (· ++ ·) events' events⟩

variable {config : Config} {t t' : Timed Rat} {now top : Rat} {calls : List (Rat × Poll)} {readings : List Rat}
  {events : List Timer.Event} {timer : Timer}

-- A machine so many periods later.
def forward (t : Timed Rat) (periods : Int) : Timed Rat :=
  ⟨t.machine.elapse periods, t.metronome.forward periods⟩

theorem tick_eq (pos : 0 < t.metronome.period) (now : Rat) :
    t.tick now = .ok (t.metronome.due now, t.forward (t.metronome.due now)) := by
  rw [tick, Metronome.beat_eq pos]
  rfl

theorem forward_forward (t : Timed Rat) {a b : Int} (first : 0 ≤ a) (second : 0 ≤ b) :
    (t.forward a).forward b = t.forward (a + b) := by
  simp only [forward, Machine.elapse_elapse _ first second, Metronome.forward_forward]

theorem forward_zero (t : Timed Rat) : t.forward 0 = t := by
  simp only [forward, Machine.elapse_zero, Metronome.forward_zero]

-- Ticks come to the same as a single one at the latest of their readings.
theorem polls_ticks (pos : 0 < t.metronome.period) (readings : List Rat) : ∃ periods : List Int,
    t.polls (readings.map (·, .tick)) = .ok (periods.map .passed, t.forward (t.metronome.dueBy readings)) ∧
      periods.sum = t.metronome.dueBy readings := by
  induction readings generalizing t with
  | nil =>
    refine ⟨[], ?_, rfl⟩
    rw [Metronome.dueBy_nil, forward_zero]
    rfl
  | cons now readings ih =>
    have first := t.metronome.due_nonneg now
    have total := Metronome.due_add_dueBy pos now readings
    obtain ⟨periods, rest, sum⟩ := ih (t := t.forward (t.metronome.due now)) pos
    rw [forward_forward t first (Metronome.dueBy_nonneg ..)] at rest
    refine ⟨periods ++ [t.metronome.due now], ?_, ?_⟩
    case refine_1 =>
      rw [List.map_cons, polls, poll, tick_eq pos]
      simp only [Except.map, Except.bind]
      rw [rest, List.map_append, ← total]
      rfl
    case refine_2 =>
      rw [List.sum_append, List.sum_singleton, sum, ← total, Int.add_comm]
      rfl

-- What has become of a machine by some readings of the clock. Steps go on between them, but as far as the timers are
-- concerned they only matter if they load one.
structure Polled (config : Config) (t : Timed Rat) (readings : List Rat) (events : List Timer.Event)
    (t' : Timed Rat) : Prop where
  sound : t'.machine.Sound config
  metronome : t'.metronome = t.metronome.forward (t.metronome.dueBy readings)
  periods : (events.map Timer.Event.periods).sum = t.metronome.dueBy readings
  timer : ∀ timer, (∀ e ∈ events, e.puts? timer = none) → 0 ≤ t.machine.state.timer timer →
    t'.machine.state.timer timer = max 0 (t.machine.state.timer timer - t.metronome.dueBy readings)

theorem polled_tick (h : t.machine.Sound config) (now : Rat) :
    t.Polled config [now] [.passed (t.metronome.due now)] (t.forward (t.metronome.due now)) where
  sound := h.elapse _
  metronome := by rw [Metronome.dueBy_singleton, forward]
  periods := by
    rw [Metronome.dueBy_singleton]
    exact List.sum_singleton
  timer timer _ nonneg := by
    rw [Metronome.dueBy_singleton]
    exact State.timer_elapse (t.metronome.due_nonneg now) nonneg

-- The cycle of a step has nothing to do with the metronome.
theorem Polled.cycle (p : t.Polled config readings events t') :
    t.Polled config readings (t'.machine.core.load?.toList ++ events)
      { t' with machine := Machine.left t'.machine.cycle } where
  sound := p.sound.cycle
  metronome := p.metronome
  periods := by rw [List.map_append, List.sum_append, Core.sum_load, Int.zero_add, p.periods]
  timer timer keeps nonneg := by
    obtain ⟨unloaded, kept⟩ := List.forall_mem_append.mp keeps
    have stays : t'.machine.core.load?.bind (·.puts? timer) = none := by
      cases loads : t'.machine.core.load? with
      | none => rfl
      | some e => exact unloaded e (by simp [loads])
    rw [← p.timer timer kept nonneg]
    exact (Machine.timer_cycle p.sound timer).trans (by rw [stays]; rfl)

theorem polled_of_poll (h : t.machine.Sound config) (pos : 0 < t.metronome.period) {poll : Poll}
    (p : t.poll now poll = .ok (events, t')) : t.Polled config [now] events t' := by
  cases poll with
  | tick =>
    rw [Timed.poll, tick_eq pos] at p
    cases p
    exact polled_tick h now
  | step =>
    rw [Timed.poll, tick_eq pos] at p
    split at p
    case isTrue => cases p
    case isFalse =>
      cases p
      exact (polled_tick h now).cycle

theorem Polled.cons {t₁ : Timed Rat} {later : List Timer.Event} (pos : 0 < t.metronome.period)
    (first : t.Polled config [now] events t₁) (rest : t₁.Polled config readings later t') :
    t.Polled config (now :: readings) (later ++ events) t' := by
  have total := Metronome.due_add_dueBy pos now readings
  have nonneg := t.metronome.due_nonneg now
  obtain ⟨_, metronome, periods, shows⟩ := first
  obtain ⟨sound, metronome', periods', shows'⟩ := rest
  rw [Metronome.dueBy_singleton] at metronome periods shows
  rw [metronome] at metronome' periods' shows'
  refine ⟨sound, ?_, ?_, ?_⟩
  case refine_1 => rw [metronome', Metronome.forward_forward, total]
  case refine_2 => rw [List.map_append, List.sum_append, periods, periods', Int.add_comm, total]
  case refine_3 =>
    intro timer keeps nonneg
    obtain ⟨kept', kept⟩ := List.forall_mem_append.mp keeps
    have here := shows timer kept nonneg
    have more := Metronome.dueBy_nonneg (t.metronome.forward (t.metronome.due now)) readings
    rw [shows' timer kept' (by omega), here, ← total]
    omega

theorem polled (h : t.machine.Sound config) (pos : 0 < t.metronome.period) (p : t.polls calls = .ok (events, t')) :
    t.Polled config (calls.map Prod.fst) events t' := by
  induction calls generalizing t events with
  | nil =>
    cases p
    refine ⟨h, (Metronome.forward_zero _).symm, rfl, fun timer _ nonneg => ?_⟩
    rw [List.map_nil, Metronome.dueBy_nil]
    omega
  | cons call calls ih =>
    obtain ⟨now, poll⟩ := call
    obtain ⟨first, t₁, later, here, rest, rfl⟩ := polls_cons p
    have single := polled_of_poll h pos here
    exact single.cons pos (ih single.sound (single.metronome ▸ pos) rest)

theorem timer_of_step {t₁ : Timed Rat} {loads : List Timer.Event} {value : Int} (h : t.machine.Sound config)
    (pos : 0 < t.metronome.period) (s : t.poll now .step = .ok (loads, t₁))
    (next : t.machine.core.load? = some (.loaded timer value)) : t₁.machine.state.timer timer = value := by
  rw [Timed.poll, tick_eq pos] at s
  split at s
  case isTrue => cases s
  case isFalse =>
    cases s
    have puts : Timer.Event.puts? timer (.loaded timer value) = some value := if_pos rfl
    have shows := Machine.timer_cycle (h.elapse (t.metronome.due now)) timer
    rw [Machine.load?_elapse, next, Option.bind_some, puts] at shows
    exact shows

-- A timer that a step has loaded shows its value. Until something else is put into it, it is charged with the whole
-- periods that the clock goes on, and with one more if the time left over before makes it up.
theorem loaded_charged {t₁ : Timed Rat} {loads : List Timer.Event} {value : Int} (h : t.machine.Sound config)
    (pos : 0 < t.metronome.period) (le : t.metronome.last ≤ now)
    (next : t.machine.core.load? = some (.loaded timer value)) (s : t.poll now .step = .ok (loads, t₁)) :
    t₁.machine.state.timer timer = value ∧
      ∀ later span after t₂, 0 ≤ span → now + span ∈ now :: later.map Prod.fst →
        (∀ r ∈ later.map Prod.fst, r ≤ now + span) → t₁.polls later = .ok (after, t₂) →
        (∀ e ∈ after, e.puts? timer = none) →
        let charged := (after.map Timer.Event.periods).sum
        (charged = ⌊span / t.metronome.period⌋ ∨ charged = ⌊span / t.metronome.period⌋ + 1) ∧
          t₂.machine.state.timer timer = max 0 (value - charged) := by
  have step := polled_of_poll h pos s
  have metronome := step.metronome
  rw [Metronome.dueBy_singleton] at metronome
  have period : t₁.metronome.period = t.metronome.period := by
    rw [metronome]
    rfl
  have rest := Metronome.rest_range pos le
  rw [← metronome, ← period] at rest
  have shows := timer_of_step h pos s next
  rw [← period] at pos
  obtain ⟨_, _, loaded, nonneg⟩ := h.core.load?_eq next
  cases loaded
  refine ⟨shows, ?_⟩
  intro later span after t₂ forth here latest p keeps charged
  have polled := polled step.sound pos p
  have total : charged = t₁.metronome.due (now + span) := by
    have first := Metronome.dueBy_cons t₁.metronome now (later.map Prod.fst)
    rw [Metronome.due_eq_zero pos rest.2, Int.max_eq_right (Metronome.dueBy_nonneg ..)] at first
    rw [← Metronome.dueBy_eq pos here (List.forall_mem_cons.mpr ⟨by linarith, latest⟩), first]
    exact polled.periods
  constructor
  case left =>
    rw [total, ← period]
    exact Metronome.due_add pos rest forth
  case right =>
    have left := polled.timer timer keeps (shows.symm ▸ nonneg)
    rwa [shows, ← polled.periods] at left

-- Whatever the order of the readings, the periods that have been charged are those that the latest one shows, and the
-- last beat is as many periods on. What is left over is less than a period. If only time has passed, that comes to the
-- same as a single tick at the latest reading. A timer that a step loads is charged with as many periods as go by from
-- there, or one more.
theorem polling_charges_once (h : t.machine.Sound config) (pos : 0 < t.metronome.period) :
    (∀ (readings : List Rat) top, top ∈ readings → (∀ r ∈ readings, r ≤ top) → ∃ (periods : List Int) (t' : Timed Rat),
      t.polls (readings.map (·, .tick)) = .ok (periods.map .passed, t') ∧
        periods.sum = max 0 ⌊(top - t.metronome.last) / t.metronome.period⌋ ∧
        t'.metronome.last = t.metronome.last + periods.sum * t.metronome.period ∧ t.tick top = .ok (periods.sum, t')) ∧
    (∀ calls top events t', top ∈ calls.map Prod.fst → (∀ r ∈ calls.map Prod.fst, r ≤ top) →
      t.polls calls = .ok (events, t') →
      let charged := (events.map Timer.Event.periods).sum
      charged = max 0 ⌊(top - t.metronome.last) / t.metronome.period⌋ ∧
        t'.metronome = { t.metronome with last := t.metronome.last + charged * t.metronome.period } ∧
        (t.metronome.last ≤ top →
          0 ≤ top - t'.metronome.last ∧ top - t'.metronome.last < t.metronome.period)) ∧
    ∀ before now events t₁ timer value loads t₂, (∀ r ∈ before.map Prod.fst, r ≤ now) → t.metronome.last ≤ now →
      t.polls before = .ok (events, t₁) → t₁.machine.core.load? = some (.loaded timer value) →
      t₁.poll now .step = .ok (loads, t₂) →
      t₂.machine.state.timer timer = value ∧
        ∀ later span after t₃, 0 ≤ span → now + span ∈ now :: later.map Prod.fst →
          (∀ r ∈ later.map Prod.fst, r ≤ now + span) → t₂.polls later = .ok (after, t₃) →
          (∀ e ∈ after, e.puts? timer = none) →
          let charged := (after.map Timer.Event.periods).sum
          (charged = ⌊span / t.metronome.period⌋ ∨ charged = ⌊span / t.metronome.period⌋ + 1) ∧
            t₃.machine.state.timer timer = max 0 (value - charged) := by
  refine ⟨?_, ?_, ?_⟩
  case refine_1 =>
    intro readings top here latest
    obtain ⟨periods, p, sum⟩ := polls_ticks pos readings
    rw [Metronome.dueBy_eq pos here latest] at p sum
    refine ⟨periods, _, p, sum, ?_, ?_⟩
    · rw [sum, forward, Metronome.forward]
    · rw [sum, tick_eq pos top]
  case refine_2 =>
    intro calls top events t' here latest p charged
    have polled := polled h pos p
    have total : charged = t.metronome.due top := polled.periods.trans (Metronome.dueBy_eq pos here latest)
    have metronome := polled.metronome
    rw [Metronome.dueBy_eq pos here latest] at metronome
    refine ⟨total, ?_, fun le => ?_⟩
    · rw [metronome, total, Metronome.forward]
    · rw [metronome]
      exact Metronome.rest_range pos le
  case refine_3 =>
    intro before now events t₁ timer value loads t₂ latest le p next s
    have polled := polled h pos p
    have behind : t₁.metronome.last ≤ now := by
      rw [polled.metronome]
      exact Metronome.last_forward_le pos le (Metronome.dueBy_le pos latest)
    have period : t₁.metronome.period = t.metronome.period := by
      rw [polled.metronome]
      rfl
    rw [← period] at pos ⊢
    exact loaded_charged polled.sound pos behind next s

end Timed

-- A machine about to load five into the delay timer.
def Machine.counting : Machine :=
  (Machine.new (.small .strict) .zeros false 0).afterCalls
    [(0, .load [0x60, 0x05, 0xf0, 0x15, 0x10, 0x64] none), (0, .step)]

namespace Timed

-- Sixty periods make a second.
def counting : Timed Rat where
  machine := .counting
  metronome := ⟨1 / 60, 0⟩

-- The periods are charged to it once, though the clock runs backwards. The half period left over before the load makes
-- up another one with the half period at the end.
theorem counting_charged :
    (∃ (periods : List Int) (t' : Timed Rat),
      counting.polls ([1 / 30, 1 / 20, 1 / 40].map (·, .tick)) = .ok (periods.map .passed, t') ∧
        counting.tick (1 / 20) = .ok (periods.sum, t') ∧ periods.sum = 3 ∧ t'.metronome.last = 1 / 20) ∧
    ∃ t₁ t₂, counting.poll (1 / 40) .step = .ok ([.loaded .delay 5, .passed 1], t₁) ∧
      t₁.polls [(1 / 20, .step), (1 / 30, .tick)] = .ok ([.passed 0, .passed 2], t₂) ∧
      t₁.machine.state.timer .delay = 5 ∧ t₂.machine.state.timer .delay = 3 := by
  have reachable : Machine.counting.Reachable (.small .strict) .zeros := (Machine.Reachable.new false 0).calls _
  have sound : counting.machine.Sound (.small .strict) := by
    have machine : counting.machine = Machine.counting := by simp only [counting]
    exact machine ▸ reachable.sound
  obtain ⟨once, charge, loaded⟩ := polling_charges_once sound (by decide +kernel)
  refine ⟨?_, ?_⟩
  case refine_1 =>
    obtain ⟨periods, t', p, sum, last, tick⟩ :=
      once [1 / 30, 1 / 20, 1 / 40] (1 / 20) (by decide +kernel) (by decide +kernel)
    have three : periods.sum = 3 := sum.trans (by decide +kernel)
    rw [three] at last
    exact ⟨periods, t', p, tick, three, last.trans (by decide +kernel)⟩
  case refine_2 =>
    obtain ⟨t₁, s⟩ := exists_of_fst (show (counting.poll (1 / 40) .step).toOption.map Prod.fst =
      some [.loaded .delay 5, .passed 1] by decide +kernel)
    obtain ⟨t₂, p⟩ := exists_of_fst
      (show (counting.polls [(1 / 40, .step), (1 / 20, .step), (1 / 30, .tick)]).toOption.map Prod.fst =
        some ([.passed 0, .passed 2] ++ [.loaded .delay 5, .passed 1]) by decide +kernel)
    obtain ⟨_, _, later, s', p', split⟩ := polls_cons p
    cases s.symm.trans s'
    cases List.append_cancel_right split
    obtain ⟨shows, charged⟩ := loaded [] (1 / 40) [] counting .delay 5 _ t₁ nofun (by decide +kernel) rfl
      (by decide +kernel) s
    obtain ⟨_, left⟩ :=
      charged _ (1 / 40) _ t₂ (by decide +kernel) (by decide +kernel) (by decide +kernel) p' (by decide)
    exact ⟨t₁, t₂, s, p', shows, left⟩

end Timed
end Chip8
