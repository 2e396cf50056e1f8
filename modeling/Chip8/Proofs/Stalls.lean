import Chip8.Proofs.Faults
import Chip8.Proofs.Reset
import Chip8.Proofs.Rounding

namespace Chip8

open Double

-- The failures of a tick, by the rate of the timers, the reading that they stand at, and the one that the clock shows.
inductive Metronome.Stalls (rate last now : Float) : Failure → Prop
  | noRate : ofFloat rate = .nan → Stalls rate last now .noInteger
  | noLength : ofFloat rate = .infinite false → Stalls rate last now .zeroPeriod
  -- A rate so low that its period is infinite, and a time that is infinite too.
  | endless : (ofFloat rate).isFinite = true → limit * (ofFloat rate).value ≤ 1 →
      limit ≤ |(ofFloat now).value - (ofFloat last).value| → Stalls rate last now .noInteger
  -- More periods than a double can count, or so much time.
  | countless : (ofFloat rate).isFinite = true → 1 < limit * (ofFloat rate).value →
      limit ≤ |(ofFloat now).value - (ofFloat last).value| ∨
        limit ≤ |(ofFloat (now - last)).value| / |(ofFloat (1.0 / rate)).value| →
      Stalls rate last now .infinite

variable {rate last now span period : Float} {failure : Failure}

namespace Double

theorem integer_eq_error_iff {d : Double} : d.integer = .error failure ↔
    d = .nan ∧ failure = .noInteger ∨ d.isFinite = false ∧ d ≠ .nan ∧ failure = .infinite := by
  cases d <;> simp [integer, isFinite, eq_comm]

theorem exists_integer {d : Double} (finite : d.isFinite = true) : ∃ n, d.integer = .ok n := by
  cases d with
  | finite negative significand exponent => exact ⟨_, rfl⟩
  | infinite | nan => cases finite

-- The double nearest to the inverse of an accepted rate.
inductive IsInverse (rate : Float) : Double → Prop
  | nan : ofFloat rate = .nan → IsInverse rate .nan
  | zero {negative : Bool} : ofFloat rate = .infinite false →
      IsInverse rate (.finite negative 0 leastExponent)
  | infinite {negative : Bool} : (ofFloat rate).isFinite = true → limit * (ofFloat rate).value ≤ 1 →
      IsInverse rate (.infinite negative)
  | finite {d : Double} : (ofFloat rate).isFinite = true → 1 < limit * (ofFloat rate).value →
      d.isFinite = true → d.value ≠ 0 → IsInverse rate d

theorem isFinite_one : (ofFloat 1.0).isFinite = true := by
  decide +kernel

theorem value_one : (ofFloat 1.0).value = 1 := by
  have one : ofFloat 1.0 = .finite false (2 ^ 52) (-52) := by decide +kernel
  norm_num [one, value]

theorem limit_le : limit ≤ 2 ^ (1074 : Int) := by
  have power : (2 : Rat) ^ (1074 : Int) = 2 ^ 103 * 2 ^ (971 : Int) := by
    rw [← zpow_natCast, ← zpow_add₀ two_ne_zero]
    rfl
  rw [power, limit]
  exact mul_le_mul_of_nonneg_right (by norm_num) (by positivity)

-- The inverse of the greatest rate is above the least double, so it is not lost.
theorem isInverse_of_accepted (accepted : ¬ rate ≤ 0) : IsInverse rate (ofFloat (1.0 / rate)) := by
  obtain none | infinite | ⟨finite, pos⟩ := above_zero accepted
  · rw [div_nan none]
    exact .nan none
  · obtain ⟨negative, zero⟩ := div_infinite isFinite_one infinite
    rw [zero]
    exact .zero infinite
  · obtain ⟨negative, rounds⟩ := rounds_div isFinite_one finite pos.ne'
    rw [value_one, abs_one, abs_of_pos pos] at rounds
    obtain low | high := le_or_gt (limit * (ofFloat rate).value) 1
    · rw [rounds.infinite ((le_div_iff₀ pos).mpr low)]
      exact .infinite finite low
    · have inside := (div_lt_iff₀ pos).mpr high
      have least : (2 : Rat) ^ (-1074 : Int) ≤ 1 / (ofFloat rate).value := by
        have below := (le_abs_self _).trans_lt (abs_value_lt_limit rate)
        rw [zpow_neg, ← one_div]
        exact one_div_le_one_div_of_le pos (below.le.trans limit_le)
      exact .finite finite high (rounds.isFinite_iff.mpr inside) (rounds.value_ne_zero inside least)

end Double

theorem quotient_of_zero (finite : (ofFloat period).isFinite = true) (zero : (ofFloat period).value = 0) :
    Timescale.quotient span period = .error .zeroPeriod := by
  simp only [Timescale.quotient, beq_zero_iff.mpr ⟨finite, zero⟩, if_true]

theorem quotient_of_some (some : (ofFloat period).isFinite = true → (ofFloat period).value ≠ 0) :
    Timescale.quotient span period = (ofFloat (span / period)).integer := by
  have some : (period == 0) = false := by
    rw [← Bool.not_eq_true, beq_zero_iff]
    exact fun h => some h.1 h.2
  simp only [Timescale.quotient, some]
  rfl

namespace Metronome

variable {elapsed : Rat} {negative sign : Bool}

theorem quotient_endless_iff (endless : ofFloat period = .infinite negative)
    (rounds : Rounds (ofFloat span) sign elapsed) :
    Timescale.quotient span period = .error failure ↔ limit ≤ elapsed ∧ failure = .noInteger := by
  rw [quotient_of_some (by simp [endless, isFinite]), integer_eq_error_iff]
  obtain inside | outside := lt_or_ge elapsed limit
  · obtain ⟨_, zero⟩ := div_infinite (rounds.isFinite_iff.mpr inside) endless
    simp [zero, isFinite, inside]
  · simp [infinite_div_infinite (rounds.infinite outside) endless, isFinite, outside]

theorem quotient_countless_iff (finite : (ofFloat period).isFinite = true) (some : (ofFloat period).value ≠ 0)
    (rounds : Rounds (ofFloat span) sign elapsed) :
    Timescale.quotient span period = .error failure ↔
      (limit ≤ elapsed ∨ limit ≤ |(ofFloat span).value| / |(ofFloat period).value|) ∧ failure = .infinite := by
  rw [quotient_of_some fun _ => some, integer_eq_error_iff]
  obtain inside | outside := lt_or_ge elapsed limit
  · obtain ⟨_, quotient⟩ := rounds_div (rounds.isFinite_iff.mpr inside) finite some
    have counted := quotient.isFinite_iff
    obtain few | many := lt_or_ge (|(ofFloat span).value| / |(ofFloat period).value|) limit
    · have nan : ofFloat (span / period) ≠ .nan := fun none => by simp [none, isFinite, few] at counted
      simp [counted.mpr few, nan, inside, few]
    · simp [quotient.infinite many, isFinite, many]
  · obtain ⟨_, infinite⟩ := infinite_div (rounds.infinite outside) finite
    simp [infinite, isFinite, outside]

-- Counting the periods of a time fails as exact numbers tell.
theorem quotient_eq_error_iff (past : (ofFloat last).isFinite = true) (present : (ofFloat now).isFinite = true)
    (accepted : ¬ rate ≤ 0) :
    Timescale.quotient (now - last) (1.0 / rate) = .error failure ↔ Stalls rate last now failure := by
  obtain ⟨sign, rounds⟩ := rounds_sub present past
  have inverse := isInverse_of_accepted accepted
  generalize period : ofFloat (1.0 / rate) = d at inverse
  cases inverse with
  | nan none =>
    rw [quotient_of_some (by simp [period, isFinite]), div_nan period]
    constructor
    · rintro ⟨⟩
      exact .noRate none
    · intro stalls
      cases stalls <;> simp_all [isFinite, integer]
  | zero infinite =>
    rw [quotient_of_zero (by rw [period]; rfl) (by simp [period, value])]
    constructor
    · rintro ⟨⟩
      exact .noLength infinite
    · intro stalls
      cases stalls <;> simp_all [isFinite]
  | infinite finite low =>
    rw [quotient_endless_iff period rounds]
    constructor
    · rintro ⟨outside, rfl⟩
      exact .endless finite low outside
    · intro stalls
      cases stalls <;> simp_all [isFinite]
      linarith
  | finite finite high inside some =>
    rw [quotient_countless_iff (period ▸ inside) (period ▸ some) rounds]
    constructor
    · rintro ⟨many, rfl⟩
      exact .countless finite high many
    · intro stalls
      cases stalls <;> simp_all [isFinite]
      linarith

end Metronome

namespace Machine

variable {config : Config} {source : Source} {m m' : Machine} {built : Float} {traced : Bool}

theorem tick_eq_error_iff : m.tick now = .error failure ↔
    Timescale.quotient (now - m.metronome.last) m.metronome.period = .error failure := by
  simp only [tick, Metronome.beat, Timescale.since]
  cases Timescale.quotient (now - m.metronome.last) m.metronome.period <;> simp [Except.map]

-- Only the clock fails a step of a running machine.
theorem step_eq_error_iff (r : m.Reachable config source) (draws : source.isEmpty = false)
    (running : m.halted = false) : m.step now = .error failure m' ↔ m' = m ∧ m.tick now = .error failure := by
  cases t : m.tick now with
  | error e => simp [step_of_tick_error running t, eq_comm, and_comm]
  | ok p =>
    have ⟨_, _, step, _⟩ := step_recorded r.sound (r.isEmpty_source.trans draws) running t
    simp [step, recorded]

theorem countable_ofNat (n : Nat) : Position.countable n = decide (n < 0x8000000000000000) := by
  rw [Position.countable, Bool.eq_iff_iff, Bool.and_eq_true, decide_eq_true_eq, decide_eq_true_eq, decide_eq_true_eq]
  omega

-- A machine is set up as long as the pixels of its screen can be counted and kept.
theorem ofConfig_eq {room : Nat} : ofConfig room config source traced built =
    if 0x8000000000000000 ≤ config.width * config.height then .error .uncountable
    else if room < config.width * config.height then .error .noRoom
    else .ok (new config source traced built) := by
  rw [ofConfig, Screen.ofSides, ← Int.natCast_mul, Failure.cellCount, countable_ofNat]
  generalize config.width * config.height = cells
  by_cases giant : 0x8000000000000000 ≤ cells
  case pos =>
    rw [if_pos (by simp [giant]), if_pos giant]
    rfl
  case neg =>
    rw [if_neg (by simp [giant]), if_neg giant]
    by_cases large : room < cells
    case pos =>
      rw [if_pos (by omega), if_pos large]
      rfl
    case neg =>
      rw [if_neg (by omega), if_neg large]
      rfl

-- A machine is set up unless its screen is too large, and then its steps fail exactly where the clock stalls it.
theorem stalls_iff (config : Config) (source : Source) (draws : source.isEmpty = false) :
    (∀ room traced built failure, ofConfig room config source traced built = .error failure ↔
      failure = .uncountable ∧ 0x8000000000000000 ≤ config.width * config.height ∨
        failure = .noRoom ∧ room < config.width * config.height ∧
          config.width * config.height < 0x8000000000000000) ∧
    ∀ (m : Machine) now failure, m.Reachable config source → (ofFloat m.metronome.last).isFinite = true →
      (ofFloat now).isFinite = true →
        (m.tick now = .error failure ↔ Metronome.Stalls config.timerHz m.metronome.last now failure) ∧
        (m.halted = false → ∀ m', m.step now = .error failure m' ↔
          m' = m ∧ Metronome.Stalls config.timerHz m.metronome.last now failure) := by
  refine ⟨fun room traced built failure => ?_, fun m now failure r past present => ?_⟩
  · rw [ofConfig_eq]
    split
    case isTrue giant => simp [giant, eq_comm]
    case isFalse giant =>
      split
      case isTrue large => simp [not_le.mp giant, large, eq_comm]
      case isFalse small => simp [giant, small]
  have tick : m.tick now = .error failure ↔ Metronome.Stalls config.timerHz m.metronome.last now failure := by
    rw [tick_eq_error_iff, r.period]
    exact Metronome.quotient_eq_error_iff past present config.timerHz_pos
  refine ⟨tick, fun running m' => ?_⟩
  rw [step_eq_error_iff r draws running, tick]

end Machine

-- A rate whose periods are soon too many for a double to count.
def Config.hurried : Config :=
  { Config.small .strict with
    timerHz := 1e300
    timerHz_pos := by decide +kernel }

-- A rate that is accepted although it is infinite.
def Config.endless : Config :=
  { Config.small .strict with
    timerHz := 1.0 / 0.0
    timerHz_pos := by decide +kernel }

namespace Machine

theorem hurried_stalls : let m := Machine.new .hurried .zeros false 0
    m.step 1e9 = .error .infinite m ∧ Metronome.Stalls Config.hurried.timerHz 0 1e9 .infinite := by
  intro m
  have counts : m.tick 1e9 = .error .infinite := by
    rw [tick_eq_error_iff, quotient_of_some fun _ => by decide +kernel, integer_eq_error_iff]
    exact .inr ⟨by decide +kernel, by decide +kernel, rfl⟩
  have ⟨tick, step⟩ := (stalls_iff .hurried .zeros rfl).2 m 1e9 .infinite (.new false 0)
    (by decide +kernel) (by decide +kernel)
  exact ⟨(step rfl m).mpr ⟨rfl, tick.mp counts⟩, tick.mp counts⟩

-- It is set up, and then stopped by any clock, even one that stands still.
theorem endless_stalls : Config.endless.settings.check = .ok .endless ∧ (ofFloat 0).isFinite = true ∧
    let m := Machine.new .endless .zeros false 0
    ofConfig 32 .endless .zeros false 0 = .ok m ∧ m.halted = false ∧
      m.tick 0 = .error .zeroPeriod ∧ m.step 0 = .error .zeroPeriod m := by
  refine ⟨Config.check_settings _, by decide +kernel, ofConfig_eq, rfl, ?_⟩
  have tick : (Machine.new .endless .zeros false 0).tick 0 = .error .zeroPeriod := by
    rw [tick_eq_error_iff]
    exact quotient_of_zero (by decide +kernel) (by decide +kernel)
  exact ⟨tick, step_of_tick_error rfl tick⟩

end Machine
end Chip8
