import Chip8.Failure

namespace Chip8

-- An arithmetic of times. `quotient` is the number of whole periods in a span, if there is one.
class Timescale (τ : Type) where
  since : τ → τ → τ
  quotient : τ → τ → Except Failure Int
  later : τ → Int → τ → τ

def Double.integer : Double → Except Failure Int
  | .nan => .error .noInteger
  | .infinite _ => .error .infinite
  | .finite negative m e =>
    .ok (if negative then -(truncate m e : Int) else truncate m e)

instance : Timescale Float where
  since now last := now - last
  quotient span period :=
    if period == 0 then .error .zeroPeriod else (Double.ofFloat (span / period)).integer
  later last periods period := last + Float.ofInt periods * period

instance : Timescale Rat where
  since now last := now - last
  quotient span period :=
    if period = 0 then .error .zeroPeriod
    else .ok (if 0 ≤ span / period then (span / period).floor else (span / period).ceil)
  later last periods period := last + periods * period

structure Metronome (τ : Type) where
  period : τ
  last : τ

namespace Metronome

variable {τ : Type} [Timescale τ]

-- The whole periods up to now. A clock that stands still or runs backwards completes none.
def beat (m : Metronome τ) (now : τ) : Except Failure (Int × Metronome τ) :=
  (Timescale.quotient (Timescale.since now m.last) m.period).map fun periods =>
    if periods ≤ 0 then (0, m)
    else (periods, { m with last := Timescale.later m.last periods m.period })

theorem beat_nonneg {m m' : Metronome τ} {now : τ} {periods : Int}
    (h : m.beat now = .ok (periods, m')) : 0 ≤ periods := by
  cases q : Timescale.quotient (Timescale.since now m.last) m.period <;>
    simp [beat, q, Except.map] at h
  split at h <;> simp at h <;> omega

theorem beat_preserves_period {m m' : Metronome τ} {now : τ} {periods : Int}
    (h : m.beat now = .ok (periods, m')) : m'.period = m.period := by
  cases q : Timescale.quotient (Timescale.since now m.last) m.period <;>
    simp [beat, q, Except.map] at h
  split at h <;> simp at h <;> rw [← h.2]

end Metronome
end Chip8
