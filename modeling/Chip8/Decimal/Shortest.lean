import Chip8.Decimal.Double

namespace Chip8

-- `digits` times a power of ten.
structure Decimal where
  digits : Nat
  exponent : Int
deriving DecidableEq

namespace Decimal

-- Decimal digits of a number; zero has none.
def count (n : Nat) : Nat :=
  if n = 0 then 0 else count (n / 10) + 1
termination_by n

-- The exponent of the leading digit of `num / den`.
def leading (num den : Nat) : Int :=
  if den ≤ num then count (num / den) - 1 else -count ((den - 1) / num)

-- A ratio of natural numbers in which a point of the grid of tens is a whole number.
def scale (num den : Nat) (exponent : Int) : Nat × Nat :=
  if 0 ≤ exponent then (num, den * Nat.pow 10 exponent.toNat)
  else (num * Nat.pow 10 (-exponent).toNat, den)

-- The reals that round to a double, over the common denominator `den`.
structure Interval where
  low : Nat
  mid : Nat
  high : Nat
  den : Nat
  closed : Bool

-- Four quarters of a unit reach up to the next double. Below a power of two the doubles are twice
-- as dense.
def Interval.of (significand : Nat) (exponent : Int) : Interval :=
  let dense := significand = 0x10000000000000 ∧ exponent ≠ Double.leastExponent
  let unit := if 0 ≤ exponent then Nat.pow 2 exponent.toNat else 1
  { low := (4 * significand - if dense then 1 else 2) * unit
    mid := 4 * significand * unit
    high := (4 * significand + 2) * unit
    den := 4 * if 0 ≤ exponent then 1 else Nat.pow 2 (-exponent).toNat
    closed := significand % 2 = 0 }

-- Whether `n` times the grid's step lies in the interval.
def Interval.holds (i : Interval) (exponent : Int) (n : Nat) : Bool :=
  let below (num : Nat) :=
    let (p, q) := scale num i.den exponent
    if i.closed then p ≤ n * q else p < n * q
  let above (num : Nat) :=
    let (p, q) := scale num i.den exponent
    if i.closed then n * q ≤ p else n * q < p
  below i.low && above i.high

-- The better of the value's two neighbours on a grid, if any of them lies in the interval.
def Interval.onGrid? (i : Interval) (exponent : Int) : Option Nat :=
  let (p, q) := scale i.mid i.den exponent
  let lower := p / q
  let rest := p % q
  let nearest := if 2 * rest < q ∨ 2 * rest = q ∧ lower % 2 = 0 then lower else lower + 1
  let other := if nearest = lower then lower + 1 else lower
  if i.holds exponent nearest then some nearest
  else if i.holds exponent other then some other
  else none

-- Seventeen digits tell any two doubles apart.
def Interval.shortest (i : Interval) : Decimal :=
  let top := leading i.mid i.den
  let grids := (List.range 17).map fun (k : Nat) => top - k
  (grids.findSome? fun e => (i.onGrid? e).map (⟨·, e⟩)).getD ⟨0, 0⟩

def trim (d : Decimal) : Decimal :=
  if d.digits = 0 then ⟨0, 0⟩
  else if d.digits % 10 = 0 then trim ⟨d.digits / 10, d.exponent + 1⟩
  else d
termination_by d.digits

def ofDouble (significand : Nat) (exponent : Int) : Decimal :=
  if significand = 0 then ⟨0, 0⟩ else (Interval.of significand exponent).shortest.trim

-- Numbers from a ten-thousandth up to ten to the sixteenth are written out, all others with an
-- exponent of two digits or more.
def text (d : Decimal) : String :=
  let digits := toString d.digits
  let point : Int := d.exponent + digits.length
  let zeros (n : Int) := String.ofList (List.replicate n.toNat '0')
  if -4 < point ∧ point ≤ 16 then
    if point ≤ 0 then "0." ++ zeros (-point) ++ digits
    else if digits.length ≤ point.toNat then digits ++ zeros (point - digits.length) ++ ".0"
    else
      String.ofList (digits.toList.take point.toNat) ++ "." ++
        String.ofList (digits.toList.drop point.toNat)
  else
    let power := toString (point - 1).natAbs
    let fraction := String.ofList (digits.toList.drop 1)
    String.ofList (digits.toList.take 1) ++ (if fraction.isEmpty then "" else "." ++ fraction) ++
      "e" ++ (if point ≤ 0 then "-" else "+") ++ zeros (2 - power.length) ++ power

end Decimal

-- A double as text: `60.0`, `1e-05`, `inf`.
def Double.text : Double → String
  | .nan => "nan"
  | .infinite negative => if negative then "-inf" else "inf"
  | .finite negative m e => (if negative then "-" else "") ++ (Decimal.ofDouble m e).text

end Chip8
