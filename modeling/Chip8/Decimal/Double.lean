namespace Chip8

inductive Double where
  | nan
  | infinite (negative : Bool)
  | finite (negative : Bool) (significand : Nat) (exponent : Int)
deriving DecidableEq

namespace Double

-- Exponent of the doubles nearest to zero, which have no hidden bit.
def leastExponent : Int := -1074

def ofBits (bits : Nat) : Double :=
  let negative := bits / 0x8000000000000000 % 2 == 1
  let biased := bits / 0x10000000000000 % 0x800
  let fraction := bits % 0x10000000000000
  if biased = 2047 then
    if fraction = 0 then .infinite negative else .nan
  else if biased = 0 then .finite negative fraction leastExponent
  else .finite negative (fraction + 0x10000000000000) ((biased : Nat) + leastExponent - 1)

def ofFloat (x : Float) : Double :=
  ofBits x.toBits.toNat

-- The integer nearest to a finite double on the side of zero.
def truncate (significand : Nat) (exponent : Int) : Nat :=
  if 0 ≤ exponent then significand * Nat.pow 2 exponent.toNat
  else significand / Nat.pow 2 (-exponent).toNat

theorem truncate_of_neg {m : Nat} {e : Int} (h : e < 0) :
    truncate m e = m / Nat.pow 2 (-e).toNat := by
  rw [truncate, if_neg (by omega)]

end Double
end Chip8
