import Chip8.Text.Blank
import Chip8.Text.Digit

namespace Chip8.Numeral

open Text

-- A blank that may stand around a number: every one but the information separators.
def isMargin (c : Char) : Bool :=
  isBlank c && !(0x1c ≤ c.toNat && c.toNat ≤ 0x1f)

def strip (text : List Char) : List Char :=
  ((text.dropWhile isMargin).reverse.dropWhile isMargin).reverse

-- The digits of a text that is made up of digits and single underscores between them.
def digits? (value? : Char → Option Nat) : List Char → Option (List Nat)
  | [] => none
  | [c] => (value? c).map ([·])
  | c :: '_' :: rest => do return (← value? c) :: (← digits? value? rest)
  | c :: d :: rest => do return (← value? c) :: (← digits? value? (d :: rest))

def ofDigits (base : Nat) (digits : List Nat) : Nat :=
  digits.foldl (fun n d => n * base + d) 0

-- A sign taken off a text, and whether it was a minus.
def sign (text : List Char) : Bool × List Char :=
  match text with
  | '-' :: rest => (true, rest)
  | '+' :: rest => (false, rest)
  | _ => (false, text)

def signed (negative : Bool) (n : Nat) : Int :=
  if negative then -n else n

-- The most digits that a decimal integer may have.
def longest : Nat := 4300

def integer? (text : String) : Option Int := do
  let (negative, body) := sign (strip text.toList)
  let digits ← digits? decimalValue? body
  if digits.length ≤ longest then some (signed negative (ofDigits 10 digits)) else none

-- Takes off the mark `0x`, after which one underscore may stand.
def unmark (text : List Char) : List Char :=
  match text with
  | zero :: x :: rest =>
    if decimalValue? zero = some 0 ∧ (x = 'x' ∨ x = 'X') then
      match rest with
      | '_' :: rest => rest
      | _ => rest
    else text
  | _ => text

def hexInteger? (text : String) : Option Int := do
  let (negative, body) := sign (strip text.toList)
  let digits ← digits? (fun c => (digitValue? c).filter (· < 16)) (unmark body)
  some (signed negative (ofDigits 16 digits))

-- Digits that may also be missing altogether.
def optionalDigits? : List Char → Option (List Nat)
  | [] => some []
  | text => digits? decimalValue? text

-- The double nearest to a decimal whose mantissa has so many digits. Far from one its magnitude alone decides.
def double (mantissa : Nat) (digits : Nat) (exponent : Int) : Float :=
  if mantissa = 0 ∨ exponent + digits < -400 then 0
  else if exponent + digits > 400 then 1.0 / 0.0
  else Float.ofScientific mantissa (exponent < 0) exponent.natAbs

-- A decimal with an optional fraction and an optional exponent.
def decimal? (text : List Char) : Option Float := do
  let (mantissa, power) := text.span fun c => c != 'e' && c != 'E'
  let exponent ← match power with
    | [] => some 0
    | _ :: rest =>
      let (negative, digits) := sign rest
      (digits? decimalValue? digits).map fun ds => signed negative (ofDigits 10 ds)
  let (whole, point) := mantissa.span (· != '.')
  let whole ← optionalDigits? whole
  let fraction ← optionalDigits? (point.drop 1)
  let digits := whole ++ fraction
  if digits.isEmpty then none
  else
    let significant := digits.dropWhile (· = 0)
    some (double (ofDigits 10 digits) significant.length (exponent - fraction.length))

-- A decimal, an infinity, or the mark of a value that is no number.
def float? (text : String) : Option Float :=
  let (negative, body) := sign (strip text.toList)
  let magnitude : Option Float := match String.ofList (body.map Char.toLower) with
    | "inf" | "infinity" => some (1.0 / 0.0)
    | "nan" => some (0.0 / 0.0)
    | _ => decimal? body
  magnitude.map fun x => if negative then -x else x

end Chip8.Numeral
