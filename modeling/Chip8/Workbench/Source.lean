import Chip8.Failure
import Chip8.Numeral

namespace Chip8.Workbench

open Text

-- Where a text stops being pairs of hexadecimal digits. A character outside ASCII is found first.
def badPosition (digits : List Char) : Nat :=
  match digits.findIdx? fun c => c.toNat ≥ 128 with
  | some i => i
  | none => digits.findIdx fun c => (hexValue? c).isNone

-- Bytes of two digits each, or nothing if the digits do not come in pairs.
def pairs? : List Char → Option (List UInt8)
  | [] => some []
  | [_] => none
  | high :: low :: rest => do
    let b := 16 * (← hexValue? high) + (← hexValue? low)
    return UInt8.ofNat b :: (← pairs? rest)

-- The words of a source without its comments, run together.
def digitsOf (source : List Char) : List Char :=
  (lines source).flatMap fun line => (words (beforeMark ';' line)).flatten

def imageOf (source : String) : Except Failure (List UInt8) :=
  let digits := digitsOf source.toList
  match pairs? digits with
  | some bytes => .ok bytes
  | none => .error (.noHexDigit (badPosition digits))

-- The numbers in a list of keys, which blanks and commas part.
def keysOf (text : String) : Except Failure (List Int) :=
  let parts := words (text.toList.map fun c => if c = ',' then ' ' else c)
  parts.mapM fun part =>
    let part := String.ofList part
    (Numeral.hexInteger? part).elim (.error (.noNumeral part)) .ok

end Chip8.Workbench
