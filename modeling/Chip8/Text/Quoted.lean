import Chip8.Text.Hex
import Chip8.Text.Unprintable

namespace Chip8.Text

-- Lower-case hexadecimal digits of a number, filled with zeros to `width`.
def escapeDigits (width n : Nat) : List Char :=
  let digits := (hexDigits n).map lowerDigit
  List.replicate (width - digits.length) '0' ++ digits

def escape (quote c : Char) : List Char :=
  if c = quote ∨ c = '\\' then ['\\', c]
  else if c = '\t' then ['\\', 't']
  else if c = '\n' then ['\\', 'n']
  else if c = '\r' then ['\\', 'r']
  else if isPrintable c then [c]
  else if c.toNat ≤ 0xff then ['\\', 'x'] ++ escapeDigits 2 c.toNat
  else if c.toNat ≤ 0xffff then ['\\', 'u'] ++ escapeDigits 4 c.toNat
  else ['\\', 'U'] ++ escapeDigits 8 c.toNat

def quoteOf (text : List Char) : Char :=
  if text.contains '\'' && !text.contains '"' then '"' else '\''

def quoted (text : String) : String :=
  let quote := quoteOf text.toList
  String.ofList ([quote] ++ text.toList.flatMap (escape quote) ++ [quote])

-- The first characters of a text.
def clipped (longest : Nat) (text : String) : String :=
  String.ofList (text.toList.take longest)

-- Items between brackets, separated by commas.
def bracketed (items : List String) : String :=
  "[" ++ ", ".intercalate items ++ "]"

end Chip8.Text
