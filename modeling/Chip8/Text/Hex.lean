namespace Chip8.Text

def upperDigit (d : Nat) : Char :=
  if d < 10 then Char.ofNat (48 + d) else Char.ofNat (55 + d)

def lowerDigit (d : Nat) : Char :=
  if d < 10 then Char.ofNat (48 + d) else Char.ofNat (87 + d)

-- The digits of a number in base 16, most significant first. Zero has one digit.
def hexDigits (n : Nat) : List Nat :=
  if n < 16 then [n] else hexDigits (n / 16) ++ [n % 16]
termination_by n

theorem hexDigits_of_lt {n : Nat} (h : n < 16) : hexDigits n = [n] := by
  rw [hexDigits, if_pos h]

theorem hexDigits_of_le {n : Nat} (h : 16 ≤ n) : hexDigits n = hexDigits (n / 16) ++ [n % 16] := by
  rw [hexDigits, if_neg (by omega)]

def sign (n : Int) : List Char :=
  if n < 0 then ['-'] else []

-- A mark and digits, filled with zeros to `width` characters, the sign of `n` included.
def filled (width : Nat) (n : Int) (mark digits : List Char) : String :=
  let head := sign n ++ mark
  String.ofList (head ++ List.replicate (width - head.length - digits.length) '0' ++ digits)

-- Upper-case numeral without a mark, such as `0FF`.
def hex (width : Nat) (n : Int) : String :=
  filled width n [] ((hexDigits n.natAbs).map upperDigit)

-- Lower-case numeral marked `0x`, such as `0x00ff`.
def markedHex (width : Nat) (n : Int) : String :=
  filled width n ['0', 'x'] ((hexDigits n.natAbs).map lowerDigit)

-- Two lower-case digits for each byte.
def hexBytes (bytes : List UInt8) : String :=
  String.ofList (bytes.flatMap fun b => [lowerDigit (b.toNat / 16), lowerDigit (b.toNat % 16)])

-- A decimal numeral set flush right in `width` characters.
def flushRight (width : Nat) (n : Int) : String :=
  let digits := toString n
  String.ofList (List.replicate (width - digits.length) ' ') ++ digits

end Chip8.Text
