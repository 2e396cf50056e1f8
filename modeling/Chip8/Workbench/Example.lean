namespace Chip8.Workbench

structure Example where
  name : String
  source : String

-- Draws the sixteen hexadecimal digits in two rows.
def hexDigits : Example where
  name := "Hex Digits"
  source := "\n".intercalate [
    "6000 6100 6200        ; V0=digit V1=x V2=y",
    "F029 D125 7105 7001   ; draw digit, advance",
    "4008 2220 4010 1214   ; newline after 8, stop after 16",
    "1206 0000 0000 0000",
    "0000",
    "6100 7206 00EE        ; newline: x=0 y+=6"]

-- Draws the decimal digits of a byte.
def bcd : Example where
  name := "BCD 137"
  source := "\n".intercalate [
    "6089 A300 F033 F265   ; V0..V2 = digits of 137",
    "6314 640C             ; x=20 y=12",
    "F029 D345 7305        ; hundreds",
    "F129 D345 7305        ; tens",
    "F229 D345             ; units",
    "121C                  ; spin"]

-- Draws the digit of every key that is pressed.
def keyEcho : Example where
  name := "Key Echo"
  source := "\n".intercalate [
    "611C 620D             ; x=28 y=13",
    "F00A 00E0 F029 D125   ; wait key, clear, draw it",
    "1204                  ; repeat"]

-- A place for a program of one's own.
def custom : Example where
  name := "Custom"
  source := ""

def examples : List Example :=
  [hexDigits, bcd, keyEcho, custom]

-- The source of an example, and an empty one if there is none of that name.
def exampleSource (name : String) : String :=
  ((examples.find? fun e => e.name = name).map Example.source).getD ""

end Chip8.Workbench
