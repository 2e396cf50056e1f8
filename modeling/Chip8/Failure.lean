import Chip8.Config
import Chip8.Fault
import Chip8.Position

namespace Chip8

inductive Failure where
  | fault (f : Fault)
  | noRegister (reg : Int)
  -- An element was read, or replaced, that a sequence does not have, or by a number too great for any place.
  | noElement
  | noPlace
  | tooFar
  -- A residue was asked for in a memory, on a screen or in a source that has no elements.
  | zeroModulus
  -- Time was counted in periods of no length.
  | zeroPeriod
  -- A float that is no number, or is infinite, has no integer part.
  | noInteger
  | infinite
  -- An image holds a number that is no byte.
  | byteRange
  | negativeSize
  -- More cells were asked for than can be counted, or than there is room for.
  | uncountable
  | noRoom
  | invalid (i : Settings.Invalid)
  -- A record was given a field that it does not have, or itself.
  | unknownField (record name : String)
  | unknownOperation (key : String)
  | knownOperation (key : String)
  | frozenTable
  | alreadyRunning
  -- A seed, a number of steps, a bound on cycles or a rate was needed where there was only a blank.
  | blankSeed
  | blankSteps
  | blankBound
  | blankRate
  -- Text that is no integer in base sixteen, and no image in hexadecimal from this position on.
  | noNumeral (text : String)
  | noHexDigit (position : Nat)

namespace Failure

def message : Failure → String
  | fault f => f.message
  | noRegister reg => s!"Invalid register: V{reg}"
  | noElement => "list index out of range"
  | noPlace => "list assignment index out of range"
  | zeroModulus => "integer modulo by zero"
  | zeroPeriod => "float division by zero"
  | noInteger => "cannot convert float NaN to integer"
  | infinite => "cannot convert float infinity to integer"
  | byteRange => "bytes must be in range(0, 256)"
  | negativeSize => "negative count"
  | uncountable | tooFar => "cannot fit 'int' into an index-sized integer"
  | noRoom => ""
  | invalid i => i.message
  | unknownField record name =>
    record ++ ".__init__() got " ++
      (if name = "self" then "multiple values for" else "an unexpected keyword") ++ s!" argument '{name}'"
  | unknownOperation key => Text.quoted s!"Unknown operation key: {key}"
  | knownOperation key => s!"Handler already registered: {key}"
  | frozenTable => "Cannot register handlers: registry is frozen"
  | alreadyRunning => "Machine is already running"
  | blankSeed => "The only supported seed types are: None,\nint, float, str, bytes, and bytearray."
  | blankSteps => "'list' object cannot be interpreted as an integer"
  | blankBound => "'<' not supported between instances of 'int' and 'list'"
  | blankRate => "'>' not supported between instances of 'list' and 'int'"
  | noNumeral text => "invalid literal for int() with base 16: " ++ Text.clipped 200 (Text.quoted text)
  | noHexDigit position => s!"non-hexadecimal number found in fromhex() arg at position {position}"

-- A number of cells that a host asks for, of which there is room for so many. Below zero it stands for none.
def cellCount (room : Nat) (n : Int) : Except Failure Nat :=
  if !Position.countable n then .error .uncountable
  else if room < n then .error .noRoom
  else .ok n.toNat

-- The place of an element that a host names. Without one the access fails in its own way.
def place (length : Nat) (i : Int) (absent : Failure) : Except Failure (Fin length) :=
  if !Position.countable i then .error .tooFar
  else (Position.element? length i).elim (.error absent) .ok

end Failure
end Chip8
