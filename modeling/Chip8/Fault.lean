import Chip8.Text.Hex

namespace Chip8

inductive Fault where
  | unknownOpcode (opcode : Int) (pc : Option Int)
  -- The opcode calls a routine in the code of the host processor.
  | hostRoutine (opcode : Int) (pc : Option Int)
  -- The opcode cannot be decoded, for a reason told in words.
  | undecodable (opcode : Int) (pc : Option Int) (reason : String)
  | stackOverflow (depth : Int)
  | stackUnderflow
  -- A fault of the call stack that is neither of the two above.
  | stack (reason : String)
  | address (address : Int) (size : Int)
  | invalidKey (key : Int)
  -- A step was asked of a machine that has halted.
  | halted (reason : String)
  | other (reason : String)
deriving DecidableEq

namespace Fault

-- The place that a decoding fault names, if it is known.
def located (reason : String) : Option Int → String
  | none => reason
  | some pc => reason ++ " at " ++ Text.hex 3 pc

-- What the faults say that name a depth, a size or a key, given as it is written out.

def overflowing (depth : String) : String :=
  s!"Call stack overflow (depth {depth})"

def outside (address : Int) (size : String) : String :=
  s!"Address {Text.markedHex 6 address} outside memory of {size} bytes"

def unknownKey (key : String) : String :=
  s!"Invalid key index: {key}"

def message : Fault → String
  | unknownOpcode opcode pc => located ("Unknown opcode " ++ Text.hex 4 opcode) pc
  | hostRoutine opcode pc =>
    located ("Machine code routine " ++ Text.hex 4 opcode ++ " is not supported") pc
  | undecodable _ pc reason => located reason pc
  | stackOverflow depth => overflowing (toString depth)
  | stackUnderflow => "Return with empty call stack"
  | stack reason => reason
  | address a size => outside a (toString size)
  | invalidKey key => unknownKey (toString key)
  | halted reason => reason
  | other reason => reason

-- The fault of stepping a halted machine names the one that halted it.
def haltedBy (cause : Option Fault) : Fault :=
  .halted ("CPU is halted: " ++ (cause.map message).getD "None")

end Fault
end Chip8
