import Chip8.Opcode

namespace Chip8

inductive Operation where
  | hostRoutine
  | clearScreen
  | ret
  | jump
  | call
  | skipEqualByte
  | skipUnequalByte
  | skipEqual
  | loadByte
  | addByte
  | load
  | or
  | and
  | xor
  | add
  | subtract
  | shiftRight
  | subtractFrom
  | shiftLeft
  | skipUnequal
  | loadIndex
  | jumpOffset
  | random
  | draw
  | skipHeld
  | skipReleased
  | loadDelay
  | awaitKey
  | setDelay
  | setSound
  | addIndex
  | loadGlyph
  | storeDigits
  | storeRegisters
  | loadRegisters
deriving DecidableEq

namespace Operation

def all : List Operation :=
  [hostRoutine, clearScreen, ret, jump, call, skipEqualByte, skipUnequalByte, skipEqual, loadByte,
    addByte, load, or, and, xor, add, subtract, shiftRight, subtractFrom, shiftLeft, skipUnequal,
    loadIndex, jumpOffset, random, draw, skipHeld, skipReleased, loadDelay, awaitKey, setDelay,
    setSound, addIndex, loadGlyph, storeDigits, storeRegisters, loadRegisters]

theorem mem_all (op : Operation) : op ∈ all := by
  cases op <;> decide

def name : Operation → String
  | hostRoutine => "OP_SYS"
  | clearScreen => "OP_CLS"
  | ret => "OP_RET"
  | jump => "OP_JP"
  | call => "OP_CALL"
  | skipEqualByte => "OP_SE_IMM"
  | skipUnequalByte => "OP_SNE_IMM"
  | skipEqual => "OP_SE_REG"
  | loadByte => "OP_LD_IMM"
  | addByte => "OP_ADD_IMM"
  | load => "OP_LD_REG"
  | or => "OP_OR"
  | and => "OP_AND"
  | xor => "OP_XOR"
  | add => "OP_ADD_REG"
  | subtract => "OP_SUB"
  | shiftRight => "OP_SHR"
  | subtractFrom => "OP_SUBN"
  | shiftLeft => "OP_SHL"
  | skipUnequal => "OP_SNE_REG"
  | loadIndex => "OP_LD_I"
  | jumpOffset => "OP_JP_V0"
  | random => "OP_RND"
  | draw => "OP_DRW"
  | skipHeld => "OP_SKP"
  | skipReleased => "OP_SKNP"
  | loadDelay => "OP_LD_VX_DT"
  | awaitKey => "OP_LD_VX_K"
  | setDelay => "OP_LD_DT"
  | setSound => "OP_LD_ST"
  | addIndex => "OP_ADD_I"
  | loadGlyph => "OP_LD_F"
  | storeDigits => "OP_LD_B"
  | storeRegisters => "OP_LD_MEM"
  | loadRegisters => "OP_LD_REGS"

-- The key shown for an opcode without an operation.
def unnamed : String :=
  "OP_INVALID"

def ofName? (key : String) : Option Operation :=
  all.find? (·.name = key)

-- Operations told apart by the last digit of family 8.
def ofArithmetic? : Nat → Option Operation
  | 0x0 => some load
  | 0x1 => some or
  | 0x2 => some and
  | 0x3 => some xor
  | 0x4 => some add
  | 0x5 => some subtract
  | 0x6 => some shiftRight
  | 0x7 => some subtractFrom
  | 0xe => some shiftLeft
  | _ => none

-- Operations told apart by the last two digits of family F.
def ofDevice? : Nat → Option Operation
  | 0x07 => some loadDelay
  | 0x0a => some awaitKey
  | 0x15 => some setDelay
  | 0x18 => some setSound
  | 0x1e => some addIndex
  | 0x29 => some loadGlyph
  | 0x33 => some storeDigits
  | 0x55 => some storeRegisters
  | 0x65 => some loadRegisters
  | _ => none

-- Every word of family 0 is an operation, and so is every word of ten other families.
def decode (w : Opcode) : Option Operation :=
  match w.family with
  | 0x0 => if w.nnn = 0x0e0 then some clearScreen else if w.nnn = 0x0ee then some ret
    else some hostRoutine
  | 0x1 => some jump
  | 0x2 => some call
  | 0x3 => some skipEqualByte
  | 0x4 => some skipUnequalByte
  | 0x5 => if w.n = 0 then some skipEqual else none
  | 0x6 => some loadByte
  | 0x7 => some addByte
  | 0x8 => ofArithmetic? w.n
  | 0x9 => if w.n = 0 then some skipUnequal else none
  | 0xa => some loadIndex
  | 0xb => some jumpOffset
  | 0xc => some random
  | 0xd => some draw
  | 0xe => if w.nn = 0x9e then some skipHeld else if w.nn = 0xa1 then some skipReleased else none
  | 0xf => ofDevice? w.nn
  | _ => none

def showsOnScreen (op : Operation) : Bool :=
  op = clearScreen || op = draw

end Operation
end Chip8
