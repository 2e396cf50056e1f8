import Chip8.Core
import Chip8.Operation

namespace Chip8

def glyphSize : Nat := 5

namespace Operation

open Chip8.Action

-- An operation on the low bytes of two registers.
def bitwise (op : UInt8 → UInt8 → UInt8) (a b : Int) : Int :=
  (op (UInt8.ofInt a) (UInt8.ofInt b)).toNat

-- Sets a register to a result and the flag register to a flag, in this order.
def setWithFlag (i : Nat) (result flag : Int) : Action Unit := do
  setRegister i result
  setFlag flag

-- Whether a column of a sprite row is set. The leftmost column is the highest bit.
def isSet (bits : UInt8) (column : Nat) : Bool :=
  bits.toNat.testBit (7 - column)

-- Inverts a pixel for every set bit of a byte, and tells whether one of them was lit, or `hit`.
def drawRow (x y : Int) (bits : UInt8) (hit : Bool) : Action Bool :=
  (List.range 8).foldlM (fun hit (column : Nat) => do
    if isSet bits column then
      return (← flipPixel (x + column) y) || hit
    else return hit) hit

def drawRows (x y address : Int) (rows : Nat) : Action Bool :=
  (List.range rows).foldlM (fun hit (row : Nat) => do
    drawRow x (y + row) (← readByte (address + row)) hit) false

-- Moves the index register behind a block of registers, where the dialect says so.
def advanceIndex (d : Dialect) (count : Nat) : Action Unit :=
  updateState fun s => if d.advancesIndex then { s with index := word (s.index + count) } else s

def shiftOperand (d : Dialect) (w : Opcode) : Action Int :=
  register (if d.shiftSource = .vy then w.y else w.x)

def perform (d : Dialect) (op : Operation) (w : Opcode) : Action Unit := do
  match op with
  | hostRoutine =>
    throw (.fault (.hostRoutine w.toNat (some (Chip8.word ((← get).state.pc - 2)))))
  | clearScreen => darken
  | ret =>
    let (address, s) ← ofExcept (← get).state.pop
    updateState fun _ => { s with pc := address }
  | jump => jumpTo w.nnn
  | call =>
    updateState? fun s => s.push s.pc
    jumpTo w.nnn
  | jumpOffset => jumpTo (Chip8.word (w.nnn + (← register 0)))
  | skipEqualByte => skipIf ((← register w.x) == w.nn)
  | skipUnequalByte => skipIf ((← register w.x) != w.nn)
  | skipEqual => skipIf ((← register w.x) == (← register w.y))
  | skipUnequal => skipIf ((← register w.x) != (← register w.y))
  | skipHeld =>
    let key ← register w.x
    skipIf (← ofExcept ((← get).keys.get key))
  | skipReleased =>
    let key ← register w.x
    skipIf (!(← ofExcept ((← get).keys.get key)))
  | loadByte => setRegister w.x w.nn
  | addByte => setRegister w.x ((← register w.x) + w.nn)
  | load => setRegister w.x (← register w.y)
  | or => setRegister w.x (bitwise (· ||| ·) (← register w.x) (← register w.y))
  | and => setRegister w.x (bitwise (· &&& ·) (← register w.x) (← register w.y))
  | xor => setRegister w.x (bitwise (· ^^^ ·) (← register w.x) (← register w.y))
  | add =>
    let sum := (← register w.x) + (← register w.y)
    setWithFlag w.x sum (if sum > 0xff then 1 else 0)
  | subtract =>
    let difference := (← register w.x) - (← register w.y)
    setWithFlag w.x difference (if difference < 0 then 0 else 1)
  | subtractFrom =>
    let difference := (← register w.y) - (← register w.x)
    setWithFlag w.x difference (if difference < 0 then 0 else 1)
  | shiftRight =>
    let value ← shiftOperand d w
    setWithFlag w.x (value / 2) (value % 2)
  | shiftLeft =>
    let value ← shiftOperand d w
    setWithFlag w.x (2 * value) (value / 128 % 2)
  | random =>
    let b ← drawByte
    setRegister w.x (b &&& UInt8.ofNat w.nn).toNat
  | loadIndex => setIndex w.nnn
  | addIndex =>
    let vx ← register w.x
    updateState fun s => { s with index := Chip8.word (s.index + vx) }
  | loadGlyph =>
    let vx ← register w.x
    setIndex (d.fontAddress + vx % 16 * glyphSize)
  | storeDigits =>
    let vx ← register w.x
    let address := (← get).state.index
    writeByte address (vx / 100)
    writeByte (address + 1) (vx / 10 % 10)
    writeByte (address + 2) (vx % 10)
  | storeRegisters =>
    let address := (← get).state.index
    (List.range (w.x + 1)).forM fun (i : Nat) => do writeByte (address + i) (← register i)
    advanceIndex d (w.x + 1)
  | loadRegisters =>
    let address := (← get).state.index
    (List.range (w.x + 1)).forM fun (i : Nat) => do assignRegister i (← readByte (address + i)).toNat
    advanceIndex d (w.x + 1)
  | draw =>
    let x ← register w.x
    let y ← register w.y
    let hit ← drawRows x y (← get).state.index w.n
    setFlag (if hit then 1 else 0)
  | loadDelay => setRegister w.x (← get).state.delayTimer
  | setDelay =>
    let vx ← register w.x
    updateState fun s => { s with delayTimer := vx }
  | setSound =>
    let vx ← register w.x
    updateState fun s => { s with soundTimer := vx }
  | awaitKey =>
    match ← pollKey with
    | some key => setRegister w.x key
    | none => updateState fun s => { s with pc := Chip8.word (s.pc - 2) }

end Operation
end Chip8
