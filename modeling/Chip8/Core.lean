import Chip8.Keypad
import Chip8.Memory
import Chip8.Random
import Chip8.Screen
import Chip8.State

namespace Chip8

structure Core where
  state : State
  memory : Memory
  screen : Screen
  keys : KeySet
  -- The keys that an armed wait remembers.
  wait : Option KeySet
  source : Source

abbrev Action := EStateM Failure Core

namespace Core

def waiting (c : Core) : Bool :=
  c.wait.isSome

def setKey (c : Core) (key : Int) (down : Bool) : Except Failure Core :=
  (c.keys.set key down).map fun keys => { c with keys := keys }

def writeMemory (c : Core) (address value : Int) : Except Failure Core :=
  (c.memory.cell address).map fun i => { c with memory := c.memory.put i value }

def writePixel (c : Core) (x y : Int) (lit : Bool) : Except Failure Core :=
  (c.screen.write x y lit).map fun screen => { c with screen := screen }

end Core

namespace Action

def updateState (f : State → State) : Action Unit :=
  modify fun c => { c with state := f c.state }

def updateState? (f : State → Except Failure State) : Action Unit := fun c =>
  match f c.state with
  | .ok s => .ok () { c with state := s }
  | .error e => .error e c

def register (i : Nat) : Action Int := do
  ofExcept (element (← get).state.registers i)

-- Stores a value as it is.
def assignRegister (i : Nat) (value : Int) : Action Unit :=
  updateState? fun s => do return { s with registers := ← setElement s.registers i value }

def setRegister (i : Nat) (value : Int) : Action Unit :=
  updateState? (·.setRegister i value)

def setFlag (value : Int) : Action Unit :=
  updateState? (·.setFlag value)

def jumpTo (address : Int) : Action Unit :=
  updateState fun s => { s with pc := address }

def setIndex (address : Int) : Action Unit :=
  updateState fun s => { s with index := address }

def skipIf (condition : Bool) : Action Unit :=
  updateState fun s => if condition then s.skip else s

def readByte (address : Int) : Action UInt8 := do
  ofExcept ((← get).memory.read address)

def writeByte (address value : Int) : Action Unit := fun c =>
  match c.memory.cell address with
  | .ok i => .ok () { c with memory := c.memory.put i value }
  | .error e => .error e c

-- Inverts a pixel and tells whether it was lit.
def flipPixel (x y : Int) : Action Bool := fun c =>
  match c.screen.index x y .noElement with
  | .ok i =>
    let lit := c.screen.pixels[i]
    .ok lit { c with screen := c.screen.put i !lit }
  | .error e => .error e c

def darken : Action Unit :=
  modify fun c => { c with screen := c.screen.clear }

def drawByte : Action UInt8 := fun c =>
  match c.source.draw? with
  | some (b, source) => .ok b { c with source := source }
  | none => .error .zeroModulus c

def pollKey : Action (Option (Fin 16)) :=
  modifyGet fun c =>
    let (key, wait) := c.keys.poll c.wait
    (key, { c with wait := wait })

end Action
end Chip8
