import Chip8.Core.Cycle
import Chip8.Font
import Chip8.Metronome
import Chip8.Trace

namespace Chip8

@[ext]
structure Machine where
  config : Config
  core : Core
  metronome : Metronome Float
  -- The fault that halted the processor.
  fault : Option Fault
  -- The fault that ended the background loop.
  loopFault : Option Fault
  looping : Bool
  displayWritten : Bool
  soundEnded : Bool
  traced : Bool
  trace : Array Entry
  programSize : Nat

-- What a call leaves of a machine, and its answer or its failure.
abbrev Outcome := EStateM.Result Failure Machine

-- The core that a configuration asks for, with the font in place.
def Core.new (config : Config) (source : Source) : Core where
  state := .initial config.startPc config.stackDepth
  memory := (Memory.blank config.memorySize config.wraps).place config.fontAddress font
  screen := .dark config.width config.height
  keys := .empty
  wait := none
  source := source

namespace Machine

def new (config : Config) (source : Source) (traced : Bool) (now : Float) : Machine where
  config := config
  core := .new config source
  metronome := ⟨1.0 / config.timerHz, now⟩
  fault := none
  loopFault := none
  looping := false
  displayWritten := false
  soundEnded := false
  traced := traced
  trace := #[]
  programSize := 0

-- Sets a machine up, unless there is no room for its screen.
def ofConfig (room : Nat) (config : Config) (source : Source) (traced : Bool) (now : Float) :
    Except Failure Machine :=
  (Screen.ofSides room config.width config.height).map fun _ => new config source traced now

def state (m : Machine) : State :=
  m.core.state

def halted (m : Machine) : Bool :=
  m.core.state.halted

-- Copies an image into memory, to the start of programs unless told otherwise.
def load (m : Machine) (image : List Int) (start : Option Int) : Except Failure Machine := do
  let (memory, count) ← m.core.memory.load (start.getD m.config.startPc) image
  return { m with core := { m.core with memory := memory }, programSize := count }

def freshMemory (m : Machine) : Memory :=
  m.core.memory.clear.place m.config.fontAddress font

-- Starts over. Memory keeps its contents unless it is to be cleared, and the source of random bytes goes
-- on where it was.
def reset (m : Machine) (clearMemory : Bool) (now : Float) : Machine :=
  { m with
    core := {
      state := .initial m.config.startPc m.config.stackDepth
      memory := if clearMemory then m.freshMemory else m.core.memory
      screen := m.core.screen.clear
      keys := .empty
      wait := none
      source := m.core.source }
    metronome := { m.metronome with last := now }
    fault := none
    loopFault := none
    displayWritten := false
    soundEnded := false
    trace := #[]
    programSize := if clearMemory then 0 else m.programSize }

-- Charges the timers with the periods that have passed, and counts these.
def tick (m : Machine) (now : Float) : Except Failure (Int × Machine) :=
  (m.metronome.beat now).map fun (periods, metronome) =>
    let (state, ended) := m.core.state.elapse periods
    (periods, { m with
      core := { m.core with state := state }
      metronome := metronome
      soundEnded := m.soundEnded || ended })

def record (m : Machine) (e : Entry) : Machine :=
  if m.traced then { m with trace := m.trace.push e } else m

-- The state as it goes into an entry.
def snapshot (m : Machine) : Option State :=
  if m.traced then some m.core.state else none

def succeed (m : Machine) (fetched : Option Opcode) : Machine :=
  let shown := (fetched.bind Operation.decode).any Operation.showsOnScreen
  { m with
    core := { m.core with state := { m.core.state with cycles := m.core.state.cycles + 1 } }
    displayWritten := m.displayWritten || shown }

def halt (m : Machine) (f : Fault) : Machine :=
  { m with
    core := { m.core with state := { m.core.state with halted := true } }
    fault := some f }

-- Fetches and performs a word. A fault halts the machine and goes into the entry; any other failure
-- leaves no entry.
def cycle (m : Machine) : Outcome Entry :=
  let pc := m.core.state.pc
  let before := m.snapshot
  let entry (m : Machine) (fetched : Option Opcode) (fault : Option Fault) : Outcome Entry :=
    let e := { cycle := m.core.state.cycles, pc, fetched, fault, before, after := m.snapshot }
    .ok e (m.record e)
  match m.core.cycle m.config.dialect with
  | (fetched, .ok _ core) => entry ({ m with core := core }.succeed fetched) fetched none
  | (fetched, .error (.fault f) core) => entry ({ m with core := core }.halt f) fetched (some f)
  | (_, .error e core) => .error e { m with core := core }

def step (m : Machine) (now : Float) : Outcome Entry :=
  if m.halted then .error (.fault (.haltedBy m.fault)) m
  else match m.tick now with
    | .error e => .error e m
    | .ok (_, m) => m.cycle

-- Up to `n` steps. The fault of a step fails the run. The clock shows `now` to the first step and `later` to those
-- behind it, and when there is no other reading left it stands still.
def runSteps (m : Machine) (now : Float) (n : Nat) (later : List Float := []) : Outcome Unit :=
  match n with
  | 0 => .ok () m
  | n + 1 => match m.step now with
    | .error e m => .error e m
    | .ok e m => match e.fault with
      | some f => .error (.fault f) m
      | none => m.runSteps (later.headD now) n later.tail

-- Up to `n` steps, the last of them at fault at the most, each with the state that it left.
def trail (m : Machine) (now : Float) : Nat → Outcome (List (Entry × State))
  | 0 => .ok [] m
  | n + 1 => match m.step now with
    | .error e m => .error e m
    | .ok e m =>
      let here := (e, m.core.state)
      if e.fault.isSome then .ok [here] m
      else match m.trail now n with
        | .error e m => .error e m
        | .ok rest m => .ok (here :: rest) m

def defaultLimit : Int := 10000

-- Runs up to a limit, below zero not at all, and answers with the trace.
def run (m : Machine) (now : Float) (limit : Option Int) (later : List Float := []) : Outcome (Array Entry) :=
  match m.runSteps now (limit.getD defaultLimit).toNat later with
  | .ok _ m => .ok m.trace m
  | .error e m => .error e m

def setKey (m : Machine) (key : Int) (down : Bool) : Except Failure Machine :=
  (m.core.setKey key down).map fun core => { m with core := core }

def writeMemory (m : Machine) (address value : Int) : Except Failure Machine :=
  (m.core.writeMemory address value).map fun core => { m with core := core }

def writePixel (m : Machine) (x y : Int) (lit : Bool) : Except Failure Machine :=
  (m.core.writePixel x y lit).map fun core => { m with core := core }

-- Whether an instruction changed the screen since the host last asked.
def takeDisplaySignal (m : Machine) : Bool × Machine :=
  (m.displayWritten, { m with displayWritten := false })

-- Whether the sound timer ran down since the host last asked.
def takeSoundSignal (m : Machine) : Bool × Machine :=
  (m.soundEnded, { m with soundEnded := false })

end Machine
end Chip8
