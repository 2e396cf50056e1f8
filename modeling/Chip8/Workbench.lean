import Chip8.CommandLine.Folder
import Chip8.Machine.Report
import Chip8.Position
import Chip8.Workbench.Example
import Chip8.Workbench.Source

namespace Chip8.Workbench

open Text (hex flushRight)

-- The registers and the control state, one to a line.
def registersText (m : Machine) : String :=
  let s := m.state
  let registers := (namedRegisters s.registers).map fun (name, v) =>
    s!"  {name}: {hex 2 v} ({flushRight 3 v})" ++ if v = 0 then "" else " *"
  let lines := ["REGISTERS", rule '=' 30] ++ registers ++
    ["", "CONTROL", rule '-' 30,
      s!"  PC: {hex 3 s.pc}",
      s!"  I:  {hex 3 s.index}",
      "  Stack: " ++ Text.bracketed (s.stack.map fun a => Text.quoted (hex 3 a)),
      s!"  DT: {s.delayTimer}  ST: {s.soundTimer}",
      s!"  Cycles: {s.cycles}"] ++
    (m.fault.map fun f => "  Fault: " ++ f.message).toList ++
    if s.isValid then [] else ["  State: INVALID"]
  "\n".intercalate lines

def entryText (e : Entry) : String :=
  s!"[{flushRight 5 e.cycle}] {hex 3 e.pc}: {hex 4 e.opcode.toNat}  {e.mnemonic}" ++
    (e.fault.map fun f => "  ERROR: " ++ f.message).getD ""

-- The entries after a cut that is counted from the end, so a limit of zero keeps all of them.
def newest (trace : Array Entry) (limit : Int) : List Entry :=
  (trace.extract (Position.cut trace.size (-limit)) trace.size).toList

def traceText (m : Machine) (limit : Int) : String :=
  "\n".intercalate
    (["EXECUTION TRACE (latest first)", rule '=' 60] ++ (newest m.trace limit).reverse.map entryText)

-- Entries of a trace that are shown without being asked for more.
def defaultTraceLimit : Int := 100

def screenText (m : Machine) : String :=
  m.core.screen.render Screen.block " "

structure Loaded where
  machine : Option Machine := none
  screen : String := ""
  registers : String := ""
  status : String

inductive Program where
  | source (text : String)
  | upload (contents : Except Unreadable (List UInt8))

def Program.image : Program → Except String (List UInt8)
  | source text => (imageOf text).mapError Failure.message
  | upload contents => contents.mapError Unreadable.message

-- Loads a program into a new machine that keeps a trace. Bad settings fail the call; a bad program is
-- told in the status.
def load (program : Program) (shiftSource : Choice) (seed now : Float) : Except Failure Loaded :=
  match program.image with
  | .error message => .ok { status := "Error: " ++ message }
  | .ok [] => .ok { status := "Error: No program provided" }
  | .ok image => do
    let seed ← (Double.ofFloat seed).integer
    let settings : Settings := { shiftSource := shiftSource, seed := some seed }
    let config ← settings.check.mapError .invalid
    let fresh := Machine.new config (.ofSeed seed) true now
    let m ← fresh.load (image.map fun b => (b.toNat : Int)) none
    return {
      machine := some m
      screen := screenText m
      registers := registersText m
      status := s!"Loaded {m.programSize} bytes" }

structure Batch where
  screen : String := ""
  registers : String := ""
  trace : String := ""
  status : String

def Batch.of (m : Machine) (status : String) : Batch where
  screen := screenText m
  registers := registersText m
  trace := traceText m defaultTraceLimit
  status := status

-- The machine with exactly those of its sixteen keys held that are in a list.
def holdKeys (m : Machine) (held : List Int) : Machine :=
  { m with core := { m.core with keys := .ofTest held.contains } }

-- Runs a batch of steps with keys held. A fault ends the batch and is told in the status; so are keys that
-- cannot be read, and then nothing runs. Any other failure leaves the keys as they were set.
def runBatch (m : Machine) (steps : Float) (keys : String) (now : Float) (later : List Float := []) : Outcome Batch :=
  match keysOf keys with
  | .error e => .ok (.of m ("Error: " ++ e.message)) m
  | .ok held =>
    let m := holdKeys m held
    match (Double.ofFloat steps).integer with
    | .error e => .error e m
    | .ok count =>
      match m.run now (some count) later with
      | .ok _ m => finish m s!"Ran {count} steps"
      | .error (.fault f) m => finish m ("Halted: " ++ f.message)
      | .error e m => .error e m
where
  finish (m : Machine) (status : String) : Outcome Batch :=
    let (beep, m) := m.takeSoundSignal
    .ok (.of m (if beep then status ++ " (beep)" else status)) m

-- What a batch shows when there is no machine.
def noMachine : Batch where
  status := "Error: Load a program first"

end Chip8.Workbench
