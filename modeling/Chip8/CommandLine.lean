import Chip8.CommandLine.Folder
import Chip8.CommandLine.Options
import Chip8.Machine.Log
import Chip8.Machine.Report

namespace Chip8.CommandLine

open Text (hex)

structure Printed where
  exit : Nat
  output : List String := []
  log : List String := []

-- What breaks a command off.
inductive Breakdown where
  | unreadable (e : Unreadable)
  | failed (e : Failure)

def Breakdown.message : Breakdown → String
  | unreadable e => e.message
  | failed e => e.message

abbrev Ending := Except Breakdown Printed

def usageExit : Nat := 2

def misused (message : String) : Printed where
  exit := usageExit
  log := ["main.py: error: " ++ message]

def refused : Refusal → Printed
  | .help => { exit := 0 }
  | .usage e => misused e.message

-- A blank where a name is asked for shows as an empty list.
def choice : Option String → Choice
  | some name => .named name
  | none => .unnamed (Text.bracketed [])

def settings (o : Options) : Settings where
  shiftSource := choice (o.shiftSource.map ShiftSource.name)
  addressMode := choice (o.addressMode.map AddressMode.name)
  advancesIndex := !o.noIndexIncrement
  seed := match o.seed with
    | .number n => some n
    | _ => none

def listingLines (image : List UInt8) : List String :=
  (listing 0x200 image).map fun row =>
    s!"{hex 3 row.address}: {hex 4 row.opcode.toNat}  {row.text}"

-- A list of named values between braces.
def named (values : List (String × Int)) : String :=
  let items := values.map fun (name, v) => s!"{Text.quoted name}: {v}"
  String.singleton (Char.ofNat 0x7b) ++ ", ".intercalate items ++
    String.singleton (Char.ofNat 0x7d)

def fullReport (m : Machine) : List String :=
  let s := m.state
  let summary := m.summary
  [m.core.screen.render "#" ".", "",
    s!"Cycles: {s.cycles}",
    "Halted: " ++ (if s.halted then "True" else "False"),
    s!"PC: {hex 3 s.pc}  I: {hex 3 s.index}  Stack: " ++
      Text.bracketed (s.stack.map fun a => toString a),
    "Registers: " ++ named (namedRegisters s.registers)] ++
  (summary.fault.map ("Fault: " ++ ·)).toList ++
  if summary.valid then [] else ["Warning: CPU state failed its integrity check"]

def quietReport (m : Machine) : List String :=
  (namedRegisters m.state.registers).filterMap fun (name, v) =>
    if v = 0 then none else some s!"{name}={v}"

-- Whether the run is throttled, and so goes on in the background.
def throttled (o : Options) : Bool :=
  o.ips.any (0 < ·)

-- The turns that a throttled run asks for in a second.
def rate (o : Options) : Float :=
  o.ips.getD 0

-- The turns of a throttled run. Without a bound on its cycles the run fails once the host looks at it.
def turnsAllowed (o : Options) : Nat :=
  Machine.turnsUntil (rate o) (o.steps.getD 0).toNat

-- Runs the loaded machine, and tells the fault that the run reports.
def execute (o : Options) (now : Float) (m : Machine) : Except Failure (Option Fault × Machine) :=
  if o.ips.isNone then .error .blankRate
  else if throttled o then do
    let m := (← m.start).loopAt now (rate o) (turnsAllowed o)
    if m.looping ∧ o.steps.isNone then .error .blankBound else return (m.loopFault, m)
  else match o.steps with
    | none => .error .blankSteps
    | some steps => match m.run now (some steps) with
      | .ok _ m => .ok (none, m)
      | .error (.fault f) m => .ok (some f, m)
      | .error e _ => .error e

def executionEvents (o : Options) (now : Float) (m : Machine) : List Event :=
  if throttled o then Log.ofLoop m now (Machine.turnsAt (rate o) (turnsAllowed o))
  else Log.ofRun m now (o.steps.getD 0).toNat

def report (o : Options) (loaded : Machine) (fault : Option Fault) (m : Machine) : List String :=
  let bar := rule '-' 64
  (if o.quiet then []
    else [s!"Loading program: {o.program} ({loaded.programSize} bytes)", bar, "Executing...", bar]) ++
  (fault.map fun f => "Execution error: " ++ f.message).toList ++
  (if o.trace then m.traceReport else []) ++
  if o.quiet then quietReport m else fullReport m

def newMachine (o : Options) (config : Config) (now : Float) (unseeded : Source) : Except Failure Machine :=
  if o.seed = .blank then .error .blankSeed
  else .ok (Machine.new config (unseeded.seeded config.seed) o.trace now)

def runImage (o : Options) (fresh : Machine) (now : Float) (image : List UInt8) :
    Except Failure Printed := do
  let loaded ← fresh.load (image.map fun b => (b.toNat : Int)) none
  let (fault, m) ← execute o now loaded
  let events := [.started fresh.config.startPc, .loading (Path.parse o.program).toString] ++
    Log.ofLoad fresh image.length fresh.config.startPc ++ executionEvents o now loaded
  return {
    exit := if m.halted then 1 else 0
    output := report o loaded fault m
    log := Log.lines (if o.verbose then .debug else .warning) events }

def notFound (o : Options) : Printed where
  exit := 1
  output := ["Error: Program file not found: " ++ o.program]

-- Does what the options ask for with a program that is there. A directory is found out only when it is read.
def runFound (o : Options) (contents : Except Unreadable (List UInt8)) (now : Float) (unseeded : Source) : Ending :=
  let image := contents.mapError Breakdown.unreadable
  if o.disassemble then do
    return { exit := 0, output := listingLines (← image) }
  else match (settings o).check with
    | .error e => .ok (misused e.message)
    | .ok config => do
      let fresh ← (newMachine o config now unseeded).mapError .failed
      (runImage o fresh now (← image)).mapError .failed

-- Does what the options ask for with what the program's path led to.
def runOptions (o : Options) (contents : Except Unreadable (List UInt8)) (now : Float) (unseeded : Source) : Ending :=
  match contents with
  | .ok _ | .error (.directory _) => runFound o contents now unseeded
  | .error (.tooLong path) => .error (.unreadable (.tooLong path))
  | .error _ => .ok (notFound o)

-- A clock that stands still, and the bytes that a machine without a seed draws, are given.
def run (arguments : List String) (folder : Folder) (now : Float) (unseeded : Source) : Ending :=
  match parse arguments with
  | .error refusal => .ok (refused refusal)
  | .ok o => runOptions o (folder.read o.program) now unseeded

def written (lines : List String) : String :=
  String.join (lines.map (· ++ "\n"))

end Chip8.CommandLine
