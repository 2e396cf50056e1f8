import Chip8.Machine.Loop

namespace Chip8

-- How much an event matters.
inductive Log.Level where
  | debug
  | warning
  | error
deriving DecidableEq

namespace Log

def Level.name : Level → String
  | debug => "DEBUG"
  | warning => "WARNING"
  | error => "ERROR"

def Level.rank : Level → Nat
  | debug => 0
  | warning => 1
  | error => 2

end Log

inductive Event where
  | started (pc : Int)
  | loading (path : String)
  | truncated (fit count : Nat) (start : Int)
  | loaded (count : Nat) (start : Int)
  | waitArmed (held : KeySet)
  | waitSatisfied (key : Fin 16)
  | halted (pc : Int) (fault : Fault)
  | loopEnded (fault : Fault)

namespace Event

def level : Event → Log.Level
  | truncated .. => .warning
  | loopEnded .. => .error
  | _ => .debug

-- The part of the machine that tells of an event.
def teller : Event → String
  | started .. | halted .. => "cpu"
  | loading .. | loaded .. | loopEnded .. => "machine"
  | truncated .. => "memory"
  | waitArmed .. | waitSatisfied .. => "bus"

def text : Event → String
  | started pc => "CPU reset, PC=" ++ Text.hex 3 pc
  | loading path => "Loading program at path " ++ path
  | truncated fit count start =>
    s!"Image truncated: {fit} of {count} bytes fit at {Text.markedHex 5 start}"
  | loaded count start => s!"Loaded {count} bytes at {Text.hex 3 start}"
  | waitArmed held =>
    "Key wait armed, held keys: " ++ Text.bracketed (held.toList.map fun k => toString k.val)
  | waitSatisfied key => "Key wait satisfied by key " ++ Text.hex 1 key.val
  | halted pc fault => s!"Fault at {Text.hex 3 pc}: {fault.message}"
  | loopEnded fault => "Machine stopped: " ++ fault.message

def line (e : Event) : String :=
  s!"[{e.level.name}] chip8vm.{e.teller}: {e.text}"

end Event

namespace Log

-- The lines of a log from some level on.
def lines (least : Level) (events : List Event) : List String :=
  (events.filter fun e => least.rank ≤ e.level.rank).map Event.line

-- What a poll for a key does to the wait.
def ofPoll (held : KeySet) (wait : Option KeySet) : List Event :=
  match held.poll wait with
  | (some key, _) => [.waitSatisfied key]
  | (none, _) => if wait.isNone then [.waitArmed held] else []

-- The events of a step that began with `m`.
def ofStep (m : Machine) (e : Entry) : List Event :=
  let poll := if e.operation? = some .awaitKey then ofPoll m.core.keys m.core.wait else []
  poll ++ (e.fault.map (.halted e.pc)).toList

-- The events of a run of up to `n` steps.
def ofRun (m : Machine) (now : Float) : Nat → List Event
  | 0 => []
  | n + 1 => match m.step now with
    | .error _ _ => []
    | .ok e m' => ofStep m e ++ if e.fault.isSome then [] else ofRun m' now n

-- The events of a background loop of up to `n` turns.
def ofLoop (m : Machine) (now : Float) : Nat → List Event
  | 0 => []
  | n + 1 => match m.step now with
    | .error (.fault f) _ => [.loopEnded f]
    | .error _ _ => []
    | .ok e m' => ofStep m e ++ match e.fault with
      | some f => [.loopEnded f]
      | none => ofLoop m' now n

-- The events of copying an image to `start`.
def ofLoad (m : Machine) (count : Nat) (start : Int) : List Event :=
  match m.core.memory.cell start with
  | .error _ => []
  | .ok i =>
    let fit := m.core.memory.room i count
    (if fit < count then [.truncated fit count i] else []) ++ [.loaded fit start]

end Log
end Chip8
