import Chip8.Machine.Report

namespace Chip8

inductive Call where
  | load (image : List Int) (start : Option Int)
  | reset (clearMemory : Bool)
  | step
  -- The clock shows other readings to the steps behind the first one, or else it stands still.
  | run (limit : Option Int) (later : List Float := [])
  | tick
  | setKey (key : Int) (down : Bool)
  | readPixel (x y : Int)
  | writePixel (x y : Int) (lit : Bool)
  | readMemory (address : Int)
  | writeMemory (address value : Int)
  | takeDisplaySignal
  | takeSoundSignal
  | summary
deriving DecidableEq

inductive Reply where
  | nothing
  | number (n : Int)
  | truth (b : Bool)
  | entry (e : Entry)
  | trace (entries : Array Entry)
  | summary (s : Summary)

namespace Machine

-- The outcome of a call whose answer is made a reply.
def replied {α : Type} (reply : α → Reply) : Outcome α → Outcome Reply
  | .ok a m => .ok (reply a) m
  | .error e m => .error e m

-- The outcome of a call that changes the machine or fails.
def changed (m : Machine) : Except Failure Machine → Outcome Reply
  | .ok m => .ok .nothing m
  | .error e => .error e m

-- The outcome of a call that only asks.
def asked (m : Machine) : Except Failure Reply → Outcome Reply
  | .ok r => .ok r m
  | .error e => .error e m

def answer (m : Machine) (now : Float) : Call → Outcome Reply
  | .load image start => match m.load image start with
    | .ok m => .ok (.number m.programSize) m
    | .error e => .error e m
  | .reset clearMemory => .ok .nothing (m.reset clearMemory now)
  | .step => replied .entry (m.step now)
  | .run limit later => replied .trace (m.run now limit later)
  | .tick => match m.tick now with
    | .ok (periods, m) => .ok (.number periods) m
    | .error e => .error e m
  | .setKey key down => m.changed (m.setKey key down)
  | .readPixel x y => m.asked ((m.core.screen.read x y).map .truth)
  | .writePixel x y lit => m.changed (m.writePixel x y lit)
  | .readMemory address => m.asked ((m.core.memory.read address).map fun b => .number b.toNat)
  | .writeMemory address value => m.changed (m.writeMemory address value)
  | .takeDisplaySignal =>
    let (signal, m) := m.takeDisplaySignal
    .ok (.truth signal) m
  | .takeSoundSignal =>
    let (signal, m) := m.takeSoundSignal
    .ok (.truth signal) m
  | .summary => .ok (.summary m.summary) m

-- The machine after a call, whether it failed or not.
def afterCall (m : Machine) (now : Float) (call : Call) : Machine :=
  match m.answer now call with
  | .ok _ m => m
  | .error _ m => m

-- The machine after a history of calls.
def afterCalls (m : Machine) (history : List (Float × Call)) : Machine :=
  history.foldl (fun m (now, call) => m.afterCall now call) m

end Machine
end Chip8
