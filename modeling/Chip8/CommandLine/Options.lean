import Chip8.CommandLine.Flag
import Chip8.Config
import Chip8.Numeral

namespace Chip8.CommandLine

-- The seed of the random bytes, if one is given.
inductive Seed where
  | absent
  | blank
  | number (n : Int)
deriving DecidableEq

-- An option that was left blank has no value.
structure Options where
  program : String := ""
  steps : Option Int := some 1000
  ips : Option Float := some 0
  shiftSource : Option ShiftSource := some .vx
  addressMode : Option AddressMode := some .strict
  noIndexIncrement : Bool := false
  seed : Seed := .absent
  disassemble : Bool := false
  trace : Bool := false
  quiet : Bool := false
  verbose : Bool := false
deriving DecidableEq

inductive Refusal where
  | help
  | usage (e : UsageError)
deriving DecidableEq

-- What has been read of the arguments so far.
structure Reading where
  options : Options := {}
  program : Option String := none
  -- Arguments without a use, the last one first.
  extras : List String := []

namespace Reading

def set (r : Reading) (flag : Flag) : Except Refusal Reading :=
  let o := r.options
  match flag with
  | .help => .error .help
  | .noIndexIncrement => .ok { r with options := { o with noIndexIncrement := true } }
  | .disassemble => .ok { r with options := { o with disassemble := true } }
  | .trace => .ok { r with options := { o with trace := true } }
  | .quiet => .ok { r with options := { o with quiet := true } }
  | .verbose => .ok { r with options := { o with verbose := true } }
  | _ => .error (.usage (.noValue flag))

def leaveBlank (r : Reading) (flag : Flag) : Reading :=
  let o := r.options
  match flag with
  | .steps => { r with options := { o with steps := none } }
  | .ips => { r with options := { o with ips := none } }
  | .shiftSource => { r with options := { o with shiftSource := none } }
  | .addressMode => { r with options := { o with addressMode := none } }
  | .seed => { r with options := { o with seed := .blank } }
  | _ => r

def assign (r : Reading) (flag : Flag) (text : String) : Except Refusal Reading :=
  let o := r.options
  match flag with
  | .steps => match Numeral.integer? text with
    | some n => .ok { r with options := { o with steps := some n } }
    | none => .error (.usage (.noInteger flag text))
  | .seed => match Numeral.integer? text with
    | some n => .ok { r with options := { o with seed := .number n } }
    | none => .error (.usage (.noInteger flag text))
  | .ips => match Numeral.float? text with
    | some x => .ok { r with options := { o with ips := some x } }
    | none => .error (.usage (.noFloat flag text))
  | .shiftSource => match ShiftSource.ofName? text with
    | some source => .ok { r with options := { o with shiftSource := some source } }
    | none => .error (.usage (.noChoice flag text ["vx", "vy"]))
  | .addressMode => match AddressMode.ofName? text with
    | some mode => .ok { r with options := { o with addressMode := some mode } }
    | none => .error (.usage (.noChoice flag text ["strict", "wrap"]))
  | _ => .error (.usage (.ignoredValue flag text))

def addExtra (r : Reading) (argument : String) : Reading :=
  { r with extras := argument :: r.extras }

end Reading

-- The flags of one argument.
structure Bundle where
  -- Flags that are complete, with their values.
  complete : List (Flag × Option String) := []
  -- A flag at the end whose value is still to come.
  pending : Option Flag := none

namespace Bundle

def single (flag : Flag) : Bundle :=
  if flag.takesValue then { pending := some flag } else { complete := [(flag, none)] }

def valued (flag : Flag) (value : List Char) : Bundle where
  complete := [(flag, some (String.ofList value))]

def add (b : Bundle) (flag : Flag) : Bundle :=
  { b with complete := (flag, none) :: b.complete }

-- Takes joined letters apart. The first flag that takes a value takes all that is left.
def joined (flag : Flag) : List Char → Except Refusal Bundle
  | [] => .ok (single flag)
  | letter :: rest =>
    if flag.takesValue then .ok (valued flag (letter :: rest))
    else match Flag.ofName? (String.ofList ['-', letter]) with
      | some next => (joined next rest).map (·.add flag)
      | none => .error (.usage (.ignoredValue flag (String.ofList (letter :: rest))))

def ofMention (mention : Mention) : Except Refusal Bundle :=
  let flag := mention.flag
  match mention.attached with
  | none => .ok (single flag)
  | some text =>
    if flag.takesValue then .ok (valued flag text)
    else if mention.short ∧ text ≠ [] then joined flag text
    else .error (.usage (.ignoredValue flag (String.ofList text)))

end Bundle

namespace Reading

def apply (r : Reading) (b : Bundle) : Except Refusal Reading :=
  b.complete.foldlM (fun r (flag, value) => match value with
    | some "--" => .ok (r.leaveBlank flag)
    | some text => r.assign flag text
    | none => r.set flag) r

-- Reads arguments one after another. The first plain one is the program.
def read (r : Reading) : List (String × Kind) → Except Refusal Reading
  | [] => .ok r
  | (argument, .unknown) :: rest => (r.addExtra argument).read rest
  | (_, .flag mention) :: rest => do
    let bundle ← Bundle.ofMention mention
    match bundle.pending, rest with
    | none, rest => (← r.apply bundle).read rest
    | some last, (value, .plain) :: rest => (← (← r.apply bundle).assign last value).read rest
    | some last, _ => .error (.usage (.noValue last))
  | (argument, .plain) :: rest => match r.program, rest with
    | some _, rest => (r.addExtra argument).read rest
    | none, (_, .separator) :: rest => { r with program := some argument }.read rest
    | none, rest => { r with program := some argument }.read rest
  | (argument, .separator) :: rest =>
    if r.program.isNone ∧ !rest.isEmpty then r.read rest else (r.addExtra argument).read rest

end Reading

def parse (arguments : List String) : Except Refusal Options := do
  let kinds ← (classifyAll arguments).mapError .usage
  let r ← ({} : Reading).read kinds
  match r.program, r.extras with
  | none, _ => .error (.usage .noProgram)
  | some program, [] => .ok { r.options with program := program }
  | some _, extras => .error (.usage (.unrecognized extras.reverse))

end Chip8.CommandLine
