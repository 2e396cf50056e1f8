import Chip8.Text.Digit
import Chip8.Text.Quoted

namespace Chip8.CommandLine

inductive Flag where
  | help
  | steps
  | ips
  | shiftSource
  | addressMode
  | noIndexIncrement
  | seed
  | disassemble
  | trace
  | quiet
  | verbose
deriving DecidableEq

namespace Flag

def all : List Flag :=
  [help, steps, ips, shiftSource, addressMode, noIndexIncrement, seed, disassemble, trace, quiet,
    verbose]

def names : Flag → List String
  | help => ["-h", "--help"]
  | steps => ["--steps", "-n"]
  | ips => ["--ips"]
  | shiftSource => ["--shift-source"]
  | addressMode => ["--address-mode"]
  | noIndexIncrement => ["--no-index-increment"]
  | seed => ["--seed"]
  | disassemble => ["--disassemble", "-d"]
  | trace => ["--trace", "-t"]
  | quiet => ["--quiet", "-q"]
  | verbose => ["--verbose", "-v"]

def takesValue : Flag → Bool
  | steps | ips | shiftSource | addressMode | seed => true
  | _ => false

-- Every name with its flag, in the order in which help lists them.
def table : List (String × Flag) :=
  all.flatMap fun flag => flag.names.map (·, flag)

def ofName? (name : String) : Option Flag :=
  table.lookup name

def title (flag : Flag) : String :=
  "/".intercalate flag.names

end Flag

-- How an argument names a flag: by a letter or by a word, and with what attached.
structure Mention where
  flag : Flag
  short : Bool
  attached : Option (List Char)
deriving DecidableEq

inductive UsageError where
  | ambiguous (argument : String) (names : List String)
  | noValue (flag : Flag)
  | ignoredValue (flag : Flag) (value : String)
  | noInteger (flag : Flag) (value : String)
  | noFloat (flag : Flag) (value : String)
  | noChoice (flag : Flag) (value : String) (choices : List String)
  | noProgram
  | unrecognized (arguments : List String)
deriving DecidableEq

def UsageError.message : UsageError → String
  | ambiguous argument names =>
    s!"ambiguous option: {argument} could match " ++ ", ".intercalate names
  | noValue flag => s!"argument {flag.title}: expected one argument"
  | ignoredValue flag value =>
    s!"argument {flag.title}: ignored explicit argument {Text.quoted value}"
  | noInteger flag value => s!"argument {flag.title}: invalid int value: {Text.quoted value}"
  | noFloat flag value => s!"argument {flag.title}: invalid float value: {Text.quoted value}"
  | noChoice flag value choices =>
    s!"argument {flag.title}: invalid choice: {Text.quoted value} (choose from " ++
      ", ".intercalate (choices.map Text.quoted) ++ ")"
  | noProgram => "the following arguments are required: program"
  | unrecognized arguments => "unrecognized arguments: " ++ " ".intercalate arguments

inductive Kind where
  | plain
  -- Two dashes, after which every argument is plain.
  | separator
  | flag (mention : Mention)
  | unknown
deriving DecidableEq

-- What stands before the first equals sign, and after it.
def cutAssignment (text : List Char) : List Char × Option (List Char) :=
  match text.span (· != '=') with
  | (name, _ :: value) => (name, some value)
  | (name, []) => (name, none)

-- The names that an argument may be short for, and a letter with text right behind it.
def candidates (argument : List Char) : List (String × Mention) :=
  match argument with
  | '-' :: '-' :: _ =>
    let (start, attached) := cutAssignment argument
    Flag.table.filterMap fun (name, flag) =>
      if start.isPrefixOf name.toList then some (name, ⟨flag, false, attached⟩) else none
  | dash :: letter :: rest =>
    Flag.table.filterMap fun (name, flag) =>
      if name = String.ofList [dash, letter] then some (name, ⟨flag, true, some rest⟩) else none
  | _ => []

def isDigit (c : Char) : Bool :=
  (Text.decimalValue? c).isSome

-- Whether an argument that begins with a dash may be a negative number: digits, with a point before or among
-- them, or none. One line feed at the end does not count.
def looksNegative (argument : List Char) : Bool :=
  let body := argument.drop 1
  let body := if body.getLast? = some '\n' then body.dropLast else body
  match body.span isDigit with
  | (whole, []) => !whole.isEmpty
  | (_, '.' :: fraction) => !fraction.isEmpty && fraction.all isDigit
  | _ => false

-- A flag by its full name, which an equals sign may follow.
def mention? (argument : List Char) : Option Mention :=
  match Flag.ofName? (String.ofList argument), cutAssignment argument with
  | some flag, _ => some ⟨flag, isShort argument, none⟩
  | none, (name, some value) =>
    (Flag.ofName? (String.ofList name)).map (⟨·, isShort name, some value⟩)
  | none, (_, none) => none
where
  isShort (name : List Char) : Bool :=
    name[1]? ≠ some '-'

def classify (argument : String) : Except UsageError Kind :=
  let text := argument.toList
  if text.head? ≠ some '-' ∨ text.length = 1 then .ok .plain
  else match mention? text, candidates text with
    | some mention, _ => .ok (.flag mention)
    | none, [(_, mention)] => .ok (.flag mention)
    | none, [] => .ok (if looksNegative text || text.contains ' ' then .plain else .unknown)
    | none, several => .error (.ambiguous argument (several.map (·.1)))

def classifyAll : List String → Except UsageError (List (String × Kind))
  | [] => .ok []
  | "--" :: rest => .ok (("--", .separator) :: rest.map (·, .plain))
  | argument :: rest => do return (argument, ← classify argument) :: (← classifyAll rest)

end Chip8.CommandLine
