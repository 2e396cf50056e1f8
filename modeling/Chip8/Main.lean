import Chip8.CommandLine

namespace Chip8.CommandLine

def readContents (path : String) : IO (Except Unreadable (List UInt8)) := do
  let parsed := Path.parse path
  try
    return .ok (← IO.FS.readBinFile path).toList
  catch
    | .inappropriateType .. => return .error (.directory parsed)
    | .invalidArgument .. => return .error (.tooLong parsed)
    | _ => return .error (.missing parsed)

def finish : Ending → IO UInt32
  | .ok p => do
    IO.print (written p.output)
    IO.eprint (written p.log)
    return UInt32.ofNat p.exit
  | .error e => do
    IO.eprintln e.message
    return 1

-- A seed from the system.
def systemSeed : IO Int := do
  let bytes ← IO.getRandomBytes 8
  return bytes.toList.foldl (fun (n : Int) b => 256 * n + b.toNat) 0

def perform (arguments : List String) : IO UInt32 := do
  match parse arguments with
  | .error refusal => finish (.ok (refused refusal))
  | .ok o => finish (runOptions o (← readContents o.program) 0 (.ofSeed (← systemSeed)))

end Chip8.CommandLine

def main (arguments : List String) : IO UInt32 :=
  Chip8.CommandLine.perform arguments
