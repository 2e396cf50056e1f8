import Chip8.Machine

namespace Chip8

open Text (hex)

structure Summary where
  state : State
  traceLength : Nat
  fault : Option String
  valid : Bool

namespace Machine

def summary (m : Machine) : Summary where
  state := m.state
  traceLength := m.trace.size
  fault := m.fault.map Fault.message
  valid := m.state.isValid

end Machine

namespace Entry

-- `name: before -> after` for every register that a step changed.
def changes (before after : State) : List String :=
  ((before.registers.zip after.registers).zipIdx).filterMap fun ((old, new), i) =>
    if old = new then none else some s!"{registerName i}: {hex 2 old} -> {hex 2 new}"

def report (e : Entry) : List String :=
  let status := (e.fault.map fun f => "ERROR: " ++ f.message).getD "OK"
  let headline := s!"[Cycle {e.cycle}] {hex 3 e.pc}: {hex 4 e.opcode.toNat}  {e.mnemonic}  {status}"
  let details := match e.before, e.after with
    | some before, some after =>
      let changed := changes before after
      (if changed.isEmpty then [] else ["  Changes: " ++ ", ".intercalate changed]) ++
        if before.index = after.index then []
        else [s!"  I: {hex 3 before.index} -> {hex 3 after.index}"]
    | _, _ => []
  "" :: headline :: details

end Entry

def rule (c : Char) (width : Nat) : String :=
  String.ofList (List.replicate width c)

namespace Machine

def traceReport (m : Machine) : List String :=
  let bar := rule '=' 70
  [bar, "CHIP-8 EXECUTION TRACE", bar] ++ m.trace.toList.flatMap Entry.report ++
    ["", bar, "FINAL STATE", bar, "  " ++ m.state.describe]

end Machine
end Chip8
