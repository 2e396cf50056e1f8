import Chip8.Execute

namespace Chip8.Core

def fetch : Action Opcode := do
  let pc := (← get).state.pc
  let high ← Action.readByte pc
  let low ← Action.readByte (pc + 1)
  Action.updateState fun s => { s with pc := word (pc + 2) }
  return .ofBytes high low

def performWord (d : Dialect) (pc : Int) (w : Opcode) : Action Unit :=
  match Operation.decode w with
  | some op => op.perform d w
  | none => throw (.fault (.unknownOpcode w.toNat (some pc)))

-- Fetches and performs a word. The answer tells the word apart from how it went.
def cycle (d : Dialect) (c : Core) : Option Opcode × EStateM.Result Failure Core Unit :=
  let pc := c.state.pc
  match fetch c with
  | .error e c => (none, .error e c)
  | .ok w c => (some w, performWord d pc w c)

end Chip8.Core
