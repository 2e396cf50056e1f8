import Chip8.Fault
import Chip8.Listing
import Chip8.State

namespace Chip8

structure Entry where
  -- Successful steps so far, this one included if it succeeded.
  cycle : Int
  pc : Int
  -- Nothing if the fetch itself was at fault.
  fetched : Option Opcode
  fault : Option Fault
  before : Option State
  after : Option State
deriving DecidableEq

namespace Entry

def opcode (e : Entry) : Opcode :=
  e.fetched.getD 0

def operation? (e : Entry) : Option Operation :=
  e.fetched.bind Operation.decode

def key (e : Entry) : String :=
  (e.operation?.map Operation.name).getD Operation.unnamed

def mnemonic (e : Entry) : String :=
  (e.fetched.map disassemble).getD ""

end Entry
end Chip8
