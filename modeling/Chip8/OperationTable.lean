import Chip8.Execute

namespace Chip8

structure OperationTable where
  -- Keys besides those of the operations.
  added : List String := []
  frozen : Bool := true

namespace OperationTable

def keys (t : OperationTable) : List String :=
  (Operation.all.map Operation.name ++ t.added).mergeSort fun a b => a ≤ b

def knows (t : OperationTable) (key : String) : Bool :=
  (Operation.ofName? key).isSome || t.added.contains key

def add (t : OperationTable) (key : String) : Except Failure OperationTable :=
  if t.frozen then .error .frozenTable
  else if t.knows key then .error (.knownOperation key)
  else .ok { t with added := key :: t.added }

def freeze (t : OperationTable) : OperationTable :=
  { t with frozen := true }

def thaw (t : OperationTable) : OperationTable :=
  { t with frozen := false }

def perform (t : OperationTable) (d : Dialect) (key : String) (w : Opcode) : Action Unit :=
  match Operation.ofName? key with
  | some op => op.perform d w
  | none => if t.added.contains key then pure () else throw (.unknownOperation key)

end OperationTable
end Chip8
