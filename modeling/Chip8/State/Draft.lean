import Chip8.State

namespace Chip8

-- What a register of a draft holds. A foreign value is carried along and never looked into.
inductive Cell (φ : Type) where
  | number (n : Int)
  | truth (b : Bool)
  | foreign (v : φ)

namespace Cell

variable {φ : Type}

def value? : Cell φ → Option Int
  | number n => some n
  | truth b => some (if b then 1 else 0)
  | foreign _ => none

end Cell

structure Draft (φ : Type) where
  cells : List (Cell φ)
  rest : State

namespace Draft

variable {φ : Type}

def state? (d : Draft φ) : Option State :=
  (d.cells.mapM Cell.value?).map fun registers => { d.rest with registers := registers }

def getRegister (d : Draft φ) (reg : Int) : Except Failure (Cell φ) := do
  element d.cells (← registerPlace reg)

def setRegister (d : Draft φ) (reg value : Int) : Except Failure (Draft φ) := do
  return { d with cells := ← setElement d.cells (← registerPlace reg) (.number (byte value)) }

def setFlag (d : Draft φ) (value : Int) : Except Failure (Draft φ) := do
  return { d with cells := ← setElement d.cells flagRegister (.number (byte value)) }

def isValid (d : Draft φ) : Bool :=
  d.state?.any State.isValid

theorem isValid_iff {d : Draft φ} : d.isValid = true ↔ ∃ s, d.state? = some s ∧ s.Valid := by
  cases h : d.state? <;> simp [isValid, h, State.isValid_iff]

end Draft
end Chip8
