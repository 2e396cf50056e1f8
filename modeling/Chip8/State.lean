import Chip8.Failure

namespace Chip8

@[ext]
structure State where
  registers : List Int
  pc : Int
  index : Int
  -- Return addresses, the innermost call first.
  calls : List Int
  stackDepth : Int
  delayTimer : Int
  soundTimer : Int
  halted : Bool
  cycles : Int
deriving DecidableEq

-- The number of the register that takes carries, borrows and collisions.
def flagRegister : Nat := 15

-- The residue of an address modulo 65536.
def word (n : Int) : Int :=
  n % 0x10000

-- The residue of a value modulo 256.
def byte (n : Int) : Int :=
  n % 0x100

theorem word_range (n : Int) : 0 ≤ word n ∧ word n ≤ 0xffff := by
  unfold word
  omega

theorem byte_range (n : Int) : 0 ≤ byte n ∧ byte n ≤ 0xff := by
  unfold byte
  omega

def registerName (i : Nat) : String :=
  "V" ++ Text.hex 1 i

def namedRegisters {α : Type} (registers : List α) : List (String × α) :=
  (registers.zipIdx).map fun (v, i) => (registerName i, v)

def setElement {α : Type} (registers : List α) (i : Nat) (value : α) : Except Failure (List α) :=
  if i < registers.length then .ok (registers.set i value) else .error .noPlace

def element {α : Type} (registers : List α) (i : Nat) : Except Failure α :=
  (registers[i]?).elim (.error .noElement) .ok

-- The place of a register with the given number, sixteen of which have a name.
def registerPlace (reg : Int) : Except Failure Nat :=
  if 0 ≤ reg ∧ reg < 16 then .ok reg.toNat else .error (.noRegister reg)

namespace State

def initial (startPc stackDepth : Int) : State where
  registers := List.replicate 16 0
  pc := startPc
  index := 0
  calls := []
  stackDepth := stackDepth
  delayTimer := 0
  soundTimer := 0
  halted := false
  cycles := 0

-- Return addresses, the innermost call last.
def stack (s : State) : List Int :=
  s.calls.reverse

def sp (s : State) : Nat :=
  s.calls.length

def getRegister (s : State) (reg : Int) : Except Failure Int := do
  element s.registers (← registerPlace reg)

def setRegister (s : State) (reg value : Int) : Except Failure State := do
  return { s with registers := ← setElement s.registers (← registerPlace reg) (byte value) }

def setFlag (s : State) (value : Int) : Except Failure State := do
  return { s with registers := ← setElement s.registers flagRegister (byte value) }

-- Stores a value as it is in a register that is counted from either end.
def assignRegister (s : State) (reg value : Int) : Except Failure State :=
  (Failure.place s.registers.length reg .noPlace).map fun i =>
    { s with registers := s.registers.set i value }

-- Passes over the next instruction.
def skip (s : State) : State :=
  { s with pc := word (s.pc + 2) }

def push (s : State) (address : Int) : Except Failure State :=
  if s.calls.length ≥ s.stackDepth then .error (.fault (.stackOverflow s.stackDepth))
  else .ok { s with calls := address :: s.calls }

def pop (s : State) : Except Failure (Int × State) :=
  match s.calls with
  | [] => .error (.fault .stackUnderflow)
  | address :: calls => .ok (address, { s with calls := calls })

-- What an integer register, the timers and the addresses have to satisfy.
structure Valid (s : State) : Prop where
  registers : s.registers.length = 16
  bytes : ∀ v ∈ s.registers, 0 ≤ v ∧ v ≤ 0xff
  pc : 0 ≤ s.pc ∧ s.pc ≤ 0xffff
  index : 0 ≤ s.index ∧ s.index ≤ 0xffff
  calls : s.calls.length ≤ s.stackDepth
  delayTimer : 0 ≤ s.delayTimer ∧ s.delayTimer ≤ 0xff
  soundTimer : 0 ≤ s.soundTimer ∧ s.soundTimer ≤ 0xff
  cycles : 0 ≤ s.cycles

def isValid (s : State) : Bool :=
  s.registers.length = 16 && s.registers.all (fun v => 0 ≤ v ∧ v ≤ 0xff) &&
    decide (0 ≤ s.pc ∧ s.pc ≤ 0xffff) && decide (0 ≤ s.index ∧ s.index ≤ 0xffff) &&
    decide (s.calls.length ≤ s.stackDepth) && decide (0 ≤ s.delayTimer ∧ s.delayTimer ≤ 0xff) &&
    decide (0 ≤ s.soundTimer ∧ s.soundTimer ≤ 0xff) && decide (0 ≤ s.cycles)

theorem isValid_iff {s : State} : s.isValid = true ↔ s.Valid := by
  constructor
  · intro h
    simp only [isValid, Bool.and_eq_true, decide_eq_true_eq, List.all_eq_true] at h
    obtain ⟨⟨⟨⟨⟨⟨⟨h₁, h₂⟩, h₃⟩, h₄⟩, h₅⟩, h₆⟩, h₇⟩, h₈⟩ := h
    exact ⟨h₁, h₂, h₃, h₄, h₅, h₆, h₇, h₈⟩
  · rintro ⟨h₁, h₂, h₃, h₄, h₅, h₆, h₇, h₈⟩
    simp only [isValid, Bool.and_eq_true, decide_eq_true_eq, List.all_eq_true]
    exact ⟨⟨⟨⟨⟨⟨⟨h₁, h₂⟩, h₃⟩, h₄⟩, h₅⟩, h₆⟩, h₇⟩, h₈⟩

instance (s : State) : Decidable s.Valid :=
  decidable_of_iff _ isValid_iff

-- Lets so many timer periods pass. The answer tells whether the sound timer ran down in them.
def elapse (s : State) (periods : Int) : State × Bool :=
  if periods ≤ 0 then (s, false)
  else
    let sound := if s.soundTimer > 0 then max 0 (s.soundTimer - periods) else s.soundTimer
    ({ s with delayTimer := max 0 (s.delayTimer - periods), soundTimer := sound },
      decide (s.soundTimer > 0) && sound == 0)

def describe (s : State) : String :=
  let registers := (namedRegisters s.registers).map fun (name, v) => name ++ "=" ++ Text.hex 2 v
  s!"[Cycle {s.cycles}] PC={Text.hex 3 s.pc} I={Text.hex 3 s.index} SP={s.sp} " ++
    s!"DT={s.delayTimer} ST={s.soundTimer} " ++ " ".intercalate registers ++
    (if s.halted then " HALTED" else "")

theorem initial_valid {startPc stackDepth : Int} (h : 0 ≤ startPc ∧ startPc ≤ 0xffff)
    (d : 0 ≤ stackDepth) : (initial startPc stackDepth).Valid := by
  constructor <;> simp [initial, h, d]

end State
end Chip8
