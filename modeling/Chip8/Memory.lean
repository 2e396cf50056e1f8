import Chip8.Failure
import Chip8.Position

namespace Chip8

def bytesOf (numbers : List Int) : Except Failure (List UInt8) :=
  if numbers.all fun n => 0 ≤ n ∧ n ≤ 255 then .ok (numbers.map UInt8.ofInt) else .error .byteRange

structure Memory where
  cells : Array UInt8
  wraps : Bool
deriving DecidableEq

namespace Memory

def size (m : Memory) : Nat :=
  m.cells.size

def blank (size : Nat) (wraps : Bool) : Memory :=
  ⟨Array.replicate size 0, wraps⟩

-- Memory of a size that a host asks for.
def ofSize (room : Nat) (size : Int) (wraps : Bool) : Except Failure Memory :=
  (Failure.cellCount room size).bind fun count =>
    if size < 0 then .error .negativeSize else .ok (blank count wraps)

def cell (m : Memory) (address : Int) : Except Failure (Fin m.cells.size) :=
  if inside : 0 ≤ address ∧ address < m.cells.size then
    .ok ⟨address.toNat, by omega⟩
  else if m.wraps then
    if pos : 0 < m.cells.size then
      .ok ⟨(address % m.cells.size).toNat, by
        have := Int.emod_lt_of_pos address (show (0 : Int) < m.cells.size by omega)
        have := Int.emod_nonneg address (show (m.cells.size : Int) ≠ 0 by omega)
        omega⟩
    else .error .zeroModulus
  else .error (.fault (.address address m.cells.size))

-- A value is cut down to its low eight bits.
def put (m : Memory) (i : Fin m.cells.size) (value : Int) : Memory :=
  { m with cells := m.cells.set i (UInt8.ofInt value) }

def read (m : Memory) (address : Int) : Except Failure UInt8 :=
  (m.cell address).map (m.cells[·])

def write (m : Memory) (address value : Int) : Except Failure Memory :=
  (m.cell address).map (m.put · value)

def clear (m : Memory) : Memory :=
  blank m.size m.wraps

-- Puts bytes into the cells from `start` on. Bytes past the end of memory are dropped.
def place (m : Memory) (start : Nat) (bytes : List UInt8) : Memory :=
  let head := m.cells.extract 0 start
  let body := (bytes.take (m.size - start)).toArray
  { m with cells := head ++ body ++ m.cells.extract (start + body.size) m.size }

-- How many of so many bytes fit from `start` on.
def room (m : Memory) (start count : Nat) : Nat :=
  min count (m.size - start)

-- Copies an image to the cells from `start` on, as far as it fits, and counts the bytes that did.
def load (m : Memory) (start : Int) (image : List Int) : Except Failure (Memory × Nat) := do
  let bytes ← bytesOf image
  let i ← m.cell start
  return (m.place i bytes, m.room i bytes.length)

-- The bytes from `start` on, `length` of them or up to the end. Both ends are cuts.
def dump (m : Memory) (start : Int) (length : Option Int) : List UInt8 :=
  let stop : Int := match length with
    | none => m.size
    | some n => min m.size (start + n)
  (m.cells.extract (Position.cut m.size start) (Position.cut m.size stop)).toList

-- Puts a byte before runs of bytes. A zero belongs to no run.
def extendRuns (b : UInt8) (address : Nat) (runs : List (Nat × List UInt8)) : List (Nat × List UInt8) :=
  if b = 0 then runs
  else match runs with
    | (start, bytes) :: later =>
      if start = address + 1 then (address, b :: bytes) :: later else (address, [b]) :: runs
    | [] => [(address, [b])]

-- The longest runs of cells that are not zero, each with the address of its first cell.
def runs (m : Memory) : List (Nat × List UInt8) :=
  m.cells.toList.zipIdx.foldr (fun (b, address) runs => extendRuns b address runs) []

@[simp] theorem size_blank (size : Nat) (wraps : Bool) : (blank size wraps).size = size := by
  simp [blank, Memory.size]

@[simp] theorem size_put (m : Memory) (i : Fin m.cells.size) (value : Int) :
    (m.put i value).size = m.size := by
  simp [put, Memory.size]

@[simp] theorem size_clear (m : Memory) : m.clear.size = m.size :=
  size_blank ..

theorem size_place (m : Memory) {start : Nat} (bytes : List UInt8) (h : start ≤ m.size) :
    (m.place start bytes).size = m.size := by
  simp [place, size] at h ⊢
  omega

theorem cell_of_inside (m : Memory) {address : Int} (h : 0 ≤ address ∧ address < m.cells.size) :
    m.cell address = .ok ⟨address.toNat, by omega⟩ := by
  rw [cell, dif_pos h]

theorem cell_of_outside (m : Memory) {address : Int} (w : m.wraps = false)
    (h : ¬ (0 ≤ address ∧ address < m.cells.size)) :
    m.cell address = .error (.fault (.address address m.cells.size)) := by
  rw [cell, dif_neg h, w]
  rfl

end Memory
end Chip8
