import Chip8.Proofs.Memory
import Chip8.Proofs.State

namespace Chip8

-- What can be done to a memory.
inductive Access where
  | read (address : Int)
  | write (address value : Int)
  | load (start : Int) (image : List Int)
  | clear
  | dump (start : Int) (length : Option Int)
deriving DecidableEq

namespace Access

-- The address that has to have a cell.
def address? : Access → Option Int
  | read a | write a _ | load a _ => some a
  | clear | dump .. => none

-- Whether the numbers that are to be loaded are bytes. Any number can be written.
def IsTyped : Access → Prop
  | load _ image => IsImage image
  | read _ | write .. | clear | dump .. => True

-- What an access puts into the cell that an address has in a memory of a given size. An image that is too long goes as
-- far as the last cell, and clearing puts a zero into each.
def puts? (size : Nat) (wraps : Bool) (a : Int) : Access → Option Int
  | write b v => if (wraps = true ∨ 0 ≤ b ∧ b < size) ∧ b % size = a % size then some v else none
  | load b image =>
    if (wraps = true ∨ 0 ≤ b ∧ b < size) ∧ IsImage image ∧ b % size ≤ a % size then
      image[(a % size - b % size).toNat]?
    else none
  | clear => some 0
  | read _ | dump .. => none

-- What was last put there, zero if nothing was. A past is a list of accesses, the latest first.
def lastPut (size : Nat) (wraps : Bool) (a : Int) (past : List Access) : Int :=
  (past.findSome? (·.puts? size wraps a)).getD 0

end Access

namespace Memory

def access (m : Memory) : Access → Except Failure Memory
  | .read a => (m.read a).map fun _ => m
  | .write a v => m.write a v
  | .load a image => (m.load a image).map (·.1)
  | .clear => .ok m.clear
  | .dump .. => .ok m

-- A memory after an access, which changes nothing if it fails.
def after (m : Memory) (x : Access) : Memory :=
  match m.access x with
  | .ok m => m
  | .error _ => m

def afterAll (m : Memory) : List Access → Memory
  | [] => m
  | x :: past => (m.afterAll past).after x

variable {m : Memory} {x : Access} {a : Int} {image : List Int} {past : List Access}

theorem load_of_not_isImage (h : ¬ IsImage image) (a : Int) : m.load a image = .error .byteRange := by
  simp [load, bytesOf_of_not_isImage h, bind, Except.bind]

theorem load_of_not_reaches (h : IsImage image) (outside : ¬ m.Reaches a) :
    m.load a image = .error (.fault (.address a m.size)) := by
  simp [load, bytesOf_of_isImage h, cell_of_not_reaches outside, bind, Except.bind]

theorem load_of_reaches (h : IsImage image) (pos : 0 < m.size) (reaches : m.Reaches a) :
    m.load a image = .ok (m.place (a % m.size).toNat (image.map UInt8.ofInt),
      m.room (a % m.size).toNat image.length) := by
  obtain ⟨i, cell, place⟩ := exists_of_cell? (cell?_of_reaches pos reaches)
  simp [load, bytesOf_of_isImage h, cell, place, bind, Except.bind, pure, Except.pure]

-- An image is told to be none before memory is asked for a cell.
theorem access_of_not_reaches (h : x.address? = some a) (outside : ¬ m.Reaches a) :
    (x.IsTyped → m.access x = .error (.fault (.address a m.size))) ∧
      (¬ x.IsTyped → m.access x = .error .byteRange) := by
  cases x with
  | read b | write b v =>
    cases h
    refine ⟨fun _ => ?_, fun untyped => absurd trivial untyped⟩
    simp [access, read, write, cell_of_not_reaches outside, Except.map]
  | load b image =>
    cases h
    constructor
    · intro typed
      simp [access, load_of_not_reaches typed outside, Except.map]
    · intro untyped
      simp [access, load_of_not_isImage untyped, Except.map]
  | clear | dump => cases h

theorem after_of_error {e : Failure} (h : m.access x = .error e) : m.after x = m := by
  rw [after, h]

theorem after_write (a v : Int) : m.after (.write a v) = m.poke a v := by
  simp only [after, access, write, poke]
  cases m.cell a <;> rfl

theorem after_read (a : Int) : m.after (.read a) = m := by
  simp only [after, access]
  cases m.read a <;> rfl

theorem emod_size_lt (pos : 0 < m.size) (a : Int) : (a % m.size).toNat < m.size := by
  have := Int.emod_lt_of_pos a (show (0 : Int) < m.size by omega)
  have := Int.emod_nonneg a (show (m.size : Int) ≠ 0 by omega)
  omega

theorem after_load (pos : 0 < m.size) (a : Int) (image : List Int) : m.after (.load a image) =
    if m.Reaches a ∧ IsImage image then m.place (a % m.size).toNat (image.map UInt8.ofInt) else m := by
  by_cases h : IsImage image
  case neg =>
    rw [if_neg (mt And.right h), after, access, load_of_not_isImage h]
    rfl
  case pos =>
    by_cases reaches : m.Reaches a
    case neg =>
      rw [if_neg (mt And.left reaches), after, access, load_of_not_reaches h reaches]
      rfl
    case pos =>
      rw [if_pos ⟨reaches, h⟩, after, access, load_of_reaches h pos reaches]
      rfl

theorem after_preserves (pos : 0 < m.size) (x : Access) : (m.after x).size = m.size ∧ (m.after x).wraps = m.wraps := by
  cases x with
  | read b => simp [after_read]
  | write b v => simp [after_write]
  | load b image =>
    rw [after_load pos]
    split
    case isTrue => exact ⟨size_place _ _ (Nat.le_of_lt (emod_size_lt pos b)), rfl⟩
    case isFalse => exact ⟨rfl, rfl⟩
  | clear => exact ⟨size_clear m, rfl⟩
  | dump => exact ⟨rfl, rfl⟩

theorem cell?_of_not_reaches (h : ¬ m.Reaches a) : m.cell? a = none := by
  rw [cell?, cell_of_not_reaches h]
  rfl

theorem toNat_emod_inj (pos : 0 < m.size) {a b : Int} :
    (b % m.size).toNat = (a % m.size).toNat ↔ b % m.size = a % m.size := by
  have := Int.emod_nonneg a (show (m.size : Int) ≠ 0 by omega)
  have := Int.emod_nonneg b (show (m.size : Int) ≠ 0 by omega)
  omega

theorem getElem?_poke_emod (pos : 0 < m.size) (a b v : Int) : (m.poke b v).cells[(a % m.size).toNat]? =
    if m.Reaches b ∧ b % m.size = a % m.size then some (UInt8.ofInt v) else m.cells[(a % m.size).toNat]? := by
  by_cases reaches : m.Reaches b
  case neg =>
    rw [if_neg (mt And.left reaches), getElem?_poke]
    simp [cell?_of_not_reaches reaches]
  case pos =>
    have cell := cell?_of_reaches pos reaches
    by_cases same : b % m.size = a % m.size
    case pos =>
      rw [if_pos ⟨reaches, same⟩]
      exact getElem?_poke_self (same ▸ cell)
    case neg =>
      rw [if_neg (mt And.right same), getElem?_poke]
      simpa [cell, toNat_emod_inj pos] using same

theorem getElem?_place_or {start j : Nat} (bytes : List UInt8) (fits : start ≤ m.size) (inside : j < m.size) :
    (m.place start bytes).cells[j]? = (if start ≤ j then bytes[j - start]? else none).or m.cells[j]? := by
  rw [getElem?_place bytes fits]
  by_cases behind : start ≤ j
  case neg =>
    rw [if_neg (mt And.left behind), if_neg behind]
    rfl
  case pos =>
    rw [if_pos behind]
    by_cases here : j - start < bytes.length
    case pos =>
      have room : j < start + m.room start bytes.length := by
        unfold room
        omega
      rw [if_pos ⟨behind, room⟩, List.getElem?_eq_getElem here]
      rfl
    case neg =>
      have room : ¬ j < start + m.room start bytes.length := by
        unfold room
        omega
      rw [if_neg (mt And.right room), List.getElem?_eq_none (by omega)]
      rfl

-- The cell of an address is left as it is unless something is put there.
theorem getElem?_after (pos : 0 < m.size) (x : Access) (a : Int) : (m.after x).cells[(a % m.size).toNat]? =
    ((x.puts? m.size m.wraps a).map UInt8.ofInt).or m.cells[(a % m.size).toNat]? := by
  cases x with
  | read b => simp [after_read, Access.puts?]
  | dump => rfl
  | write b v =>
    rw [after_write, getElem?_poke_emod pos]
    by_cases puts : (m.wraps = true ∨ 0 ≤ b ∧ b < m.size) ∧ b % m.size = a % m.size
    case pos =>
      rw [if_pos (show m.Reaches b ∧ _ from puts), Access.puts?, if_pos puts]
      rfl
    case neg =>
      rw [if_neg (show ¬ (m.Reaches b ∧ _) from puts), Access.puts?, if_neg puts]
      rfl
  | clear =>
    have inside := emod_size_lt pos a
    have zero : UInt8.ofInt 0 = 0 := rfl
    simp [after, access, clear, blank, Access.puts?, inside, zero]
  | load b image =>
    have nonneg (c : Int) := Int.emod_nonneg c (show (m.size : Int) ≠ 0 by omega)
    have start := nonneg b
    have place := nonneg a
    rw [after_load pos]
    by_cases loads : m.Reaches b ∧ IsImage image
    case neg =>
      have nothing : (Access.load b image).puts? m.size m.wraps a = none :=
        if_neg fun puts => loads ⟨puts.1, puts.2.1⟩
      rw [if_neg loads, nothing]
      rfl
    case pos =>
      rw [if_pos loads, getElem?_place_or _ (Nat.le_of_lt (emod_size_lt pos b)) (emod_size_lt pos a), Access.puts?]
      by_cases behind : b % m.size ≤ a % m.size
      case pos =>
        have offset : (a % m.size).toNat - (b % m.size).toNat = (a % m.size - b % m.size).toNat := by omega
        rw [if_pos (by omega), if_pos ⟨loads.1, loads.2, behind⟩, List.getElem?_map, offset]
      case neg =>
        rw [if_neg (by omega), if_neg fun puts => behind puts.2.2]
        rfl

theorem read_of_getElem? {b : UInt8} (pos : 0 < m.size) (reaches : m.Reaches a)
    (h : m.cells[(a % m.size).toNat]? = some b) : m.read a = .ok b := by
  rw [read_of_reaches pos reaches]
  rw [getElem?_of_cell? (cell?_of_reaches pos reaches)] at h
  exact congrArg _ (Option.some.inj h)

theorem read_natCast {i : Nat} (inside : i < m.cells.size) : m.read i = .ok m.cells[i] := by
  have cell := m.cell_of_inside (show 0 ≤ (i : Int) ∧ (i : Int) < m.cells.size by omega)
  rw [read, cell]
  rfl

-- A range of memory is what reading its addresses one by one gives.
theorem dump_eq_reads (m : Memory) (start length : Nat) : (m.dump start (some length)).map .ok =
    (List.range' start (min m.size (start + length) - start)).map fun (i : Nat) => m.read i := by
  have stop : min (m.size : Int) (start + length) = (min m.size (start + length) : Nat) := by omega
  simp only [dump, stop, Position.cut_ofNat]
  refine List.ext_getElem ?_ fun i here there => ?_
  case refine_1 =>
    simp [size]
    omega
  case refine_2 =>
    simp only [List.length_map, List.length_range'] at there
    have inside : start + i < m.cells.size := by
      simp only [size] at there
      omega
    have begins : min start m.size = start := by omega
    simp only [List.getElem_map, List.getElem_range', Array.getElem_toList, Array.getElem_extract, begins, Nat.one_mul]
    exact (read_natCast inside).symm

section

variable {size : Nat} (wraps : Bool)

theorem afterAll_preserves (pos : 0 < size) (past : List Access) :
    ((blank size wraps).afterAll past).size = size ∧ ((blank size wraps).afterAll past).wraps = wraps := by
  induction past with
  | nil => exact ⟨size_blank .., rfl⟩
  | cons x past ih =>
    obtain ⟨kept, mode⟩ := after_preserves (ih.1.symm ▸ pos) x
    exact ⟨kept.trans ih.1, mode.trans ih.2⟩

-- By induction over the past, one access at a time.
theorem getElem?_afterAll (pos : 0 < size) (past : List Access) (a : Int) :
    ((blank size wraps).afterAll past).cells[(a % size).toNat]? =
      some (UInt8.ofInt (Access.lastPut size wraps a past)) := by
  induction past with
  | nil =>
    have inside := emod_size_lt (m := blank size wraps) (by rwa [size_blank]) a
    rw [size_blank] at inside
    have zero : UInt8.ofInt 0 = 0 := rfl
    simp [afterAll, blank, inside, Access.lastPut, zero]
  | cons x past ih =>
    obtain ⟨kept, mode⟩ := afterAll_preserves wraps pos past
    have step := getElem?_after (kept.symm ▸ pos) x a
    rw [kept, mode, ih] at step
    rw [afterAll, step, Access.lastPut, Access.lastPut, List.findSome?_cons]
    cases x.puts? size wraps a <;> rfl

end

end Memory
end Chip8
