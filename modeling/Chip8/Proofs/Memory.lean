import Chip8.Memory

namespace Chip8

-- Numbers that are bytes.
def IsImage (image : List Int) : Prop :=
  ∀ n ∈ image, 0 ≤ n ∧ n ≤ 0xff

instance (image : List Int) : Decidable (IsImage image) :=
  inferInstanceAs (Decidable (∀ n ∈ image, _))

theorem bytesOf_of_isImage {image : List Int} (h : IsImage image) : bytesOf image = .ok (image.map UInt8.ofInt) := by
  rw [bytesOf, if_pos]
  simpa [List.all_eq_true, IsImage] using h

theorem bytesOf_of_not_isImage {image : List Int} (h : ¬ IsImage image) : bytesOf image = .error .byteRange := by
  rw [bytesOf, if_neg]
  simpa [List.all_eq_true, IsImage] using h

end Chip8

namespace Chip8.Memory

def Reaches (m : Memory) (address : Int) : Prop :=
  m.wraps = true ∨ 0 ≤ address ∧ address < m.size

instance (m : Memory) (address : Int) : Decidable (m.Reaches address) :=
  inferInstanceAs (Decidable (_ ∨ _))

-- How many of `count` addresses in a row have a cell, up to the first one without.
def reach (m : Memory) (start : Int) (count : Nat) : Nat :=
  if m.wraps then count else min count (m.size - start).toNat

-- The byte at an address, zero if it has no cell.
def byteAt (m : Memory) (address : Int) : UInt8 :=
  match m.read address with
  | .ok b => b
  | .error _ => 0

def bytesFrom (m : Memory) (start : Int) (count : Nat) : List UInt8 :=
  (List.range count).map fun (i : Nat) => m.byteAt (start + i)

-- The fault of an access to `count` addresses in a row that do not all have a cell.
def shortage? (m : Memory) (start : Int) (count : Nat) : Option Failure :=
  if m.reach start count < count then some (.fault (.address (max start m.size) m.size)) else none

-- Writes the low byte of a value, or nothing if the address has no cell.
def poke (m : Memory) (address value : Int) : Memory :=
  match m.cell address with
  | .ok i => m.put i value
  | .error _ => m

def store (m : Memory) (start : Int) : List Int → Memory
  | [] => m
  | v :: vs => (m.poke start v).store (start + 1) vs

-- The cell that an address names.
def cell? (m : Memory) (address : Int) : Option Nat :=
  (m.cell address).toOption.map (·.val)

-- The bytes lie in memory from a cell on.
def Holds (m : Memory) (start : Nat) (bytes : List UInt8) : Prop :=
  ∀ i < bytes.length, m.cells[start + i]? = bytes[i]?

-- Each of `n` addresses in a row names a cell of its own.
structure OwnCells (m : Memory) (a : Int) (n : Nat) : Prop where
  cell : ∀ i < n, ∃ j, m.cell? (a + (i : Nat)) = some j
  distinct : ∀ i < n, ∀ k < n, m.cell? (a + (i : Nat)) = m.cell? (a + (k : Nat)) → i = k

variable {m : Memory}

theorem cell_of_reaches {a : Int} (pos : 0 < m.size) (h : m.Reaches a) : ∃ i, m.cell a = .ok i := by
  by_cases inside : 0 ≤ a ∧ a < m.cells.size
  case pos => exact ⟨_, m.cell_of_inside inside⟩
  case neg =>
    have w : m.wraps = true := h.resolve_right inside
    rw [cell, dif_neg inside, if_pos w, dif_pos (show 0 < m.cells.size from pos)]
    exact ⟨_, rfl⟩

theorem cell_of_not_reaches {a : Int} (h : ¬ m.Reaches a) :
    m.cell a = .error (.fault (.address a m.size)) := by
  have ⟨w, outside⟩ := not_or.mp h
  exact m.cell_of_outside (by simpa using w) outside

theorem read_of_reaches {a : Int} (pos : 0 < m.size) (h : m.Reaches a) :
    m.read a = .ok (m.byteAt a) := by
  have ⟨i, hi⟩ := cell_of_reaches pos h
  simp [byteAt, read, hi, Except.map]

theorem read_of_not_reaches {a : Int} (h : ¬ m.Reaches a) :
    m.read a = .error (.fault (.address a m.size)) := by
  rw [read, cell_of_not_reaches h]
  rfl

theorem bytesFrom_succ (m : Memory) (a : Int) (n : Nat) :
    m.bytesFrom a (n + 1) = m.bytesFrom a n ++ [m.byteAt (a + n)] := by
  simp [bytesFrom, List.range_succ]

@[simp] theorem length_bytesFrom (m : Memory) (a : Int) (n : Nat) : (m.bytesFrom a n).length = n := by
  simp [bytesFrom]

@[simp] theorem size_poke (a v : Int) : (m.poke a v).size = m.size := by
  unfold poke
  split
  · exact m.size_put _ v
  · rfl

@[simp] theorem wraps_poke (a v : Int) : (m.poke a v).wraps = m.wraps := by
  unfold poke
  split <;> rfl

@[simp] theorem size_store (vs : List Int) (a : Int) : (m.store a vs).size = m.size := by
  induction vs generalizing m a with
  | nil => rfl
  | cons v vs ih => rw [store, ih, size_poke]

@[simp] theorem wraps_store (vs : List Int) (a : Int) : (m.store a vs).wraps = m.wraps := by
  induction vs generalizing m a with
  | nil => rfl
  | cons v vs ih => rw [store, ih, wraps_poke]

theorem store_append (us vs : List Int) (a : Int) :
    m.store a (us ++ vs) = (m.store a us).store (a + us.length) vs := by
  induction us generalizing m a with
  | nil => simp [store]
  | cons u us ih =>
    rw [List.cons_append, store, ih, store, List.length_cons]
    congr 1
    omega

theorem store_concat (vs : List Int) (v : Int) (a : Int) :
    m.store a (vs ++ [v]) = (m.store a vs).poke (a + vs.length) v :=
  store_append vs [v] a

theorem reaches_store {vs : List Int} {a b : Int} : (m.store a vs).Reaches b ↔ m.Reaches b := by
  rw [Reaches, Reaches, size_store, wraps_store]

theorem reach_le (a : Int) (n : Nat) : m.reach a n ≤ n := by
  unfold reach
  split <;> omega

theorem reach_of_wraps (wraps : m.wraps = true) (a : Int) (n : Nat) : m.reach a n = n :=
  if_pos wraps

theorem reaches_of_lt_reach {a : Int} {n i : Nat} (ha : 0 ≤ a) (hi : i < m.reach a n) :
    m.Reaches (a + i) := by
  unfold reach at hi
  split at hi
  case isTrue w => exact .inl w
  case isFalse => exact .inr (by omega)

theorem reach_lt_iff {a : Int} {n : Nat} :
    m.reach a n < n ↔ m.wraps = false ∧ 1 ≤ n ∧ m.size ≤ a + n - 1 := by
  unfold reach
  cases m.wraps <;> simp
  omega

-- The first address without a cell is the start itself, or the size of memory.
theorem add_reach {a : Int} {n : Nat} (h : m.reach a n < n) : a + m.reach a n = max a m.size := by
  unfold reach at h ⊢
  split at h
  case isTrue => omega
  case isFalse w =>
    rw [if_neg w]
    omega

theorem not_reaches_add_reach {a : Int} {n : Nat} (h : m.reach a n < n) :
    ¬ m.Reaches (a + m.reach a n) := by
  have ⟨w, _⟩ := reach_lt_iff.mp h
  rw [add_reach h, Reaches, w]
  rintro (h | ⟨_, h⟩)
  · cases h
  · omega

theorem cell?_eq (m : Memory) (a : Int) : m.cell? a = if 0 ≤ a ∧ a < m.size then some a.toNat
    else if m.wraps = true ∧ 0 < m.size then some (a % m.size).toNat else none := by
  by_cases inside : 0 ≤ a ∧ a < m.size
  case pos =>
    rw [if_pos inside, cell?, m.cell_of_inside inside]
    rfl
  case neg =>
    rw [if_neg inside, cell?, cell, dif_neg (show ¬ (0 ≤ a ∧ a < m.cells.size) from inside)]
    by_cases wraps : m.wraps = true <;> by_cases pos : 0 < m.cells.size <;> simp [wraps, pos, size, Except.toOption]

theorem cell?_of_reaches {a : Int} (pos : 0 < m.size) (h : m.Reaches a) : m.cell? a = some (a % m.size).toNat := by
  rw [cell?_eq]
  by_cases inside : 0 ≤ a ∧ a < m.size
  case pos => rw [if_pos inside, Int.emod_eq_of_lt inside.1 inside.2]
  case neg => rw [if_neg inside, if_pos ⟨h.resolve_right inside, pos⟩]

theorem cell?_poke (a v b : Int) : (m.poke a v).cell? b = m.cell? b := by
  rw [cell?_eq, cell?_eq, size_poke, wraps_poke]

theorem cell?_store (a : Int) (vs : List Int) (b : Int) : (m.store a vs).cell? b = m.cell? b := by
  rw [cell?_eq, cell?_eq, size_store, wraps_store]

-- The addresses behind the first one, where the other values go.
theorem cell?_poke_next (a v : Int) (i : Nat) : (m.poke a v).cell? (a + 1 + i) = m.cell? (a + (i + 1 : Nat)) := by
  rw [cell?_poke, Int.add_assoc, Int.add_comm 1]
  rfl

theorem getElem?_poke {a v : Int} {j : Nat} (apart : m.cell? a ≠ some j) : (m.poke a v).cells[j]? = m.cells[j]? := by
  unfold poke
  split
  case h_1 i cell =>
    have other : i.val ≠ j := fun same => apart (by rw [cell?, cell, ← same]; rfl)
    exact Array.getElem?_set_ne i.isLt other
  case h_2 => rfl

-- Storing changes no cell but those that its addresses name.
theorem getElem?_store {a : Int} {vs : List Int} {j : Nat}
    (apart : ∀ i < vs.length, m.cell? (a + (i : Nat)) ≠ some j) : (m.store a vs).cells[j]? = m.cells[j]? := by
  induction vs generalizing m a with
  | nil => rfl
  | cons v vs ih =>
    have first := apart 0 (Nat.zero_lt_succ _)
    rw [store, ih, getElem?_poke (by simpa using first)]
    intro i inside
    rw [cell?_poke_next]
    exact apart (i + 1) (Nat.succ_lt_succ inside)

theorem exists_of_cell? {a : Int} {j : Nat} (h : m.cell? a = some j) : ∃ i, m.cell a = .ok i ∧ i.val = j := by
  rw [cell?] at h
  cases cell : m.cell a with
  | error e => simp [cell, Except.toOption] at h
  | ok i =>
    simp only [cell, Except.toOption, Option.map_some, Option.some.injEq] at h
    exact ⟨i, rfl, h⟩

theorem getElem?_of_cell? {a : Int} {j : Nat} (h : m.cell? a = some j) : m.cells[j]? = some (m.byteAt a) := by
  obtain ⟨i, cell, rfl⟩ := exists_of_cell? h
  simp [byteAt, read, cell, Except.map]

theorem getElem?_poke_self {a v : Int} {j : Nat} (h : m.cell? a = some j) :
    (m.poke a v).cells[j]? = some (UInt8.ofInt v) := by
  obtain ⟨i, cell, rfl⟩ := exists_of_cell? h
  simp [poke, put, cell]

namespace OwnCells

variable {a : Int} {n : Nat}

theorem tail (own : m.OwnCells a (n + 1)) (v : Int) : (m.poke a v).OwnCells (a + 1) n := by
  refine ⟨fun i hi => ?_, fun i hi k hk same => ?_⟩
  · rw [cell?_poke_next]
    exact own.cell (i + 1) (Nat.succ_lt_succ hi)
  · rw [cell?_poke_next, cell?_poke_next] at same
    exact Nat.succ.inj (own.distinct _ (Nat.succ_lt_succ hi) _ (Nat.succ_lt_succ hk) same)

-- Each value goes to the cell that its address names, and no other one goes there.
theorem getElem?_store {vs : List Int} (own : m.OwnCells a vs.length) {i j : Nat} (hi : i < vs.length)
    (cell : m.cell? (a + (i : Nat)) = some j) : (m.store a vs).cells[j]? = some (UInt8.ofInt vs[i]) := by
  induction vs generalizing m a i with
  | nil => cases hi
  | cons v vs ih =>
    rw [store]
    cases i with
    | zero =>
      have later : ∀ k < vs.length, (m.poke a v).cell? (a + 1 + (k : Nat)) ≠ some j := by
        intro k hk again
        rw [cell?_poke_next, ← cell] at again
        cases own.distinct (k + 1) (Nat.succ_lt_succ hk) 0 (Nat.zero_lt_succ _) again
      rw [Int.natCast_zero, Int.add_zero] at cell
      exact (Memory.getElem?_store later).trans (getElem?_poke_self cell)
    | succ i => exact ih (own.tail v) (Nat.lt_of_succ_lt_succ hi) (by rw [cell?_poke_next, cell])

-- What has been stored is read back.
theorem bytesFrom_store {vs : List Int} (own : m.OwnCells a vs.length) (le : n ≤ vs.length) :
    (m.store a vs).bytesFrom a n = (vs.take n).map UInt8.ofInt := by
  have all : ((vs.take n).map UInt8.ofInt).length = n := by
    rw [List.length_map, List.length_take_of_le le]
  refine List.ext_getElem ((length_bytesFrom ..).trans all.symm) fun i _ here => ?_
  have hi : i < vs.length := Nat.lt_of_lt_of_le (all ▸ here) le
  obtain ⟨j, cell⟩ := own.cell i hi
  have read := getElem?_of_cell? ((cell?_store a vs (a + i)).trans cell)
  rw [own.getElem?_store hi cell, Option.some.injEq] at read
  simp only [bytesFrom, List.getElem_map, List.getElem_range, List.getElem_take, read]

-- Addresses in a row that are no more than the cells name different ones.
theorem of_reaches (le : n ≤ m.size) (reaches : ∀ i < n, m.Reaches (a + (i : Nat))) : m.OwnCells a n := by
  have cell (i : Nat) (hi : i < n) : m.cell? (a + i) = some ((a + i) % m.size).toNat :=
    cell?_of_reaches (by omega) (reaches i hi)
  refine ⟨fun i hi => ⟨_, cell i hi⟩, fun i hi k hk same => ?_⟩
  rw [cell i hi, cell k hk, Option.some.injEq] at same
  have pos : (m.size : Int) ≠ 0 := by omega
  have first := Int.emod_nonneg (a + i) pos
  have second := Int.emod_nonneg (a + k) pos
  have residue : (a + i) % m.size = (a + k) % m.size := by omega
  have apart := Int.dvd_of_emod_eq_zero (Int.emod_eq_emod_iff_emod_sub_eq_zero.mp residue)
  have none := Int.eq_zero_of_dvd_of_natAbs_lt_natAbs apart (by omega)
  omega

end OwnCells

theorem byteAt_of_getElem? {n : Nat} {b : UInt8} (h : m.cells[n]? = some b) : m.byteAt n = b := by
  have ⟨inside, out⟩ := Array.getElem?_eq_some_iff.mp h
  have cell := m.cell_of_inside (show 0 ≤ (n : Int) ∧ (n : Int) < m.cells.size by omega)
  simp [byteAt, read, cell, Except.map, out]

-- Placing changes the cells that there is room for, and no other one.
theorem getElem?_place {start : Nat} (bytes : List UInt8) (fits : start ≤ m.size) (j : Nat) :
    (m.place start bytes).cells[j]? =
      if start ≤ j ∧ j < start + m.room start bytes.length then bytes[j - start]? else m.cells[j]? := by
  have head : (m.cells.extract 0 start).size = start := by
    rw [Array.size_extract, Nat.sub_zero]
    exact Nat.min_eq_left fits
  have body : (bytes.take (m.size - start)).length = m.room start bytes.length := by
    rw [List.length_take, room, Nat.min_comm]
  simp only [place, List.size_toArray, body]
  rw [Array.append_assoc, Array.getElem?_append, head]
  by_cases before : j < start
  case pos =>
    rw [if_pos before, if_neg (by omega), Array.getElem?_extract, Nat.zero_add, if_pos]
    rw [Array.size_extract] at head
    omega
  case neg =>
    rw [if_neg before, Array.getElem?_append, List.size_toArray, body]
    by_cases inside : j - start < m.room start bytes.length
    case pos =>
      rw [if_pos inside, if_pos (by omega), List.getElem?_toArray, List.getElem?_take_of_lt]
      exact Nat.lt_of_lt_of_le inside (Nat.min_le_right ..)
    case neg =>
      have back : start + m.room start bytes.length + (j - start - m.room start bytes.length) = j := by omega
      rw [if_neg inside, if_neg (by omega), Array.getElem?_extract, back]
      split
      case isTrue => rfl
      case isFalse out =>
        refine (Array.getElem?_eq_none ?_).symm
        have room : m.room start bytes.length ≤ m.size - start := Nat.min_le_right ..
        simp only [size] at *
        omega

theorem getElem?_place_of_apart {start j : Nat} (bytes : List UInt8) (fits : start ≤ m.size)
    (apart : j < start ∨ start + m.room start bytes.length ≤ j) : (m.place start bytes).cells[j]? = m.cells[j]? := by
  rw [getElem?_place bytes fits, if_neg (by omega)]

theorem getElem?_place_add {start j : Nat} (bytes : List UInt8) (fits : start ≤ m.size)
    (inside : j < m.room start bytes.length) : (m.place start bytes).cells[start + j]? = bytes[j]? := by
  rw [getElem?_place bytes fits, if_pos (by omega), Nat.add_sub_cancel_left]

theorem holds_place {start : Nat} {bytes : List UInt8} (fits : start + bytes.length ≤ m.size) :
    (m.place start bytes).Holds start bytes := by
  intro i inside
  have all : m.room start bytes.length = bytes.length := Nat.min_eq_left (by omega)
  exact getElem?_place_add bytes (by omega) (by rwa [all])

end Chip8.Memory
