import Chip8.Screen
import Chip8.Execute

namespace Chip8.Screen

-- Whether a pixel is lit.
def lit (s : Screen) (x y : Int) : Bool :=
  match s.read x y with
  | .ok b => b
  | .error _ => false

def flip (s : Screen) (x y : Int) : Screen :=
  match s.index x y .noElement with
  | .ok i => s.put i !s.lit x y
  | .error _ => s

-- A screen and whether a lit pixel was inverted on it.
abbrev Drawing := Screen × Bool

namespace Drawing

def flip (p : Drawing) (x y : Int) : Drawing :=
  (p.1.flip x y, p.1.lit x y || p.2)

def column (x y : Int) (bits : UInt8) (p : Drawing) (column : Nat) : Drawing :=
  if Operation.isSet bits column then p.flip (x + column) y else p

def row (p : Drawing) (x y : Int) (bits : UInt8) : Drawing :=
  (List.range 8).foldl (column x y bits) p

-- A row for every byte, one below the other.
def rows (p : Drawing) (x y : Int) : List UInt8 → Drawing
  | [] => p
  | bits :: rest => (p.row x y bits).rows x (y + 1) rest

theorem rows_concat (p : Drawing) (x y : Int) (bytes : List UInt8) (bits : UInt8) :
    p.rows x y (bytes ++ [bits]) = (p.rows x y bytes).row x (y + bytes.length) bits := by
  induction bytes generalizing p y with
  | nil => simp [rows]
  | cons b bytes ih =>
    rw [List.cons_append, rows, ih, rows, List.length_cons]
    congr 1
    omega

end Drawing

-- Two screens with the same sides.
def Alike (s t : Screen) : Prop :=
  s.width = t.width ∧ s.height = t.height

namespace Alike

variable {s t u : Screen}

theorem refl (s : Screen) : s.Alike s :=
  ⟨rfl, rfl⟩

theorem trans (h₁ : s.Alike t) (h₂ : t.Alike u) : s.Alike u :=
  ⟨h₁.1.trans h₂.1, h₁.2.trans h₂.2⟩

theorem clear (s : Screen) : s.clear.Alike s :=
  ⟨rfl, rfl⟩

theorem put (s : Screen) (i : Fin s.pixels.size) (b : Bool) : (s.put i b).Alike s :=
  ⟨rfl, rfl⟩

theorem flip (s : Screen) (x y : Int) : (s.flip x y).Alike s := by
  unfold Screen.flip
  split
  · exact put s _ _
  · exact refl s

theorem column (p : Drawing) (x y : Int) (bits : UInt8) (i : Nat) :
    (Drawing.column x y bits p i).1.Alike p.1 := by
  unfold Drawing.column
  split
  · exact flip ..
  · exact refl _

theorem row (p : Drawing) (x y : Int) (bits : UInt8) : (p.row x y bits).1.Alike p.1 := by
  unfold Drawing.row
  induction List.range 8 generalizing p with
  | nil => exact refl _
  | cons i is ih => exact (ih _).trans (column ..)

theorem rows (p : Drawing) (x y : Int) (bytes : List UInt8) : (p.rows x y bytes).1.Alike p.1 := by
  induction bytes generalizing p y with
  | nil => exact refl _
  | cons b bytes ih => exact (ih ..).trans (row ..)

end Alike

-- The pixel that coordinates name, by its column and its row.
def spot (s : Screen) (x y : Int) : Int × Int :=
  (x % s.width, y % s.height)

def offset (s : Screen) (x y : Int) : Nat :=
  (x % s.width + s.width * (y % s.height)).toNat

section

variable {s : Screen} (w : 0 < s.width) (h : 0 < s.height) (x y : Int) {x' y' : Int}

include w h

theorem index_eq (absent : Failure) :
    ∃ inside : s.offset x y < s.pixels.size, s.index x y absent = .ok ⟨s.offset x y, inside⟩ := by
  obtain ⟨i, index, place⟩ := s.index_of_pos w h x y absent
  obtain ⟨i', place', number⟩ := s.place?_of_pos w h x y
  cases place.symm.trans place'
  have same : s.offset x y = i := by rw [offset, ← number, Int.toNat_natCast]
  exact ⟨same ▸ i.isLt, index.trans (congrArg _ (Fin.ext same.symm))⟩

theorem read_eq : s.read x y = .ok (s.lit x y) := by
  obtain ⟨_, index⟩ := index_eq w h x y .noElement
  simp only [lit, read, index, Except.map]

theorem getElem?_offset : s.pixels[s.offset x y]? = some (s.lit x y) := by
  obtain ⟨inside, index⟩ := index_eq w h x y .noElement
  simp only [lit, read, index, Except.map]
  exact Array.getElem?_eq_getElem inside

-- Pixels lie row after row, so a pixel has a number of its own.
theorem offset_eq_iff : s.offset x y = s.offset x' y' ↔ s.spot x y = s.spot x' y' := by
  have col := Int.emod_nonneg x (Int.ne_of_gt w)
  have col' := Int.emod_nonneg x' (Int.ne_of_gt w)
  have row := Int.mul_nonneg (Int.le_of_lt w) (Int.emod_nonneg y (Int.ne_of_gt h))
  have row' := Int.mul_nonneg (Int.le_of_lt w) (Int.emod_nonneg y' (Int.ne_of_gt h))
  rw [offset, offset, spot, spot, Prod.mk.injEq]
  constructor
  case mp =>
    intro same
    have number : x % s.width + s.width * (y % s.height) = x' % s.width + s.width * (y' % s.height) := by omega
    have column : x % s.width = x' % s.width := by
      simpa using congrArg (· % s.width) number
    refine ⟨column, Int.eq_of_mul_eq_mul_left (Int.ne_of_gt w) ?_⟩
    omega
  case mpr =>
    rintro ⟨column, row⟩
    rw [column, row]

theorem lit_of_spot_eq (same : s.spot x y = s.spot x' y') : s.lit x y = s.lit x' y' := by
  have here := getElem?_offset w h x y
  rw [(offset_eq_iff w h x y).mpr same, getElem?_offset w h x' y'] at here
  exact (Option.some.inj here).symm

-- Changing a pixel changes that pixel alone.
theorem lit_put (inside : s.offset x y < s.pixels.size) (b : Bool) :
    (s.put ⟨s.offset x y, inside⟩ b).lit x' y' = if s.spot x y = s.spot x' y' then b else s.lit x' y' := by
  have there : (s.pixels.set (s.offset x y) b inside)[s.offset x' y']? = _ :=
    getElem?_offset (s := s.put ⟨s.offset x y, inside⟩ b) w h x' y'
  rw [Array.getElem?_set] at there
  by_cases here : s.spot x y = s.spot x' y'
  case pos =>
    rw [if_pos ((offset_eq_iff w h x y).mpr here)] at there
    rw [if_pos here]
    exact (Option.some.inj there).symm
  case neg =>
    rw [if_neg (mt (offset_eq_iff w h x y).mp here), getElem?_offset w h x' y'] at there
    rw [if_neg here]
    exact (Option.some.inj there).symm

theorem lit_flip : (s.flip x y).lit x' y' = (s.lit x' y' ^^ (s.spot x y = s.spot x' y')) := by
  obtain ⟨inside, index⟩ := index_eq w h x y .noElement
  have flipped : s.flip x y = s.put ⟨s.offset x y, inside⟩ !s.lit x y := by simp only [flip, index]
  rw [flipped, lit_put w h]
  by_cases here : s.spot x y = s.spot x' y'
  case pos => simp [here, lit_of_spot_eq w h x y here]
  case neg => simp [here]

end

end Chip8.Screen
