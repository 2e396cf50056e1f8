import Chip8.Failure
import Chip8.Position

namespace Chip8

structure Screen where
  width : Int
  height : Int
  pixels : Array Bool
  size_pixels : pixels.size = (width * height).toNat
deriving DecidableEq

namespace Screen

def dark (width height : Int) : Screen where
  width := width
  height := height
  pixels := Array.replicate (width * height).toNat false
  size_pixels := by simp

-- A screen of sides that a host asks for.
def ofSides (room : Nat) (width height : Int) : Except Failure Screen :=
  (Failure.cellCount room (width * height)).map fun _ => dark width height

def place? (s : Screen) (x y : Int) : Option (Fin s.pixels.size) :=
  Position.element? s.pixels.size (x.fmod s.width + s.width * y.fmod s.height)

-- The place of a pixel. Without one the access fails in its own way.
def index (s : Screen) (x y : Int) (absent : Failure) : Except Failure (Fin s.pixels.size) :=
  if s.width = 0 ∨ s.height = 0 then .error .zeroModulus
  else (s.place? x y).elim (.error absent) .ok

def put (s : Screen) (i : Fin s.pixels.size) (lit : Bool) : Screen where
  width := s.width
  height := s.height
  pixels := s.pixels.set i lit
  size_pixels := by simp [s.size_pixels]

def read (s : Screen) (x y : Int) : Except Failure Bool :=
  (s.index x y .noElement).map (s.pixels[·])

def write (s : Screen) (x y : Int) (lit : Bool) : Except Failure Screen :=
  (s.index x y .noPlace).map (s.put · lit)

def clear (s : Screen) : Screen :=
  dark s.width s.height

def rows (s : Screen) : List (List Bool) :=
  (List.range s.height.toNat).map fun y =>
    (s.pixels.extract (y * s.width.toNat) ((y + 1) * s.width.toNat)).toList

-- The rows with one pixel lit that may be named from either end.
def rowsLitAt (s : Screen) (x y : Int) : Except Failure (List (List Bool)) := do
  let j ← Failure.place s.rows.length y .noElement
  let row := s.rows[j]
  return s.rows.set j (row.set (← Failure.place row.length x .noPlace) true)

def litCount (s : Screen) : Nat :=
  s.pixels.count true

-- A row as text, a string for each pixel.
def paint (lit dark : String) (row : List Bool) : String :=
  String.join (row.map fun pixel => if pixel then lit else dark)

def render (s : Screen) (lit dark : String) : String :=
  "\n".intercalate (s.rows.map (paint lit dark))

-- A full block, the default for a lit pixel. A dark one is a space by default.
def block : String :=
  "█"

theorem length_rows (s : Screen) : s.rows.length = s.height.toNat := by
  simp [rows]

theorem place_lt {w h i j : Int} (wpos : 0 < w) (iw : i < w) (jh : j < h) :
    i + w * j < w * h := by
  have : w * (j + 1) ≤ w * h := Int.mul_le_mul_of_nonneg_left jh (by omega)
  rw [Int.mul_add] at this
  omega

-- On a screen with sides above zero every pair of coordinates has a place.
theorem place?_of_pos (s : Screen) (w : 0 < s.width) (h : 0 < s.height) (x y : Int) :
    ∃ i, s.place? x y = some i ∧ (i : Int) = x % s.width + s.width * (y % s.height) := by
  have hx := Int.emod_nonneg x (show s.width ≠ 0 by omega)
  have hy := Int.mul_nonneg (Int.le_of_lt w) (Int.emod_nonneg y (show s.height ≠ 0 by omega))
  have lt := place_lt w (Int.emod_lt_of_pos x w) (Int.emod_lt_of_pos y h)
  have size := s.size_pixels
  obtain ⟨k, hk⟩ := Int.eq_ofNat_of_zero_le (Int.add_nonneg hx hy)
  have hlt : k < s.pixels.size := by omega
  refine ⟨⟨k, hlt⟩, ?_, hk.symm⟩
  rw [place?, Int.fmod_eq_emod_of_nonneg _ (by omega), Int.fmod_eq_emod_of_nonneg _ (by omega), hk]
  exact Position.element?_ofNat hlt

theorem index_of_pos (s : Screen) (w : 0 < s.width) (h : 0 < s.height) (x y : Int)
    (absent : Failure) : ∃ i, s.index x y absent = .ok i ∧ s.place? x y = some i := by
  obtain ⟨i, hi, _⟩ := s.place?_of_pos w h x y
  exact ⟨i, by rw [index, if_neg (by omega), hi]; rfl, hi⟩

end Screen
end Chip8
