import Chip8.Proofs.Screen

namespace Chip8

-- What a host can do to a picture.
inductive Stroke where
  | write (x y : Int) (lit : Bool)
  | clear
deriving DecidableEq

namespace Screen

def stroke (s : Screen) : Stroke → Except Failure Screen
  | .write x y lit => s.write x y lit
  | .clear => .ok s.clear

-- The screen that strokes make of a dark one. A past is a list of strokes, the latest first.
def painted (width height : Int) : List Stroke → Except Failure Screen
  | [] => .ok (.dark width height)
  | x :: past => (painted width height past).bind (·.stroke x)

-- How a pixel was last written, dark if it was not since the screen was last cleared.
def lastWritten (width height x y : Int) : List Stroke → Bool
  | [] | .clear :: _ => false
  | .write x' y' lit :: past =>
    if x' % width = x % width ∧ y' % height = y % height then lit else lastWritten width height x y past

variable {s : Screen}

section

variable (w : 0 < s.width) (h : 0 < s.height)

include w h

theorem exists_write (x y : Int) (b : Bool) : ∃ s', s.write x y b = .ok s' ∧ s'.Alike s ∧
    ∀ x' y', s'.lit x' y' = if s.spot x y = s.spot x' y' then b else s.lit x' y' := by
  obtain ⟨inside, index⟩ := index_eq w h x y .noPlace
  refine ⟨s.put ⟨s.offset x y, inside⟩ b, ?_, .put .., fun x' y' => lit_put w h x y inside b⟩
  rw [write, index]
  rfl

omit h in
theorem offset_natCast {x y : Nat} (hx : x < s.width) (hy : y < s.height) : s.offset x y = y * s.width.toNat + x := by
  obtain ⟨width, hw⟩ := Int.eq_ofNat_of_zero_le (Int.le_of_lt w)
  rw [offset, Int.emod_eq_of_lt (Int.natCast_nonneg x) hx, Int.emod_eq_of_lt (Int.natCast_nonneg y) hy, hw,
    Int.toNat_natCast, Nat.mul_comm, Nat.add_comm]
  exact Int.toNat_natCast (x + width * y)

theorem size_pixels_eq : s.pixels.size = s.height.toNat * s.width.toNat := by
  rw [s.size_pixels, Int.toNat_mul (Int.le_of_lt w) (Int.le_of_lt h), Nat.mul_comm]

-- The rows show the pixels one by one.
theorem rows_eq : s.rows = (List.range s.height.toNat).map fun (y : Nat) =>
    (List.range s.width.toNat).map fun (x : Nat) => s.lit x y := by
  refine List.map_congr_left fun y hy => ?_
  have hy := List.mem_range.mp hy
  have row : (y + 1) * s.width.toNat ≤ s.pixels.size := by
    rw [size_pixels_eq w h]
    exact Nat.mul_le_mul_right _ hy
  have length : (y + 1) * s.width.toNat = y * s.width.toNat + s.width.toNat := Nat.succ_mul ..
  refine List.ext_getElem ?_ fun x here there => ?_
  case refine_1 =>
    rw [Array.length_toList, Array.size_extract, List.length_map, List.length_range]
    omega
  case refine_2 =>
    rw [List.length_map, List.length_range] at there
    have pixel := getElem?_offset w h x y
    rw [offset_natCast w (by omega) (by omega), Array.getElem?_eq_getElem (by omega), Option.some.injEq] at pixel
    simpa using pixel

-- One row after the other, they are all the pixels there are.
theorem flatten_rows : s.rows.flatten = s.pixels.toList := by
  have upTo (n : Nat) : ((List.range n).map fun y =>
      (s.pixels.extract (y * s.width.toNat) ((y + 1) * s.width.toNat)).toList).flatten =
        s.pixels.toList.take (n * s.width.toNat) := by
    induction n with
    | zero => simp
    | succ n ih =>
      have length : (n + 1) * s.width.toNat - n * s.width.toNat = s.width.toNat := by
        rw [Nat.succ_mul]
        omega
      rw [List.range_succ, List.map_append, List.flatten_append, ih, Nat.succ_mul, List.take_add]
      simp [List.extract_eq_take_drop, Nat.succ_mul]
  rw [rows, upTo, ← size_pixels_eq w h, ← Array.length_toList, List.take_length]

theorem litCount_eq : s.litCount = s.rows.flatten.count true := by
  rw [flatten_rows w h, Array.count_toList, litCount]

end

-- A row as text shows its pixels in order.
theorem toList_paint (on off : Char) (row : List Bool) : (paint (.singleton on) (.singleton off) row).toList =
    row.map fun pixel => if pixel then on else off := by
  induction row with
  | nil => simp [paint]
  | cons pixel row ih =>
    rw [paint] at ih
    rw [paint, List.map_cons, String.join_cons, String.toList_append, ih]
    cases pixel <;> simp

theorem map_toList_paint {on off : Char} (differ : on ≠ off) (row : List Bool) :
    (paint (.singleton on) (.singleton off) row).toList.map (· == on) = row := by
  rw [toList_paint, List.map_map]
  refine (List.map_congr_left fun pixel _ => ?_).trans (List.map_id row)
  cases pixel
  case false => simpa using differ.symm
  case true => simp

theorem newline_not_mem_paint {on off : Char} (on_ne : on ≠ '\n') (off_ne : off ≠ '\n') (row : List Bool) :
    '\n' ∉ (paint (.singleton on) (.singleton off) row).toList := by
  rw [toList_paint, List.mem_map]
  rintro ⟨pixel, _, newline⟩
  cases pixel
  case false => exact off_ne newline
  case true => exact on_ne newline

-- The text of a screen is read back line by line.
theorem splitOn_render {on off : Char} (h : 0 < s.height) (differ : on ≠ off) (on_ne : on ≠ '\n')
    (off_ne : off ≠ '\n') :
    ((s.render (.singleton on) (.singleton off)).toList.splitOn '\n').map (·.map (· == on)) = s.rows := by
  have lines : ∀ line ∈ (s.rows.map (paint (.singleton on) (.singleton off))).map String.toList, '\n' ∉ line := by
    intro line mem
    simp only [List.map_map, List.mem_map, Function.comp_apply] at mem
    obtain ⟨row, _, rfl⟩ := mem
    exact newline_not_mem_paint on_ne off_ne row
  have some : (s.rows.map (paint (.singleton on) (.singleton off))).map String.toList ≠ [] := by
    rw [Ne, List.map_eq_nil_iff, List.map_eq_nil_iff, ← List.length_eq_zero_iff, length_rows]
    omega
  rw [render, String.toList_intercalate]
  have newline : "\n".toList = ['\n'] := rfl
  rw [newline, List.splitOn_intercalate _ lines some, List.map_map, List.map_map]
  exact (List.map_congr_left fun row _ => map_toList_paint differ row).trans (List.map_id _)

section

variable {width height : Int} (w : 0 < width) (h : 0 < height)

include w h

theorem lit_dark (x y : Int) : (dark width height).lit x y = false := by
  have pixel : (Array.replicate (width * height).toNat false)[(dark width height).offset x y]? = _ :=
    getElem?_offset (s := dark width height) w h x y
  rw [Array.getElem?_replicate] at pixel
  split at pixel
  case isTrue => exact (Option.some.inj pixel).symm
  case isFalse => cases pixel

-- Every stroke is made, and each leaves the picture that the past tells of.
theorem exists_painted (past : List Stroke) : ∃ s, painted width height past = .ok s ∧
    s.Alike (dark width height) ∧ ∀ x y, s.lit x y = lastWritten width height x y past := by
  induction past with
  | nil => exact ⟨_, rfl, .refl _, lit_dark w h⟩
  | cons x past ih =>
    obtain ⟨s, made, alike, lit⟩ := ih
    rw [painted, made]
    cases x with
    | clear =>
      have cleared : s.clear = dark width height := by
        rw [clear, alike.1, alike.2]
        rfl
      exact ⟨_, rfl, cleared ▸ .refl _, fun x y => cleared ▸ lit_dark w h x y⟩
    | write x y b =>
      have across : s.width = width := alike.1
      have down : s.height = height := alike.2
      obtain ⟨s', written, alike', lit'⟩ := exists_write (across ▸ w) (down ▸ h) x y b
      refine ⟨s', written, alike'.trans alike, fun x' y' => ?_⟩
      have same : s.spot x y = s.spot x' y' ↔ x % width = x' % width ∧ y % height = y' % height := by
        rw [spot, spot, across, down, Prod.mk.injEq]
      simp only [lit', same, lit, lastWritten]

end

-- A screen is an exact grid without edges, and all that it shows agrees with what is read from it.
theorem exact_grid (width height : Int) (w : 0 < width) (h : 0 < height) (past : List Stroke) :
    ∃ s, painted width height past = .ok s ∧
      (∀ x y, s.read x y = .ok (lastWritten width height x y past)) ∧
      s.rows = ((List.range height.toNat).map fun (y : Nat) =>
        (List.range width.toNat).map fun (x : Nat) => lastWritten width height x y past) ∧
      s.litCount = s.rows.flatten.count true ∧
      ∀ on off : Char, on ≠ off → on ≠ '\n' → off ≠ '\n' →
        ((s.render (.singleton on) (.singleton off)).toList.splitOn '\n').map (·.map (· == on)) = s.rows := by
  obtain ⟨s, made, ⟨across, down⟩, lit⟩ := exists_painted w h past
  have across : s.width = width := across
  have down : s.height = height := down
  refine ⟨s, made, fun x y => ?_, ?_, ?_, fun on off => splitOn_render (down ▸ h)⟩
  case refine_1 => rw [read_eq (across ▸ w) (down ▸ h), lit]
  case refine_2 => simp only [rows_eq (across ▸ w : 0 < s.width) (down ▸ h : 0 < s.height), across, down, lit]
  case refine_3 => exact litCount_eq (across ▸ w) (down ▸ h)

-- What leaves the grid on one side enters it on the other.
theorem grid_wraps : let past := [.write (-1) (-1) true, .write 1 0 true, .write 4 2 false, .write 3 4 true]
    ∃ s, painted 3 2 past = .ok s ∧ s.read 5 3 = .ok true ∧ s.rows = [[true, true, false], [false, false, true]] ∧
      s.litCount = s.rows.flatten.count true ∧
      ((s.render (.singleton '#') (.singleton '.')).toList.splitOn '\n').map (·.map (· == '#')) = s.rows := by
  intro past
  obtain ⟨s, made, read, rows, count, text⟩ := exact_grid 3 2 (by decide) (by decide) past
  exact ⟨s, made, read 5 3, rows.trans (by decide), count, text '#' '.' (by decide) (by decide) (by decide)⟩

end Screen
end Chip8
