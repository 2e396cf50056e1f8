import Chip8.Proofs.Faults
import Chip8.Proofs.Sprite

namespace Chip8

namespace Screen

-- A screen on which a sprite has been drawn, by the coordinates of its set bits, and whether it collided.
def overlaid (s : Screen) (points : List (Int × Int)) : Drawing :=
  Drawing.flips (s, false) points

variable {s t : Screen} {points points' : List (Int × Int)}

theorem Alike.flips (p : Drawing) (points : List (Int × Int)) : (p.flips points).1.Alike p.1 := by
  induction points generalizing p with
  | nil => exact .refl _
  | cons q points ih => exact (ih _).trans (.flip ..)

theorem Alike.overlaid (s : Screen) (points : List (Int × Int)) : (s.overlaid points).1.Alike s :=
  .flips (s, false) points

section

variable (w : 0 < s.width) (h : 0 < s.height)

include w h

-- Every element of the row of pixels is one that coordinates name.
theorem exists_offset {i : Nat} (inside : i < s.pixels.size) : ∃ x y, s.offset x y = i := by
  have size := s.size_pixels
  have area : 0 ≤ s.width * s.height := Int.mul_nonneg (Int.le_of_lt w) (Int.le_of_lt h)
  have row : (i : Int) / s.width < s.height := by
    refine Int.ediv_lt_of_lt_mul w ?_
    rw [Int.mul_comm]
    omega
  have first : 0 ≤ (i : Int) / s.width := Int.ediv_nonneg (Int.natCast_nonneg i) (Int.le_of_lt w)
  refine ⟨i, i / s.width, ?_⟩
  rw [offset, Int.emod_eq_of_lt first row, Int.emod_add_mul_ediv, Int.toNat_natCast]

-- A screen is known by its sides and by which of its pixels are lit.
theorem eq_of_lit_eq (alike : t.Alike s) (lit : ∀ x y, t.lit x y = s.lit x y) : t = s := by
  have pixels : t.pixels = s.pixels := by
    have size : t.pixels.size = s.pixels.size := by rw [t.size_pixels, s.size_pixels, alike.1, alike.2]
    refine Array.ext size fun i inside inside' => ?_
    obtain ⟨x, y, offset⟩ := exists_offset w h inside'
    have here := getElem?_offset w h x y
    have there := getElem?_offset (alike.1 ▸ w) (alike.2 ▸ h) x y
    have same : t.offset x y = s.offset x y := by rw [Screen.offset, Screen.offset, alike.1, alike.2]
    rw [same, lit, ← here, offset, Array.getElem?_eq_getElem inside, Array.getElem?_eq_getElem inside'] at there
    exact Option.some.inj there
  obtain ⟨_, _, _, _⟩ := s
  obtain ⟨_, _, _, _⟩ := t
  cases alike.1
  cases alike.2
  cases pixels
  rfl

theorem lit_overlaid (points : List (Int × Int)) (x y : Int) :
    (s.overlaid points).1.lit x y = (s.lit x y ^^ Odd (s.landings points x y)) :=
  lit_flips (p := (s, false)) w h points x y

-- How often a second sprite inverts a pixel has nothing to do with the first one.
theorem lit_overlaid_overlaid (points points' : List (Int × Int)) (x y : Int) :
    ((s.overlaid points).1.overlaid points').1.lit x y =
      ((s.lit x y ^^ Odd (s.landings points x y)) ^^ Odd (s.landings points' x y)) := by
  have alike := Alike.overlaid s points
  rw [lit_overlaid (alike.1 ▸ w) (alike.2 ▸ h), lit_overlaid w h, alike.landings]

theorem overlaid_self (points : List (Int × Int)) : ((s.overlaid points).1.overlaid points).1 = s := by
  refine eq_of_lit_eq w h ((Alike.overlaid ..).trans (.overlaid ..)) fun x y => ?_
  rw [lit_overlaid_overlaid w h, Bool.xor_assoc, Bool.xor_self, Bool.xor_false]

theorem overlaid_comm (points points' : List (Int × Int)) :
    ((s.overlaid points).1.overlaid points').1 = ((s.overlaid points').1.overlaid points).1 := by
  have alike := (Alike.overlaid (s.overlaid points).1 points').trans (.overlaid s points)
  have alike' := (Alike.overlaid (s.overlaid points').1 points).trans (.overlaid s points')
  have sides := (alike'.1 ▸ w : 0 < ((s.overlaid points').1.overlaid points).1.width)
  refine eq_of_lit_eq sides (alike'.2 ▸ h) ⟨alike.1.trans alike'.1.symm, alike.2.trans alike'.2.symm⟩ fun x y => ?_
  rw [lit_overlaid_overlaid w h, lit_overlaid_overlaid w h, Bool.xor_right_comm]

theorem hit_overlaid (points : List (Int × Int)) :
    (s.overlaid points).2 = true ↔ ∃ x y, s.Collides points x y :=
  (hit_flips (p := (s, false)) w h points).trans (by simp)

-- Where the first time there was no collision, the sprite has lit a pixel that the second time is found lit.
theorem hit_overlaid_or (some : points ≠ []) :
    (s.overlaid points).2 = true ∨ ((s.overlaid points).1.overlaid points).2 = true := by
  have alike := Alike.overlaid s points
  obtain ⟨q, rest, rfl⟩ := List.exists_cons_of_ne_nil some
  have lands : 1 ≤ s.landings (q :: rest) q.1 q.2 := by simp [landings_cons]
  by_cases collides : ∃ x y, s.Collides (q :: rest) x y
  case pos => exact .inl ((hit_overlaid w h _).mpr collides)
  case neg =>
    have never : ¬ s.Collides (q :: rest) q.1 q.2 := fun collides' => collides ⟨_, _, collides'⟩
    simp only [Collides, not_or, not_and, Bool.not_eq_true] at never
    have once : s.landings (q :: rest) q.1 q.2 = 1 := by omega
    have lit : (s.overlaid (q :: rest)).1.lit q.1 q.2 = true := by
      rw [lit_overlaid w h, never.1 lands, once]
      decide
    refine .inr ((hit_overlaid (alike.1 ▸ w) (alike.2 ▸ h) _).mpr ⟨q.1, q.2, .inl ⟨?_, lit⟩⟩)
    rw [alike.landings]
    exact lands

end

end Screen

namespace Core

open Operation

-- A core on which a draw from an address finds what it would find on this one.
structure PointedAt (c : Core) (a : Int) (c' : Core) : Prop where
  screen : c'.screen = c.screen
  memory : c'.memory = c.memory
  registers : c'.state.registers = c.state.registers
  index : c'.state.index = a

-- Two draws, each from an address of its own, succeed, and the cores that they leave are related in this way. Whatever
-- happens before each of them leaves the screen, memory and the registers alone.
def Draws (d : Dialect) (c : Core) (w : Opcode) (a : Int) (w' : Opcode) (a' : Int) (leave : Core → Core → Prop) :
    Prop :=
  ∀ pc pc' c₀, c.PointedAt a c₀ → ∃ c₁, performWord d pc w c₀ = .ok () c₁ ∧ c₁.state.index = a ∧
    ∀ c₂, c₁.PointedAt a' c₂ → ∃ c₃, performWord d pc' w' c₂ = .ok () c₃ ∧ leave c₁ c₃

-- The rows of a sprite can be read.
def Readable (c : Core) (a : Int) (n : Nat) : Prop :=
  ∀ row < n, ∃ b, c.memory.read (a + (row : Nat)) = .ok b

-- A draw whose place is not told by the flag register.
structure Placed (w : Opcode) : Prop where
  meant : draw.IsMeant w
  x : w.x ≠ flagRegister
  y : w.y ≠ flagRegister

-- The sprite that a word draws from an address.
def spriteOf (c : Core) (w : Opcode) (a : Int) : List (Int × Int) :=
  sprite c.memory a w.n (c.state.value w.x) (c.state.value w.y)

-- A core on which the sprite has been drawn.
def withSprite (c : Core) (w : Opcode) (a : Int) : Core :=
  let drawn := c.screen.overlaid (c.spriteOf w a)
  { c with
    screen := drawn.1
    state := { c.state with registers := c.state.registers.set flagRegister (if drawn.2 then 1 else 0) } }

variable {c c' : Core} {d : Dialect} {w w' : Opcode} {a a' : Int}

theorem Draws.imp {leave leave' : Core → Core → Prop} (draws : c.Draws d w a w' a' leave)
    (implies : ∀ c₁ c₃, leave c₁ c₃ → leave' c₁ c₃) : c.Draws d w a w' a' leave' := by
  intro pc pc' c₀ pointed
  obtain ⟨c₁, first, index, again⟩ := draws pc pc' c₀ pointed
  refine ⟨c₁, first, index, fun c₂ pointed' => ?_⟩
  obtain ⟨c₃, second, left⟩ := again c₂ pointed'
  exact ⟨c₃, second, implies c₁ c₃ left⟩

theorem performWord_draw (registers : c.state.registers.length = 16) (width : 0 < c.screen.width)
    (height : 0 < c.screen.height) (meant : draw.IsMeant w) (readable : c.Readable c.state.index w.n) (pc : Int) :
    performWord d pc w c = .ok () (c.withSprite w c.state.index) := by
  rw [performWord_of_isMeant d pc meant, draw_eq_flips d registers width height readable]
  rfl

theorem value_withSprite (registers : c.state.registers.length = 16) (w : Opcode) (a : Int) :
    (c.withSprite w a).state.value flagRegister = if (c.screen.overlaid (c.spriteOf w a)).2 then 1 else 0 := by
  have inside : flagRegister < c.state.registers.length := registers ▸ by decide
  rw [State.value, List.getD_eq_getElem?_getD, withSprite, List.getElem?_set_self inside]
  rfl

-- The flag register is the only one that a draw changes, and so a later draw is placed as if there had been none.
theorem value_withSprite_of_ne {i : Nat} (other : i ≠ flagRegister) :
    (c.withSprite w a).state.value i = c.state.value i := by
  rw [State.value, State.value, List.getD_eq_getElem?_getD, List.getD_eq_getElem?_getD, withSprite,
    List.getElem?_set_ne other.symm]

theorem PointedAt.value (pointed : c.PointedAt a c') (i : Nat) : c'.state.value i = c.state.value i := by
  rw [State.value, pointed.registers, State.value]

theorem PointedAt.spriteOf (pointed : c.PointedAt a c') (w : Opcode) (a' : Int) :
    c'.spriteOf w a' = c.spriteOf w a' := by
  rw [Core.spriteOf, Core.spriteOf, pointed.memory, pointed.value, pointed.value]

theorem spriteOf_withSprite (placed : Placed w') : (c.withSprite w a).spriteOf w' a' = c.spriteOf w' a' := by
  rw [spriteOf, spriteOf, value_withSprite_of_ne placed.x, value_withSprite_of_ne placed.y]
  rfl

-- Two draws leave the screen with both sprites on it, and flags that tell of their collisions.
theorem draws_overlaid (registers : c.state.registers.length = 16) (width : 0 < c.screen.width)
    (height : 0 < c.screen.height) (placed : Placed w) (placed' : Placed w') (readable : c.Readable a w.n)
    (readable' : c.Readable a' w'.n) :
    c.Draws d w a w' a' fun c₁ c₃ =>
      let drawn := c.screen.overlaid (c.spriteOf w a)
      let again := drawn.1.overlaid (c.spriteOf w' a')
      c₁.state.value flagRegister = (if drawn.2 then 1 else 0) ∧
        c₃.state.value flagRegister = (if again.2 then 1 else 0) ∧ c₃.screen = again.1 := by
  intro pc pc' c₀ pointed
  have alike := Screen.Alike.overlaid c.screen (c.spriteOf w a)
  have screen : (c₀.withSprite w a).screen = (c.screen.overlaid (c.spriteOf w a)).1 := by
    rw [withSprite, pointed.screen, pointed.spriteOf]
  have length : c₀.state.registers.length = 16 := pointed.registers ▸ registers
  have first := performWord_draw (d := d) length (pointed.screen ▸ width) (pointed.screen ▸ height) placed.meant
    (by rw [Readable, pointed.memory, pointed.index]; exact readable) pc
  rw [pointed.index] at first
  refine ⟨_, first, pointed.index, fun c₂ pointed' => ?_⟩
  have length' : c₂.state.registers.length = 16 := by
    rw [pointed'.registers]
    exact (List.length_set ..).trans length
  have sides : c₂.screen.Alike c.screen := by
    rw [pointed'.screen, screen]
    exact alike
  have memory : c₂.memory = c.memory := pointed'.memory.trans pointed.memory
  have second := performWord_draw (d := d) length' (sides.1 ▸ width) (sides.2 ▸ height) placed'.meant
    (by rw [Readable, memory, pointed'.index]; exact readable') pc'
  rw [pointed'.index] at second
  have sprite : c₂.spriteOf w' a' = c.spriteOf w' a' := by
    rw [pointed'.spriteOf, spriteOf_withSprite placed', pointed.spriteOf]
  refine ⟨_, second, ?_, ?_, ?_⟩
  case refine_1 => rw [value_withSprite length, pointed.screen, pointed.spriteOf]
  case refine_2 => rw [value_withSprite length', pointed'.screen, screen, sprite]
  case refine_3 => rw [withSprite, pointed'.screen, screen, sprite]

theorem spriteOf_ne_nil (w : Opcode)
    (set : ∃ row < w.n, ∃ column < 8, isSet (c.memory.byteAt (a + (row : Nat))) column = true) :
    c.spriteOf w a ≠ [] := by
  obtain ⟨row, hr, column, hc, set⟩ := set
  refine List.ne_nil_of_mem (List.mem_map_of_mem (a := (row, column)) (List.mem_filter.mpr ⟨?_, set⟩))
  exact List.mem_product.mpr ⟨List.mem_range.mpr hr, List.mem_range.mpr hc⟩

-- A sprite that is drawn twice at one place is gone, and if it is not blank, one of the two draws has told of a
-- collision. Two sprites leave the same screen in either order. Both hold on a screen of any size.
theorem draws_cancel_and_commute (d : Dialect) (registers : c.state.registers.length = 16)
    (width : 0 < c.screen.width) (height : 0 < c.screen.height) :
    (∀ w a, Placed w → c.Readable a w.n → c.Draws d w a w a fun c₁ c₃ => c₃.screen = c.screen ∧
      ((∃ row < w.n, ∃ column < 8, isSet (c.memory.byteAt (a + (row : Nat))) column = true) →
        c₁.state.value flagRegister = 1 ∨ c₃.state.value flagRegister = 1)) ∧
    ∀ w w' a a', Placed w → Placed w' → c.Readable a w.n → c.Readable a' w'.n → ∃ screen,
      c.Draws d w a w' a' (fun _ c₃ => c₃.screen = screen) ∧ c.Draws d w' a' w a fun _ c₃ => c₃.screen = screen := by
  constructor
  case left =>
    intro w a placed readable
    refine (draws_overlaid registers width height placed placed readable readable).imp ?_
    rintro c₁ c₃ ⟨flag, flag', screen⟩
    refine ⟨screen.trans (Screen.overlaid_self width height _), fun set => ?_⟩
    have hits := Screen.hit_overlaid_or width height (spriteOf_ne_nil w set)
    exact hits.imp (fun hit => by rw [flag, if_pos hit]) (fun hit => by rw [flag', if_pos hit])
  case right =>
    intro w w' a a' placed placed' readable readable'
    refine ⟨((c.screen.overlaid (c.spriteOf w a)).1.overlaid (c.spriteOf w' a')).1, ?_, ?_⟩
    case refine_1 =>
      refine (draws_overlaid registers width height placed placed' readable readable').imp ?_
      exact fun _ _ left => left.2.2
    case refine_2 =>
      refine (draws_overlaid registers width height placed' placed readable' readable).imp ?_
      exact fun _ _ left => left.2.2.trans (Screen.overlaid_comm width height ..)

-- The narrow screen with one register that is not zero, so that two sprites overlap each other and themselves.
def crowded : Core :=
  narrow.modifyState (·.put 1 1)

theorem crowded_draws :
    (∃ c₁ c₃, performWord {} 0 0xd001 crowded = .ok () c₁ ∧ performWord {} 2 0xd001 c₁ = .ok () c₃ ∧
      c₃.screen = crowded.screen ∧ (c₁.state.value flagRegister = 1 ∨ c₃.state.value flagRegister = 1)) ∧
    ∃ screen, (∃ c₁, performWord {} 0 0xd001 crowded = .ok () c₁ ∧
        ∃ c₃, performWord {} 2 0xd101 { c₁ with state := { c₁.state with index := 0 } } = .ok () c₃ ∧
          c₃.screen = screen) ∧
      ∃ c₁, performWord {} 0 0xd101 crowded = .ok () c₁ ∧
        ∃ c₃, performWord {} 2 0xd001 { c₁ with state := { c₁.state with index := 0 } } = .ok () c₃ ∧
          c₃.screen = screen := by
  have readable : crowded.Readable 0 1 := by
    intro row inside
    obtain rfl : row = 0 := by omega
    exact ⟨0xf0, rfl⟩
  have left : Placed 0xd001 := ⟨isMeant_of_decode (by decide +kernel), by decide, by decide⟩
  have right : Placed 0xd101 := ⟨isMeant_of_decode (by decide +kernel), by decide, by decide⟩
  have start : crowded.PointedAt 0 crowded := ⟨rfl, rfl, rfl, rfl⟩
  obtain ⟨cancel, commute⟩ := draws_cancel_and_commute (c := crowded) {} (by decide) (by decide) (by decide)
  constructor
  case left =>
    obtain ⟨c₁, first, index, again⟩ := cancel _ 0 left readable 0 2 _ start
    obtain ⟨c₃, second, screen, hits⟩ := again c₁ ⟨rfl, rfl, rfl, index⟩
    exact ⟨c₁, c₃, first, second, screen, hits ⟨0, by decide, 0, by decide, by decide⟩⟩
  case right =>
    obtain ⟨screen, order, order'⟩ := commute _ _ 0 0 left right readable readable
    obtain ⟨c₁, first, _, again⟩ := order 0 2 _ start
    obtain ⟨c₁', first', _, again'⟩ := order' 0 2 _ start
    exact ⟨screen, ⟨c₁, first, again _ ⟨rfl, rfl, rfl, rfl⟩⟩, c₁', first', again' _ ⟨rfl, rfl, rfl, rfl⟩⟩

end Core
end Chip8
