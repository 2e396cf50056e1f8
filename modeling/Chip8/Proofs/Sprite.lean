import Chip8.Proofs.Effect
import Mathlib.Algebra.Ring.Parity
import Mathlib.Data.List.ProdSigma

namespace Chip8

namespace Screen

-- How many of the given coordinates name the pixel that is named here.
def landings (s : Screen) (points : List (Int × Int)) (x y : Int) : Nat :=
  points.countP fun p => s.spot p.1 p.2 = s.spot x y

-- Whether a pixel is lit when it is inverted: to begin with, or after it has been inverted once.
def Collides (s : Screen) (points : List (Int × Int)) (x y : Int) : Prop :=
  1 ≤ s.landings points x y ∧ s.lit x y = true ∨ 2 ≤ s.landings points x y

namespace Drawing

-- Inverts a pixel for each of the given coordinates.
def flips (p : Drawing) (points : List (Int × Int)) : Drawing :=
  points.foldl (fun p q => p.flip q.1 q.2) p

theorem flips_append (p : Drawing) (points points' : List (Int × Int)) :
    p.flips (points ++ points') = (p.flips points).flips points' :=
  List.foldl_append

-- The coordinates of the set bits of a row.
theorem row_eq_flips (p : Drawing) (x y : Int) (bits : UInt8) : p.row x y bits =
    p.flips (((List.range 8).filter (Operation.isSet bits ·)).map fun (column : Nat) => (x + column, y)) := by
  rw [row, flips, List.foldl_map, List.foldl_filter]
  rfl

end Drawing

variable {s : Screen} {p : Drawing} {points : List (Int × Int)} {x y : Int}

theorem Alike.spot {t : Screen} (alike : s.Alike t) : s.spot = t.spot := by
  funext x y
  rw [Screen.spot, Screen.spot, alike.1, alike.2]

theorem Alike.landings {t : Screen} (alike : s.Alike t) : s.landings points = t.landings points := by
  funext x y
  rw [Screen.landings, Screen.landings, alike.spot]

theorem landings_cons (s : Screen) (points : List (Int × Int)) (q : Int × Int) (x y : Int) :
    s.landings (q :: points) x y = s.landings points x y + if s.spot q.1 q.2 = s.spot x y then 1 else 0 := by
  simp only [landings, List.countP_cons, decide_eq_true_eq]

-- A pixel that takes an odd number of bits is inverted.
theorem lit_flips (w : 0 < p.1.width) (h : 0 < p.1.height) (points : List (Int × Int)) (x y : Int) :
    (p.flips points).1.lit x y = (p.1.lit x y ^^ Odd (p.1.landings points x y)) := by
  induction points generalizing p with
  | nil => simp [Drawing.flips, landings]
  | cons q points ih =>
    have alike := Alike.flip p.1 q.1 q.2
    have rest := ih (p := p.flip q.1 q.2) (alike.1 ▸ w) (alike.2 ▸ h)
    have first : (p.flip q.1 q.2).1.lit x y = (p.1.lit x y ^^ (p.1.spot q.1 q.2 = p.1.spot x y)) := lit_flip w h ..
    have later : (p.flip q.1 q.2).1.landings points x y = p.1.landings points x y := congrFun₂ alike.landings x y
    rw [first, later] at rest
    refine rest.trans ?_
    rw [landings_cons]
    by_cases here : p.1.spot q.1 q.2 = p.1.spot x y
    case pos =>
      have odd : decide (Odd (p.1.landings points x y + 1)) = !decide (Odd (p.1.landings points x y)) := by
        rw [← decide_not, decide_eq_decide, Nat.odd_add_one]
      rw [if_pos here, odd, decide_eq_true here, Bool.xor_true, Bool.not_xor, Bool.xor_not]
    case neg => simp [here]

-- The first pixel is lit when it is inverted, or else one of the others is.
theorem collides_cons_iff (w : 0 < s.width) (h : 0 < s.height) (q : Int × Int) :
    (∃ x y, s.Collides (q :: points) x y) ↔
      s.lit q.1 q.2 = true ∨ ∃ x y, (s.flip q.1 q.2).Collides points x y := by
  have landings (x y : Int) : (s.flip q.1 q.2).landings points x y = s.landings points x y :=
    congrFun₂ (Alike.flip ..).landings x y
  have apart {x y : Int} (other : s.spot q.1 q.2 ≠ s.spot x y) :
      (s.flip q.1 q.2).Collides points x y ↔ s.Collides (q :: points) x y := by
    simp [Collides, landings, landings_cons, lit_flip w h, other]
  constructor
  case mp =>
    rintro ⟨x, y, collides⟩
    by_cases here : s.spot q.1 q.2 = s.spot x y
    case pos =>
      have same := lit_of_spot_eq w h _ _ here
      simp only [Collides, landings_cons, if_pos here] at collides
      cases lit : s.lit x y with
      | true => exact .inl (same.trans lit)
      | false =>
        refine .inr ⟨x, y, .inl ⟨?_, ?_⟩⟩
        · rw [landings]
          simp only [lit, Bool.false_eq_true, and_false, false_or] at collides
          omega
        · simp [lit_flip w h, lit, here]
    case neg => exact .inr ⟨x, y, (apart here).mpr collides⟩
  case mpr =>
    rintro (lit | ⟨x, y, collides⟩)
    case inl => exact ⟨q.1, q.2, .inl ⟨by simp [landings_cons], lit⟩⟩
    case inr =>
      refine ⟨x, y, ?_⟩
      by_cases here : s.spot q.1 q.2 = s.spot x y
      case pos =>
        simp only [Collides, landings] at collides
        refine .inr ?_
        rw [landings_cons, if_pos here]
        omega
      case neg => exact (apart here).mp collides

theorem hit_flips (w : 0 < p.1.width) (h : 0 < p.1.height) (points : List (Int × Int)) :
    (p.flips points).2 = true ↔ p.2 = true ∨ ∃ x y, p.1.Collides points x y := by
  induction points generalizing p with
  | nil => simp [Drawing.flips, Collides, landings]
  | cons q points ih =>
    have alike := Alike.flip p.1 q.1 q.2
    have rest := ih (p := p.flip q.1 q.2) (alike.1 ▸ w) (alike.2 ▸ h)
    have first : (p.flip q.1 q.2).2 = true ↔ p.1.lit q.1 q.2 = true ∨ p.2 = true :=
      iff_of_eq (Bool.or_eq_true ..)
    refine rest.trans ?_
    rw [first, collides_cons_iff w h, or_comm (a := p.1.lit ..), or_assoc]
    rfl

-- The coordinates of a pixel as a host numbers them.
def Contains (s : Screen) (x y : Int) : Prop :=
  (0 ≤ x ∧ x < s.width) ∧ 0 ≤ y ∧ y < s.height

instance (s : Screen) (x y : Int) : Decidable (s.Contains x y) :=
  inferInstanceAs (Decidable (_ ∧ _))

theorem Contains.spot (inside : s.Contains x y) : s.spot x y = (x, y) :=
  Prod.ext (Int.emod_eq_of_lt inside.1.1 inside.1.2) (Int.emod_eq_of_lt inside.2.1 inside.2.2)

theorem contains_spot (w : 0 < s.width) (h : 0 < s.height) (x y : Int) : s.Contains (s.spot x y).1 (s.spot x y).2 :=
  ⟨⟨Int.emod_nonneg x (Int.ne_of_gt w), Int.emod_lt_of_pos x w⟩,
    Int.emod_nonneg y (Int.ne_of_gt h), Int.emod_lt_of_pos y h⟩

-- A collision happens on a pixel of the screen.
theorem exists_collides_iff (w : 0 < s.width) (h : 0 < s.height) (points : List (Int × Int)) :
    (∃ x y, s.Collides points x y) ↔ ∃ x y, s.Contains x y ∧ s.Collides points x y := by
  constructor
  case mp =>
    rintro ⟨x, y, collides⟩
    have inside := contains_spot w h x y
    have same : s.spot (s.spot x y).1 (s.spot x y).2 = s.spot x y := inside.spot
    refine ⟨_, _, inside, ?_⟩
    rw [Collides, landings, same, lit_of_spot_eq w h _ _ same]
    exact collides
  case mpr =>
    rintro ⟨x, y, _, collides⟩
    exact ⟨x, y, collides⟩

end Screen

namespace Operation

-- The coordinates of the set bits of a sprite that has its rows in memory from an address on.
def sprite (m : Memory) (address : Int) (n : Nat) (x y : Int) : List (Int × Int) :=
  ((List.range n ×ˢ List.range 8).filter fun p => isSet (m.byteAt (address + p.1)) p.2).map fun p =>
    (x + p.2, y + p.1)

-- How many set bits of the sprite of a draw come to lie on a pixel.
def hits (w : Opcode) (c : Core) (x y : Int) : Nat :=
  (List.range w.n ×ˢ List.range 8).countP fun p => isSet (c.memory.byteAt (c.state.index + p.1)) p.2 &&
    decide (((c.state.value w.x + p.2) % c.screen.width, (c.state.value w.y + p.1) % c.screen.height) = (x, y))

variable {m : Memory} {a x y : Int} {w : Opcode} {c : Core}

theorem sprite_succ (n : Nat) : sprite m a (n + 1) x y = sprite m a n x y ++
    ((List.range 8).filter (isSet (m.byteAt (a + n)) ·)).map fun (column : Nat) => (x + column, y + n) := by
  have product : List.range (n + 1) ×ˢ List.range 8 = List.range n ×ˢ List.range 8 ++ (List.range 8).map (n, ·) := by
    simp [SProd.sprod, List.product, List.range_succ]
  rw [sprite, product, List.filter_append, List.map_append, List.filter_map, List.map_map]
  rfl

theorem rows_eq_flips (p : Screen.Drawing) (n : Nat) :
    p.rows x y (m.bytesFrom a n) = p.flips (sprite m a n x y) := by
  induction n with
  | zero => rfl
  | succ n ih =>
    rw [Memory.bytesFrom_succ, Screen.Drawing.rows_concat, Memory.length_bytesFrom, ih, sprite_succ,
      Screen.Drawing.flips_append, Screen.Drawing.row_eq_flips]

theorem hits_eq_landings (inside : c.screen.Contains x y) : hits w c x y =
    c.screen.landings (sprite c.memory c.state.index w.n (c.state.value w.x) (c.state.value w.y)) x y := by
  rw [hits, Screen.landings, sprite, List.countP_map, List.countP_filter, inside.spot]
  refine congrArg (List.countP · _) (funext fun p => ?_)
  rw [Bool.and_comm]
  rfl

open Chip8.Action in
-- A draw whose rows can all be read leaves the sprite on the screen and a flag, and nothing else.
theorem draw_eq_flips (d : Dialect) (registers : c.state.registers.length = 16) (width : 0 < c.screen.width)
    (height : 0 < c.screen.height) (reads : ∀ row < w.n, ∃ b, c.memory.read (c.state.index + (row : Nat)) = .ok b) :
    let drawn := Screen.Drawing.flips (c.screen, false)
      (sprite c.memory c.state.index w.n (c.state.value w.x) (c.state.value w.y))
    draw.perform d w c = .ok () { c with
      screen := drawn.1
      state := { c.state with registers := c.state.registers.set flagRegister (if drawn.2 then 1 else 0) } } := by
  intro drawn
  have x := register_apply registers w.x_lt
  have y := register_apply registers w.y_lt
  have rows : drawRows (c.state.value w.x) (c.state.value w.y) c.state.index w.n c =
      .ok drawn.2 { c with screen := drawn.1 } := by
    refine (drawRows_upTo (e := .noElement) width height (Nat.le_refl w.n) ?_
      (absurd · (Nat.lt_irrefl _))).trans ?_
    case refine_1 =>
      intro row inside
      obtain ⟨b, read⟩ := reads row inside
      simp only [Memory.byteAt, read]
    case refine_2 => rw [if_neg (Nat.lt_irrefl _), rows_eq_flips]
  have flag : byte (if drawn.2 then 1 else 0) = if drawn.2 then 1 else 0 := by
    cases drawn.2 <;> rfl
  simp only [perform, bind_of_ok x, bind_of_ok y, bind_of_ok (get_apply c)]
  rw [bind_of_ok rows, setFlag_apply _ (by exact registers), State.put, flag]

-- A draw in closed form, on a screen of any size, whatever the registers and memory hold, as long as its rows can be
-- read: a pixel is inverted if it takes an odd number of bits, and the flag tells whether one was lit when it was.
theorem draw_closed_form (d : Dialect) (registers : c.state.registers.length = 16) (width : 0 < c.screen.width)
    (height : 0 < c.screen.height) (reads : ∀ row < w.n, ∃ b, c.memory.read (c.state.index + (row : Nat)) = .ok b) :
    ∃ screen hit, draw.perform d w c = .ok () { c with
        screen := screen
        state := { c.state with registers := c.state.registers.set flagRegister (if hit then 1 else 0) } } ∧
      screen.width = c.screen.width ∧ screen.height = c.screen.height ∧
      (∀ x y, c.screen.Contains x y → ∃ old, c.screen.read x y = .ok old ∧
        screen.read x y = .ok (old ^^ Odd (hits w c x y))) ∧
      (hit = true ↔ ∃ x y, c.screen.Contains x y ∧
        (1 ≤ hits w c x y ∧ c.screen.read x y = .ok true ∨ 2 ≤ hits w c x y)) := by
  let p : Screen.Drawing := (c.screen, false)
  let points := sprite c.memory c.state.index w.n (c.state.value w.x) (c.state.value w.y)
  have alike : (p.flips points).1.Alike c.screen := rows_eq_flips p w.n ▸ Screen.Alike.rows ..
  have performed : draw.perform d w c = _ := draw_eq_flips d registers width height reads
  refine ⟨_, _, performed, alike.1, alike.2, ?_, ?_⟩
  case refine_1 =>
    intro x y inside
    refine ⟨_, Screen.read_eq width height x y, ?_⟩
    rw [Screen.read_eq (alike.1 ▸ width) (alike.2 ▸ height), hits_eq_landings inside]
    exact congrArg _ (Screen.lit_flips (p := p) width height points x y)
  case refine_2 =>
    refine (Screen.hit_flips (p := p) width height points).trans ?_
    simp only [p, Bool.false_eq_true, false_or]
    rw [Screen.exists_collides_iff width height]
    refine exists_congr fun x => exists_congr fun y => and_congr_right fun inside => ?_
    rw [hits_eq_landings inside, Screen.read_eq width height, Except.ok.injEq]
    rfl

-- A core with one byte of memory and three columns of pixels, too few for the four bits of the byte.
def narrow : Core where
  state := .initial 0 1
  memory := ⟨#[0xf0], false⟩
  screen := .dark 3 2
  keys := .empty
  wait := none
  source := .zeros

-- The fourth bit comes to lie on the first one and inverts it again, which is a collision on a dark screen.
theorem narrow_collides : ∃ c, draw.perform {} 0xd001 narrow = .ok () c ∧
    c.state.value flagRegister = 1 ∧ c.screen.read 0 0 = .ok false ∧ c.screen.read 1 0 = .ok true := by
  have reads : ∀ row < Opcode.n 0xd001, ∃ b, narrow.memory.read (narrow.state.index + (row : Nat)) = .ok b := by
    intro row inside
    obtain rfl : row = 0 := by
      have one : Opcode.n 0xd001 = 1 := by decide
      omega
    exact ⟨0xf0, rfl⟩
  obtain ⟨screen, hit, performed, _, _, pixels, flag⟩ := draw_closed_form {} (by decide) (by decide) (by decide) reads
  have twice : hits 0xd001 narrow 0 0 = 2 := by decide +kernel
  have once : hits 0xd001 narrow 1 0 = 1 := by decide +kernel
  have first : narrow.screen.Contains 0 0 := by decide
  have second : narrow.screen.Contains 1 0 := by decide
  have collides : hit = true := flag.mpr ⟨0, 0, first, .inr (Nat.le_of_eq twice.symm)⟩
  refine ⟨_, performed, ?_, ?_, ?_⟩
  case refine_1 =>
    rw [collides]
    rfl
  case refine_2 =>
    obtain ⟨old, dark, read⟩ := pixels 0 0 first
    cases dark
    rw [twice] at read
    exact read
  case refine_3 =>
    obtain ⟨old, dark, read⟩ := pixels 1 0 second
    cases dark
    rw [once] at read
    exact read

end Operation
end Chip8
