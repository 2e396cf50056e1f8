import Chip8.Random.Twister

namespace Chip8

inductive Source where
  | twister (t : Twister)
  -- Hands out given bytes in turn, around and around.
  | cycle (bytes : Array UInt8) (drawn : Nat)

namespace Source

def draw? : Source → Option (UInt8 × Source)
  | twister t =>
    let (b, t) := t.drawByte
    some (b, twister t)
  | cycle bytes drawn => bytes[drawn % bytes.size]?.map (·, cycle bytes (drawn + 1))

def isEmpty : Source → Bool
  | twister _ => false
  | cycle bytes _ => bytes.isEmpty

def ofSeed (seed : Int) : Source :=
  twister (Twister.ofSeed seed)

-- Hands out zeros.
def zeros : Source :=
  cycle #[0] 0

-- The source of a seed, or one of its own that a machine is given without a seed.
def seeded (unseeded : Source) (seed : Option Int) : Source :=
  seed.elim unseeded ofSeed

def next (s : Source) : Source :=
  s.draw?.elim s (·.2)

def after (s : Source) : Nat → Source
  | 0 => s
  | n + 1 => (s.after n).next

-- The byte of a draw, counted from zero.
def nth? (s : Source) (n : Nat) : Option UInt8 :=
  (s.after n).draw?.map (·.1)

theorem draw?_eq_none {s : Source} : s.draw? = none ↔ s.isEmpty = true := by
  cases s with
  | twister t => simp [draw?, isEmpty]
  | cycle bytes drawn =>
    by_cases empty : bytes = #[]
    · simp [draw?, isEmpty, empty]
    · have := Nat.mod_lt drawn (Array.size_pos_iff.mpr empty)
      simp [draw?, isEmpty, empty]
      omega

theorem isEmpty_next (s : Source) : s.next.isEmpty = s.isEmpty := by
  cases s with
  | twister t => rfl
  | cycle bytes drawn => cases h : bytes[drawn % bytes.size]? <;> simp [next, draw?, isEmpty, h]

theorem isEmpty_seeded {unseeded : Source} (draws : unseeded.isEmpty = false) (seed : Option Int) :
    (unseeded.seeded seed).isEmpty = false := by
  cases seed with
  | none => exact draws
  | some _ => rfl

theorem after_succ (s : Source) (n : Nat) : s.after (n + 1) = (s.after n).next :=
  rfl

theorem after_add (s : Source) (m n : Nat) : s.after (m + n) = (s.after m).after n := by
  induction n with
  | zero => rfl
  | succ n ih => rw [← Nat.add_assoc, after_succ, after_succ, ih]

end Source
end Chip8
