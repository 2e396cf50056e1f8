namespace Chip8.Position

-- Only a number of 64 bits, with its sign, counts elements or names one.
def countable (i : Int) : Bool :=
  -0x8000000000000000 ≤ i && i < 0x8000000000000000

-- The place of an element in a sequence of the given length.
def element? (length : Nat) (i : Int) : Option (Fin length) :=
  if inside : 0 ≤ i ∧ i < length then some ⟨i.toNat, by omega⟩
  else if fromEnd : i < 0 ∧ 0 ≤ i + length then some ⟨(i + length).toNat, by omega⟩
  else none

-- The place of a cut in a sequence of the given length.
def cut (length : Nat) (i : Int) : Nat :=
  if i < 0 then (i + length).toNat else min i.toNat length

theorem element?_ofNat {length i : Nat} (h : i < length) : element? length i = some ⟨i, h⟩ := by
  simp [element?, h]

theorem cut_ofNat (length i : Nat) : cut length i = min i length := by
  simp [cut, show ¬ ((i : Int) < 0) by omega]

end Chip8.Position
