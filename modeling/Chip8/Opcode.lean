namespace Chip8

abbrev Opcode := UInt16

namespace Opcode

-- The word of the same residue modulo 65536.
def ofInt (n : Int) : Opcode :=
  UInt16.ofInt n

def ofBytes (high low : UInt8) : Opcode :=
  UInt16.ofNat (high.toNat * 256 + low.toNat)

def family (w : Opcode) : Nat :=
  w.toNat / 4096

def x (w : Opcode) : Nat :=
  w.toNat / 256 % 16

def y (w : Opcode) : Nat :=
  w.toNat / 16 % 16

def n (w : Opcode) : Nat :=
  w.toNat % 16

def nn (w : Opcode) : Nat :=
  w.toNat % 256

def nnn (w : Opcode) : Nat :=
  w.toNat % 4096

theorem toNat_ofBytes (high low : UInt8) :
    (ofBytes high low).toNat = high.toNat * 256 + low.toNat := by
  have := high.toNat_lt
  have := low.toNat_lt
  simp only [ofBytes, UInt16.toNat_ofNat']
  omega

-- The four digits make up the word.
theorem toNat_eq_digits (w : Opcode) :
    w.toNat = 4096 * w.family + 256 * w.x + 16 * w.y + w.n := by
  have := w.toNat_lt
  unfold family x y n
  omega

theorem family_lt (w : Opcode) : w.family < 16 := by
  have := w.toNat_lt
  unfold family
  omega

theorem x_lt (w : Opcode) : w.x < 16 :=
  Nat.mod_lt _ (by omega)

theorem y_lt (w : Opcode) : w.y < 16 :=
  Nat.mod_lt _ (by omega)

theorem nnn_lt (w : Opcode) : w.nnn < 4096 :=
  Nat.mod_lt _ (by omega)

end Opcode
end Chip8
