import Chip8.Proofs.Footprint

namespace Chip8

-- A core that differs from another in its registers alone, and only in those that `changes` names.
structure Core.DiffersAt (c c' : Core) (changes : Nat → Prop) : Prop where
  length : c'.state.registers.length = c.state.registers.length
  registers : ∀ i : Nat, ¬ changes i → c'.state.registers[i]? = c.state.registers[i]?
  rest : c' = { c with state := { c.state with registers := c'.state.registers } }

namespace Operation

-- What an operation makes of two registers and the operand of a shift: a byte and a bit without loss.
def Balances (op : Operation) (vx vy operand result flag : Int) : Prop :=
  match op with
  | add => result + 256 * flag = vx + vy
  | subtract => result = vx - vy + 256 * (1 - flag)
  | subtractFrom => result = vy - vx + 256 * (1 - flag)
  | shiftRight => 2 * result + flag = operand
  | shiftLeft => result + 256 * flag = 2 * operand
  | _ => False

-- What an operation without a flag makes of two registers and its own byte.
def result? (op : Operation) (vx vy : Int) (nn : Nat) : Option Int :=
  match op with
  | loadByte => some nn
  | addByte => some ((vx + nn) % 256)
  | load => some vy
  | or => some ↑(vx.toNat ||| vy.toNat)
  | and => some ↑(vx.toNat &&& vy.toNat)
  | xor => some ↑(vx.toNat ^^^ vy.toNat)
  | _ => none

variable {op : Operation} {d : Dialect} {w : Opcode} {c : Core}

theorem byte_bitwise {f : UInt8 → UInt8 → UInt8} {g : Nat → Nat → Nat}
    (alike : ∀ a b, (f a b).toNat = g a.toNat b.toNat) {a b : Int} (ha : 0 ≤ a ∧ a ≤ 0xff) (hb : 0 ≤ b ∧ b ≤ 0xff) :
    byte (bitwise f a b) = ↑(g a.toNat b.toNat) := by
  have whole {n : Int} (hn : 0 ≤ n ∧ n ≤ 0xff) : (UInt8.ofInt n).toNat = n.toNat := by
    have same := toNat_ofInt_of_range hn
    omega
  have bound := (f (UInt8.ofInt a) (UInt8.ofInt b)).toNat_lt
  rw [← whole ha, ← whole hb, ← alike, bitwise, byte]
  omega

theorem put_differsAt (c : Core) (i : Nat) (v : Int) : c.DiffersAt (c.modifyState (·.put i v)) (· = i) where
  length := State.length_put i v
  registers _ other := State.getElem?_put v other
  rest := rfl

theorem setsFlag_differsAt (c : Core) (i : Nat) (v flag : Int) :
    c.DiffersAt (setsFlag c i v flag) fun j => j = i ∨ j = flagRegister where
  length := (State.length_put ..).trans (State.length_put ..)
  registers _ others := (State.getElem?_put _ (not_or.mp others).2).trans (State.getElem?_put _ (not_or.mp others).1)
  rest := rfl

-- The flag is written last, and so it is the one that stays.
theorem getElem?_setsFlag {i : Nat} (len : c.state.registers.length = 16) (hi : i < 16) (v flag : Int) :
    (setsFlag c i v flag).state.registers[flagRegister]? = some (byte flag) ∧
      (i ≠ flagRegister → (setsFlag c i v flag).state.registers[i]? = some (byte v)) := by
  have last : flagRegister < (c.state.put i v).registers.length := by
    rw [State.length_put, len]
    decide
  constructor
  case left => exact State.getElem?_put_self last flag
  case right =>
    intro other
    exact (State.getElem?_put flag other).trans (State.getElem?_put_self (len ▸ hi) v)

-- The result and the flag of an operation that has one, each cut down to a byte as it is written.
theorem exists_balance (h : c.state.HasBytes) (flagged : op ∈ [add, subtract, subtractFrom, shiftRight, shiftLeft]) :
    op.isArithmetic = true ∧ ∃ v flag, op.after d w c = setsFlag c w.x v flag ∧ (byte flag = 0 ∨ byte flag = 1) ∧
      op.Balances (c.state.value w.x) (c.state.value w.y) (c.state.value (shifted d w)) (byte v) (byte flag) := by
  have vx := h.value_range w.x_lt
  have vy := h.value_range w.y_lt
  have operand := h.value_range (shifted_lt d w)
  cases op
  case add | subtract | subtractFrom =>
    refine ⟨rfl, _, _, rfl, by split <;> decide, ?_⟩
    simp only [Balances, byte]
    split <;> omega
  case shiftRight | shiftLeft =>
    refine ⟨rfl, _, _, rfl, by simp only [byte]; omega, ?_⟩
    simp only [Balances, byte]
    omega
  all_goals simp at flagged

theorem after_of_result? (h : c.state.HasBytes) {v : Int}
    (result : op.result? (c.state.value w.x) (c.state.value w.y) w.nn = some v) :
    op.isArithmetic = true ∧ ∃ u, op.after d w c = c.modifyState (·.put w.x u) ∧ byte u = v := by
  have vx := h.value_range w.x_lt
  have vy := h.value_range w.y_lt
  have nn := w.nn_lt
  cases op <;> cases result
  case loadByte | load => exact ⟨rfl, _, rfl, by simp only [byte]; omega⟩
  case addByte => exact ⟨rfl, _, rfl, rfl⟩
  case or => exact ⟨rfl, _, rfl, byte_bitwise UInt8.toNat_or vx vy⟩
  case and => exact ⟨rfl, _, rfl, byte_bitwise UInt8.toNat_and vx vy⟩
  case xor => exact ⟨rfl, _, rfl, byte_bitwise UInt8.toNat_xor vx vy⟩

end Operation

namespace Core

open Operation

variable {c : Core}

-- Whichever registers it names, an operation with a flag loses nothing of its result, unless the flag takes its place.
-- One without a flag changes the one register that it is to change.
theorem arithmetic_balances (h : c.state.HasBytes) (d : Dialect) (pc : Int) (w : Opcode) :
    let vx := c.state.value w.x
    let vy := c.state.value w.y
    (∀ op ∈ [add, subtract, subtractFrom, shiftRight, shiftLeft], op.IsMeant w → ∃ result flag c',
      performWord d pc w c = .ok () c' ∧ (0 ≤ result ∧ result ≤ 0xff) ∧ (flag = 0 ∨ flag = 1) ∧
      op.Balances vx vy (if d.shiftSource = .vy then vy else vx) result flag ∧
      c'.state.registers[flagRegister]? = some flag ∧
      (w.x ≠ flagRegister → c'.state.registers[w.x]? = some result) ∧
      c.DiffersAt c' fun i => i = w.x ∨ i = flagRegister) ∧
    ∀ op : Operation, op.IsMeant w → ∀ result ∈ op.result? vx vy w.nn, ∃ c',
      performWord d pc w c = .ok () c' ∧ c'.state.registers[w.x]? = some result ∧ c.DiffersAt c' (· = w.x) := by
  intro vx vy
  constructor
  case left =>
    intro op flagged meant
    obtain ⟨arithmetic, v, flag, after, bit, balances⟩ := exists_balance (d := d) (w := w) h flagged
    obtain ⟨last, first⟩ := getElem?_setsFlag h.length w.x_lt v flag
    rw [shifted, apply_ite c.state.value] at balances
    refine ⟨byte v, byte flag, op.after d w c, ?_, byte_range v, bit, balances, ?_⟩
    case refine_1 => rw [performWord_of_isMeant d pc meant, perform_arithmetic h.length arithmetic]
    case refine_2 =>
      rw [after]
      exact ⟨last, first, setsFlag_differsAt c w.x v flag⟩
  case right =>
    intro op meant result computed
    obtain ⟨arithmetic, v, after, rfl⟩ := after_of_result? (d := d) h computed
    refine ⟨op.after d w c, ?_, ?_, ?_⟩
    case refine_1 => rw [performWord_of_isMeant d pc meant, perform_arithmetic h.length arithmetic]
    case refine_2 =>
      rw [after]
      exact State.getElem?_put_self (h.length ▸ w.x_lt) v
    case refine_3 => exact after ▸ put_differsAt c w.x v

-- A core whose first and last registers have a sum beyond a byte.
def laden : Core :=
  (Core.new (.small .strict) .zeros).modifyState fun s =>
    { s with registers := (s.registers.set 0 200).set 15 100 }

-- The flag takes the place of the sum.
theorem laden_balances : ∃ c', performWord (Config.small .strict).dialect 0x60 0x8f04 laden = .ok () c' ∧
    c'.state.registers[flagRegister]? = some 1 ∧ c'.state.registers[0]? = some 200 := by
  have bytes : laden.state.HasBytes := ⟨by decide +kernel, by decide +kernel⟩
  obtain ⟨flagged, _⟩ := arithmetic_balances bytes (Config.small .strict).dialect 0x60 0x8f04
  obtain ⟨result, flag, c', performed, range, bit, balances, last, _, differs⟩ :=
    flagged .add (by decide) (Operation.isMeant_of_decode (by decide +kernel))
  obtain ⟨vx, vy, first⟩ : laden.state.value (0x8f04 : Opcode).x = 100 ∧
      laden.state.value (0x8f04 : Opcode).y = 200 ∧ laden.state.registers[0]? = some 200 := by
    decide +kernel
  rw [vx, vy] at balances
  have carry : flag = 1 := by
    simp only [Operation.Balances] at balances
    omega
  refine ⟨c', performed, carry ▸ last, (differs.registers 0 ?_).trans first⟩
  decide +kernel

end Core
end Chip8
