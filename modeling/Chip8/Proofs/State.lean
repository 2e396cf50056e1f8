import Chip8.Config
import Chip8.State

namespace Chip8

theorem toNat_ofInt_emod (n : Int) : ((UInt8.ofInt n).toNat : Int) = n % 0x100 := by
  rw [UInt8.ofInt, UInt8.toNat_ofNat']
  omega

theorem toNat_ofInt_of_range {n : Int} (h : 0 ≤ n ∧ n ≤ 0xff) : ((UInt8.ofInt n).toNat : Int) = n := by
  rw [toNat_ofInt_emod]
  omega

namespace State

-- Sixteen registers, each with a byte.
structure HasBytes (s : State) : Prop where
  length : s.registers.length = 16
  bytes : ∀ v ∈ s.registers, 0 ≤ v ∧ v ≤ 0xff

-- The value of a register, zero if there is none.
def value (s : State) (i : Nat) : Int :=
  s.registers.getD i 0

-- Stores the low byte of a value in a register.
def put (s : State) (i : Nat) (value : Int) : State :=
  { s with registers := s.registers.set i (byte value) }

-- Puts bytes into the first registers.
def load (s : State) (bytes : List UInt8) : State :=
  { s with registers := bytes.map (fun b => (b.toNat : Int)) ++ s.registers.drop bytes.length }

def advance (s : State) (d : Dialect) (count : Nat) : State :=
  if d.advancesIndex then { s with index := word (s.index + count) } else s

variable {s : State}

-- A skip changes the program counter alone.
theorem skipIf_eq (s : State) (b : Bool) :
    (if b then s.skip else s) = { s with pc := if b then word (s.pc + 2) else s.pc } := by
  cases b <;> rfl

-- An advance changes the index register alone.
theorem advance_eq (s : State) (d : Dialect) (count : Nat) :
    s.advance d count = { s with index := if d.advancesIndex then word (s.index + count) else s.index } := by
  rw [advance]
  split <;> rfl

@[simp] theorem length_put (i : Nat) (v : Int) : (s.put i v).registers.length = s.registers.length := by
  simp [put]

theorem value_eq_getElem {i : Nat} (h : i < s.registers.length) : s.value i = s.registers[i] := by
  rw [value, List.getD_eq_getElem?_getD, List.getElem?_eq_getElem h]
  rfl

theorem element_registers {i : Nat} (h : i < s.registers.length) :
    element s.registers i = .ok (s.value i) := by
  simp [element, value, h]

theorem setRegister_eq {i : Nat} (v : Int) (h : s.registers.length = 16) (hi : i < 16) :
    s.setRegister i v = .ok (s.put i v) := by
  have place : registerPlace i = .ok i := by
    rw [registerPlace, if_pos (by omega)]
    rfl
  rw [setRegister, place]
  simp [bind, Except.bind, setElement, h, hi, put, pure, Except.pure]

theorem setFlag_eq (v : Int) (h : s.registers.length = 16) : s.setFlag v = .ok (s.put flagRegister v) := by
  simp [setFlag, setElement, h, flagRegister, put, bind, Except.bind, pure, Except.pure]

-- One more byte goes into the next register.
theorem load_concat (bytes : List UInt8) (h : bytes.length < s.registers.length) (b : UInt8) :
    s.load (bytes ++ [b]) =
      { s.load bytes with registers := (s.load bytes).registers.set bytes.length b.toNat } := by
  have rest : s.registers.drop bytes.length =
      s.registers[bytes.length] :: s.registers.drop (bytes.length + 1) :=
    List.drop_eq_getElem_cons h
  simp [load]
  rw [rest]
  rfl

-- Loading values that are bytes leaves the values.
theorem load_ofInt {vs : List Int} (bytes : ∀ v ∈ vs, 0 ≤ v ∧ v ≤ 0xff) :
    s.load (vs.map UInt8.ofInt) = { s with registers := vs ++ s.registers.drop vs.length } := by
  have same : (vs.map UInt8.ofInt).map (fun b => (b.toNat : Int)) = vs := by
    rw [List.map_map]
    exact (List.map_congr_left fun v hv => toNat_ofInt_of_range (bytes v hv)).trans (List.map_id vs)
  rw [load, same, List.length_map]

theorem HasBytes.value_range (h : s.HasBytes) {i : Nat} (hi : i < 16) : 0 ≤ s.value i ∧ s.value i ≤ 0xff := by
  have hi : i < s.registers.length := h.length ▸ hi
  rw [value_eq_getElem hi]
  exact h.bytes _ (List.getElem_mem hi)

namespace Valid

theorem hasBytes (h : s.Valid) : s.HasBytes :=
  ⟨h.registers, h.bytes⟩

theorem value_range (h : s.Valid) {i : Nat} (hi : i < 16) : 0 ≤ s.value i ∧ s.value i ≤ 0xff :=
  h.hasBytes.value_range hi

protected theorem put (h : s.Valid) (i : Nat) (v : Int) : (s.put i v).Valid :=
  { h with
    registers := by rw [length_put, h.registers]
    bytes := by
      intro b hb
      cases List.mem_or_eq_of_mem_set hb
      case inl hb => exact h.bytes b hb
      case inr hb => exact hb ▸ byte_range v }

theorem jump (h : s.Valid) {a : Int} (ha : 0 ≤ a ∧ a ≤ 0xffff) : { s with pc := a }.Valid :=
  { h with pc := ha }

protected theorem skip (h : s.Valid) : s.skip.Valid :=
  h.jump (word_range _)

theorem withIndex (h : s.Valid) {a : Int} (ha : 0 ≤ a ∧ a ≤ 0xffff) : { s with index := a }.Valid :=
  { h with index := ha }

protected theorem advance (h : s.Valid) (d : Dialect) (count : Nat) : (s.advance d count).Valid := by
  unfold State.advance
  split
  · exact h.withIndex (word_range _)
  · exact h

protected theorem load (h : s.Valid) {bytes : List UInt8} (fits : bytes.length ≤ 16) :
    (s.load bytes).Valid :=
  { h with
    registers := by
      have := h.registers
      simp [State.load]
      omega
    bytes := by
      intro v hv
      cases List.mem_append.mp hv
      case inl hv =>
        have ⟨b, _, hb⟩ := List.mem_map.mp hv
        have := b.toNat_lt
        omega
      case inr hv => exact h.bytes v (List.mem_of_mem_drop hv) }

-- Time only lowers the timers, and not below zero.
protected theorem elapse (h : s.Valid) (periods : Int) : (s.elapse periods).1.Valid := by
  have delay := h.delayTimer
  have sound := h.soundTimer
  unfold State.elapse
  split
  case isTrue => exact h
  case isFalse late =>
    refine { h with delayTimer := ?_, soundTimer := ?_ }
    · dsimp only
      omega
    · dsimp only
      split <;> omega

end Valid

end State
end Chip8
