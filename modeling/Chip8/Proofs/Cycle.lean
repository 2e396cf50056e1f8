import Chip8.Proofs.Effect

namespace Chip8.Core

-- The word at the program counter, with zeros for bytes that have no cell.
def nextWord (c : Core) : Opcode :=
  .ofBytes (c.memory.byteAt c.state.pc) (c.memory.byteAt (c.state.pc + 1))

def fetchFailure? (c : Core) : Option Failure :=
  c.memory.shortage? c.state.pc 2

-- The core on which the fetched word is performed.
def fetched (c : Core) : Core :=
  c.modifyState fun s => { s with pc := word (s.pc + 2) }

def word? (c : Core) : Option Opcode :=
  if c.fetchFailure?.isSome then none else some c.nextWord

def failure? (c : Core) : Option Failure :=
  c.fetchFailure?.or <| match Operation.decode c.nextWord with
    | some op => op.failure? c.nextWord c.fetched
    | none => some (.fault (.unknownOpcode c.nextWord.toNat (some c.state.pc)))

def next (c : Core) (d : Dialect) : Core :=
  if c.fetchFailure?.isSome then c
  else match Operation.decode c.nextWord with
    | some op => op.after d c.nextWord c.fetched
    | none => c.fetched

variable {config : Config} {c : Core}

theorem Sound.fetched (h : c.Sound config) : c.fetched.Sound config :=
  h.jump (word_range _)

theorem Sound.next (h : c.Sound config) : (c.next config.dialect).Sound config := by
  simp only [Core.next]
  split
  case isTrue => exact h
  case isFalse =>
    split
    · exact h.fetched.after _
    · exact h.fetched

-- A source that has bytes does not run out of them.
theorem isEmpty_source_next (c : Core) (d : Dialect) :
    (c.next d).source.isEmpty = c.source.isEmpty := by
  simp only [next]
  split
  case isTrue => rfl
  case isFalse =>
    split
    case h_1 =>
      rw [Operation.after_source]
      split
      · exact c.source.isEmpty_next
      · rfl
    case h_2 => rfl

theorem next_progress (c : Core) (d : Dialect) :
    (c.next d).state.halted = c.state.halted ∧ (c.next d).state.cycles = c.state.cycles := by
  simp only [next]
  split
  case isTrue => exact ⟨rfl, rfl⟩
  case isFalse =>
    split
    case h_1 op _ => exact op.after_progress d c.nextWord c.fetched
    case h_2 => exact ⟨rfl, rfl⟩

open Chip8.Action in
theorem fetch_eq (h : c.Sound config) : fetch c = match c.fetchFailure? with
    | some e => .error e c
    | none => .ok c.nextWord c.fetched := by
  have pc := h.valid.pc.1
  simp only [fetch, fetchFailure?, Memory.shortage?, bind_of_ok (get_apply c)]
  -- The first byte without a cell is the high one, the low one or neither.
  by_cases short : c.memory.reach c.state.pc 2 < 2
  case pos =>
    have stop := Memory.not_reaches_add_reach short
    have address := Memory.add_reach short
    rw [if_pos short, ← address]
    by_cases high : c.memory.reach c.state.pc 2 = 0
    case pos =>
      rw [high, Int.natCast_zero, Int.add_zero] at stop ⊢
      rw [bind_of_error (readByte_of_not_reaches stop)]
    case neg =>
      have one : c.memory.reach c.state.pc 2 = 1 := by omega
      have reaches := Memory.reaches_of_lt_reach (i := 0) pc (Nat.pos_of_ne_zero high)
      rw [Int.natCast_zero, Int.add_zero] at reaches
      rw [one, Int.natCast_one] at stop ⊢
      rw [bind_of_ok (readByte_apply h.memory_pos reaches), bind_of_error (readByte_of_not_reaches stop)]
  case neg =>
    have two : c.memory.reach c.state.pc 2 = 2 := by
      have := c.memory.reach_le c.state.pc 2
      omega
    have high := Memory.reaches_of_lt_reach (m := c.memory) (n := 2) (i := 0) pc (by omega)
    have low := Memory.reaches_of_lt_reach (m := c.memory) (n := 2) (i := 1) pc (by omega)
    rw [Int.natCast_zero, Int.add_zero] at high
    rw [Int.natCast_one] at low
    rw [if_neg short, bind_of_ok (readByte_apply h.memory_pos high),
      bind_of_ok (readByte_apply h.memory_pos low)]
    rfl

theorem cycle_eq (h : c.Sound config) (d : Dialect) :
    c.cycle d = (c.word?, (c.next d).ended c.failure?) := by
  simp only [cycle, fetch_eq h, word?, next, failure?]
  cases c.fetchFailure? with
  | some e => rfl
  | none =>
    simp only [performWord]
    cases Operation.decode c.nextWord with
    | none => rfl
    | some op => exact congrArg _ (Operation.perform_eq h.fetched op)

end Chip8.Core
