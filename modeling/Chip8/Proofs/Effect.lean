import Chip8.Proofs.Action
import Chip8.Proofs.Keypad

namespace Chip8

def Core.modifyState (c : Core) (f : State → State) : Core :=
  { c with state := f c.state }

namespace Operation

def failure? (op : Operation) (w : Opcode) (c : Core) : Option Failure :=
  match op with
  | hostRoutine => some (.fault (.hostRoutine w.toNat (some (Chip8.word (c.state.pc - 2)))))
  | ret => if c.state.calls = [] then some (.fault .stackUnderflow) else none
  | call =>
    if c.state.stackDepth ≤ c.state.calls.length then
      some (.fault (.stackOverflow c.state.stackDepth))
    else none
  | skipHeld | skipReleased =>
    if 15 < c.state.value w.x then some (.fault (.invalidKey (c.state.value w.x))) else none
  | random => if c.source.isEmpty then some .zeroModulus else none
  | storeDigits => c.memory.shortage? c.state.index 3
  | storeRegisters | loadRegisters => c.memory.shortage? c.state.index (w.x + 1)
  | draw => c.memory.shortage? c.state.index w.n
  | _ => none

-- Whether an operation computes a register from registers and its own byte.
def isArithmetic : Operation → Bool
  | loadByte | addByte | load | or | and | xor | add | subtract | subtractFrom | shiftRight | shiftLeft => true
  | _ => false

-- The register that a shift takes its operand from.
def shifted (d : Dialect) (w : Opcode) : Nat :=
  if d.shiftSource = .vy then w.y else w.x

theorem shifted_lt (d : Dialect) (w : Opcode) : shifted d w < 16 := by
  rw [shifted]
  split
  · exact w.y_lt
  · exact w.x_lt

def setsFlag (c : Core) (i : Nat) (result flag : Int) : Core :=
  c.modifyState fun s => (s.put i result).put flagRegister flag

-- The three decimal digits of a byte.
def digits (n : Int) : List Int :=
  [n / 100, n / 10 % 10, n % 10]

-- The sprite of a draw, as far as memory goes, on the screen.
def drawing (w : Opcode) (c : Core) : Screen.Drawing :=
  let bytes := c.memory.bytesFrom c.state.index (c.memory.reach c.state.index w.n)
  Screen.Drawing.rows (c.screen, false) (c.state.value w.x) (c.state.value w.y) bytes

theorem drawing_alike (w : Opcode) (c : Core) : (drawing w c).1.Alike c.screen :=
  Screen.Alike.rows (c.screen, false) _ _ _

def after (op : Operation) (d : Dialect) (w : Opcode) (c : Core) : Core :=
  let vx := c.state.value w.x
  let vy := c.state.value w.y
  let finished (after : Core) (f : State → State) : Core :=
    if (op.failure? w c).isSome then after else after.modifyState f
  match op with
  | hostRoutine => c
  | clearScreen => { c with screen := c.screen.clear }
  | ret => match c.state.calls with
    | [] => c
    | address :: calls => c.modifyState fun s => { s with pc := address, calls := calls }
  | jump => c.modifyState fun s => { s with pc := w.nnn }
  | call => finished c fun s => { s with pc := w.nnn, calls := s.pc :: s.calls }
  | jumpOffset => c.modifyState fun s => { s with pc := Chip8.word (w.nnn + s.value 0) }
  | skipEqualByte => c.modifyState fun s => if vx == w.nn then s.skip else s
  | skipUnequalByte => c.modifyState fun s => if vx != w.nn then s.skip else s
  | skipEqual => c.modifyState fun s => if vx == vy then s.skip else s
  | skipUnequal => c.modifyState fun s => if vx != vy then s.skip else s
  | skipHeld => finished c fun s => if c.keys.holds vx then s.skip else s
  | skipReleased => finished c fun s => if !c.keys.holds vx then s.skip else s
  | loadByte => c.modifyState fun s => s.put w.x w.nn
  | addByte => c.modifyState fun s => s.put w.x (vx + w.nn)
  | load => c.modifyState fun s => s.put w.x vy
  | or => c.modifyState fun s => s.put w.x (bitwise (· ||| ·) vx vy)
  | and => c.modifyState fun s => s.put w.x (bitwise (· &&& ·) vx vy)
  | xor => c.modifyState fun s => s.put w.x (bitwise (· ^^^ ·) vx vy)
  | add => setsFlag c w.x (vx + vy) (if vx + vy > 0xff then 1 else 0)
  | subtract => setsFlag c w.x (vx - vy) (if vx - vy < 0 then 0 else 1)
  | subtractFrom => setsFlag c w.x (vy - vx) (if vy - vx < 0 then 0 else 1)
  | shiftRight =>
    let value := c.state.value (shifted d w)
    setsFlag c w.x (value / 2) (value % 2)
  | shiftLeft =>
    let value := c.state.value (shifted d w)
    setsFlag c w.x (2 * value) (value / 128 % 2)
  | random => match c.source.draw? with
    | some (b, source) => { c with
      state := c.state.put w.x (b &&& UInt8.ofNat w.nn).toNat
      source := source }
    | none => c
  | loadIndex => c.modifyState fun s => { s with index := w.nnn }
  | addIndex => c.modifyState fun s => { s with index := Chip8.word (s.index + vx) }
  | loadGlyph => c.modifyState fun s => { s with index := d.fontAddress + vx % 16 * glyphSize }
  | storeDigits => { c with memory := c.memory.store c.state.index ((digits vx).take
      (c.memory.reach c.state.index 3)) }
  | storeRegisters =>
    let stored := c.state.registers.take (c.memory.reach c.state.index (w.x + 1))
    finished { c with memory := c.memory.store c.state.index stored } (·.advance d (w.x + 1))
  | loadRegisters =>
    let bytes := c.memory.bytesFrom c.state.index (c.memory.reach c.state.index (w.x + 1))
    finished (c.modifyState (·.load bytes)) (·.advance d (w.x + 1))
  | draw =>
    let (screen, hit) := drawing w c
    finished { c with screen := screen } (·.put flagRegister (if hit then 1 else 0))
  | loadDelay => c.modifyState fun s => s.put w.x s.delayTimer
  | setDelay => c.modifyState fun s => { s with delayTimer := vx }
  | setSound => c.modifyState fun s => { s with soundTimer := vx }
  | awaitKey =>
    let (key, wait) := c.keys.poll c.wait
    { c with
      state := match key with
        | some key => c.state.put w.x key
        | none => { c.state with pc := Chip8.word (c.state.pc - 2) }
      wait := wait }

-- Bytes are drawn by one operation, and one at a time.
theorem after_source (op : Operation) (d : Dialect) (w : Opcode) (c : Core) :
    (op.after d w c).source = if op = random then c.source.next else c.source := by
  cases op <;> simp only [after, reduceCtorEq, if_false, if_true]
  case ret => split <;> rfl
  case random =>
    rw [Source.next]
    cases c.source.draw? <;> rfl
  case call | skipHeld | skipReleased | storeRegisters | loadRegisters | draw => split <;> rfl
  all_goals rfl

-- The screen changes under two operations alone.
theorem after_screen (op : Operation) (d : Dialect) (w : Opcode) (c : Core) :
    (op.after d w c).screen = if op = clearScreen then c.screen.clear
      else if op = draw then (drawing w c).1 else c.screen := by
  cases op <;> simp only [after, reduceCtorEq, if_false, if_true]
  case ret | random => split <;> rfl
  case call | skipHeld | skipReleased | storeRegisters | loadRegisters | draw => split <;> rfl
  all_goals rfl

-- The values that an operation stores, in the cells from the index register on.
def stored (op : Operation) (w : Opcode) (c : Core) : List Int :=
  match op with
  | storeDigits => (digits (c.state.value w.x)).take (c.memory.reach c.state.index 3)
  | storeRegisters => c.state.registers.take (c.memory.reach c.state.index (w.x + 1))
  | _ => []

-- Memory changes under two operations alone.
theorem after_memory (op : Operation) (d : Dialect) (w : Opcode) (c : Core) :
    (op.after d w c).memory = c.memory.store c.state.index (op.stored w c) := by
  cases op <;> simp only [after, stored, Memory.store]
  case ret | random => split <;> rfl
  case call | skipHeld | skipReleased | storeRegisters | loadRegisters | draw => split <;> rfl
  all_goals rfl

-- An operation neither halts the processor nor counts itself.
theorem after_progress (op : Operation) (d : Dialect) (w : Opcode) (c : Core) :
    (op.after d w c).state.halted = c.state.halted ∧ (op.after d w c).state.cycles = c.state.cycles := by
  cases op <;> simp only [after, Core.modifyState, State.skipIf_eq, State.advance_eq, and_self]
  case ret | call | skipHeld | skipReleased | random | storeRegisters | loadRegisters | draw | awaitKey =>
    split <;> exact ⟨rfl, rfl⟩
  all_goals exact ⟨rfl, rfl⟩

section

open Chip8.Action

variable {config : Config} {c : Core} {d : Dialect} {w : Opcode}

-- What follows an action is done unless the action has failed.
theorem ended_failing {x : Action Unit} {c' : Core} {f : State → State} {e : Option Failure}
    (h : x c = c'.ended e) :
    (x >>= fun _ => updateState f) c = (if e.isSome then c' else c'.modifyState f).ended e := by
  cases e with
  | none => exact bind_of_ok h _
  | some e => exact bind_of_error h _

-- What computes a register takes no more than that there are sixteen.
theorem perform_arithmetic {op : Operation} (len : c.state.registers.length = 16)
    (arithmetic : op.isArithmetic = true) : op.perform d w c = .ok () (op.after d w c) := by
  have x := register_apply len w.x_lt
  have y := register_apply len w.y_lt
  cases op <;> simp only [isArithmetic, Bool.false_eq_true] at arithmetic
  case shiftRight | shiftLeft =>
    have operand : shiftOperand d w c = .ok (c.state.value (shifted d w)) c :=
      register_apply len (shifted_lt d w)
    simp only [perform, bind_of_ok operand, setWithFlag_apply _ _ len w.x_lt]
    rfl
  all_goals
    simp only [perform, bind_of_ok x, bind_of_ok y, setRegister_apply _ len w.x_lt, setWithFlag_apply _ _ len w.x_lt]
    rfl

theorem perform_call : call.perform d w c = (call.after d w c).ended (call.failure? w c) := by
  simp only [perform]
  by_cases full : c.state.stackDepth ≤ c.state.calls.length
  case pos =>
    have push : updateState? (fun s => s.push s.pc) c =
        .error (.fault (.stackOverflow c.state.stackDepth)) c := by
      simp [updateState?, State.push, full]
    rw [bind_of_error push]
    simp [after, failure?, full, Core.ended]
  case neg =>
    have push : updateState? (fun s => s.push s.pc) c =
        .ok () { c with state := { c.state with calls := c.state.pc :: c.state.calls } } := by
      simp [updateState?, State.push, full]
    rw [bind_of_ok push]
    simp [after, failure?, full, Core.ended, jumpTo_apply, Core.modifyState]

-- What comes after a key is read off a register.
theorem get_key (h : c.Sound config) (f : Bool → Action Unit) :
    (do f (← ofExcept ((← get).keys.get (c.state.value w.x))) : Action Unit) c =
      if 15 < c.state.value w.x then .error (.fault (.invalidKey (c.state.value w.x))) c
      else f (c.keys.holds (c.state.value w.x)) c := by
  have range := h.valid.value_range w.x_lt
  rw [bind_of_ok (get_apply c)]
  split
  case isTrue beyond => rw [KeySet.get_of_lt beyond, bind_of_error (ofExcept_error _ c)]
  case isFalse => rw [KeySet.get_eq (by omega), bind_of_ok (ofExcept_ok _ c)]

theorem perform_random (h : c.Sound config) :
    random.perform d w c = (random.after d w c).ended (random.failure? w c) := by
  simp only [perform]
  cases drawn : c.source.draw? with
  | none =>
    have empty := Source.draw?_eq_none.mp drawn
    have fails : drawByte c = .error .zeroModulus c := by rw [drawByte_apply, drawn]
    rw [bind_of_error fails]
    simp [after, failure?, drawn, empty, Core.ended]
  | some p =>
    have filled : c.source.isEmpty = false := by
      rw [Bool.eq_false_iff, ne_eq, ← Source.draw?_eq_none, drawn]
      simp
    rw [bind_of_ok (by rw [drawByte_apply, drawn]), setRegister_apply _ (by exact h.registers_length) w.x_lt]
    simp [after, failure?, drawn, filled, Core.ended]

theorem perform_storeDigits (len : c.state.registers.length = 16) (pos : 0 < c.memory.size)
    (index : 0 ≤ c.state.index) :
    storeDigits.perform d w c = (storeDigits.after d w c).ended (storeDigits.failure? w c) := by
  have x := register_apply len w.x_lt
  simp only [perform, bind_of_ok x, bind_of_ok (get_apply c)]
  let ds := digits (c.state.value w.x)
  let f (i : Nat) : Action Unit := writeByte (c.state.index + i) (ds.getD i 0)
  have loop := forM_writeByte (f := f) ds pos index
    (by intro i hi m; simp only [f, List.getD_eq_getElem?_getD, List.getElem?_eq_getElem hi]; rfl)
  have chain : (List.range ds.length).forM f = (do
      writeByte c.state.index (c.state.value w.x / 100)
      writeByte (c.state.index + 1) (c.state.value w.x / 10 % 10)
      writeByte (c.state.index + 2) (c.state.value w.x % 10)) := by
    simp [ds, digits, List.range_succ, f]
  rw [← chain, loop]
  rfl

theorem perform_storeRegisters (len : c.state.registers.length = 16) (pos : 0 < c.memory.size)
    (index : 0 ≤ c.state.index) :
    storeRegisters.perform d w c = (storeRegisters.after d w c).ended (storeRegisters.failure? w c) := by
  have lt := w.x_lt
  have length : (c.state.registers.take (w.x + 1)).length = w.x + 1 :=
    List.length_take_of_le (by rw [len]; omega)
  let f (i : Nat) : Action Unit := do writeByte (c.state.index + i) (← register i)
  have loop := forM_writeByte (f := f) (c.state.registers.take (w.x + 1)) pos index (by
      intro i hi m
      have inside : i < c.state.registers.length := by
        rw [len]
        omega
      have value : register i { c with memory := m } = .ok (c.state.value i) { c with memory := m } :=
        register_apply len (by omega)
      rw [List.getElem_take, ← State.value_eq_getElem inside]
      exact bind_of_ok value _)
  rw [length] at loop
  simp only [perform, bind_of_ok (get_apply c)]
  refine (ended_failing loop).trans ?_
  rw [List.take_take, Nat.min_eq_left (c.memory.reach_le ..)]
  rfl

theorem perform_loadRegisters (len : c.state.registers.length = 16) (pos : 0 < c.memory.size)
    (index : 0 ≤ c.state.index) :
    loadRegisters.perform d w c = (loadRegisters.after d w c).ended (loadRegisters.failure? w c) := by
  have lt := w.x_lt
  simp only [perform, bind_of_ok (get_apply c)]
  exact ended_failing (forM_assignRegister len pos index (by omega))

theorem perform_draw (h : c.Sound config) :
    draw.perform d w c = (draw.after d w c).ended (draw.failure? w c) := by
  have x := register_apply h.registers_length w.x_lt
  have y := register_apply h.registers_length w.y_lt
  have drawn := drawRows_apply (x := c.state.value w.x) (y := c.state.value w.y) (n := w.n) h
    h.valid.index.1
  simp only [perform, bind_of_ok x, bind_of_ok y, bind_of_ok (get_apply c)]
  dsimp only at drawn
  split at drawn
  case isTrue short =>
    rw [bind_of_error drawn]
    simp [after, failure?, Memory.shortage?, short, Core.ended, drawing]
  case isFalse full =>
    rw [bind_of_ok drawn, setFlag_apply _ (by exact h.registers_length)]
    simp only [after, failure?, Memory.shortage?, full, if_false, Core.ended]
    rfl

theorem perform_awaitKey (h : c.Sound config) :
    awaitKey.perform d w c = (awaitKey.after d w c).ended (awaitKey.failure? w c) := by
  simp only [perform, bind_of_ok (pollKey_apply c), after]
  cases (c.keys.poll c.wait).1 with
  | none => rfl
  | some key =>
    dsimp only
    rw [setRegister_apply _ (by exact h.registers_length) w.x_lt]
    rfl

theorem perform_eq (h : c.Sound config) (op : Operation) :
    op.perform d w c = (op.after d w c).ended (op.failure? w c) := by
  have len := h.registers_length
  have x := register_apply len w.x_lt
  have y := register_apply len w.y_lt
  cases op
  case ret =>
    simp only [perform, bind_of_ok (get_apply c), after, failure?, State.pop]
    cases c.state.calls <;> rfl
  case call => exact perform_call
  case jumpOffset =>
    simp only [perform, bind_of_ok (register_apply len (show 0 < 16 by omega))]
    rfl
  case skipHeld =>
    simp only [perform, bind_of_ok x]
    refine (get_key h (fun b => skipIf b)).trans ?_
    by_cases beyond : 15 < c.state.value w.x <;>
      simp [after, failure?, beyond, Core.ended, Core.modifyState, skipIf_apply]
  case skipReleased =>
    simp only [perform, bind_of_ok x]
    refine (get_key h (fun b => skipIf !b)).trans ?_
    by_cases beyond : 15 < c.state.value w.x <;>
      simp [after, failure?, beyond, Core.ended, Core.modifyState, skipIf_apply]
  case loadByte | addByte | load | or | and | xor | add | subtract | subtractFrom | shiftRight | shiftLeft =>
    exact perform_arithmetic len rfl
  case random => exact perform_random h
  case storeDigits => exact perform_storeDigits len h.memory_pos h.valid.index.1
  case storeRegisters => exact perform_storeRegisters len h.memory_pos h.valid.index.1
  case loadRegisters => exact perform_loadRegisters len h.memory_pos h.valid.index.1
  case draw => exact perform_draw h
  case awaitKey => exact perform_awaitKey h
  -- No other operation fails, and none has a loop.
  all_goals
    simp only [perform, bind_of_ok x, bind_of_ok y, bind_of_ok (get_apply c), setRegister_apply _ len w.x_lt]
    rfl

end

end Operation

namespace Core.Sound

variable {config : Config} {c : Core} {w : Opcode}

theorem modifyState {f : State → State} (h : c.Sound config) (valid : (f c.state).Valid)
    (depth : (f c.state).stackDepth = c.state.stackDepth := by rfl)
    (calls : (f c.state).calls = c.state.calls := by rfl) : (c.modifyState f).Sound config :=
  h.withState valid depth calls

theorem put (h : c.Sound config) (i : Nat) (v : Int) : (c.modifyState (·.put i v)).Sound config :=
  h.modifyState (h.valid.put i v)

theorem setsFlag (h : c.Sound config) (i : Nat) (v flag : Int) :
    (Operation.setsFlag c i v flag).Sound config :=
  h.modifyState ((h.valid.put i v).put _ flag)

theorem skip (h : c.Sound config) (b : Bool) :
    (c.modifyState fun s => if b then s.skip else s).Sound config := by
  cases b
  · exact h
  · exact h.modifyState h.valid.skip

theorem jump (h : c.Sound config) {a : Int} (ha : 0 ≤ a ∧ a ≤ 0xffff) :
    (c.modifyState fun s => { s with pc := a }).Sound config :=
  h.modifyState (h.valid.jump ha)

theorem withIndex (h : c.Sound config) {a : Int} (ha : 0 ≤ a ∧ a ≤ 0xffff) :
    (c.modifyState fun s => { s with index := a }).Sound config :=
  h.modifyState (h.valid.withIndex ha)

theorem advance (h : c.Sound config) (d : Dialect) (count : Nat) :
    (c.modifyState (·.advance d count)).Sound config := by
  refine h.modifyState (h.valid.advance d count) ?_ ?_
  all_goals
    simp only [State.advance]
    split <;> rfl

theorem load (h : c.Sound config) {bytes : List UInt8} (fits : bytes.length ≤ 16) :
    (c.modifyState (·.load bytes)).Sound config :=
  h.modifyState (h.valid.load fits)

theorem ret (h : c.Sound config) {a : Int} {calls : List Int} (stack : c.state.calls = a :: calls) :
    (c.modifyState fun s => { s with pc := a, calls := calls }).Sound config := by
  have returns := h.returns
  have bound := h.valid.calls
  simp only [stack, List.forall_mem_cons, List.length_cons] at returns bound
  exact { h with
    valid := { h.valid with
      pc := returns.1
      calls := by
        change (calls.length : Int) ≤ c.state.stackDepth
        omega }
    returns := returns.2 }

theorem call (h : c.Sound config) {a : Int} (ha : 0 ≤ a ∧ a ≤ 0xffff)
    (room : c.state.calls.length < c.state.stackDepth) :
    (c.modifyState fun s => { s with pc := a, calls := s.pc :: s.calls }).Sound config :=
  { h with
    valid := { h.valid with
      pc := ha
      calls := by
        change ((c.state.pc :: c.state.calls).length : Int) ≤ c.state.stackDepth
        rw [List.length_cons]
        omega }
    returns := by
      change ∀ a ∈ c.state.pc :: c.state.calls, 0 ≤ a ∧ a ≤ 0xffff
      exact List.forall_mem_cons.mpr ⟨h.valid.pc, h.returns⟩ }

-- Glyphs lie in memory, and so their addresses fit.
theorem loadGlyph (h : c.Sound config) {i : Nat} (hi : i < 16) :
    (c.modifyState fun s =>
      { s with index := config.fontAddress + c.state.value i % 16 * glyphSize }).Sound config := by
  have := h.valid.value_range hi
  have := config.font_fits
  have := config.memorySize_le
  apply h.withIndex
  simp only [fontSize, glyphSize] at *
  omega

theorem after (h : c.Sound config) (op : Operation) : (op.after config.dialect w c).Sound config := by
  have nnn := w.nnn_lt
  have x := w.x_lt
  have vx := h.valid.value_range x
  cases op <;> simp only [Operation.after]
  case hostRoutine => exact h
  case clearScreen => exact h.withScreen (.clear _)
  case ret =>
    split
    case h_1 => exact h
    case h_2 stack => exact h.ret stack
  case jump => exact h.jump (by omega)
  case jumpOffset => exact h.jump (word_range _)
  case call =>
    split
    case isTrue => exact h
    case isFalse running =>
      apply h.call (by omega)
      simpa [Operation.failure?] using running
  case skipEqualByte | skipUnequalByte | skipEqual | skipUnequal => exact h.skip _
  case skipHeld | skipReleased =>
    split
    · exact h
    · exact h.skip _
  case loadByte | addByte | load | or | and | xor | loadDelay => exact h.put _ _
  case add | subtract | subtractFrom | shiftRight | shiftLeft => exact h.setsFlag ..
  case random =>
    split
    · exact (h.put _ _).withSource _
    · exact h
  case loadIndex => exact h.withIndex (by omega)
  case addIndex => exact h.withIndex (word_range _)
  case loadGlyph => exact h.loadGlyph x
  case storeDigits => exact h.withMemory (Memory.size_store ..) (Memory.wraps_store ..)
  case storeRegisters =>
    have stored := h.withMemory
      (Memory.size_store (c.state.registers.take (c.memory.reach c.state.index (w.x + 1))) c.state.index)
      (Memory.wraps_store ..)
    split
    · exact stored
    · exact stored.advance ..
  case loadRegisters =>
    have le := c.memory.reach_le c.state.index (w.x + 1)
    have fits : (c.memory.bytesFrom c.state.index
        (c.memory.reach c.state.index (w.x + 1))).length ≤ 16 := by
      rw [Memory.length_bytesFrom]
      omega
    have loaded := h.load fits
    split
    · exact loaded
    · exact loaded.advance ..
  case draw =>
    have drawn := h.withScreen (Operation.drawing_alike w c)
    split
    · exact drawn
    · exact drawn.put _ _
  case setDelay => exact h.modifyState { h.valid with delayTimer := vx }
  case setSound => exact h.modifyState { h.valid with soundTimer := vx }
  case awaitKey =>
    split
    · exact (h.put _ _).withWait _
    · exact (h.jump (word_range _)).withWait _

end Core.Sound
end Chip8
