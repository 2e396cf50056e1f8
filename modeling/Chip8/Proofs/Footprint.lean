import Chip8.Proofs.CallStack
import Chip8.Proofs.Display
import Chip8.Proofs.Timers

namespace Chip8

namespace State

variable {s : State} {i j : Nat}

theorem getElem?_put (v : Int) (other : i ≠ j) : (s.put j v).registers[i]? = s.registers[i]? :=
  List.getElem?_set_ne other.symm

theorem getElem?_put_self (inside : i < s.registers.length) (v : Int) : (s.put i v).registers[i]? = some (byte v) :=
  List.getElem?_set_self inside

theorem getElem?_load {bytes : List UInt8} (behind : bytes.length ≤ i) :
    (s.load bytes).registers[i]? = s.registers[i]? := by
  have all : (bytes.map fun b => (b.toNat : Int)).length = bytes.length := List.length_map _
  rw [load, List.getElem?_append_right (all ▸ behind), List.getElem?_drop, all, Nat.add_sub_of_le behind]

end State

namespace Operation

-- Whether an operation leaves a result in the first register that it names.
def hasResult : Operation → Bool
  | loadByte | addByte | load | or | and | xor | add | subtract | subtractFrom | shiftRight | shiftLeft | random
  | loadDelay | awaitKey => true
  | _ => false

-- Whether an operation tells of a carry, a borrow, a lost bit or a collision in the flag register.
def hasFlag : Operation → Bool
  | add | subtract | subtractFrom | shiftRight | shiftLeft | draw => true
  | _ => false

def movesIndex (d : Dialect) : Operation → Bool
  | loadIndex | addIndex | loadGlyph => true
  | storeRegisters | loadRegisters => d.advancesIndex
  | _ => false

-- How many cells an operation may store a byte in, from the index register on.
def reach (w : Opcode) : Operation → Nat
  | storeDigits => 3
  | storeRegisters => w.x + 1
  | _ => 0

-- The registers that an operation may change.
def Writes (op : Operation) (w : Opcode) (i : Nat) : Prop :=
  op.hasResult = true ∧ i = w.x ∨ op = loadRegisters ∧ i ≤ w.x ∨ op.hasFlag = true ∧ i = flagRegister

-- The cells that an operation may change.
def Stores (op : Operation) (w : Opcode) (c : Core) (j : Nat) : Prop :=
  ∃ i < op.reach w, c.memory.cell? (c.state.index + (i : Nat)) = some j

variable (op : Operation) (d : Dialect) (w : Opcode) (c : Core)

theorem after_keys : (op.after d w c).keys = c.keys := by
  cases op <;> simp only [after]
  case ret | call | skipHeld | skipReleased | random | storeRegisters | loadRegisters | draw => split <;> rfl
  all_goals rfl

theorem after_wait : (op.after d w c).wait = if op = awaitKey then (c.keys.poll c.wait).2 else c.wait := by
  cases op <;> simp only [after, reduceCtorEq, if_false, if_true]
  case ret | call | skipHeld | skipReleased | random | storeRegisters | loadRegisters | draw => split <;> rfl
  all_goals rfl

variable {op d w c}

theorem length_stored : (op.stored w c).length ≤ op.reach w := by
  cases op
  case storeDigits => exact (List.length_take_le ..).trans (c.memory.reach_le ..)
  case storeRegisters => exact (List.length_take_le ..).trans (c.memory.reach_le ..)
  all_goals exact Nat.le_refl 0

theorem getElem?_after_memory {j : Nat} (spared : ¬ op.Stores w c j) :
    (op.after d w c).memory.cells[j]? = c.memory.cells[j]? := by
  rw [after_memory]
  refine Memory.getElem?_store fun i inside names => ?_
  exact spared ⟨i, Nat.lt_of_lt_of_le inside length_stored, names⟩

theorem after_index (still : op.movesIndex d = false) : (op.after d w c).state.index = c.state.index := by
  cases op <;> simp only [movesIndex, Bool.true_eq_false] at still <;>
    simp only [after, Core.modifyState, State.skipIf_eq, State.advance_eq]
  case storeRegisters | loadRegisters =>
    simp only [still]
    split <;> rfl
  case ret | call | skipHeld | skipReleased | random | draw | awaitKey => split <;> rfl
  all_goals rfl

theorem getElem?_after_registers {i : Nat} (spared : ¬ op.Writes w i) :
    (op.after d w c).state.registers[i]? = c.state.registers[i]? := by
  obtain ⟨result, block, flag⟩ : (op.hasResult = true → i ≠ w.x) ∧ (op = loadRegisters → w.x < i) ∧
      (op.hasFlag = true → i ≠ flagRegister) := by
    simp only [Writes, not_or, not_and, Nat.not_le] at spared
    exact spared
  cases op <;> simp only [after, Core.modifyState, State.skipIf_eq, State.advance_eq]
  case loadByte | addByte | load | or | and | xor | loadDelay => exact State.getElem?_put _ (result rfl)
  case add | subtract | subtractFrom | shiftRight | shiftLeft =>
    exact (State.getElem?_put _ (flag rfl)).trans (State.getElem?_put _ (result rfl))
  case random =>
    split
    · exact State.getElem?_put _ (result rfl)
    · rfl
  case awaitKey =>
    split
    · exact State.getElem?_put _ (result rfl)
    · rfl
  case draw =>
    split
    · rfl
    · exact State.getElem?_put _ (flag rfl)
  case loadRegisters =>
    have behind : (c.memory.bytesFrom c.state.index (c.memory.reach c.state.index (w.x + 1))).length ≤ i := by
      rw [Memory.length_bytesFrom]
      exact (c.memory.reach_le ..).trans (block rfl)
    split <;> exact State.getElem?_load behind
  case ret | call | skipHeld | skipReleased | storeRegisters => split <;> rfl

end Operation

namespace Core

-- Whatever the next instruction has changed it may change. The timers are left out, as time passes for them, and so
-- are the counter and what halts and counts.
structure Confined (config : Config) (c c' : Core) : Prop where
  memory : ∀ j : Nat, c'.memory.cells[j]? ≠ c.memory.cells[j]? → ∃ op, c.Faces config op ∧ op.Stores c.nextWord c j
  screen : c'.screen ≠ c.screen → c.Faces config .clearScreen ∨ c.Faces config .draw
  calls : c'.state.calls ≠ c.state.calls → c.Faces config .call ∨ c.Faces config .ret
  index : c'.state.index ≠ c.state.index → ∃ op, c.Faces config op ∧ op.movesIndex config.dialect = true
  registers : ∀ i : Nat, c'.state.registers[i]? ≠ c.state.registers[i]? →
    ∃ op, c.Faces config op ∧ op.Writes c.nextWord i
  source : c'.source ≠ c.source → c.Faces config .random
  wait : c'.wait ≠ c.wait → c.Faces config .awaitKey
  keys : c'.keys = c.keys
  stackDepth : c'.state.stackDepth = c.state.stackDepth

variable {config : Config} {c : Core}

theorem Sound.faces_of_timer_next {d : Dialect} {t : Timer} (h : c.Sound config)
    (unlike : (c.next d).state.timer t ≠ c.state.timer t) : ∃ op, c.Faces config op ∧ op.timer? = some t := by
  obtain ⟨op, faces, unlike⟩ := h.faces_of_next (·.state.timer t) rfl unlike
  rw [Operation.after_timer, ite_ne_right_iff] at unlike
  exact ⟨op, faces, unlike.1⟩

theorem Sound.confined_next (h : c.Sound config) : c.Confined config (c.next config.dialect) where
  memory j unlike := by
    have ⟨op, faces, unlike⟩ := h.faces_of_next (·.memory.cells[j]?) rfl unlike
    refine ⟨op, faces, ?_⟩
    by_contra spared
    exact unlike (Operation.getElem?_after_memory spared)
  screen unlike := faces_of_screen_next h unlike
  calls unlike := by
    obtain ⟨op, faces, unlike⟩ := h.faces_of_next (·.state.calls) rfl unlike
    rw [Operation.after_calls] at unlike
    by_cases ret : op = .ret
    case pos => exact .inr (ret ▸ faces)
    case neg =>
      rw [if_neg ret, ite_ne_right_iff] at unlike
      exact .inl (unlike.1.1 ▸ faces)
  index unlike := by
    have ⟨op, faces, unlike⟩ := h.faces_of_next (·.state.index) rfl unlike
    refine ⟨op, faces, ?_⟩
    by_contra still
    exact unlike (Operation.after_index (Bool.eq_false_iff.mpr still))
  registers i unlike := by
    have ⟨op, faces, unlike⟩ := h.faces_of_next (·.state.registers[i]?) rfl unlike
    refine ⟨op, faces, ?_⟩
    by_contra spared
    exact unlike (Operation.getElem?_after_registers spared)
  source unlike := by
    obtain ⟨op, faces, unlike⟩ := h.faces_of_next Core.source rfl unlike
    rw [Operation.after_source, ite_ne_right_iff] at unlike
    exact unlike.1 ▸ faces
  wait unlike := by
    obtain ⟨op, faces, unlike⟩ := h.faces_of_next Core.wait rfl unlike
    rw [Operation.after_wait, ite_ne_right_iff] at unlike
    exact unlike.1 ▸ faces
  keys := by
    by_contra unlike
    have ⟨op, _, unlike⟩ := h.faces_of_next Core.keys rfl unlike
    exact unlike (op.after_keys ..)
  stackDepth := h.next.depth.trans h.depth.symm

end Core

namespace Machine

variable {config : Config} {source : Source} {m m₁ : Machine} {now : Float} {periods : Int}

theorem confined_cycle (h : m.Sound config) : m.core.Confined config (left m.cycle).core ∧
    ∀ t, (left m.cycle).state.timer t ≠ m.state.timer t → ∃ op, m.core.Faces config op ∧ op.timer? = some t := by
  obtain ⟨rfl, sound⟩ := h
  have ⟨_, _, core⟩ := core_cycle ⟨rfl, sound⟩
  rw [state, core]
  exact ⟨{ sound.confined_next with }, fun t => sound.faces_of_timer_next⟩

-- An instruction is confined by the state that it finds, however much time has passed for the timers.
theorem confined_of_tick {c : Core} (t : m.tick now = .ok (periods, m₁)) (h : m₁.core.Confined config c) :
    m.core.Confined config c := by
  have faces {op : Operation} : m₁.core.Faces config op → m.core.Faces config op := (tick_faces t).mp
  have ⟨_, _, core⟩ := tick_core t
  rw [core] at faces h
  exact {
    memory := fun j unlike => (h.memory j unlike).imp fun _ => .imp_left faces
    screen := fun unlike => (h.screen unlike).imp faces faces
    calls := fun unlike => (h.calls unlike).imp faces faces
    index := fun unlike => (h.index unlike).imp fun _ => .imp_left faces
    registers := fun i unlike => (h.registers i unlike).imp fun _ => .imp_left faces
    source := fun unlike => faces (h.source unlike)
    wait := fun unlike => faces (h.wait unlike)
    keys := h.keys
    stackDepth := h.stackDepth }

theorem config_cycle (m : Machine) : (left m.cycle).config = m.config := by
  simp only [cycle]
  split
  case h_1 | h_2 => exact record_config ..
  case h_3 => rfl

-- A step lets time pass for the timers, and then its instruction changes what it may change.
theorem step_confined (r : m.Reachable config source) (now : Float) :
    m.stepped now = m ∨ ∃ periods m₁, m.halted = false ∧ m.tick now = .ok (periods, m₁) ∧
      m.core.Confined config (m.stepped now).core ∧ (m.stepped now).config = m.config ∧
      ∀ t, (m.stepped now).state.timer t ≠ (m.state.elapse periods).1.timer t →
        ∃ op, m.core.Faces config op ∧ op.timer? = some t := by
  cases m.stepped_cases now with
  | inl idle => exact .inl idle
  | inr made =>
    have ⟨running, periods, m₁, t, out⟩ := made
    have ⟨confined, timers⟩ := confined_cycle (r.sound.tick t)
    have ⟨_, _, ticked⟩ := tick_ok t
    have ⟨same, time⟩ : m₁.config = m.config ∧ m₁.state = (m.state.elapse periods).1 := ticked ▸ ⟨rfl, rfl⟩
    simp only [tick_faces t, time] at timers
    rw [out, config_cycle]
    exact .inr ⟨periods, m₁, running, t, confined_of_tick t confined, same, timers⟩

-- A machine about to store two registers, the first in the last cell and the second, as addresses wrap, in the first.
def straddling : Machine :=
  (Machine.new (.small .wrap) .zeros false 0).afterCalls
    [(0, .load [0x60, 0xaa, 0x61, 0xbb, 0xa0, 0x7f, 0xf1, 0x55] none), (0, .run (some 3))]

theorem straddling_confined :
    (straddling.stepped 0).core.memory.cells[0x7f]? = some 0xaa ∧
    (straddling.stepped 0).core.memory.cells[0]? = some 0xbb ∧
    (∀ j : Nat, j ≠ 0x7f → j ≠ 0 →
      (straddling.stepped 0).core.memory.cells[j]? = straddling.core.memory.cells[j]?) ∧
    (∀ i : Nat, (straddling.stepped 0).core.state.registers[i]? = straddling.core.state.registers[i]?) ∧
    (straddling.stepped 0).core.screen = straddling.core.screen ∧
    (straddling.stepped 0).core.keys = straddling.core.keys := by
  obtain ⟨last, first, blank, word, targets⟩ : (straddling.stepped 0).core.memory.cells[0x7f]? = some 0xaa ∧
      (straddling.stepped 0).core.memory.cells[0]? = some 0xbb ∧
      straddling.core.memory.cells[0x7f]? = some 0 ∧ straddling.core.nextWord = 0xf155 ∧
      ∀ i < 2, straddling.core.memory.cell? (straddling.core.state.index + (i : Nat)) =
        if i = 0 then some 0x7f else some 0 := by
    decide +kernel
  have reachable : straddling.Reachable (.small .wrap) .zeros := (Reachable.new false 0).calls _
  cases step_confined reachable 0 with
  | inl idle =>
    rw [idle, blank] at last
    cases last
  | inr made =>
    have ⟨_, _, _, _, confined, _⟩ := made
    have stores {op : Operation} (faces : straddling.core.Faces (.small .wrap) op) : op = .storeRegisters := by
      have meant := Operation.decode_of_isMeant (word ▸ faces.meant)
      exact (Option.some.inj meant).symm
    refine ⟨last, first, ?_, ?_, ?_, confined.keys⟩
    case refine_1 =>
      intro j other other'
      by_contra unlike
      obtain ⟨op, faces, i, below, cell⟩ := confined.memory j unlike
      cases stores faces
      rw [word] at below
      rw [targets i below] at cell
      split at cell
      · exact other (Option.some.inj cell).symm
      · exact other' (Option.some.inj cell).symm
    case refine_2 =>
      intro i
      by_contra unlike
      obtain ⟨op, faces, writes⟩ := confined.registers i unlike
      cases stores faces
      simp [Operation.Writes, Operation.hasResult, Operation.hasFlag] at writes
    case refine_3 =>
      by_contra unlike
      cases confined.screen unlike with
      | inl faces | inr faces => cases stores faces

end Machine
end Chip8
