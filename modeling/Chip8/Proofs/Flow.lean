import Chip8.Proofs.CallStack

namespace Chip8

theorem word_add (a b : Int) : word (word a + b) = word (a + b) := by
  simp only [word]
  omega

namespace Operation

-- Whether an operation is a skip whose condition holds.
def skips (op : Operation) (w : Opcode) (c : Core) : Bool :=
  match op with
  | skipEqualByte => c.state.value w.x == w.nn
  | skipUnequalByte => c.state.value w.x != w.nn
  | skipEqual => c.state.value w.x == c.state.value w.y
  | skipUnequal => c.state.value w.x != c.state.value w.y
  | skipHeld => c.keys.holds (c.state.value w.x)
  | skipReleased => !c.keys.holds (c.state.value w.x)
  | _ => false

-- Where an operation leads to whose instruction lies at the counter.
def LeadsTo (op : Operation) (w : Opcode) (c : Core) (a : Int) : Prop :=
  match op with
  | jump | call => a = w.nnn
  | jumpOffset => a = Chip8.word (w.nnn + c.state.value 0)
  | ret => c.state.stack.getLast? = some a
  | awaitKey => a = if (c.keys.poll c.wait).1 = none then c.state.pc else Chip8.word (c.state.pc + 2)
  | op => a = Chip8.word (c.state.pc + if op.skips w c then 4 else 2)

-- Whether an operation goes on with the instruction behind its own: it neither jumps nor skips nor waits.
def passesOn (op : Operation) (w : Opcode) (c : Core) : Bool :=
  match op with
  | jump | call | ret | jumpOffset => false
  | awaitKey => (c.keys.poll c.wait).1.isSome
  | op => !op.skips w c

-- The skip with the opposite condition.
def opposite? : Operation → Option Operation
  | skipEqualByte => some skipUnequalByte
  | skipUnequalByte => some skipEqualByte
  | skipEqual => some skipUnequal
  | skipUnequal => some skipEqual
  | skipHeld => some skipReleased
  | skipReleased => some skipHeld
  | _ => none

-- What a skip compares: a register with a byte or with another register, or the key that a register names.
def operands (op : Operation) (w : Opcode) : List Nat :=
  match op with
  | skipEqualByte | skipUnequalByte => [w.x, w.nn]
  | skipEqual | skipUnequal => [w.x, w.y]
  | skipHeld | skipReleased => [w.x]
  | _ => []

variable {config : Config} {c c' : Core} {op op' : Operation} {w w' : Opcode}

-- A skip moves the counter on from behind its own instruction.
theorem pc_skipIf (c : Core) (b : Bool) :
    (c.fetched.modifyState fun s => if b then s.skip else s).state.pc =
      Chip8.word (c.state.pc + if b then 4 else 2) := by
  cases b
  case false => rfl
  case true => exact (word_add (c.state.pc + 2) 2).trans (congrArg Chip8.word (Int.add_assoc ..))

theorem leadsTo_after (h : c.Sound config) (d : Dialect) (fine : op.failure? w c.fetched = none) :
    op.LeadsTo w c (op.after d w c.fetched).state.pc := by
  cases op <;> simp only [LeadsTo, after]
  case hostRoutine => cases fine
  case ret =>
    cases stack : c.state.calls with
    | nil => simp [failure?, Core.fetched, Core.modifyState, stack] at fine
    | cons a calls => simp [State.stack, Core.fetched, Core.modifyState, stack]
  case call =>
    rw [fine]
    rfl
  case awaitKey =>
    have polled : c.fetched.keys.poll c.fetched.wait = c.keys.poll c.wait := rfl
    rw [polled]
    cases (c.keys.poll c.wait).1 with
    | none => exact Core.word_back h.valid.pc
    | some key => rfl
  case skipEqualByte | skipUnequalByte | skipEqual | skipUnequal => exact pc_skipIf c _
  case skipHeld | skipReleased =>
    rw [fine]
    exact pc_skipIf c _
  case storeRegisters | loadRegisters =>
    rw [fine]
    exact congrArg State.pc (State.advance_eq ..)
  case random | draw => split <;> rfl
  all_goals rfl

theorem LeadsTo.of_opposite? {a : Int} (leads : op.LeadsTo w c a) (opposite : op.opposite? = some op') :
    a = Chip8.word (c.state.pc + if op.skips w c then 4 else 2) := by
  cases op
  case skipEqualByte | skipUnequalByte | skipEqual | skipUnequal | skipHeld | skipReleased => exact leads
  all_goals cases opposite

theorem skips_of_passesOn (on : op.passesOn w c = true) : op.skips w c = false := by
  cases op
  case skipEqualByte | skipUnequalByte | skipEqual | skipUnequal | skipHeld | skipReleased =>
    exact (Bool.not_eq_true' _).mp on
  all_goals rfl

theorem LeadsTo.of_passesOn {a : Int} (leads : op.LeadsTo w c a) (on : op.passesOn w c = true) :
    a = Chip8.word (c.state.pc + 2) := by
  have stays := skips_of_passesOn on
  cases op
  case jump | call | ret | jumpOffset => cases on
  case awaitKey =>
    simp only [passesOn, Option.isSome_iff_ne_none] at on
    rwa [LeadsTo, if_neg on] at leads
  all_goals exact Eq.trans leads (congrArg (fun b : Bool => Chip8.word (c.state.pc + if b then 4 else 2)) stays)

theorem opposite?_symm (opposite : op.opposite? = some op') : op'.opposite? = some op := by
  cases op <;> cases opposite <;> rfl

-- Opposite skips that compare the same things differ.
theorem skips_opposite (opposite : op.opposite? = some op') (same : op'.operands w' = op.operands w)
    (registers : c'.state.registers = c.state.registers) (keys : c'.keys = c.keys) :
    op'.skips w' c' = !op.skips w c := by
  cases op <;> cases opposite <;> simp_all [skips, operands, State.value, bne]

end Operation

namespace Core

variable {config : Config} {c : Core}

theorem exists_faces (h : c.Sound config) (succeeds : c.failure? = none) : ∃ op, c.Faces config op := by
  rw [failure?, Option.or_eq_none_iff] at succeeds
  obtain ⟨fetch, performs⟩ := succeeds
  cases decode : Operation.decode c.nextWord with
  | none => simp [decode] at performs
  | some op => exact ⟨op, h.fetchFailure?_eq_none_iff.mp fetch, Operation.isMeant_of_decode decode⟩

-- Two cores in one state, as far as skips go, that face opposite skips of the same things.
structure Opposed (config : Config) (c c' : Core) : Prop where
  pc : c'.state.pc = c.state.pc
  registers : c'.state.registers = c.state.registers
  keys : c'.keys = c.keys
  skips : ∃ op op' : Operation, c.Faces config op ∧ c'.Faces config op' ∧ op.opposite? = some op' ∧
    op'.operands c'.nextWord = op.operands c.nextWord

end Core

namespace Machine

variable {config : Config} {source : Source} {m m' : Machine} {now : Float} {e : Entry} {op : Operation}

theorem exists_faces_of_step (h : m.Sound config) (s : m.step now = .ok e m') (fine : e.fault = none) :
    ∃ op, m.core.Faces config op := by
  obtain ⟨_, _, m₁, t, c⟩ := step_ok s
  have failure := (cycle_leaves (h.tick t) c).failure
  rw [fine, (tick_preserves_cycle t).2.1] at failure
  exact Core.exists_faces h.core failure

theorem leadsTo_of_cycle (h : m.Sound config) (faces : m.core.Faces config op) (c : m.cycle = .ok e m')
    (fine : e.fault = none) : op.LeadsTo m.core.nextWord m.core m'.state.pc := by
  have failure := (cycle_leaves h c).failure
  rw [fine, Option.map_none, faces.failure?_eq h.core] at failure
  have pc := (stack_cycle h).2
  rw [c, left, faces.next_eq h.core] at pc
  exact pc ▸ Operation.leadsTo_after h.core _ failure

-- The time that passes before the cycle changes nothing that matters to where it leads.
theorem leadsTo_of_step (h : m.Sound config) (faces : m.core.Faces config op) (s : m.step now = .ok e m')
    (fine : e.fault = none) : op.LeadsTo m.core.nextWord m.core m'.state.pc := by
  obtain ⟨_, _, m₁, t, c⟩ := step_ok s
  have leads := leadsTo_of_cycle (h.tick t) ((tick_faces t).mpr faces) c fine
  obtain ⟨_, _, core⟩ := tick_core t
  rw [core] at leads
  exact leads

theorem Performs.passes (h : m.Sound config) (p : m.Performs now op m')
    (on : op.passesOn m.core.nextWord m.core = true) : m'.state.pc = word (m.state.pc + 2) := by
  have faces := p.faces h
  obtain ⟨e, s, _, fine⟩ := p
  exact (leadsTo_of_step h faces s fine).of_passesOn on

-- Two steps from one state that come to opposite skips of the same things part: one of them skips, the other does not.
theorem opposed_part {m₂ m₂' : Machine} {now₂ : Float} {e₂ : Entry} (h : m.Sound config) (h₂ : m₂.Sound config)
    (opposed : m.core.Opposed config m₂.core) (s : m.step now = .ok e m') (fine : e.fault = none)
    (s₂ : m₂.step now₂ = .ok e₂ m₂') (fine₂ : e₂.fault = none) :
    m'.state.pc = word (m.state.pc + 4) ∧ m₂'.state.pc = word (m.state.pc + 2) ∨
      m'.state.pc = word (m.state.pc + 2) ∧ m₂'.state.pc = word (m.state.pc + 4) := by
  obtain ⟨pc, registers, keys, op, op', faces, faces₂, opposite, same⟩ := opposed
  have here := (leadsTo_of_step h faces s fine).of_opposite? opposite
  have there := (leadsTo_of_step h₂ faces₂ s₂ fine₂).of_opposite? (Operation.opposite?_symm opposite)
  rw [Operation.skips_opposite opposite same registers keys, pc] at there
  cases skips : op.skips m.core.nextWord m.core with
  | true =>
    rw [skips] at here there
    exact .inl ⟨here, there⟩
  | false =>
    rw [skips] at here there
    exact .inr ⟨here, there⟩

-- A step that is not at fault leads where its instruction says, as the registers, the stack, the keys and the wait
-- before it have it. A step from the same state that comes to the opposite skip leads elsewhere.
theorem step_leads (r : m.Reachable config source) (s : m.step now = .ok e m') (fine : e.fault = none) :
    (∃ op, m.core.Faces config op ∧ op.LeadsTo m.core.nextWord m.core m'.state.pc) ∧
    ∀ source₂ (m₂ : Machine) now₂ e₂ m₂', m₂.Reachable config source₂ → m.core.Opposed config m₂.core →
      m₂.step now₂ = .ok e₂ m₂' → e₂.fault = none →
      m'.state.pc = word (m.state.pc + 4) ∧ m₂'.state.pc = word (m.state.pc + 2) ∨
        m'.state.pc = word (m.state.pc + 2) ∧ m₂'.state.pc = word (m.state.pc + 4) := by
  constructor
  case left =>
    obtain ⟨op, faces⟩ := exists_faces_of_step r.sound s fine
    exact ⟨op, faces, leadsTo_of_step r.sound faces s fine⟩
  case right =>
    intro source₂ m₂ now₂ e₂ m₂' r₂ opposed s₂ fine₂
    exact opposed_part r.sound r₂.sound opposed s fine s₂ fine₂

-- A new machine about to compare a register with zero.
def comparing (skip : Int) : Machine :=
  (Machine.new (.small .wrap) .zeros false 0).afterCall 0 (.load [skip, 0x00] none)

theorem comparing_reachable (skip : Int) : (comparing skip).Reachable (.small .wrap) .zeros :=
  (Reachable.new false 0).call 0 _

theorem comparing_opposed : (comparing 0x33).core.Opposed (.small .wrap) (comparing 0x43).core := by
  obtain ⟨pc, registers, keys, equal, unequal, operands⟩ :
      (comparing 0x43).core.state.pc = (comparing 0x33).core.state.pc ∧
      (comparing 0x43).core.state.registers = (comparing 0x33).core.state.registers ∧
      (comparing 0x43).core.keys = (comparing 0x33).core.keys ∧
      Operation.decode (comparing 0x33).core.nextWord = some .skipEqualByte ∧
      Operation.decode (comparing 0x43).core.nextWord = some .skipUnequalByte ∧
      Operation.skipUnequalByte.operands (comparing 0x43).core.nextWord =
        Operation.skipEqualByte.operands (comparing 0x33).core.nextWord := by
    decide +kernel
  exact ⟨pc, registers, keys, .skipEqualByte, .skipUnequalByte, ⟨nofun, Operation.isMeant_of_decode equal⟩,
    ⟨nofun, Operation.isMeant_of_decode unequal⟩, rfl, operands⟩

theorem comparing_parts :
    let m := comparing 0x33
    let m₂ := comparing 0x43
    m.Performs 0 .skipEqualByte (m.stepped 0) ∧ m₂.Performs 0 .skipUnequalByte (m₂.stepped 0) ∧
      (m.stepped 0).state.pc = 0x64 ∧ (m₂.stepped 0).state.pc = 0x62 := by
  intro m m₂
  have equal : m.Performs 0 .skipEqualByte (m.stepped 0) := performs_stepped (by decide +kernel)
  have unequal : m₂.Performs 0 .skipUnequalByte (m₂.stepped 0) := performs_stepped (by decide +kernel)
  refine ⟨equal, unequal, ?_⟩
  obtain ⟨e, s, _, fine⟩ := equal
  obtain ⟨e₂, s₂, _, fine₂⟩ := unequal
  obtain ⟨⟨op, faces, leads⟩, parts⟩ := step_leads (comparing_reachable 0x33) s fine
  obtain ⟨start, here, decoded, skips⟩ : (comparing 0x33).core.state.pc = 0x60 ∧ (comparing 0x33).state.pc = 0x60 ∧
      (comparing 0x33).core.word?.bind Operation.decode = some .skipEqualByte ∧
      Operation.skipEqualByte.skips (comparing 0x33).core.nextWord (comparing 0x33).core = true := by
    decide +kernel
  cases ((comparing_reachable 0x33).sound.core.faces_iff.mp faces).symm.trans decoded
  have goes := leads.of_opposite? rfl
  rw [skips, start] at goes
  have part := parts _ m₂ 0 e₂ _ (comparing_reachable 0x43) comparing_opposed s₂ fine₂
  rw [here] at part
  obtain part | ⟨stays, _⟩ := part
  case inl => exact part
  case inr => cases goes.symm.trans stays

end Machine
end Chip8
