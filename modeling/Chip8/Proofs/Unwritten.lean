import Chip8.Proofs.Image

namespace Chip8

namespace Machine

-- The cells that a call puts bytes in without making a step.
def filledBy (m : Machine) : Call → List Nat
  | .load image start =>
    if IsImage image then
      (m.core.memory.cell? (start.getD m.config.startPc)).toList.flatMap fun i =>
        List.range' i (m.core.memory.room i image.length)
    else []
  | .writeMemory address _ => (m.core.memory.cell? address).toList
  | _ => []

-- The cells that a call has bytes stored in, be it by the steps that it makes.
def writtenBy (m : Machine) (now : Float) (call : Call) : List Nat :=
  m.filledBy call ++ (m.madeIn now call).flatMap (·.found.core.written)

-- The machines that calls and the turns of background loops lead to, without a byte having been stored in these cells
-- since memory was set up.
inductive Unwritten (config : Config) (source : Source) (cells : Nat → Prop) : Machine → Prop
  | new (traced : Bool) (now : Float) : Unwritten config source cells (.new config source traced now)
  | reset {m : Machine} (now : Float) :
    m.Reachable config source → Unwritten config source cells (m.reset true now)
  | call {m : Machine} (now : Float) (call : Call) : Unwritten config source cells m →
    (∀ j ∈ m.writtenBy now call, ¬ cells j) → Unwritten config source cells (m.afterCall now call)
  | start {m m' : Machine} :
    Unwritten config source cells m → m.start = .ok m' → Unwritten config source cells m'
  | turn {m : Machine} (now : Float) (party : Party) : Unwritten config source cells m →
    (∀ s ∈ m.madeInTurn now party, ∀ j ∈ s.found.core.written, ¬ cells j) →
    Unwritten config source cells (m.turn now party).2

variable {config : Config} {source : Source} {cells : Nat → Prop} {m m' : Machine} {now : Float} {call : Call}
  {image : List Int} {start : Option Int} {op : Operation} {j : Nat}

theorem written_of_faces (h : m.Sound config) (faces : m.core.Faces config op)
    (stores : op.stored m.core.nextWord m.core = []) : m.core.written = [] := by
  rw [Core.written, Core.stored, h.core.faces_iff.mp faces]
  dsimp only
  rw [stores]
  rfl

theorem mem_filledBy_load {i : Fin m.core.memory.cells.size} {bytes : List UInt8} (parse : bytesOf image = .ok bytes)
    (cell : m.core.memory.cell (start.getD m.config.startPc) = .ok i) :
    j ∈ m.filledBy (.load image start) ↔ i ≤ j ∧ j < i + m.core.memory.room i bytes.length := by
  have bytes' : IsImage image := by
    by_contra other
    cases (bytesOf_of_not_isImage other).symm.trans parse
  have length : image.length = bytes.length := by
    rw [bytesOf_of_isImage bytes', Except.ok.injEq] at parse
    rw [← parse, List.length_map]
  have names : m.core.memory.cell? (start.getD m.config.startPc) = some i.val := by
    rw [Memory.cell?, cell]
    rfl
  simp [filledBy, bytes', names, length, List.mem_range'_1]

theorem getElem?_runSteps (h : m.Sound config) (n : Nat) (later : List Float)
    (spared : ∀ s ∈ m.madeInRun now n later, j ∉ s.found.core.written) :
    (left (m.runSteps now n later)).core.memory.cells[j]? = m.core.memory.cells[j]? := by
  let Kept (m' : Machine) : Prop := m'.Sound config ∧ m'.core.memory.cells[j]? = m.core.memory.cells[j]?
  have step (m' : Machine) (now : Float) (kept : Kept m') (spared : ∀ s ∈ Made.of? m' now, j ∉ s.found.core.written) :
      Kept (m'.stepped now) :=
    ⟨(changes_step m' now).sound kept.1, (getElem?_stepped kept.1 spared).trans kept.2⟩
  exact (runSteps_keeps step ⟨h, rfl⟩ spared).2

-- What a call that makes no step leaves of a cell, unless it has memory cleared.
theorem Alters.getElem? (a : m.Alters now call m') (keeps : call ≠ .reset true) (spared : j ∉ m.filledBy call) :
    m'.core.memory.cells[j]? = m.core.memory.cells[j]? := by
  by_cases stores : call.stores = true
  case pos =>
    cases a <;> simp only [Call.stores, Bool.false_eq_true] at stores
    case load l =>
      obtain ⟨i, bytes, parse, cell, out⟩ := load_ok l
      rw [mem_filledBy_load parse cell] at spared
      rw [out]
      exact Memory.getElem?_place_of_apart bytes (Nat.le_of_lt i.isLt) (by omega)
    case writeMemory w =>
      obtain ⟨i, cell, out⟩ := writeMemory_ok w
      have apart : i.val ≠ j := by
        rintro rfl
        simp [filledBy, Memory.cell?, cell, Except.toOption] at spared
      rw [out]
      exact Array.getElem?_set_ne i.isLt apart
  case neg =>
    by_cases goesOn : call.isReset = false
    case pos => rw [(a.retains goesOn).memory (by simpa using stores)]
    case neg =>
      cases a
      case reset clearMemory =>
        cases clearMemory
        case true => exact absurd rfl keeps
        case false => rfl
      all_goals exact absurd rfl goesOn

theorem getElem?_afterCall (h : m.Sound config) (keeps : call ≠ .reset true) (spared : j ∉ m.writtenBy now call) :
    (m.afterCall now call).core.memory.cells[j]? = m.core.memory.cells[j]? := by
  simp only [writtenBy, List.mem_append, List.mem_flatMap, not_or, not_exists, not_and] at spared
  obtain ⟨unfilled, spared⟩ := spared
  rcases m.afterCall_cases now call with rfl | ⟨limit, later, rfl⟩ | ⟨_, same | alters⟩
  · rw [afterCall_step]
    exact getElem?_stepped h fun s made => spared s (Option.mem_toList.mpr made)
  · rw [afterCall_eq, answer, left_replied, left_run]
    exact getElem?_runSteps h _ later spared
  · rw [same]
  · exact alters.getElem? keeps unfilled

theorem getElem?_turn (h : m.Sound config) (party : Party)
    (spared : ∀ s ∈ m.madeInTurn now party, j ∉ s.found.core.written) :
    (m.turn now party).2.core.memory.cells[j]? = m.core.memory.cells[j]? := by
  have stepped (due : ¬ (party = .loop ∧ m.looping = false)) :
      (m.attempt now).2.core.memory.cells[j]? = m.core.memory.cells[j]? := by
    rw [madeInTurn, if_neg due] at spared
    rw [attempt_snd]
    exact getElem?_stepped h fun s made => spared s (Option.mem_toList.mpr made)
  cases party with
  | host => exact stepped (by simp)
  | loop =>
    cases looping : m.looping with
    | true =>
      have memory : ((m.attempt now).2.heed (m.attempt now).1).core.memory = (m.attempt now).2.core.memory := by
        obtain same | ⟨_, ends⟩ := (m.attempt now).2.heed_cases (m.attempt now).1
        · rw [same]
        · rw [ends]
          rfl
      simp only [turn, looping, if_true, memory]
      exact stepped (by simp [looping])
    | false => simp [turn, looping]

namespace Unwritten

theorem reachable (u : m.Unwritten config source cells) : m.Reachable config source := by
  induction u with
  | new traced now => exact .new traced now
  | reset now r => exact r.call now (.reset true)
  | call now call _ _ ih => exact ih.call now call
  | start _ s ih => exact ih.start s
  | turn now party _ _ ih => exact ih.turn now party

-- The cells hold what they do in a new machine.
theorem getElem? (u : m.Unwritten config source cells) (cell : cells j) :
    m.core.memory.cells[j]? = (Core.new config source).memory.cells[j]? := by
  induction u with
  | new => rfl
  | reset now r => rw [← r.sound.freshMemory_eq source]; rfl
  | @call m now call u spared ih =>
    by_cases clears : call = .reset true
    case pos =>
      rw [clears, ← u.reachable.sound.freshMemory_eq source]
      rfl
    case neg => rw [getElem?_afterCall u.reachable.sound clears fun mem => spared j mem cell, ih]
  | start _ s ih =>
    obtain ⟨_, out⟩ := start_ok s
    rw [out]
    exact ih
  | turn now party u spared ih =>
    rw [getElem?_turn u.reachable.sound party fun s made mem => spared s made j mem cell, ih]

theorem stepped (u : m.Unwritten config source cells) (now : Float) (spared : ∀ j ∈ m.core.written, ¬ cells j) :
    (m.stepped now).Unwritten config source cells := by
  rw [← afterCall_step]
  refine u.call now .step fun j mem => ?_
  obtain ⟨s, made, mem⟩ := List.mem_flatMap.mp mem
  rw [(Made.of?_eq_some (Option.mem_toList.mp made)).1] at mem
  exact spared j mem

end Unwritten

end Machine
end Chip8
