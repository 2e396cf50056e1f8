import Chip8.Proofs.Footprint
import Chip8.Proofs.KeyWait
import Chip8.Proofs.Made
import Mathlib.Data.List.Chain

namespace Chip8

namespace Core

variable {config : Config} {c : Core}

-- A core that waits after a cycle has come to a wait without an answer, and the cycle has left the rest as it was.
theorem Sound.poll_of_waiting_next (h : c.Sound config) (pends : c.waiting = true → c.Faces config .awaitKey)
    (waits : (c.next config.dialect).waiting = true) : c.Faces config .awaitKey ∧ ∃ wait,
      c.keys.poll c.wait = (none, wait) ∧ c.next config.dialect = { c with wait := wait } := by
  have faces : c.Faces config .awaitKey := by
    by_cases same : (c.next config.dialect).wait = c.wait
    case pos =>
      rw [waiting, same] at waits
      exact pends waits
    case neg => exact h.confined_next.wait same
  refine ⟨faces, ?_⟩
  cases poll : c.keys.poll c.wait with
  | mk key wait =>
    cases key with
    | none => exact ⟨wait, rfl, next_of_poll_none h faces poll⟩
    | some key =>
      have ended : wait = none := KeySet.wait_of_poll_some poll
      rw [next_of_poll_some h faces poll, waiting, ended] at waits
      cases waits

end Core

namespace Machine

namespace Made

-- A step that waited for a key and found none.
structure Unanswered (s : Made) : Prop where
  awaits : s.entry.operation? = some .awaitKey
  fine : s.entry.fault = none
  answer : (s.found.core.keys.poll s.found.core.wait).1 = none

-- A step after which a wait remembers the keys held at the step, where nothing was waited for before.
structure Arms (s : Made) : Prop where
  idle : s.found.core.wait = none
  armed : s.left.core.wait = some s.found.core.keys

-- A wait that is come to from elsewhere starts anew.
def Rearms (before s : Made) : Prop :=
  s.entry.operation? = some .awaitKey → s.entry.pc ≠ before.entry.pc → s.Arms

end Made

-- A machine that runs and is about to wait for a key, as in its last step, which found none.
structure Pends (config : Config) (m : Machine) (last : Option Made) : Prop where
  running : m.halted = false
  awaits : m.core.Faces config .awaitKey
  unanswered : ∃ s ∈ last, s.Unanswered ∧ s.entry.pc = m.state.pc

-- How a machine has come by its wait, told by its steps so far.
structure Waited (config : Config) (past : List Made) (m : Machine) : Prop where
  sound : m.Sound config
  pends : m.core.waiting = true → m.Pends config past.getLast?
  rearms : past.IsChain Made.Rearms
  first : ∀ s ∈ past.head?, s.entry.operation? = some .awaitKey → s.Arms

variable {config : Config} {source : Source} {m m' : Machine} {now : Float} {call : Call} {s : Made}
  {periods : Int} {op : Operation} {past : List Made} {history : List (Float × Call)}

-- What an entry tells of the instruction that the step found.
theorem Made.seen (h : s.found.Sound config) : s.entry.pc = s.found.state.pc ∧
    ∀ op, s.entry.operation? = some op ↔ s.found.core.Faces config op := by
  obtain ⟨_, _, m₁, t, c⟩ := step_ok s.step
  obtain ⟨_, pc, fetched⟩ := (cycle_leaves (h.tick t) c).seen
  obtain ⟨word, _, same, _⟩ := tick_preserves_cycle t
  refine ⟨pc.trans same, fun op => ?_⟩
  rw [Entry.operation?, fetched, word]
  exact h.core.faces_iff.symm

-- A cycle that leaves a wait has come to the wait and not failed, and the next one comes to it again.
theorem cycle_of_waiting (h : m.Sound config) (pends : m.core.waiting = true → m.core.Faces config .awaitKey)
    (waits : (left m.cycle).core.waiting = true) : ∃ e m', m.cycle = .ok e m' ∧ e.fault = none ∧
      m'.halted = m.halted ∧ m.core.Faces config .awaitKey ∧ (m.core.keys.poll m.core.wait).1 = none ∧
      m'.state.pc = m.state.pc ∧ m'.core.memory = m.core.memory := by
  obtain ⟨rfl, sound⟩ := h
  obtain ⟨_, _, core⟩ := core_cycle ⟨rfl, sound⟩
  rw [core] at waits
  obtain ⟨faces, wait, poll, next⟩ := sound.poll_of_waiting_next pends waits
  have succeeds : m.core.failure? = none := faces.failure?_eq sound
  cases c : m.cycle with
  | ok e m' =>
    have l := cycle_leaves ⟨rfl, sound⟩ c
    have fine : e.fault = none := by simpa [succeeds] using l.failure
    have halted := l.halted
    rw [fine] at halted
    rw [c, left, next] at core
    refine ⟨e, m', rfl, fine, halted, faces, by rw [poll], ?_, ?_⟩
    · rw [state, core]
      rfl
    · rw [core]
      rfl
  | error failure m' =>
    obtain ⟨_, fails, _⟩ := cycle_error ⟨rfl, sound⟩ c
    cases succeeds.symm.trans fails

theorem tick_waiting (t : m.tick now = .ok (periods, m')) (pends : m.core.waiting = true → m.core.Faces config op) :
    m'.core.waiting = true → m'.core.Faces config op := by
  intro waits
  obtain ⟨_, _, core⟩ := tick_core t
  refine (tick_faces t).mpr (pends ?_)
  rw [core] at waits
  exact waits

theorem Made.pends (h : s.found.Sound config)
    (pends : s.found.core.waiting = true → s.found.core.Faces config .awaitKey)
    (waits : s.left.core.waiting = true) : s.left.Pends config (some s) := by
  obtain ⟨running, _, m₁, t, c⟩ := step_ok s.step
  have left : Machine.left m₁.cycle = s.left := congrArg Machine.left c
  obtain ⟨_, _, c', fine, halted, faces, unanswered, pc, memory⟩ :=
    cycle_of_waiting (h.tick t) (tick_waiting t pends) (left ▸ waits)
  cases c.symm.trans c'
  obtain ⟨place, operation⟩ := Made.seen h
  obtain ⟨_, _, same, _⟩ := tick_preserves_cycle t
  obtain ⟨_, _, core⟩ := tick_core t
  have awaits := (tick_faces t).mp faces
  rw [core] at unanswered
  refine ⟨?_, faces.of_same pc memory, s, rfl, ⟨(operation _).mpr awaits, fine, unanswered⟩, ?_⟩
  · rw [halted, tick_preserves_halted t, running]
  · rw [place, pc, same]

-- A step that leaves no entry leaves no wait that was not there before.
theorem stepped_of_unmade (h : m.Sound config) (pends : m.core.waiting = true → m.core.Faces config .awaitKey)
    (unmade : Made.of? m now = none) (waits : (m.stepped now).core.waiting = true) : m.stepped now = m := by
  cases m.stepped_cases now with
  | inl idle => exact idle
  | inr made =>
    obtain ⟨running, _, m₁, t, out⟩ := made
    obtain ⟨_, _, c, _⟩ := cycle_of_waiting (h.tick t) (tick_waiting t pends) (out ▸ waits)
    cases (Made.of?_ok ((step_of_tick running t).trans c)).symm.trans unmade

-- A step that comes to a wait where nothing is waited for arms it.
theorem Made.arms (h : s.found.Sound config) (awaits : s.entry.operation? = some .awaitKey)
    (idle : s.found.core.wait = none) : s.Arms := by
  refine ⟨idle, ?_⟩
  obtain ⟨rfl, sound⟩ := h
  obtain ⟨_, _, m₁, t, c⟩ := step_ok s.step
  have h₁ : m₁.Sound s.found.config := Sound.tick ⟨rfl, sound⟩ t
  have faces := (tick_faces t).mpr (((Made.seen ⟨rfl, sound⟩).2 _).mp awaits)
  obtain ⟨_, _, core⟩ := core_cycle h₁
  obtain ⟨_, _, ticked⟩ := tick_core t
  have poll : m₁.core.keys.poll m₁.core.wait = (none, some s.found.core.keys) := by
    rw [ticked, idle]
    rfl
  rw [c, Machine.left, Core.next_of_poll_none h₁.core faces poll] at core
  rw [core]
  rfl

namespace Waited

theorem made (w : m.Waited config past) (out : Made.of? m now = some s) : s.left.Waited config (past ++ [s]) := by
  obtain ⟨rfl, rfl⟩ := Made.of?_eq_some out
  have arms (awaits : s.entry.operation? = some .awaitKey) (idle : ¬ s.found.core.waiting = true) : s.Arms :=
    Made.arms w.sound awaits (by simpa [Core.waiting] using idle)
  refine ⟨?_, ?_, ?_, ?_⟩
  case refine_1 => exact Made.left_eq out ▸ (changes_step ..).sound w.sound
  case refine_2 =>
    intro waits
    rw [List.getLast?_concat]
    exact Made.pends w.sound (fun waits => (w.pends waits).awaits) waits
  case refine_3 =>
    refine List.isChain_append.mpr ⟨w.rearms, .singleton s, ?_⟩
    intro before last _ first awaits elsewhere
    cases first
    refine arms awaits fun waits => ?_
    obtain ⟨s', last', _, place⟩ := (w.pends waits).unanswered
    cases last.symm.trans last'
    exact elsewhere ((Made.seen w.sound).1.trans place.symm)
  case refine_4 =>
    cases past with
    | nil =>
      intro _ first awaits
      cases first
      refine arms awaits fun waits => ?_
      obtain ⟨_, none, _⟩ := (w.pends waits).unanswered
      cases none
    | cons => exact w.first

theorem unmade (w : m.Waited config past) (out : Made.of? m now = none) : (m.stepped now).Waited config past := by
  refine ⟨(changes_step m now).sound w.sound, fun waits => ?_, w.rearms, w.first⟩
  have idle := stepped_of_unmade w.sound (fun waits => (w.pends waits).awaits) out waits
  rw [idle] at waits ⊢
  exact w.pends waits

theorem alters (kept : call.stores = false) (w : m.Waited config past) (a : m.Alters now call m') :
    m'.Waited config past := by
  have sound := a.change.sound w.sound
  cases reset : call.isReset with
  | true =>
    cases a <;> cases reset
    exact ⟨sound, nofun, w.rearms, w.first⟩
  | false =>
    have retains := a.retains reset
    refine ⟨sound, fun waits => ?_, w.rearms, w.first⟩
    rw [Core.waiting, retains.wait] at waits
    obtain ⟨running, awaits, s, last, unanswered, place⟩ := w.pends waits
    exact ⟨retains.halted.trans running, awaits.of_same retains.pc (retains.memory kept), s, last, unanswered,
      place.trans retains.pc.symm⟩

-- A machine that waits for nothing has nothing to tell of yet.
theorem of_idle (h : m.Sound config) (idle : m.core.wait = none) : m.Waited config [] where
  sound := h
  pends waits := by
    rw [Core.waiting, idle] at waits
    cases waits
  rearms := .nil
  first _ none := by cases none

theorem afterCalls (w : m.Waited config past) (kept : ∀ p ∈ history, p.2.stores = false) :
    (m.afterCalls history).Waited config (past ++ m.made history) :=
  afterCalls_follows (P := fun past m => m.Waited config past) (C := fun call => call.stores = false) past made unmade
    alters w kept

end Waited

theorem afterCall_load_wait (m : Machine) (now : Float) (image : List Int) (start : Option Int) :
    (m.afterCall now (.load image start)).core.wait = m.core.wait := by
  rw [afterCall, answer]
  cases l : m.load image start with
  | error e => rfl
  | ok m' =>
    obtain ⟨_, _, _, _, out⟩ := load_ok l
    rw [out]

-- A machine that is loaded when it waits for nothing. As long as the host stores nothing else, a wait is pending at the
-- instruction that the machine is at, and an instruction that is come to from elsewhere arms a wait of its own.
theorem wait_pending (r : m.Reachable config source) (idle : m.core.wait = none) (now : Float) (image : List Int)
    (start : Option Int) (kept : ∀ p ∈ history, p.2.stores = false) :
    let loaded := m.afterCall now (.load image start)
    let m' := loaded.afterCalls history
    let steps := loaded.made history
    (m'.core.waiting = true → m'.Pends config steps.getLast?) ∧ steps.IsChain Made.Rearms ∧
      ∀ s ∈ steps.head?, s.entry.operation? = some .awaitKey → s.Arms := by
  intro loaded m' steps
  have begun : loaded.Waited config [] := .of_idle (r.call now _).sound ((afterCall_load_wait ..).trans idle)
  have w : m'.Waited config steps := begun.afterCalls kept
  exact ⟨w.pends, w.rearms, w.first⟩

-- Two waits in a row. The key that answers the first one is still held at the second, which does not take it.
theorem prompting_pending :
    let m := Machine.new (.small .strict) .zeros false 0
    let history : List (Float × Call) := [(0, .step), (0, .setKey 5 true), (0, .run (some 2)), (1, .tick)]
    let loaded := m.afterCall 0 (.load [0xf0, 0x0a, 0xf1, 0x0a] none)
    let m' := loaded.afterCalls history
    m'.core.waiting = true ∧ m'.Pends (.small .strict) (loaded.made history).getLast? ∧ m'.state.pc = 0x62 ∧
      ∃ s ∈ (loaded.made history)[2]?, s.Arms := by
  intro m history loaded m'
  have kept : ∀ p ∈ history, p.2.stores = false := by decide
  obtain ⟨waits, pc, count, second, third⟩ : m'.core.waiting = true ∧ m'.state.pc = 0x62 ∧
      2 < (loaded.made history).length ∧ (∀ s ∈ (loaded.made history)[1]?, s.entry.pc = 0x60) ∧
      ∀ s ∈ (loaded.made history)[2]?, s.entry.pc = 0x62 ∧ s.entry.operation? = some .awaitKey := by
    decide +kernel
  have reachable : m.Reachable (.small .strict) .zeros := .new false 0
  have ⟨pends, rearms, _⟩ := wait_pending reachable rfl 0 [0xf0, 0x0a, 0xf1, 0x0a] none kept
  have last := List.getElem?_eq_getElem count
  have ⟨place, awaits⟩ := third _ last
  refine ⟨waits, pends waits, pc, _, last, List.isChain_iff_getElem.mp rearms 1 count awaits ?_⟩
  rw [place, second _ (List.getElem?_eq_getElem (Nat.lt_of_succ_lt count))]
  decide

end Machine
end Chip8
