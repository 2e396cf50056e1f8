import Chip8.Proofs.CallStack
import Chip8.Proofs.Made
import Chip8.Proofs.Reset

namespace Chip8

theorem State.value_put_self {s : State} {i : Nat} (inside : i < s.registers.length) (v : Int) :
    (s.put i v).value i = byte v := by
  rw [value, List.getD_eq_getElem?_getD, put, List.getElem?_set_self inside]
  rfl

theorem byte_toNat (b : UInt8) : byte b.toNat = b.toNat := by
  have := b.toNat_lt
  rw [byte]
  omega

theorem getElem?_concat {α : Type} {as : List α} {a b : α} {i : Nat} (at_i : (as ++ [a])[i]? = some b) :
    as[i]? = some b ∨ i = as.length ∧ a = b := by
  rw [List.getElem?_append] at at_i
  split at at_i
  case isTrue => exact .inl at_i
  case isFalse behind =>
    rw [List.getElem?_singleton] at at_i
    split at at_i
    case isTrue last => exact .inr ⟨by omega, Option.some.inj at_i⟩
    case isFalse => cases at_i

namespace Core

-- A byte is drawn exactly if the next instruction asks for one.
theorem source_next (c : Core) (d : Dialect) :
    (c.next d).source = if c.word?.bind Operation.decode = some .random then c.source.next else c.source := by
  cases word : c.word?.bind Operation.decode with
  | some op =>
    rw [(next_of_word word).1, Operation.after_source]
    simp only [Option.some.injEq]
    rfl
  | none =>
    simp only [word?] at word
    simp only [next, reduceCtorEq, if_false]
    cases fetch : c.fetchFailure? with
    | some e => rfl
    | none =>
      have decode : Operation.decode c.nextWord = none := by simpa [fetch] using word
      simp only [decode]
      rfl

end Core

namespace Machine

variable {config config' : Config} {source source' : Source} {m m' : Machine} {now : Float} {s : Made}
  {past past' : List Made}

namespace Made

-- A step that came to a random instruction.
def isRandom (s : Made) : Bool :=
  s.entry.operation? = some .random

-- The value that the step left in the register of its instruction.
def result (s : Made) : Int :=
  s.left.state.value s.entry.opcode.x

-- The source that a step finds, so many bytes of which have been drawn, and the one that it leaves.
structure Finds (source : Source) (drawn : Nat) (s : Made) : Prop where
  found : s.found.core.source = source.after drawn
  left : s.left.core.source = source.after (drawn + if s.isRandom then 1 else 0)

-- A step that gets the byte of this number, with the bits that its instruction masks.
def Gets (source : Source) (k : Nat) (s : Made) : Prop :=
  ∃ b, source.nth? k = some b ∧ s.result = (b &&& UInt8.ofNat s.entry.opcode.nn).toNat

theorem source_left (h : s.found.Sound config) :
    s.left.core.source = if s.isRandom then s.found.core.source.next else s.found.core.source := by
  obtain ⟨_, _, m₁, t, c⟩ := step_ok s.step
  obtain ⟨_, _, after⟩ := core_cycle (h.tick t)
  obtain ⟨_, _, core⟩ := tick_core t
  rw [c, Machine.left] at after
  rw [after, Core.modifyState, Core.source_next, isRandom, Entry.operation?, fetched_of_step h s.step,
    (tick_preserves_cycle t).1, core]
  simp only [decide_eq_true_eq]

-- A random instruction that leaves an entry has drawn a byte.
theorem exists_result (h : s.found.Sound config) (random : s.isRandom = true) :
    ∃ b, s.found.core.source.draw?.map (·.1) = some b ∧
      s.result = (b &&& UInt8.ofNat s.entry.opcode.nn).toNat := by
  have operation : s.entry.operation? = some .random := of_decide_eq_true random
  have fetched := fetched_of_step h s.step
  have faces : s.found.core.Faces config .random := by
    rw [h.core.faces_iff, ← fetched]
    exact operation
  have word : s.entry.opcode = s.found.core.nextWord := by
    rw [Entry.opcode, fetched, Core.word?_of_fetches h.core faces.fetches]
    rfl
  obtain ⟨_, _, m₁, t, c⟩ := step_ok s.step
  have failure := (cycle_leaves (h.tick t) c).failure
  rw [((tick_faces t).mpr faces).failure?_eq (h.tick t).core] at failure
  have fine : s.entry.fault = none := by
    simp only [Operation.failure?] at failure
    cases fault : s.entry.fault with
    | none => rfl
    | some f =>
      rw [fault] at failure
      split at failure <;> cases failure
  have performs : s.found.Performs s.now .random s.left := ⟨s.entry, s.step, operation, fine⟩
  obtain ⟨_, _, _, _, succeeds, core⟩ := performs.leaves h
  cases drawn : s.found.core.source.draw? with
  | none =>
    have empty : s.found.core.source.isEmpty = true := Source.draw?_eq_none.mp drawn
    simp [Operation.failure?, Core.fetched, Core.modifyState, empty] at succeeds
  | some p =>
    refine ⟨p.1, rfl, ?_⟩
    rw [result, word, state, core]
    simp only [Operation.after, Core.modifyState, Core.fetched, drawn]
    have inside : s.found.core.nextWord.x < s.found.core.state.registers.length :=
      h.core.registers_length ▸ Opcode.x_lt _
    exact (State.value_put_self inside _).trans (byte_toNat _)

end Made

-- A step that leaves no entry draws nothing, as it fails for want of a byte if it asks for one.
theorem source_of_unmade (h : m.Sound config) (unmade : Made.of? m now = none) :
    (m.stepped now).core.source = m.core.source := by
  cases m.stepped_cases now with
  | inl idle => rw [idle]
  | inr made =>
    obtain ⟨running, _, m₁, t, out⟩ := made
    have h₁ := h.tick t
    obtain ⟨_, _, core⟩ := tick_core t
    obtain ⟨_, _, after⟩ := core_cycle h₁
    rw [out, after, Core.modifyState, Core.source_next]
    split
    case isFalse => rw [core]
    case isTrue random =>
      cases c : m₁.cycle with
      | ok e m' => cases (Made.of?_ok ((step_of_tick running t).trans c)).symm.trans unmade
      | error failure m' =>
        obtain ⟨_, fails, _⟩ := cycle_error h₁ c
        rw [(h₁.core.faces_iff.mpr random).failure?_eq h₁.core] at fails
        simp only [Operation.failure?] at fails
        split at fails
        case isFalse => cases fails
        case isTrue empty =>
          have none : m₁.core.source.draw? = none := Source.draw?_eq_none.mpr empty
          rw [Source.next, none, core]
          rfl

-- The random instructions that were performed, one after another.
def randoms (past : List Made) : List Made :=
  past.filter Made.isRandom

theorem randoms_concat (past : List Made) (s : Made) :
    randoms (past ++ [s]) = randoms past ++ if s.isRandom then [s] else [] := by
  rw [randoms, List.filter_append, List.filter_singleton]
  cases s.isRandom <;> rfl

theorem length_randoms_concat (past : List Made) (s : Made) :
    (randoms (past ++ [s])).length = (randoms past).length + if s.isRandom then 1 else 0 := by
  rw [randoms_concat, List.length_append]
  split <;> rfl

-- What has been drawn from a source by the steps so far.
structure Drew (config : Config) (source : Source) (past : List Made) (m : Machine) : Prop where
  sound : m.Sound config
  position : m.core.source = source.after (randoms past).length
  steps : ∀ i (s : Made), past[i]? = some s → s.Finds source (randoms (past.take i)).length
  results : ∀ k (s : Made), (randoms past)[k]? = some s → s.Gets source k

namespace Drew

theorem made (d : m.Drew config source past) (out : Made.of? m now = some s) :
    s.left.Drew config source (past ++ [s]) := by
  obtain ⟨rfl, rfl⟩ := Made.of?_eq_some out
  have left := Made.source_left d.sound
  have finds : s.Finds source (randoms past).length := by
    refine ⟨d.position, ?_⟩
    rw [left, d.position]
    split <;> rfl
  refine ⟨Made.left_eq out ▸ (changes_step ..).sound d.sound, ?_, ?_, ?_⟩
  case refine_1 => rw [length_randoms_concat, finds.left]
  case refine_2 =>
    intro i s' at_i
    rcases getElem?_concat at_i with before | ⟨rfl, rfl⟩
    · have inside := (List.getElem?_eq_some_iff.mp before).1
      rw [List.take_append_of_le_length (Nat.le_of_lt inside)]
      exact d.steps i s' before
    · rw [List.take_left' rfl]
      exact finds
  case refine_3 =>
    intro k s' at_k
    rw [randoms_concat] at at_k
    cases random : s.isRandom with
    | false =>
      simp only [random, Bool.false_eq_true, if_false, List.append_nil] at at_k
      exact d.results k s' at_k
    | true =>
      simp only [random, if_true] at at_k
      rcases getElem?_concat at_k with before | ⟨rfl, rfl⟩
      · exact d.results k s' before
      · obtain ⟨b, byte, result⟩ := Made.exists_result d.sound random
        rw [d.position] at byte
        exact ⟨b, byte, result⟩

theorem unmade (d : m.Drew config source past) (out : Made.of? m now = none) :
    (m.stepped now).Drew config source past :=
  ⟨(changes_step m now).sound d.sound, (source_of_unmade d.sound out).trans d.position, d.steps, d.results⟩

theorem alters {call : Call} (d : m.Drew config source past) (a : m.Alters now call m') :
    m'.Drew config source past := by
  refine ⟨a.change.sound d.sound, ?_, d.steps, d.results⟩
  rw [← d.position]
  cases a
  case load l =>
    obtain ⟨_, _, _, _, out⟩ := load_ok l
    rw [out]
  case tick t =>
    obtain ⟨_, _, out⟩ := tick_ok t
    rw [out]
  case setKey k =>
    obtain ⟨_, _, out⟩ := setKey_ok k
    rw [out]
  case writePixel w =>
    obtain ⟨_, _, out⟩ := writePixel_ok w
    rw [out]
  case writeMemory w =>
    obtain ⟨_, _, out⟩ := writeMemory_ok w
    rw [out]
  case reset | takeDisplaySignal | takeSoundSignal => rfl

theorem new (traced : Bool) (now : Float) : (Machine.new config source traced now).Drew config source [] where
  sound := .new config source traced now
  position := rfl
  steps i s at_i := by simp at at_i
  results k s at_k := by simp [randoms] at at_k

theorem loops (d : m.Drew config source past) (looping : Bool) (loopFault : Option Fault) :
    { m with looping := looping, loopFault := loopFault }.Drew config source past :=
  ⟨⟨d.sound.config_eq, d.sound.core⟩, d.position, d.steps, d.results⟩

theorem of_course (c : Course config source past m) : m.Drew config source past :=
  c.follows (P := fun past m => m.Drew config source past) new made unmade alters fun looping loopFault d =>
    d.loops looping loopFault

end Drew

-- Sources with the same bytes to come give the same results to the same instructions.
theorem results_eq (d : m.Drew config source past) (d' : m'.Drew config' source' past') (alike : source.Alike source')
    (same : (randoms past).map (·.entry.opcode) = (randoms past').map (·.entry.opcode)) :
    (randoms past).map Made.result = (randoms past').map Made.result := by
  have length : (randoms past).length = (randoms past').length := by
    simpa using congrArg List.length same
  refine List.ext_getElem (by simpa using length) fun k here there => ?_
  rw [List.length_map] at here there
  obtain ⟨b, byte, result⟩ := d.results k _ (List.getElem?_eq_getElem here)
  obtain ⟨b', byte', result'⟩ := d'.results k _ (List.getElem?_eq_getElem there)
  have opcode : (randoms past)[k].entry.opcode = (randoms past')[k].entry.opcode := by
    have at_k := congrArg (·[k]?) same
    simpa [here, there] using at_k
  have bytes : b = b' := by
    rw [alike k, byte'] at byte
    exact (Option.some.inj byte).symm
  rw [List.getElem_map, List.getElem_map, result, result', opcode, bytes]

-- Whatever the host does with a machine, as many bytes have been drawn at any time as random instructions were
-- performed, and each of these has got the byte of its own number, counted from when the machine was new. So the resets
-- of two machines make no difference to what their random instructions get.
theorem random_bytes (c : Course config source past m) :
    m.core.source = source.after (randoms past).length ∧
    (∀ i (s : Made), past[i]? = some s → s.Finds source (randoms (past.take i)).length) ∧
    (∀ k (s : Made), (randoms past)[k]? = some s → s.Gets source k) ∧
    ∀ config' source' past' m', Course config' source' past' m' → source.Alike source' →
      (randoms past).map (·.entry.opcode) = (randoms past').map (·.entry.opcode) →
      (randoms past).map Made.result = (randoms past').map Made.result := by
  have d := Drew.of_course c
  exact ⟨d.position, d.steps, d.results, fun _ _ _ _ c' alike same => results_eq d (.of_course c') alike same⟩

-- Three random instructions with a reset among them, and the same ones without it.
theorem interrupted_draws :
    let m := Machine.new (.small .strict) (.cycle #[0x12, 0x34, 0x56] 0) false 0
    let load : Float × Call := (0, .load [0xc0, 0xff, 0xc1, 0x0f, 0x10, 0x60] none)
    let interrupted := [load, (0, .run (some 2)), (0, .reset false), (0, .setKey 1 true), (0, .step)]
    let straight := [load, (0, .run (some 4))]
    (randoms (m.made interrupted)).map Made.result = [0x12, 0x04, 0x56] ∧
      (randoms (m.made straight)).map Made.result = [0x12, 0x04, 0x56] := by
  intro m load interrupted straight
  obtain ⟨_, _, _, same⟩ := random_bytes (.ofCalls false 0 interrupted)
  obtain ⟨opcodes, results⟩ :
      (randoms (m.made interrupted)).map (·.entry.opcode) = (randoms (m.made straight)).map (·.entry.opcode) ∧
      (randoms (m.made interrupted)).map Made.result = [0x12, 0x04, 0x56] := by
    decide +kernel
  have results' := same _ _ _ _ (.ofCalls false 0 straight) (fun _ => rfl) opcodes
  exact ⟨results, results'.symm.trans results⟩

end Machine
end Chip8
