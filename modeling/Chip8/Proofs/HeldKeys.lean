import Chip8.Proofs.Footprint
import Chip8.Proofs.Made
import Chip8.Proofs.Stalls
import Chip8.Workbench

namespace Chip8

namespace KeySet

-- The numbers of the keys in a set, and no other ones.
def Names (s : KeySet) (held : List Int) : Prop :=
  ∀ n, n ∈ held ↔ ∃ k : Fin 16, k ∈ s ∧ (k.val : Int) = n

variable {held : List Int}

theorem mem_ofTest {test : Int → Bool} {k : Fin 16} : k ∈ ofTest test ↔ test k.val = true := by
  simp [mem_iff, contains, ofTest]

theorem Names.inside {s : KeySet} (names : s.Names held) : ∀ n ∈ held, 0 ≤ n ∧ n < 16 := by
  intro n mem
  obtain ⟨k, _, rfl⟩ := (names n).mp mem
  omega

theorem names_ofTest (inside : ∀ n ∈ held, 0 ≤ n ∧ n < 16) : (ofTest held.contains).Names held := by
  intro n
  simp only [mem_ofTest, List.contains_iff_mem]
  constructor
  case mp =>
    intro mem
    obtain ⟨first, last⟩ := inside n mem
    have number : (n.toNat : Int) = n := Int.toNat_of_nonneg first
    exact ⟨⟨n.toNat, by omega⟩, number.symm ▸ mem, number⟩
  case mpr =>
    rintro ⟨k, mem, rfl⟩
    exact mem

end KeySet

namespace Machine

variable {config : Config} {source : Source} {m m' : Machine} {now : Float} {s : Made}

theorem keys_stepped (h : m.Sound config) (now : Float) : (m.stepped now).core.keys = m.core.keys := by
  cases m.stepped_cases now with
  | inl idle => rw [idle]
  | inr made =>
    obtain ⟨_, _, _, t, out⟩ := made
    obtain ⟨_, _, core⟩ := tick_core t
    rw [out, (confined_cycle (h.tick t)).1.keys, core]

-- The keys that every step of a run finds and leaves.
theorem keys_runSteps (h : m.Sound config) (now : Float) (n : Nat) (later : List Float) :
    (left (m.runSteps now n later)).core.keys = m.core.keys ∧
      ∀ s ∈ m.madeInRun now n later, s.found.core.keys = m.core.keys ∧ s.left.core.keys = m.core.keys := by
  let Kept (past : List Made) (m' : Machine) : Prop := m'.Sound config ∧ m'.core.keys = m.core.keys ∧
    ∀ s ∈ past, s.found.core.keys = m.core.keys ∧ s.left.core.keys = m.core.keys
  have kept : Kept ([] ++ m.madeInRun now n later) (left (m.runSteps now n later)) := by
    refine runSteps_follows (P := Kept) ?_ ?_ ⟨h, rfl, List.forall_mem_nil _⟩ now n later
    case refine_1 =>
      rintro past m₁ now s ⟨sound, keys, before⟩ made
      have after : s.left.core.keys = m.core.keys := by rw [Made.left_eq made, keys_stepped sound, keys]
      refine ⟨Made.left_eq made ▸ (changes_step m₁ now).sound sound, after, ?_⟩
      refine List.forall_mem_append.mpr ⟨before, List.forall_mem_singleton.mpr ⟨?_, after⟩⟩
      rw [(Made.of?_eq_some made).1, keys]
    case refine_2 =>
      rintro past m₁ now ⟨sound, keys, before⟩ _
      exact ⟨(changes_step m₁ now).sound sound, (keys_stepped sound now).trans keys, before⟩
  exact kept.2

end Machine

namespace Workbench

open Machine

-- The batch is not run: an error is shown, and the machine is as it was.
def Refuses (m : Machine) (steps : Float) (text : String) (now : Float) (later : List Float) : Prop :=
  ∃ shown reason, runBatch m steps text now later = .ok shown m ∧ shown.status = "Error: " ++ reason

-- So many steps are run, with the keys held that the text names, and no other ones, until the batch is over.
structure Obeys (m : Machine) (steps : Float) (text : String) (now : Float) (later : List Float) (held : List Int)
    (count : Int) : Prop where
  parsed : keysOf text = .ok held
  counted : (Double.ofFloat steps).integer = .ok count
  ran : (left (runBatch m steps text now later)).core = (left ((holdKeys m held).run now (some count) later)).core
  -- The batch is reported, unless the clock or the source of random bytes has failed.
  reported : (∃ shown m', runBatch m steps text now later = .ok shown m') ∨
    ∃ e m', (holdKeys m held).run now (some count) later = .error e m' ∧ ∀ f, e ≠ .fault f
  during : ∀ s ∈ (holdKeys m held).madeIn now (.run (some count) later),
    s.found.core.keys.Names held ∧ s.left.core.keys.Names held
  behind : (left (runBatch m steps text now later)).core.keys.Names held

-- The keys that a text names are held for a batch, or it is told that they cannot be.
def Honours (m : Machine) (steps : Float) (text : String) (now : Float) (later : List Float) : Prop :=
  Refuses m steps text now later ∨ ∃ held count, Obeys m steps text now later held count

variable {config : Config} {source : Source} {m m' : Machine} {steps now : Float} {later : List Float} {text : String}
  {held : List Int} {count : Int} {shown : Batch}

theorem core_runBatch (parsed : keysOf text = .ok held) (counted : (Double.ofFloat steps).integer = .ok count) :
    (left (runBatch m steps text now later)).core = (left ((holdKeys m held).run now (some count) later)).core := by
  simp only [runBatch, parsed, counted]
  cases (holdKeys m held).run now (some count) later with
  | ok _ m' => rfl
  | error e m' => cases e <;> rfl

theorem reported_runBatch (parsed : keysOf text = .ok held) (counted : (Double.ofFloat steps).integer = .ok count) :
    (∃ shown m', runBatch m steps text now later = .ok shown m') ∨
      ∃ e m', (holdKeys m held).run now (some count) later = .error e m' ∧ ∀ f, e ≠ .fault f := by
  simp only [runBatch, parsed, counted]
  cases (holdKeys m held).run now (some count) later with
  | ok _ m' => exact .inl ⟨_, _, rfl⟩
  | error e m' =>
    cases e with
    | fault f => exact .inl ⟨_, _, rfl⟩
    | _ => exact .inr ⟨_, _, rfl, nofun⟩

-- What is told of a batch that was run begins otherwise than an error.
theorem finish_ne_error {status reason : String} {c : Char} (first : status.toList.head? = some c) (other : c ≠ 'E')
    (out : runBatch.finish m status = .ok shown m') : shown.status ≠ "Error: " ++ reason := by
  intro same
  cases out
  have start := congrArg (·.toList.head?) same
  refine other ?_
  cases beep : m.soundEnded <;> simpa [takeSoundSignal, beep, Batch.of, first] using start

theorem status_ne_error {reason : String} (parsed : keysOf text = .ok held)
    (out : runBatch m steps text now later = .ok shown m') : shown.status ≠ "Error: " ++ reason := by
  simp only [runBatch, parsed] at out
  cases counted : (Double.ofFloat steps).integer with
  | error e => simp [counted] at out
  | ok count =>
    simp only [counted] at out
    cases ran : (holdKeys m held).run now (some count) later with
    | ok _ m₁ =>
      rw [ran] at out
      exact finish_ne_error (c := 'R') (by simp [toString]) (by decide) out
    | error e m₁ =>
      rw [ran] at out
      cases e with
      | fault f => exact finish_ne_error (c := 'H') (by simp) (by decide) out
      | _ => cases out

-- Only keys that cannot be read are answered by an error.
theorem Refuses.keysOf (refuses : Refuses m steps text now later) : ∃ e, keysOf text = .error e := by
  obtain ⟨shown, reason, out, status⟩ := refuses
  cases parsed : Workbench.keysOf text with
  | error e => exact ⟨e, rfl⟩
  | ok held => exact absurd status (status_ne_error parsed out)

theorem sound_holdKeys (h : m.Sound config) (held : List Int) : (holdKeys m held).Sound config := by
  rw [holdKeys]
  exact h.withCore (h.core.withKeys _)

-- The keys that are held from when a batch begins until it is over.
theorem keys_runBatch (h : m.Sound config) (parsed : keysOf text = .ok held)
    (counted : (Double.ofFloat steps).integer = .ok count) :
    (left (runBatch m steps text now later)).core.keys = .ofTest held.contains ∧
      ∀ s ∈ (holdKeys m held).madeIn now (.run (some count) later),
        s.found.core.keys = .ofTest held.contains ∧ s.left.core.keys = .ofTest held.contains := by
  obtain ⟨behind, during⟩ := keys_runSteps (sound_holdKeys h held) now count.toNat later
  refine ⟨?_, during⟩
  rw [core_runBatch parsed counted, left_run, Option.getD_some, behind]
  rfl

theorem obeys (h : m.Sound config) (parsed : keysOf text = .ok held)
    (counted : (Double.ofFloat steps).integer = .ok count) (inside : ∀ n ∈ held, 0 ≤ n ∧ n < 16) :
    Obeys m steps text now later held count := by
  have names := KeySet.names_ofTest inside
  obtain ⟨behind, during⟩ := keys_runBatch h parsed counted
  refine ⟨parsed, counted, core_runBatch parsed counted, reported_runBatch parsed counted, fun s made => ?_, ?_⟩
  case refine_1 =>
    obtain ⟨found, left⟩ := during s made
    rw [found, left]
    exact ⟨names, names⟩
  case refine_2 =>
    rw [behind]
    exact names

-- The keys that a text names are held, or an error is told, exactly if the numbers in the text are all those of keys.
-- The other ones are passed over.
theorem keys_honoured_iff (r : m.Reachable config source) (finite : (Double.ofFloat steps).isFinite = true) :
    (Honours m steps text now later ↔ ∀ held, keysOf text = .ok held → ∀ n ∈ held, 0 ≤ n ∧ n < 16) ∧
      ∀ held, keysOf text = .ok held →
        ∀ k : Fin 16, k ∈ (left (runBatch m steps text now later)).core.keys ↔ (k.val : Int) ∈ held := by
  obtain ⟨count, counted⟩ := Double.exists_integer finite
  refine ⟨⟨?_, fun inside => ?_⟩, fun held parsed k => ?_⟩
  case refine_1 =>
    rintro (refuses | ⟨held, count, obeys⟩) held' parsed
    · obtain ⟨e, error⟩ := refuses.keysOf
      cases error.symm.trans parsed
    · cases obeys.parsed.symm.trans parsed
      exact obeys.behind.inside
  case refine_2 =>
    cases parsed : keysOf text with
    | error e => exact .inl ⟨.of m ("Error: " ++ e.message), e.message, by simp only [runBatch, parsed], rfl⟩
    | ok held => exact .inr ⟨held, count, obeys r.sound parsed counted (inside held parsed)⟩
  case refine_3 =>
    rw [(keys_runBatch r.sound parsed counted).1, KeySet.mem_ofTest, List.contains_iff_mem]

-- A machine about to set a register.
def settingRegister : Machine :=
  (Machine.new (.small .strict) .zeros false 0).afterCall 0 (.load [0x60, 0x05] none)

theorem keysOf_pair : keysOf "5,A" = .ok [5, 10] :=
  rfl

theorem keysOf_overlong : keysOf "1F" = .ok [31] :=
  rfl

theorem pair_honoured : Honours settingRegister 2.0 "5,A" 0 [0.5] := by
  have reachable : settingRegister.Reachable (.small .strict) .zeros := (Reachable.new false 0).call 0 _
  have finite : (Double.ofFloat 2.0).isFinite = true := by decide +kernel
  refine (keys_honoured_iff reachable finite).1.mpr fun held parsed => ?_
  cases keysOf_pair.symm.trans parsed
  decide

-- Two digits that are not parted are one number, which no key has.
theorem overlong_dropped : keysOf "1F" = .ok [31] ∧ ¬ Honours settingRegister 1.0 "1F" 0 [] := by
  refine ⟨keysOf_overlong, ?_⟩
  rintro (refuses | ⟨held, count, obeys⟩)
  · obtain ⟨e, error⟩ := refuses.keysOf
    cases keysOf_overlong.symm.trans error
  · cases keysOf_overlong.symm.trans obeys.parsed
    have inside := obeys.behind.inside 31 (List.mem_singleton_self 31)
    omega

end Workbench
end Chip8
