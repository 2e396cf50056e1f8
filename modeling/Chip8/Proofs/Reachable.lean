import Chip8.Machine.Call
import Chip8.Proofs.Step
import Mathlib.Logic.Relation

namespace Chip8

namespace Machine

-- One change of a machine. Time passes and cycles are run only as parts of a step.
inductive Change (m : Machine) : Machine → Prop
  | load {image start m'} : m.load image start = .ok m' → Change m m'
  | reset (clearMemory now) : Change m (m.reset clearMemory now)
  | tick {now periods m'} : m.tick now = .ok (periods, m') → Change m m'
  | cycle : m.halted = false → Change m (left m.cycle)
  | setKey {key down m'} : m.setKey key down = .ok m' → Change m m'
  | writePixel {x y lit m'} : m.writePixel x y lit = .ok m' → Change m m'
  | writeMemory {a v m'} : m.writeMemory a v = .ok m' → Change m m'
  | takeDisplaySignal : Change m m.takeDisplaySignal.2
  | takeSoundSignal : Change m m.takeSoundSignal.2
  | start {m'} : m.start = .ok m' → Change m m'
  | endLoop (fault) : Change m (m.endLoop fault)

abbrev Changes : Machine → Machine → Prop :=
  Relation.ReflTransGen Change

-- A call that changes the machine or fails leaves it as it was or as it is changed.
theorem left_changed {P : Machine → Prop} {m : Machine} {r : Except Failure Machine} (same : P m)
    (changed : ∀ {m'}, r = .ok m' → P m') : P (left (m.changed r)) := by
  cases r with
  | error e => exact same
  | ok m' => exact changed rfl

theorem Changes.changed {m : Machine} {r : Except Failure Machine}
    (h : ∀ {m'}, r = .ok m' → Change m m') : Changes m (left (m.changed r)) :=
  left_changed (P := (Changes m ·)) .refl fun c => .single (h c)

variable {m m' : Machine} {now : Float}

theorem tick_preserves_halted {periods : Int} (t : m.tick now = .ok (periods, m')) :
    m'.halted = m.halted := by
  have ⟨_, _, core⟩ := tick_core t
  rw [halted, core]
  rfl

theorem changes_step (m : Machine) (now : Float) : Changes m (m.stepped now) := by
  cases m.stepped_cases now with
  | inl idle => rw [idle]
  | inr made =>
    have ⟨running, _, _, t, out⟩ := made
    rw [out]
    exact .tail (.single (.tick t)) (.cycle (tick_preserves_halted t ▸ running))

theorem changes_runSteps (m : Machine) (now : Float) (n : Nat) (later : List Float) :
    Changes m (left (m.runSteps now n later)) := by
  induction n generalizing m now later with
  | zero => exact .refl
  | succ n ih =>
    have first := changes_step m now
    rw [stepped] at first
    rw [runSteps]
    cases s : m.step now with
    | error e m' =>
      rw [s] at first
      exact first
    | ok e m' =>
      rw [s] at first
      cases f : e.fault with
      | some f =>
        simp only [f]
        exact first
      | none =>
        simp only [f]
        exact first.trans (ih m' _ _)

theorem left_run (m : Machine) (now : Float) (limit : Option Int) (later : List Float) :
    left (m.run now limit later) = left (m.runSteps now (limit.getD defaultLimit).toNat later) := by
  rw [run]
  cases m.runSteps now (limit.getD defaultLimit).toNat later <;> rfl

theorem changes_run (m : Machine) (now : Float) (limit : Option Int) (later : List Float) :
    Changes m (left (m.run now limit later)) :=
  left_run m now limit later ▸ changes_runSteps ..

theorem afterCall_eq (m : Machine) (now : Float) (call : Call) :
    m.afterCall now call = left (m.answer now call) := by
  rw [afterCall]
  cases m.answer now call <;> rfl

theorem left_replied {α : Type} (reply : α → Reply) (r : Outcome α) : left (replied reply r) = left r := by
  cases r <;> rfl

theorem afterCall_step (m : Machine) (now : Float) : m.afterCall now .step = m.stepped now := by
  rw [afterCall_eq, answer, left_replied, stepped]

theorem left_asked (m : Machine) (r : Except Failure Reply) : left (m.asked r) = m := by
  cases r <;> rfl

end Machine

-- Steps, and calls that change no more of a core than its keys and its timers.
def Call.isQuiet : Call → Bool
  | .step | .tick | .setKey .. | .readPixel .. | .readMemory .. | .takeSoundSignal | .summary => true
  | .load .. | .reset _ | .run .. | .writePixel .. | .writeMemory .. | .takeDisplaySignal => false

namespace Machine

variable {m m' : Machine} {now : Float}

theorem afterCall_quiet (m : Machine) (now : Float) {call : Call} (quiet : call.isQuiet = true)
    (other : call ≠ .step) : ∃ keys delay sound, (m.afterCall now call).core = { m.core with
      keys := keys
      state := { m.core.state with delayTimer := delay, soundTimer := sound } } ∧
      (m.afterCall now call).displayWritten = m.displayWritten ∧
      (m.afterCall now call).fault = m.fault := by
  rw [afterCall_eq]
  cases call <;> simp only [answer]
  case step => exact absurd rfl other
  case tick =>
    cases t : m.tick now with
    | error e => exact ⟨_, _, _, rfl, rfl, rfl⟩
    | ok p =>
      obtain ⟨_, _, out⟩ := tick_ok t
      obtain ⟨_, _, core⟩ := tick_core t
      exact ⟨_, _, _, core, by rw [left, out], by rw [left, out]⟩
  case setKey key down =>
    cases k : m.setKey key down with
    | error e => exact ⟨_, _, _, rfl, rfl, rfl⟩
    | ok m' =>
      obtain ⟨_, _, out⟩ := setKey_ok k
      rw [out]
      exact ⟨_, _, _, rfl, rfl, rfl⟩
  case readPixel | readMemory =>
    rw [left_asked]
    exact ⟨_, _, _, rfl, rfl, rfl⟩
  case takeSoundSignal | summary => exact ⟨_, _, _, rfl, rfl, rfl⟩
  all_goals cases quiet

theorem changes_afterCall (m : Machine) (now : Float) (call : Call) :
    Changes m (m.afterCall now call) := by
  rw [afterCall_eq]
  cases call <;> simp only [answer]
  case load image start =>
    cases l : m.load image start with
    | error e => exact .refl
    | ok m' => exact .single (.load l)
  case reset clearMemory => exact .single (.reset clearMemory now)
  case step =>
    rw [left_replied]
    exact changes_step m now
  case run limit later =>
    rw [left_replied]
    exact changes_run m now limit later
  case tick =>
    cases t : m.tick now with
    | error e => exact .refl
    | ok p => exact .single (.tick t)
  case setKey => exact .changed .setKey
  case writePixel => exact .changed .writePixel
  case writeMemory => exact .changed .writeMemory
  case readPixel | readMemory =>
    rw [left_asked]
  case takeDisplaySignal => exact .single .takeDisplaySignal
  case takeSoundSignal => exact .single .takeSoundSignal
  case summary => exact .refl

theorem attempt_snd (m : Machine) (now : Float) : (m.attempt now).2 = m.stepped now := by
  rw [attempt, stepped]
  cases m.step now <;> rfl

-- A loop takes note of its step by ending, if at all.
theorem heed_cases (m : Machine) (a : Attempt) : m.heed a = m ∨ ∃ fault, m.heed a = m.endLoop fault := by
  cases a with
  | ok e =>
    simp only [heed]
    cases e.fault with
    | none => exact .inl rfl
    | some f => exact .inr ⟨_, rfl⟩
  | error e => cases e <;> exact .inr ⟨_, rfl⟩

theorem changes_heed (m : Machine) (a : Attempt) : Changes m (m.heed a) := by
  obtain same | ⟨_, ends⟩ := m.heed_cases a
  · exact same.symm ▸ .refl
  · exact ends.symm ▸ .single (.endLoop _)

theorem changes_turn (m : Machine) (now : Float) (party : Party) :
    Changes m (m.turn now party).2 := by
  have step := attempt_snd m now ▸ changes_step m now
  cases party with
  | host => exact step
  | loop =>
    cases looping : m.looping with
    | true =>
      simp only [turn, looping, if_true]
      exact step.trans (changes_heed ..)
    | false =>
      simp only [turn, looping]
      exact .refl

theorem changes_loop (m : Machine) (now : Float) (limit : Nat) : Changes m (m.loop now limit) := by
  induction limit generalizing m with
  | zero => exact .refl
  | succ limit ih =>
    rw [loop]
    split
    · exact (changes_turn m now .loop).trans (ih _)
    · exact .refl

theorem changes_loopAt (m : Machine) (now rate : Float) (limit : Nat) : Changes m (m.loopAt now rate limit) := by
  have turns := changes_loop m now (turnsAt rate limit)
  rw [loopAt]
  split
  · exact turns
  · exact turns.tail (.endLoop none)

theorem Change.sound {config : Config} (h : m.Sound config) (c : Change m m') : m'.Sound config := by
  cases c
  case load l => exact h.load l
  case reset => exact h.reset ..
  case tick t => exact h.tick t
  case cycle => exact h.cycle
  case setKey k => exact h.setKey k
  case writePixel w => exact h.writePixel w
  case writeMemory w => exact h.writeMemory w
  case takeDisplaySignal => exact ⟨h.config_eq, h.core⟩
  case takeSoundSignal => exact ⟨h.config_eq, h.core⟩
  case start s => exact h.start s
  case endLoop => exact ⟨h.config_eq, h.core⟩

theorem Changes.sound {config : Config} (h : m.Sound config) (c : Changes m m') : m'.Sound config := by
  induction c
  case refl => exact h
  case tail c ih => exact c.sound ih

theorem Sound.afterCall {config : Config} (h : m.Sound config) (now : Float) (call : Call) :
    (m.afterCall now call).Sound config :=
  (changes_afterCall m now call).sound h

theorem Change.isEmpty_source {config : Config} (h : m.Sound config) (c : Change m m') :
    m'.core.source.isEmpty = m.core.source.isEmpty := by
  cases c
  case load l =>
    obtain ⟨_, _, _, _, out⟩ := load_ok l
    rw [out]
  case reset => rfl
  case tick t =>
    obtain ⟨_, _, out⟩ := tick_ok t
    rw [out]
  case cycle =>
    have next := m.core.isEmpty_source_next m.config.dialect
    rw [cycle_eq h]
    split
    case h_1 | h_2 =>
      simp only [recorded, left, record_core]
      exact next
    case h_3 => exact next
  case setKey k =>
    obtain ⟨_, _, out⟩ := setKey_ok k
    rw [out]
  case writePixel w =>
    obtain ⟨_, _, out⟩ := writePixel_ok w
    rw [out]
  case writeMemory w =>
    obtain ⟨_, _, out⟩ := writeMemory_ok w
    rw [out]
  case takeDisplaySignal | takeSoundSignal | endLoop => rfl
  case start s =>
    obtain ⟨_, out⟩ := start_ok s
    rw [out]

-- The machines that calls and the turns of background loops lead to.
inductive Reachable (config : Config) (source : Source) : Machine → Prop
  | new (traced : Bool) (now : Float) : Reachable config source (.new config source traced now)
  | call {m : Machine} (now : Float) (call : Call) :
    Reachable config source m → Reachable config source (m.afterCall now call)
  | start {m m' : Machine} :
    Reachable config source m → m.start = .ok m' → Reachable config source m'
  | turn {m : Machine} (now : Float) (party : Party) :
    Reachable config source m → Reachable config source (m.turn now party).2

namespace Reachable

variable {config : Config} {source : Source}

theorem changes (r : m.Reachable config source) :
    ∃ traced now, Changes (.new config source traced now) m := by
  induction r
  case new traced now => exact ⟨traced, now, .refl⟩
  case call _ _ _ ih =>
    have ⟨traced, now, c⟩ := ih
    exact ⟨traced, now, c.trans (changes_afterCall ..)⟩
  case start s ih =>
    have ⟨traced, now, c⟩ := ih
    exact ⟨traced, now, c.tail (.start s)⟩
  case turn _ _ _ ih =>
    have ⟨traced, now, c⟩ := ih
    exact ⟨traced, now, c.trans (changes_turn ..)⟩

-- An invariant of new machines and of every change of a sound machine is one of all reachable machines.
theorem induct {P : Machine → Prop} (r : m.Reachable config source)
    (new : ∀ traced now, P (.new config source traced now))
    (change : ∀ {m m'}, m.Sound config → P m → Change m m' → P m') : P m := by
  have ⟨traced, now, c⟩ := r.changes
  have both : m.Sound config ∧ P m := by
    clear r
    induction c
    case refl => exact ⟨.new config source traced now, new traced now⟩
    case tail c ih => exact ⟨c.sound ih.1, change ih.1 ih.2 c⟩
  exact both.2

theorem sound (r : m.Reachable config source) : m.Sound config := by
  have ⟨traced, now, c⟩ := r.changes
  exact c.sound (.new config source traced now)

theorem calls (r : m.Reachable config source) (history : List (Float × Call)) :
    (m.afterCalls history).Reachable config source := by
  induction history generalizing m with
  | nil => exact r
  | cons p history ih => exact ih (r.call p.1 p.2)

theorem isEmpty_source (r : m.Reachable config source) : m.core.source.isEmpty = source.isEmpty := by
  refine r.induct (P := fun m => m.core.source.isEmpty = source.isEmpty) ?_ ?_
  case refine_1 => exact fun _ _ => rfl
  case refine_2 => exact fun h kept c => (c.isEmpty_source h).trans kept

end Reachable

end Machine

-- A configuration that leaves little room.
def Config.small (mode : AddressMode) : Config where
  memorySize := 128
  width := 8
  height := 4
  startPc := 0x60
  stackDepth := 2
  timerHz := 60
  fontAddress := 0
  addressMode := mode
  shiftSource := .vx
  advancesIndex := true
  seed := none
  memorySize_le := by decide
  width_pos := by decide
  height_pos := by decide
  startPc_lt := by decide
  stackDepth_pos := by decide
  timerHz_pos := by decide
  font_fits := by decide

end Chip8
