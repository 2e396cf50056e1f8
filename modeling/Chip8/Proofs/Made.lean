import Chip8.Proofs.Reachable

namespace Chip8

-- Calls that start over.
def Call.isReset : Call → Bool
  | .reset _ => true
  | _ => false

-- Calls that store bytes in memory.
def Call.stores : Call → Bool
  | .load .. | .writeMemory .. => true
  | _ => false

namespace Machine

-- A step that left an entry.
structure Made where
  found : Machine
  now : Float
  entry : Entry
  left : Machine
  step : found.step now = .ok entry left

def Made.of? (m : Machine) (now : Float) : Option Made :=
  match step : m.step now with
  | .ok entry left => some ⟨m, now, entry, left, step⟩
  | .error _ _ => none

-- The steps of a run, of which the first one at fault is the last.
def madeInRun (m : Machine) (now : Float) (n : Nat) (later : List Float := []) : List Made :=
  match n with
  | 0 => []
  | n + 1 => match Made.of? m now with
    | some s => s :: if s.entry.fault.isSome then [] else s.left.madeInRun (later.headD now) n later.tail
    | none => []

def madeIn (m : Machine) (now : Float) : Call → List Made
  | .step => (Made.of? m now).toList
  | .run limit later => m.madeInRun now (limit.getD defaultLimit).toNat later
  | _ => []

-- The steps of a history.
def made (m : Machine) : List (Float × Call) → List Made
  | [] => []
  | (now, call) :: rest => m.madeIn now call ++ (m.afterCall now call).made rest

-- The step of a turn, unless the turn is that of a loop which has ended.
def madeInTurn (m : Machine) (now : Float) (party : Party) : List Made :=
  if party = .loop ∧ m.looping = false then [] else (Made.of? m now).toList

-- The machines that calls and the turns of background loops lead to, each with the steps made on the way.
inductive Course (config : Config) (source : Source) : List Made → Machine → Prop
  | new (traced : Bool) (now : Float) : Course config source [] (.new config source traced now)
  | call {past : List Made} {m : Machine} (now : Float) (call : Call) : Course config source past m →
    Course config source (past ++ m.madeIn now call) (m.afterCall now call)
  | start {past : List Made} {m m' : Machine} :
    Course config source past m → m.start = .ok m' → Course config source past m'
  | turn {past : List Made} {m : Machine} (now : Float) (party : Party) : Course config source past m →
    Course config source (past ++ m.madeInTurn now party) (m.turn now party).2

variable {config : Config} {m m' : Machine} {now : Float} {periods : Int} {e : Entry} {call : Call} {s : Made}
  {history : List (Float × Call)}

namespace Made

theorem of?_ok (step : m.step now = .ok e m') : of? m now = some ⟨m, now, e, m', step⟩ := by
  unfold of?
  split
  case h_1 out =>
    cases step.symm.trans out
    rfl
  case h_2 out => cases step.symm.trans out

theorem of?_error {failure : Failure} (step : m.step now = .error failure m') : of? m now = none := by
  unfold of?
  split
  case h_1 out => cases step.symm.trans out
  case h_2 => rfl

theorem of?_eq_some (made : of? m now = some s) : s.found = m ∧ s.now = now := by
  unfold of? at made
  split at made
  case h_1 =>
    cases made
    exact ⟨rfl, rfl⟩
  case h_2 => cases made

theorem stepped (s : Made) : s.found.stepped s.now = s.left := by
  rw [Machine.stepped, s.step, Machine.left]

theorem left_eq (made : of? m now = some s) : s.left = m.stepped now := by
  have ⟨found, time⟩ := of?_eq_some made
  rw [← found, ← time, s.stepped]

end Made

-- What a run leaves, by its first step.
theorem left_runSteps_succ (m : Machine) (now : Float) (n : Nat) (later : List Float) :
    left (m.runSteps now (n + 1) later) = match Made.of? m now with
      | some s => if s.entry.fault.isSome then s.left else left (s.left.runSteps (later.headD now) n later.tail)
      | none => m.stepped now := by
  rw [runSteps]
  cases step : m.step now with
  | error failure m' =>
    rw [Made.of?_error step, stepped, step]
    rfl
  | ok e m' =>
    rw [Made.of?_ok step]
    cases fault : e.fault <;> simp [left, fault]

-- What a call that makes no step leaves of a machine if it does not leave it as it is.
inductive Alters (m : Machine) (now : Float) : Call → Machine → Prop
  | load {image start} {m' : Machine} : m.load image start = .ok m' → Alters m now (.load image start) m'
  | reset (clearMemory) : Alters m now (.reset clearMemory) (m.reset clearMemory now)
  | tick {periods : Int} {m' : Machine} : m.tick now = .ok (periods, m') → Alters m now .tick m'
  | setKey {key down} {m' : Machine} : m.setKey key down = .ok m' → Alters m now (.setKey key down) m'
  | writePixel {x y lit} {m' : Machine} : m.writePixel x y lit = .ok m' → Alters m now (.writePixel x y lit) m'
  | writeMemory {a v} {m' : Machine} : m.writeMemory a v = .ok m' → Alters m now (.writeMemory a v) m'
  | takeDisplaySignal : Alters m now .takeDisplaySignal m.takeDisplaySignal.2
  | takeSoundSignal : Alters m now .takeSoundSignal m.takeSoundSignal.2

theorem Alters.change : m.Alters now call m' → Change m m'
  | load l => .load l
  | reset clearMemory => .reset clearMemory now
  | tick t => .tick t
  | setKey k => .setKey k
  | writePixel w => .writePixel w
  | writeMemory w => .writeMemory w
  | takeDisplaySignal => .takeDisplaySignal
  | takeSoundSignal => .takeSoundSignal

-- What a call leaves as it was that neither makes a step nor starts over, and memory if it stores no bytes.
structure Retains (m : Machine) (call : Call) (m' : Machine) : Prop where
  state : ∃ delay sound, m'.state = { m.state with delayTimer := delay, soundTimer := sound }
  memory : call.stores = false → m'.core.memory = m.core.memory
  wait : m'.core.wait = m.core.wait
  fault : m'.fault = m.fault
  loopFault : m'.loopFault = m.loopFault
  trace : m'.trace = m.trace
  traced : m'.traced = m.traced

theorem Retains.halted (s : m.Retains call m') : m'.halted = m.halted := by
  obtain ⟨_, _, state⟩ := s.state
  exact (congrArg State.halted state).trans rfl

theorem Retains.pc (s : m.Retains call m') : m'.state.pc = m.state.pc := by
  obtain ⟨_, _, state⟩ := s.state
  exact (congrArg State.pc state).trans rfl

theorem Alters.retains (a : m.Alters now call m') (goesOn : call.isReset = false) : m.Retains call m' := by
  cases a
  case reset => cases goesOn
  case load l =>
    obtain ⟨_, _, _, _, out⟩ := load_ok l
    exact out ▸ ⟨⟨_, _, rfl⟩, nofun, rfl, rfl, rfl, rfl, rfl⟩
  case tick t =>
    obtain ⟨_, _, out⟩ := tick_ok t
    exact out ▸ ⟨m.state.elapse_eq _, fun _ => rfl, rfl, rfl, rfl, rfl, rfl⟩
  case setKey k =>
    obtain ⟨_, _, out⟩ := setKey_ok k
    exact out ▸ ⟨⟨_, _, rfl⟩, fun _ => rfl, rfl, rfl, rfl, rfl, rfl⟩
  case writePixel w =>
    obtain ⟨_, _, out⟩ := writePixel_ok w
    exact out ▸ ⟨⟨_, _, rfl⟩, fun _ => rfl, rfl, rfl, rfl, rfl, rfl⟩
  case writeMemory w =>
    obtain ⟨_, _, out⟩ := writeMemory_ok w
    exact out ▸ ⟨⟨_, _, rfl⟩, nofun, rfl, rfl, rfl, rfl, rfl⟩
  case takeDisplaySignal | takeSoundSignal => exact ⟨⟨_, _, rfl⟩, fun _ => rfl, rfl, rfl, rfl, rfl, rfl⟩

theorem afterCall_cases (m : Machine) (now : Float) (call : Call) :
    call = .step ∨ (∃ limit later, call = .run limit later) ∨
    m.madeIn now call = [] ∧ (m.afterCall now call = m ∨ m.Alters now call (m.afterCall now call)) := by
  have changed {r : Except Failure Machine} (alters : ∀ {m'}, r = .ok m' → m.Alters now call m') :
      left (m.changed r) = m ∨ m.Alters now call (left (m.changed r)) :=
    left_changed (P := fun m' => m' = m ∨ m.Alters now call m') (.inl rfl) fun c => .inr (alters c)
  cases call
  case step => exact .inl rfl
  case run limit later => exact .inr (.inl ⟨limit, later, rfl⟩)
  all_goals
    refine .inr (.inr ⟨rfl, ?_⟩)
    rw [afterCall_eq]
    simp only [answer]
  case load image start =>
    cases l : m.load image start with
    | error e => exact .inl rfl
    | ok m' => exact .inr (.load l)
  case reset clearMemory => exact .inr (.reset clearMemory)
  case tick =>
    cases t : m.tick now with
    | error e => exact .inl rfl
    | ok p => exact .inr (.tick t)
  case setKey => exact changed .setKey
  case writePixel => exact changed .writePixel
  case writeMemory => exact changed .writeMemory
  case readPixel | readMemory => exact .inl (left_asked ..)
  case takeDisplaySignal => exact .inr .takeDisplaySignal
  case takeSoundSignal => exact .inr .takeSoundSignal
  case summary => exact .inl rfl

section

variable {P : List Made → Machine → Prop} {C : Call → Prop} {past : List Made}

-- What every step keeps, along with the steps made so far, holds after a run.
theorem runSteps_follows
    (made : ∀ {past m now s}, P past m → Made.of? m now = some s → P (past ++ [s]) s.left)
    (unmade : ∀ {past m now}, P past m → Made.of? m now = none → P past (m.stepped now))
    (start : P past m) (now : Float) (n : Nat) (later : List Float) :
    P (past ++ m.madeInRun now n later) (left (m.runSteps now n later)) := by
  induction n generalizing m past now later with
  | zero =>
    rw [madeInRun, List.append_nil]
    exact start
  | succ n ih =>
    rw [madeInRun, left_runSteps_succ]
    cases out : Made.of? m now with
    | none =>
      rw [List.append_nil]
      exact unmade start out
    | some s =>
      have here := made start out
      cases fault : s.entry.fault.isSome with
      | true => simpa [fault] using here
      | false => simpa [fault] using ih here (later.headD now) later.tail

-- The same after a history, if the calls that make no step keep it as well.
theorem afterCalls_follows (past : List Made)
    (made : ∀ {past m now s}, P past m → Made.of? m now = some s → P (past ++ [s]) s.left)
    (unmade : ∀ {past m now}, P past m → Made.of? m now = none → P past (m.stepped now))
    (other : ∀ {past m m' now call}, C call → P past m → m.Alters now call m' → P past m')
    (start : P past m) (calls : ∀ p ∈ history, C p.2) : P (past ++ m.made history) (m.afterCalls history) := by
  induction history generalizing m past with
  | nil =>
    rw [Machine.made, List.append_nil]
    exact start
  | cons p history ih =>
    obtain ⟨now, call⟩ := p
    obtain ⟨first, rest⟩ := List.forall_mem_cons.mp calls
    rw [Machine.made, ← List.append_assoc]
    refine ih (m := m.afterCall now call) _ ?_ rest
    rcases m.afterCall_cases now call with rfl | ⟨limit, later, rfl⟩ | ⟨idle, same | alters⟩
    · rw [afterCall_step, madeIn]
      cases out : Made.of? m now with
      | none =>
        rw [Option.toList_none, List.append_nil]
        exact unmade start out
      | some s => exact Made.left_eq out ▸ made start out
    · rw [afterCall_eq, answer, left_replied, left_run, madeIn]
      exact runSteps_follows (P := P) made unmade start now _ later
    · rw [idle, same, List.append_nil]
      exact start
    · rw [idle, List.append_nil]
      exact other first start alters

end

namespace Course

variable {source : Source} {P : List Made → Machine → Prop} {past : List Made}

theorem calls (c : Course config source past m) (history : List (Float × Call)) :
    Course config source (past ++ m.made history) (m.afterCalls history) := by
  induction history generalizing m past with
  | nil =>
    rw [Machine.made, List.append_nil]
    exact c
  | cons p history ih =>
    rw [Machine.made, ← List.append_assoc]
    exact ih (c.call p.1 p.2)

theorem ofCalls (traced : Bool) (now : Float) (history : List (Float × Call)) :
    let m := Machine.new config source traced now
    Course config source (m.made history) (m.afterCalls history) := by
  have c := (Course.new traced now : Course config source [] _).calls history
  rwa [List.nil_append] at c

-- What holds of a new machine and is kept by every step, along with the steps made so far, and by all that happens
-- between steps, holds on every course.
theorem follows (c : Course config source past m) (new : ∀ traced now, P [] (.new config source traced now))
    (made : ∀ {past m now s}, P past m → Made.of? m now = some s → P (past ++ [s]) s.left)
    (unmade : ∀ {past m now}, P past m → Made.of? m now = none → P past (m.stepped now))
    (alters : ∀ {past m m' now call}, P past m → m.Alters now call m' → P past m')
    (loops : ∀ {past m} looping loopFault, P past m → P past { m with looping := looping, loopFault := loopFault }) :
    P past m := by
  have step {past : List Made} {m : Machine} (here : P past m) (now : Float) :
      P (past ++ (Made.of? m now).toList) (m.stepped now) := by
    cases out : Made.of? m now with
    | none =>
      rw [Option.toList_none, List.append_nil]
      exact unmade here out
    | some s => exact Made.left_eq out ▸ made here out
  induction c with
  | new traced now => exact new traced now
  | @call past m now call c ih =>
    have after : P (past ++ m.made [(now, call)]) (m.afterCalls [(now, call)]) :=
      afterCalls_follows (C := fun _ => True) past made unmade (fun _ here a => alters here a) ih fun _ _ => trivial
    rw [Machine.made, Machine.made, List.append_nil] at after
    exact after
  | start c s ih =>
    obtain ⟨_, rfl⟩ := start_ok s
    exact loops true _ ih
  | @turn past m now party c ih =>
    cases party with
    | host =>
      rw [madeInTurn, if_neg (by simp)]
      exact attempt_snd m now ▸ step ih now
    | loop =>
      cases looping : m.looping with
      | false => simpa [madeInTurn, Machine.turn, looping] using ih
      | true =>
        have stepped := attempt_snd m now ▸ step ih now
        simp only [madeInTurn, Machine.turn, looping, if_true, Bool.true_eq_false, and_false, if_false]
        obtain same | ⟨fault, ends⟩ := (m.attempt now).2.heed_cases (m.attempt now).1
        · rw [same]
          exact stepped
        · rw [ends]
          exact loops false _ stepped

end Course

section

variable {P : Machine → Prop} {Q : Made → Prop} {past : List Made}

-- What every step keeps, if under a condition on the step, is kept by one step more.
theorem keeps_made (step : ∀ m now, P m → (∀ s ∈ Made.of? m now, Q s) → P (m.stepped now))
    (kept : (∀ s ∈ past, Q s) → P m) (made : Made.of? m now = some s) (each : ∀ t ∈ past ++ [s], Q t) : P s.left := by
  obtain ⟨before, here⟩ := List.forall_mem_append.mp each
  rw [Made.left_eq made]
  refine step m now (kept before) ?_
  simp only [made, Option.mem_some_iff, forall_eq']
  exact here s (List.mem_singleton_self s)

theorem keeps_unmade (step : ∀ m now, P m → (∀ s ∈ Made.of? m now, Q s) → P (m.stepped now))
    (kept : (∀ s ∈ past, Q s) → P m) (unmade : Made.of? m now = none) (before : ∀ s ∈ past, Q s) :
    P (m.stepped now) :=
  step m now (kept before) (by simp [unmade])

theorem runSteps_keeps (step : ∀ m now, P m → (∀ s ∈ Made.of? m now, Q s) → P (m.stepped now)) (start : P m) {n : Nat}
    {later : List Float} (each : ∀ s ∈ m.madeInRun now n later, Q s) : P (left (m.runSteps now n later)) := by
  have kept : (∀ s ∈ [] ++ m.madeInRun now n later, Q s) → P (left (m.runSteps now n later)) :=
    runSteps_follows (P := fun past m => (∀ s ∈ past, Q s) → P m) (keeps_made step) (keeps_unmade step)
      (fun _ => start) now n later
  exact kept each

-- What every call keeps holds after a history. A step may keep it under a condition on the step.
theorem afterCalls_keeps {C : Call → Prop}
    (step : ∀ m now, P m → (∀ s ∈ Made.of? m now, Q s) → P (m.stepped now))
    (other : ∀ {m m' : Machine} {now call}, C call → P m → m.Alters now call m' → P m')
    (start : P m) (calls : ∀ p ∈ history, C p.2) (each : ∀ s ∈ m.made history, Q s) : P (m.afterCalls history) :=
  afterCalls_follows (P := fun past m => (∀ s ∈ past, Q s) → P m) [] (keeps_made step) (keeps_unmade step)
    (fun first kept alters before => other first (kept before) alters) (fun _ => start) calls each

end

theorem afterCall_keeps {P : Machine → Prop} {C : Call → Prop} (step : ∀ {m now}, P m → P (m.stepped now))
    (other : ∀ {m m' : Machine} {now call}, C call → P m → m.Alters now call m' → P m')
    (start : P m) (first : C call) : P (m.afterCall now call) := by
  have kept : P (m.afterCalls [(now, call)]) :=
    afterCalls_keeps (Q := fun _ => True) (fun _ _ here _ => step here) other start
      (List.forall_mem_singleton.mpr first) fun _ _ => trivial
  exact kept

end Machine
end Chip8
