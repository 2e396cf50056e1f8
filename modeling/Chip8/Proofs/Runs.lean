import Chip8.Proofs.Made
import Chip8.Proofs.Outcomes
import Chip8.Proofs.Turns

namespace Chip8.Machine

-- How an attempt ends a run: as it has failed, or with the fault of its entry.
def ending? : Attempt → Option Failure
  | .ok e => e.fault.map .fault
  | .error e => some e

-- The first `n` steps of one party alone all go well.
def GoesOn (m : Machine) (now : Float) (n : Nat) : Prop :=
  ∀ i < n, ending? (m.attemptAlone now i) = none

-- A run that makes the first `n` steps of one party alone, no more and no less, and leaves what they leave.
structure RunMakes (m : Machine) (now : Float) (limit : Int) (n : Nat) (m' : Machine) : Prop where
  steps : (m.madeIn now (.run (some limit))).map (fun s => Except.ok s.entry) = (List.range n).map (m.attemptAlone now)
  left : m' = m.alone now n

variable {config : Config} {source : Source} {m m' : Machine} {now : Float} {n k : Nat} {e : Entry} {failure : Failure}
  {f : Fault}

theorem ending?_eq_none_iff {a : Attempt} : ending? a = none ↔ ∃ e, a = .ok e ∧ e.fault = none := by
  cases a <;> simp [ending?]

-- A run is a run of its first steps and then, unless that one has failed, a run of the others.
theorem runSteps_add (m : Machine) (now : Float) (a b : Nat) :
    m.runSteps now (a + b) = match m.runSteps now a with
      | .ok _ m' => m'.runSteps now b
      | .error e m' => .error e m' := by
  induction a generalizing m with
  | zero => rw [Nat.zero_add, runSteps]
  | succ a ih =>
    rw [Nat.add_right_comm, runSteps, runSteps]
    cases m.step now with
    | error e m' => rfl
    | ok e m' =>
      cases fault : e.fault with
      | some f => simp only [fault]
      | none =>
        simp only [fault]
        exact ih m'

theorem madeInRun_add (m : Machine) (now : Float) (a b : Nat) :
    m.madeInRun now (a + b) = m.madeInRun now a ++ match m.runSteps now a with
      | .ok _ m' => m'.madeInRun now b
      | .error _ _ => [] := by
  induction a generalizing m with
  | zero => rw [Nat.zero_add, madeInRun, runSteps, List.nil_append]
  | succ a ih =>
    rw [Nat.add_right_comm, madeInRun, madeInRun, runSteps]
    cases step : m.step now with
    | error e m' => simp only [Made.of?_error step, List.append_nil]
    | ok e m' =>
      cases fault : e.fault with
      | some f => simp [Made.of?_ok step, fault]
      | none => simp [Made.of?_ok step, fault, ih m']

theorem runSteps_one (m : Machine) (now : Float) :
    m.runSteps now 1 = match ending? (m.attempt now).1 with
      | none => .ok () (m.stepped now)
      | some e => .error e (m.stepped now) := by
  rw [runSteps, attempt, stepped]
  cases m.step now with
  | error e m' => rfl
  | ok e m' => cases fault : e.fault <;> simp [ending?, fault, runSteps, left]

-- The step of a run of one step is the attempt, if that leaves an entry.
theorem madeInRun_one (a : (m.attempt now).1 = .ok e) :
    (m.madeInRun now 1).map (fun s => Except.ok s.entry) = [(m.attempt now).1] := by
  rw [a, madeInRun, Made.of?_ok (step_of_attempt a)]
  cases fault : e.fault <;> simp [fault, madeInRun]

-- A step that leaves an entry counts a cycle and goes on, or else it halts the machine.
theorem leaves_of_attempt (h : m.Sound config) (a : (m.attempt now).1 = .ok e) :
    (m.stepped now).halted = e.fault.isSome ∧
      (m.stepped now).state.cycles = m.state.cycles + if e.fault.isNone then 1 else 0 := by
  obtain ⟨running, _, m₁, t, c⟩ := step_ok (step_of_attempt a)
  obtain ⟨_, _, ticked⟩ := tick_core t
  have l := cycle_leaves (h.tick t) c
  have same : m₁.state.cycles = m.state.cycles := by rw [state, ticked, state]
  exact ⟨by rw [l.halted, tick_preserves_halted t, running, Bool.or_false], same ▸ l.cycles⟩

namespace GoesOn

theorem before (g : m.GoesOn now n) (le : k ≤ n) : m.GoesOn now k :=
  fun i lt => g i (Nat.lt_of_lt_of_le lt le)

theorem runSteps (g : m.GoesOn now n) : m.runSteps now n = .ok () (m.alone now n) := by
  induction n with
  | zero => rfl
  | succ n ih =>
    have here : ending? ((m.alone now n).attempt now).1 = none := g n (Nat.lt_succ_self n)
    rw [runSteps_add, ih (g.before (Nat.le_succ n))]
    dsimp only
    rw [runSteps_one, here, alone]

-- The first step that does not go well ends the run.
theorem runSteps_of_ending (g : m.GoesOn now k) (ends : ending? (m.attemptAlone now k) = some failure) (lt : k < n) :
    m.runSteps now n = .error failure (m.alone now (k + 1)) := by
  obtain ⟨rest, rfl⟩ := Nat.exists_eq_add_of_le (Nat.succ_le_of_lt lt)
  rw [attemptAlone] at ends
  rw [runSteps_add, runSteps_add m now k 1, g.runSteps]
  dsimp only
  rw [runSteps_one, ends, alone]

-- A run makes the steps that one party alone would make.
theorem madeInRun (g : m.GoesOn now n) :
    (m.madeInRun now n).map (fun s => Except.ok s.entry) = (List.range n).map (m.attemptAlone now) := by
  induction n with
  | zero => rfl
  | succ n ih =>
    have g' := g.before (Nat.le_succ n)
    obtain ⟨e, a, _⟩ := ending?_eq_none_iff.mp (g n (Nat.lt_succ_self n))
    rw [madeInRun_add, g'.runSteps, List.map_append, ih g', madeInRun_one a, List.range_succ, List.map_append]
    rfl

-- Steps that go well keep a machine sound and running, and each of them counts.
theorem leaves (g : m.GoesOn now n) (h : m.Sound config) : (m.alone now n).Sound config ∧
    (m.halted = false → (m.alone now n).halted = false) ∧ (m.alone now n).state.cycles = m.state.cycles + n := by
  induction n with
  | zero => exact ⟨h, id, (Int.add_zero _).symm⟩
  | succ n ih =>
    obtain ⟨sound, _, count⟩ := ih (g.before (Nat.le_succ n))
    obtain ⟨e, a, fine⟩ := ending?_eq_none_iff.mp (g n (Nat.lt_succ_self n))
    obtain ⟨halted, cycles⟩ := leaves_of_attempt sound a
    rw [fine] at halted cycles
    refine ⟨(changes_step _ now).sound sound, fun _ => halted, cycles.trans ?_⟩
    rw [count, Int.natCast_succ, Int.add_assoc]
    rfl

-- A step of a machine that has not halted ends a run with a fault only if its entry is at fault.
theorem faultsAfter (g : m.GoesOn now k) (h : m.Sound config) (running : m.halted = false)
    (ends : ending? (m.attemptAlone now k) = some (.fault f)) : m.FaultsAfter now k f := by
  refine ⟨fun i lt => ending?_eq_none_iff.mp (g i lt), ?_⟩
  obtain ⟨sound, halted, _⟩ := g.leaves h
  simp only [attemptAlone, attempt] at ends ⊢
  cases s : (m.alone now k).step now with
  | ok e m' =>
    rw [s] at ends
    obtain ⟨f', fault, same⟩ := Option.map_eq_some_iff.mp ends
    cases same
    exact ⟨e, rfl, fault⟩
  | error e m' =>
    rw [s] at ends
    cases ends
    cases fault?_of_step sound (halted running) s

end GoesOn

namespace FaultsAfter

theorem goesOn (faults : m.FaultsAfter now k f) : m.GoesOn now k :=
  fun i lt => ending?_eq_none_iff.mpr (faults.fine i lt)

theorem ending (faults : m.FaultsAfter now k f) : ending? (m.attemptAlone now k) = some (.fault f) := by
  obtain ⟨e, made, fault⟩ := faults.fault
  rw [made, ending?, fault, Option.map_some]

theorem run {limit : Int} (faults : m.FaultsAfter now k f) (lt : k < limit) :
    m.run now (some limit) = .error (.fault f) (m.alone now (k + 1)) := by
  have inside : k < limit.toNat := by omega
  rw [Machine.run, Option.getD_some, faults.goesOn.runSteps_of_ending faults.ending inside]

theorem madeInRun (faults : m.FaultsAfter now k f) (lt : k < n) :
    (m.madeInRun now n).map (fun s => Except.ok s.entry) = (List.range (k + 1)).map (m.attemptAlone now) := by
  obtain ⟨rest, rfl⟩ := Nat.exists_eq_add_of_le (Nat.succ_le_of_lt lt)
  obtain ⟨e, made, _⟩ := faults.fault
  have last := faults.goesOn.runSteps_of_ending faults.ending (Nat.lt_succ_self k)
  rw [madeInRun_add, last, List.append_nil, Nat.succ_eq_add_one, madeInRun_add, faults.goesOn.runSteps,
    List.map_append, faults.goesOn.madeInRun, madeInRun_one made, List.range_succ, List.map_append]
  rfl

-- The step at fault is not counted.
theorem cycles (faults : m.FaultsAfter now k f) (h : m.Sound config) :
    (m.alone now (k + 1)).state.cycles = m.state.cycles + k := by
  obtain ⟨sound, _, count⟩ := faults.goesOn.leaves h
  obtain ⟨e, made, fault⟩ := faults.fault
  obtain ⟨_, cycles⟩ := leaves_of_attempt sound made
  rw [fault] at cycles
  exact cycles.trans ((Int.add_zero _).trans count)

end FaultsAfter

theorem goesOn_or_ends (m : Machine) (now : Float) (n : Nat) : m.GoesOn now n ∨
    ∃ k < n, m.GoesOn now k ∧ ∃ e, ending? (m.attemptAlone now k) = some e := by
  induction n with
  | zero => exact .inl nofun
  | succ n ih =>
    obtain g | ⟨k, lt, ends⟩ := ih
    case inr => exact .inr ⟨k, Nat.lt_succ_of_lt lt, ends⟩
    case inl =>
      cases here : ending? (m.attemptAlone now n) with
      | some e => exact .inr ⟨n, Nat.lt_succ_self n, g, e, here⟩
      | none =>
        refine .inl fun i lt => ?_
        obtain before | rfl := Nat.lt_succ_iff_lt_or_eq.mp lt
        · exact g i before
        · exact here

theorem goesOn_of_run {limit : Int} {trace : Array Entry} (r : m.run now (some limit) = .ok trace m') :
    m.GoesOn now limit.toNat ∧ m' = m.alone now limit.toNat ∧ trace = m'.trace := by
  rw [run, Option.getD_some] at r
  obtain g | ⟨k, lt, g, e, ends⟩ := m.goesOn_or_ends now limit.toNat
  case inl =>
    rw [g.runSteps] at r
    cases r
    exact ⟨g, rfl, rfl⟩
  case inr =>
    rw [g.runSteps_of_ending ends lt] at r
    cases r

theorem faultsAfter_of_run {limit : Int} (h : m.Sound config) (running : m.halted = false)
    (r : m.run now (some limit) = .error (.fault f) m') : ∃ k : Nat, k < limit ∧ m.FaultsAfter now k f := by
  rw [run, Option.getD_some] at r
  obtain g | ⟨k, lt, g, e, ends⟩ := m.goesOn_or_ends now limit.toNat
  case inl =>
    rw [g.runSteps] at r
    cases r
  case inr =>
    rw [g.runSteps_of_ending ends lt] at r
    cases r
    exact ⟨k, by omega, g.faultsAfter h running ends⟩

theorem run_add {a b : Int} (ha : 0 ≤ a) (hb : 0 ≤ b) : m.run now (some (a + b)) = match m.run now (some a) with
    | .ok _ m' => m'.run now (some b)
    | .error e m' => .error e m' := by
  simp only [run, Option.getD_some, Int.toNat_add ha hb, runSteps_add]
  cases m.runSteps now a.toNat <;> rfl

-- While the clock stands still two runs are one: the second goes on where the first has ended, and is not made if the
-- first has failed. A run that returns has made as many steps as its limit says, all of them without fault. One that
-- fails with a fault has made those up to the first step at fault, which is the last one and counts no cycle.
theorem run_composes (r : m.Reachable config source) (now : Float) :
    (∀ a b : Int, 0 ≤ a → 0 ≤ b → m.run now (some (a + b)) = match m.run now (some a) with
      | .ok _ m' => m'.run now (some b)
      | .error e m' => .error e m') ∧
    (∀ (limit : Int) trace m', m.run now (some limit) = .ok trace m' →
      trace = m'.trace ∧ m.RunMakes now limit limit.toNat m' ∧ m'.state.cycles = m.state.cycles + max 0 limit ∧
      ∀ n < limit.toNat, ∃ e, m.attemptAlone now n = .ok e ∧ e.fault = none) ∧
    (∀ (limit : Int) f m', m.halted = false → m.run now (some limit) = .error (.fault f) m' →
      ∃ k : Nat, k < limit ∧ m.FaultsAfter now k f ∧ m.RunMakes now limit (k + 1) m' ∧
        m'.state.cycles = m.state.cycles + k) ∧
    ∀ (limit : Int) (k : Nat) f, k < limit → m.FaultsAfter now k f →
      m.run now (some limit) = .error (.fault f) (m.alone now (k + 1)) := by
  refine ⟨fun a b => run_add, ?_, ?_, fun limit k f lt faults => faults.run lt⟩
  case refine_1 =>
    intro limit trace m' returned
    obtain ⟨g, rfl, rfl⟩ := goesOn_of_run returned
    obtain ⟨_, _, cycles⟩ := g.leaves r.sound
    refine ⟨rfl, ⟨g.madeInRun, rfl⟩, ?_, fun n lt => ending?_eq_none_iff.mp (g n lt)⟩
    rw [cycles, Int.toNat_eq_max, Int.max_comm]
  case refine_2 =>
    intro limit f m' running failed
    obtain ⟨k, lt, faults⟩ := faultsAfter_of_run r.sound running failed
    have left : m' = m.alone now (k + 1) := by
      cases (faults.run lt).symm.trans failed
      rfl
    have inside : k < limit.toNat := by omega
    exact ⟨k, lt, faults, ⟨faults.madeInRun inside, left⟩, left ▸ faults.cycles r.sound⟩

-- A run of one step and one of four, in which the second step is at fault, are a run of five.
theorem shortLived_composes :
    let f := Fault.unknownOpcode 0xffff (some 0x62)
    ∃ m₁ m₂, shortLived.run 0 (some 1) = .ok m₁.trace m₁ ∧ m₁.state.cycles = 1 ∧
      m₁.run 0 (some 4) = .error (.fault f) m₂ ∧ shortLived.run 0 (some 5) = .error (.fault f) m₂ ∧
      ∃ k : Nat, k < 5 ∧ shortLived.FaultsAfter 0 k f ∧ m₂.state.cycles = k := by
  intro f
  have reachable : shortLived.Reachable (.small .strict) .zeros := (Reachable.new false 0).call 0 _
  obtain ⟨composes, returns, fails, faults⟩ := run_composes reachable 0
  have fresh : shortLived.state.cycles = 0 := by decide +kernel
  have answer : (answer? (shortLived.run 0 (some 1))).isSome = true := by decide +kernel
  obtain ⟨trace, answered⟩ := Option.isSome_iff_exists.mp answer
  obtain ⟨m₁, first⟩ := exists_of_answer? answered
  obtain ⟨rfl, _, cycles, _⟩ := returns 1 trace m₁ first
  have both := faults 5 1 f (by decide) shortLived_faults
  have second := composes 1 4 (by decide) (by decide)
  rw [first] at second
  obtain ⟨k, few, here, _, count⟩ := fails 5 f _ (by decide +kernel) both
  rw [fresh, Int.zero_add] at cycles count
  exact ⟨m₁, _, first, cycles, second.symm.trans both, both, k, Int.ofNat_lt.mp few, here, count⟩

end Chip8.Machine
