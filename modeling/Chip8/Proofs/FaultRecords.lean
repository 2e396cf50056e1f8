import Chip8.Proofs.Made
import Chip8.Proofs.Outcomes
import Chip8.Proofs.Turns

namespace Chip8.Machine

-- All that a machine records of faults.
def records (m : Machine) : Bool × Option Fault × Option Fault :=
  (m.halted, m.fault, m.loopFault)

-- The processor has halted exactly if the machine names a fault, and what a loop has ended on is that fault or the halt
-- that it led to.
structure Consistent (m : Machine) : Prop where
  halts : m.halted = true ↔ m.fault ≠ none
  ended : ∀ f ∈ m.loopFault, m.halted = true ∧ ∃ g ∈ m.fault, f = g ∨ f = .haltedBy (some g)

-- A machine as it goes on until a reset: with calls, with loops that begin, and with the turns of a loop and a host.
inductive Continues (m : Machine) : Machine → Prop
  | refl : Continues m m
  | call {m' : Machine} (now : Float) (call : Call) : call.isReset = false → Continues m m' →
    Continues m (m'.afterCall now call)
  | start {m' m'' : Machine} : m'.start = .ok m'' → Continues m m' → Continues m m''
  | turn {m' : Machine} (now : Float) (party : Party) : Continues m m' → Continues m (m'.turn now party).2

variable {config : Config} {source : Source} {m m' : Machine} {now : Float} {e : Entry} {failure : Failure} {call : Call}

theorem records_eq_iff : m'.records = m.records ↔
    m'.halted = m.halted ∧ m'.fault = m.fault ∧ m'.loopFault = m.loopFault := by
  simp only [records, Prod.mk.injEq]

theorem step_ok_records (h : m.Sound config) (s : m.step now = .ok e m') :
    m'.records = (e.fault.isSome, e.fault.or m.fault, m.loopFault) := by
  obtain ⟨running, _, m₁, t, c⟩ := step_ok s
  obtain ⟨_, loopFault⟩ := m.attempt_loop now
  obtain ⟨_, _, ticked⟩ := tick_ok t
  have l := cycle_leaves (h.tick t) c
  have halted : m'.halted = e.fault.isSome := by
    rw [l.halted, tick_preserves_halted t, running, Bool.or_false]
  have fault : m'.fault = e.fault.or m.fault := by rw [l.fault, ticked]
  rw [attempt, s] at loopFault
  rw [records, halted, fault, loopFault]

theorem step_error_records (h : m.Sound config) (s : m.step now = .error failure m') : m'.records = m.records := by
  cases running : m.halted with
  | true =>
    rw [step_of_halted running] at s
    cases s
    rfl
  | false =>
    cases t : m.tick now with
    | error e =>
      rw [step_of_tick_error running t] at s
      cases s
      rfl
    | ok p =>
      obtain ⟨_, _, ticked⟩ := tick_ok t
      obtain ⟨out, _⟩ := cycle_error (h.tick t) ((step_of_tick running t).symm.trans s)
      have halted : m'.halted = m.halted := out ▸ p.2.advanced_progress.1.trans (tick_preserves_halted t)
      rw [records, halted, out, advanced, ticked]
      rfl

theorem Retains.records (s : m.Retains call m') : m'.records = m.records := by
  rw [Machine.records, s.halted, s.fault, s.loopFault, Machine.records]

namespace Consistent

theorem of_records (c : m.Consistent) (same : m'.records = m.records) : m'.Consistent := by
  obtain ⟨halted, fault, loopFault⟩ := records_eq_iff.mp same
  exact ⟨by rw [halted, fault, c.halts], by rw [halted, fault, loopFault]; exact c.ended⟩

-- A machine without a fault of its own loop.
theorem of_fault {f : Option Fault} (same : m.records = (f.isSome, f, none)) : m.Consistent := by
  obtain ⟨halted, rfl, loopFault⟩ : m.halted = f.isSome ∧ m.fault = f ∧ m.loopFault = none := by
    simpa [records] using same
  exact ⟨by rw [halted, Option.isSome_iff_ne_none], by simp [loopFault]⟩

theorem of_running (c : m.Consistent) (running : m.halted = false) : m.fault = none ∧ m.loopFault = none := by
  have halts := c.halts
  rw [running] at halts
  refine ⟨by simpa using halts, Option.eq_none_iff_forall_ne_some.mpr fun f ended => ?_⟩
  obtain ⟨halted, _⟩ := c.ended f ended
  cases running.symm.trans halted

-- A step at fault is the first one at fault.
theorem step_ok (h : m.Sound config) (c : m.Consistent) (s : m.step now = .ok e m') :
    m'.records = (e.fault.isSome, e.fault, none) := by
  obtain ⟨fault, loopFault⟩ := c.of_running (Machine.step_ok s).1
  rw [step_ok_records h s, fault, loopFault, Option.or_none]

theorem stepped (h : m.Sound config) (c : m.Consistent) (now : Float) : (m.stepped now).Consistent := by
  rw [Machine.stepped]
  cases s : m.step now with
  | ok e m' => exact of_fault (c.step_ok h s)
  | error failure m' => exact c.of_records (step_error_records h s)

theorem afterCall (h : m.Sound config) (c : m.Consistent) (now : Float) (call : Call) :
    (m.afterCall now call).Consistent := by
  have both : (m.afterCall now call).Sound config ∧ (m.afterCall now call).Consistent := by
    refine afterCall_keeps (P := fun m => m.Sound config ∧ m.Consistent) (C := fun _ => True) ?_ ?_ ⟨h, c⟩ trivial
    case refine_1 =>
      intro m now ⟨h, c⟩
      exact ⟨(changes_step m now).sound h, c.stepped h now⟩
    case refine_2 =>
      intro m m' now call _ ⟨h, c⟩ alters
      refine ⟨alters.change.sound h, ?_⟩
      cases reset : call.isReset with
      | true =>
        cases alters <;> cases reset
        exact of_fault (f := none) rfl
      | false => exact c.of_records (alters.retains reset).records
  exact both.2

theorem endLoop {f g : Fault} (halted : m.halted = true) (fault : m.fault = some g)
    (named : f = g ∨ f = .haltedBy (some g)) : (m.endLoop (some f)).Consistent where
  halts := iff_of_true halted (fault ▸ Option.some_ne_none g)
  ended _ last := by
    cases last
    exact ⟨halted, g, fault, named⟩

-- A loop ends on the fault of its own step, or on the halt that it finds.
theorem heed (h : m.Sound config) (c : m.Consistent) (now : Float) :
    ((m.attempt now).2.heed (m.attempt now).1).Consistent := by
  cases running : m.halted with
  | true =>
    obtain ⟨g, fault⟩ := Option.ne_none_iff_exists'.mp (c.halts.mp running)
    rw [attempt_of_halted running, Machine.heed, fault]
    exact endLoop running fault (.inr rfl)
  | false =>
    rw [attempt]
    cases s : m.step now with
    | ok e m' =>
      simp only [Machine.heed]
      cases fault : e.fault with
      | none => exact of_fault (c.step_ok h s)
      | some f =>
        obtain ⟨halted, cause⟩ := step_halts s fault
        exact endLoop halted cause (.inl rfl)
    | error failure m' =>
      have kept := step_error_records h s
      have none := fault?_of_step h running s
      cases failure
      case fault => cases none
      all_goals exact c.of_records kept

theorem turn (h : m.Sound config) (c : m.Consistent) (now : Float) (party : Party) :
    (m.turn now party).2.Consistent := by
  cases party with
  | host => exact attempt_snd m now ▸ c.stepped h now
  | loop =>
    cases looping : m.looping with
    | true =>
      simp only [Machine.turn, looping, if_true]
      exact c.heed h now
    | false =>
      simp only [Machine.turn, looping]
      exact c

end Consistent

theorem Reachable.consistent (r : m.Reachable config source) : m.Consistent := by
  induction r
  case new => exact .of_fault (f := none) rfl
  case call now call r ih => exact ih.afterCall r.sound now call
  case start s ih =>
    obtain ⟨_, out⟩ := start_ok s
    exact ih.of_records (out ▸ rfl)
  case turn now party r ih => exact ih.turn r.sound now party

namespace Continues

theorem reachable (c : m.Continues m') (r : m.Reachable config source) : m'.Reachable config source := by
  induction c
  case refl => exact r
  case call now call _ _ ih => exact ih.call now call
  case start s _ ih => exact ih.start s
  case turn now party _ ih => exact ih.turn now party

-- A machine that has halted keeps the fault that halted it.
theorem halted (c : m.Continues m') (halted : m.halted = true) : m'.halted = true ∧ m'.fault = m.fault := by
  induction c
  case refl => exact ⟨halted, rfl⟩
  case call goesOn _ ih =>
    refine afterCall_keeps (P := fun m' => m'.halted = true ∧ m'.fault = m.fault)
      (C := fun call => call.isReset = false) ?_ ?_ ih goesOn
    case refine_1 =>
      intro m' now kept
      rw [stepped_of_halted kept.1]
      exact kept
    case refine_2 =>
      intro m' m'' now call goesOn kept alters
      obtain ⟨halted, fault, _⟩ := records_eq_iff.mp (alters.retains goesOn).records
      exact ⟨halted.trans kept.1, fault.trans kept.2⟩
  case start s _ ih =>
    obtain ⟨_, out⟩ := start_ok s
    exact out ▸ ih
  case turn m' now party _ ih =>
    have here := attempt_of_halted ih.1 now
    cases party with
    | host =>
      simp only [Machine.turn, here]
      exact ih
    | loop =>
      cases looping : m'.looping <;> simp only [Machine.turn, looping, here] <;> exact ih

-- The turns of a loop, alone or with those of a host, go on without a reset.
theorem turns (c : m.Continues m') (now : Float) (order : List Party) : m.Continues (m'.turns now order).2 := by
  induction order generalizing m' with
  | nil => exact c
  | cons p order ih => exact ih (.turn now p c)

theorem loop (c : m.Continues m') (now : Float) (limit : Nat) : m.Continues (m'.loop now limit) :=
  turns_replicate_loop m' now limit ▸ c.turns now _

theorem runLoop {limit : Nat} (out : m.runLoop now limit = .ok m') : m.Continues m' := by
  obtain ⟨_, start, rfl⟩ := exists_of_map out
  exact loop (.start start .refl) now limit

theorem runLoopAfter {n limit : Nat} {made : List (Party × Attempt)}
    (out : m.runLoopAfter now n limit = .ok (made, m')) : m.Continues m' := by
  obtain ⟨_, start, out⟩ := exists_of_map out
  cases out
  exact loop (turns (.start start .refl) now _) now limit

end Continues

-- What a machine records of faults is consistent, a halted machine starts no loop, and the first fault stays until a
-- reset, which clears all records. Loops that run to their end are among the ways in which a machine goes on.
theorem fault_records (r : m.Reachable config source) :
    m.Consistent ∧
    (m.looping = false → m.start = if m.halted then .error (.fault (.haltedBy m.fault))
      else .ok { m with looping := true }) ∧
    (∀ m', m.Continues m' → m'.Consistent ∧ (m.halted = true → m'.halted = true ∧ m'.fault = m.fault)) ∧
    (∀ now limit m', m.runLoop now limit = .ok m' → m.Continues m') ∧
    (∀ now n limit made m', m.runLoopAfter now n limit = .ok (made, m') → m.Continues m') ∧
    ∀ clearMemory now, (m.reset clearMemory now).records = (false, none, none) := by
  refine ⟨r.consistent, ?_, ?_, fun _ _ _ => .runLoop, fun _ _ _ _ _ => .runLoopAfter, fun _ _ => rfl⟩
  case refine_1 =>
    intro idle
    rw [start, idle]
    rfl
  case refine_2 =>
    intro m' c
    exact ⟨(c.reachable r).consistent, c.halted⟩

-- A loop that the host forestalls with steps of its own, the second at fault: the loop ends on the halt.
theorem shortLived_records :
    let f := Fault.unknownOpcode 0xffff (some 0x62)
    ∃ made m', shortLived.runLoopAfter 0 2 8 = .ok (made, m') ∧ m'.loopFault = some (.haltedBy (some f)) ∧
      m'.fault = some f ∧ m'.start = .error (.fault (.haltedBy (some f))) ∧
      ((m'.afterCall 1 (.setKey 3 true)).afterCall 2 .step).fault = some f := by
  intro f
  have reachable : shortLived.Reachable (.small .strict) .zeros := (Reachable.new false 0).call 0 _
  obtain ⟨_, _, _, _, runs, _⟩ := fault_records reachable
  have left : (shortLived.runLoopAfter 0 2 8).toOption.map (fun p => (p.2.looping, p.2.loopFault, p.2.fault)) =
      some (false, some (.haltedBy (some f)), some f) := by
    decide +kernel
  cases run : shortLived.runLoopAfter 0 2 8 with
  | error e =>
    rw [run] at left
    cases left
  | ok p =>
    obtain ⟨made, m'⟩ := p
    obtain ⟨idle, ended, fault⟩ : m'.looping = false ∧ m'.loopFault = some (.haltedBy (some f)) ∧ m'.fault = some f := by
      simpa [run, Except.toOption] using left
    obtain ⟨consistent, starts, goesOn, _⟩ := fault_records ((runs 0 2 8 made m' run).reachable reachable)
    have halted := consistent.halts.mpr (fault ▸ Option.some_ne_none f)
    obtain ⟨_, stays⟩ := goesOn _ ((Continues.refl.call 1 (.setKey 3 true) rfl).call 2 .step rfl)
    refine ⟨made, m', rfl, ended, fault, ?_, (stays halted).2.trans fault⟩
    rw [starts idle, if_pos halted, fault]

end Chip8.Machine
