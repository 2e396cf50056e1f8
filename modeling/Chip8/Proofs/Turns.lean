import Chip8.Proofs.Reachable
import Mathlib.Data.List.Induction

namespace Chip8.Machine

def withLoop (m : Machine) (looping : Bool) (fault : Option Fault) : Machine :=
  { m with looping := looping, loopFault := fault }

-- A machine apart from its loop.
def apart (m : Machine) : Machine :=
  m.withLoop false none

-- An outcome that leaves a machine with another loop.
def parted {α : Type} (looping : Bool) (fault : Option Fault) : Outcome α → Outcome α
  | .ok a m => .ok a (m.withLoop looping fault)
  | .error e m => .error e (m.withLoop looping fault)

-- A machine after so many steps of one party.
def alone (m : Machine) (now : Float) : Nat → Machine
  | 0 => m
  | n + 1 => (m.alone now n).stepped now

-- What each step of one party comes to.
def attemptAlone (m : Machine) (now : Float) (n : Nat) : Attempt :=
  ((m.alone now n).attempt now).1

-- One party alone makes `c` steps without fault, and the next one is at fault.
structure FaultsAfter (m : Machine) (now : Float) (c : Nat) (f : Fault) : Prop where
  fine : ∀ n < c, ∃ e, m.attemptAlone now n = .ok e ∧ e.fault = none
  fault : ∃ e, m.attemptAlone now c = .ok e ∧ e.fault = some f

-- What an attempt comes to by its number if the one with number `c` is at fault.
def Expected (c : Nat) (f : Fault) (n : Nat) : Attempt → Prop
  | .ok e => n ≤ c ∧ e.fault = if n = c then some f else none
  | .error e => c < n ∧ e = .fault (.haltedBy (some f))

-- What a loop ends on: the fault itself if the step at fault was its own, or else the halt that it finds.
def endOf (f : Fault) : Party → Fault
  | .loop => f
  | .host => .haltedBy (some f)

-- The attempts that executed a step, with or without fault.
def executed (made : List (Party × Attempt)) : Nat :=
  (made.map Prod.snd).countP Except.isOk

-- The attempts of the loop from a number on.
def loopsFrom (c : Nat) (made : List (Party × Attempt)) : Nat :=
  ((made.drop c).map Prod.fst).count .loop

section

variable (m : Machine) (now : Float) (looping : Bool) (fault : Option Fault)

theorem record_withLoop (e : Entry) :
    (m.withLoop looping fault).record e = (m.record e).withLoop looping fault := by
  have traced : (m.withLoop looping fault).traced = m.traced := rfl
  simp only [record, traced]
  split <;> rfl

theorem cycle_withLoop : (m.withLoop looping fault).cycle = parted looping fault m.cycle := by
  have core : (m.withLoop looping fault).core.cycle (m.withLoop looping fault).config.dialect =
    m.core.cycle m.config.dialect := rfl
  simp only [cycle, core]
  split
  case h_1 fetched _ core _ =>
    have left := record_withLoop (succeed { m with core := core } fetched) looping fault
    exact congrArg _ (left _)
  case h_2 f core _ =>
    have left := record_withLoop (halt { m with core := core } f) looping fault
    exact congrArg _ (left _)
  case h_3 => rfl

theorem tick_withLoop : (m.withLoop looping fault).tick now =
    (m.tick now).map fun (periods, m') => (periods, m'.withLoop looping fault) := by
  have beat : (m.withLoop looping fault).metronome.beat now = m.metronome.beat now := rfl
  simp only [tick, beat]
  cases m.metronome.beat now <;> rfl

theorem step_withLoop : (m.withLoop looping fault).step now = parted looping fault (m.step now) := by
  have halted : (m.withLoop looping fault).halted = m.halted := rfl
  rw [step, step, tick_withLoop, halted]
  split
  case isTrue => rfl
  case isFalse =>
    cases m.tick now with
    | error e => rfl
    | ok p => exact cycle_withLoop p.2 looping fault

theorem attempt_withLoop : (m.withLoop looping fault).attempt now =
    ((m.attempt now).1, (m.attempt now).2.withLoop looping fault) := by
  rw [attempt, attempt, step_withLoop]
  cases m.step now <;> rfl

-- A step leaves the loop alone.
theorem attempt_loop :
    (m.attempt now).2.looping = m.looping ∧ (m.attempt now).2.loopFault = m.loopFault := by
  have same : m.attempt now = _ := m.attempt_withLoop now m.looping m.loopFault
  rw [same]
  exact ⟨rfl, rfl⟩

end

variable {m m' m₁ : Machine} {now : Float} {c n : Nat} {f : Fault} {e : Entry} {order : List Party}
  {made : List (Party × Attempt)}

-- Machines that differ in their loops alone make the same step.
theorem attempt_of_apart (same : m.apart = m'.apart) (now : Float) :
    (m.attempt now).1 = (m'.attempt now).1 ∧ (m.attempt now).2.apart = (m'.attempt now).2.apart := by
  have both : m.apart.attempt now = m'.apart.attempt now := by rw [same]
  rw [apart, apart, attempt_withLoop, attempt_withLoop] at both
  exact Prod.mk.inj both

theorem apart_heed (m : Machine) (a : Attempt) : (m.heed a).apart = m.apart := by
  obtain same | ⟨_, ends⟩ := m.heed_cases a
  · rw [same]
  · rw [ends]
    rfl

-- A step at fault halts the machine.
theorem step_halts (s : m.step now = .ok e m') (fault : e.fault = some f) :
    m'.halted = true ∧ m'.fault = some f := by
  have ⟨_, _, m₁, _, c⟩ := step_ok s
  simp only [cycle] at c
  split at c
  case h_1 =>
    cases c
    cases fault
  case h_2 =>
    cases c
    cases fault
    constructor
    · rw [halted, record_core]
      rfl
    · rw [record]
      split <;> rfl
  case h_3 => cases c

theorem attempt_of_halted (halted : m.halted = true) (now : Float) :
    m.attempt now = (.error (.fault (.haltedBy m.fault)), m) := by
  rw [attempt, step_of_halted halted]

theorem step_of_attempt (a : (m.attempt now).1 = .ok e) : m.step now = .ok e (m.stepped now) := by
  rw [attempt] at a
  rw [stepped]
  cases s : m.step now with
  | ok e' m' =>
    rw [s] at a
    cases a
    rfl
  | error e' m' =>
    rw [s] at a
    cases a

theorem loopsFrom_concat (c : Nat) (made : List (Party × Attempt)) (p : Party) (a : Attempt) :
    loopsFrom c (made ++ [(p, a)]) =
      loopsFrom c made + if c ≤ made.length ∧ p = .loop then 1 else 0 := by
  by_cases reached : c ≤ made.length
  case pos =>
    rw [loopsFrom, List.drop_append_of_le_length reached, List.map_append, List.count_append]
    simp [loopsFrom, reached, List.count_singleton]
  case neg =>
    have short : (made ++ [(p, a)]).length ≤ c := by
      rw [List.length_append, List.length_singleton]
      omega
    rw [loopsFrom, List.drop_of_length_le short, loopsFrom, List.drop_of_length_le (by omega),
      if_neg fun r => reached r.1, Nat.add_zero]

-- What a loop makes of a step of its own: it goes on after one without fault.
theorem heed_of_due {a : Attempt} (due : Expected c f n a) : m.heed a = if n < c then m
    else m.endLoop (some (if n = c then f else .haltedBy (some f))) := by
  cases a with
  | ok e =>
    obtain ⟨early, fault⟩ := due
    by_cases here : n = c
    case pos =>
      rw [if_pos here] at fault
      simp only [heed, fault, here, Nat.lt_irrefl, if_false, if_true]
    case neg =>
      rw [if_neg here] at fault
      simp only [heed, fault, if_pos (Nat.lt_of_le_of_ne early here)]
  | error e =>
    obtain ⟨late, halt⟩ := due
    rw [heed.eq_def, halt, if_neg (Nat.not_lt_of_gt late), if_neg (Nat.ne_of_gt late)]

namespace FaultsAfter

-- From the fault on nothing changes any more.
theorem halted (h : m.FaultsAfter now c f) (later : c < n) : m.alone now n = m.alone now (c + 1) ∧
    (m.alone now n).halted = true ∧ (m.alone now n).fault = some f := by
  induction n with
  | zero => cases later
  | succ n ih =>
    cases Nat.lt_succ_iff_lt_or_eq.mp later with
    | inl before =>
      have ⟨same, halted, fault⟩ := ih before
      rw [alone, stepped_of_halted halted]
      exact ⟨same, halted, fault⟩
    | inr here =>
      have ⟨e, made, fault⟩ := h.fault
      exact ⟨here ▸ rfl, here ▸ step_halts (step_of_attempt made) fault⟩

theorem due (h : m.FaultsAfter now c f) (n : Nat) : Expected c f n (m.attemptAlone now n) := by
  obtain before | here | after := Nat.lt_trichotomy n c
  case inl =>
    have ⟨e, made, fine⟩ := h.fine n before
    rw [made, Expected, if_neg (Nat.ne_of_lt before)]
    exact ⟨Nat.le_of_lt before, fine⟩
  case inr.inl =>
    have ⟨e, made, fault⟩ := h.fault
    rw [here, made, Expected, if_pos rfl]
    exact ⟨Nat.le_refl c, fault⟩
  case inr.inr =>
    have ⟨_, halted, fault⟩ := h.halted after
    rw [attemptAlone, attempt_of_halted halted, fault]
    exact ⟨after, rfl⟩

end FaultsAfter

-- What turns in some order leave: the attempts that one party alone would make, and a loop that goes on until it
-- makes one of those that are not fine.
structure Serial (m : Machine) (now : Float) (c : Nat) (f : Fault) (order : List Party)
    (made : List (Party × Attempt)) (m' : Machine) : Prop where
  attempts : made.map Prod.snd = (List.range made.length).map (m.attemptAlone now)
  machine : m'.apart = (m.alone now made.length).apart
  host : (made.map Prod.fst).count .host = order.count .host
  looping : m'.looping = true → made.map Prod.fst = order
  loops : loopsFrom c made = if m'.looping then 0 else 1
  ended : m'.looping = false → ∃ p a, made[c]? = some (p, a) ∧ m'.loopFault = some (endOf f p)

namespace Serial

theorem attempt (h : m.Serial now c f order made m') :
    (m'.attempt now).1 = m.attemptAlone now made.length ∧
      (m'.attempt now).2.apart = (m.alone now (made.length + 1)).apart := by
  have ⟨attempt, machine⟩ := attempt_of_apart h.machine now
  rw [attempt_snd (m.alone now made.length)] at machine
  exact ⟨attempt, machine⟩

theorem attempts_concat (h : m.Serial now c f order made m') (p : Party) :
    (made ++ [(p, m.attemptAlone now made.length)]).map Prod.snd =
      (List.range (made.length + 1)).map (m.attemptAlone now) := by
  rw [List.range_succ, List.map_append, List.map_append, h.attempts]
  rfl

theorem hostTurn (h : m.Serial now c f order made m') :
    m.Serial now c f (order ++ [.host]) (made ++ [(.host, (m'.attempt now).1)]) (m'.attempt now).2 := by
  have ⟨looping, loopFault⟩ := m'.attempt_loop now
  have ⟨attempt, machine⟩ := h.attempt
  have more : (made ++ [(Party.host, (m'.attempt now).1)]).length = made.length + 1 := List.length_append
  refine ⟨?_, more ▸ machine, ?_, ?_, ?_, ?_⟩
  case refine_1 => rw [more, attempt, h.attempts_concat]
  case refine_2 => simp [h.host]
  case refine_3 =>
    intro on
    simp [h.looping (looping ▸ on)]
  case refine_4 =>
    rw [looping, ← h.loops, loopsFrom_concat]
    simp
  case refine_5 =>
    intro off
    have ⟨p, a, faulty, fault⟩ := h.ended (looping ▸ off)
    have ⟨inside, _⟩ := List.getElem?_eq_some_iff.mp faulty
    exact ⟨p, a, (List.getElem?_append_left inside).trans faulty, loopFault ▸ fault⟩

-- A loop that goes on has made no step from the fault on.
theorem host_of_looping (h : m.Serial now c f order made m') (on : m'.looping = true) {p : Party × Attempt}
    (late : made[c]? = some p) : p.1 = .host := by
  have none : loopsFrom c made = 0 := by rw [h.loops, if_pos on]
  have among : p.1 ∈ (made.drop c).map Prod.fst := by
    refine List.mem_map_of_mem (List.mem_iff_getElem?.mpr ⟨0, ?_⟩)
    rw [List.getElem?_drop, Nat.add_zero, late]
  cases party : p.1 with
  | host => rfl
  | loop => exact absurd (party ▸ among) (List.count_eq_zero.mp none)

theorem loopTurn (faults : m.FaultsAfter now c f) (h : m.Serial now c f order made m')
    (on : m'.looping = true) : m.Serial now c f (order ++ [.loop]) (made ++ [(.loop, (m'.attempt now).1)])
      ((m'.attempt now).2.heed (m'.attempt now).1) := by
  have ⟨looping, loopFault⟩ := m'.attempt_loop now
  have ⟨attempt, machine⟩ := h.attempt
  have heed := heed_of_due (m := (m'.attempt now).2) (attempt ▸ faults.due made.length)
  have more : (made ++ [(Party.loop, (m'.attempt now).1)]).length = made.length + 1 := List.length_append
  have loops : loopsFrom c (made ++ [(.loop, (m'.attempt now).1)]) = if c ≤ made.length then 1 else 0 := by
    simp [loopsFrom_concat, h.loops, on]
  refine ⟨?_, ?_, ?_, ?_, ?_, ?_⟩
  case refine_1 => rw [more, attempt, h.attempts_concat]
  case refine_2 => rw [apart_heed, more, machine]
  case refine_3 => simp [h.host]
  case refine_4 =>
    intro _
    simp [h.looping on]
  case refine_5 =>
    rw [loops, heed]
    by_cases early : made.length < c
    case pos => rw [if_neg (Nat.not_le_of_gt early), if_pos early, looping, on, if_pos rfl]
    case neg =>
      rw [if_pos (Nat.le_of_not_gt early), if_neg early]
      rfl
  case refine_6 =>
    intro off
    rw [heed] at off ⊢
    by_cases early : made.length < c
    case pos =>
      rw [if_pos early, looping, on] at off
      cases off
    case neg =>
      rw [if_neg early]
      by_cases here : made.length = c
      case pos =>
        refine ⟨.loop, (m'.attempt now).1, here ▸ List.getElem?_concat_length .., ?_⟩
        rw [if_pos here]
        rfl
      case neg =>
        have inside : c < made.length := by omega
        have late := List.getElem?_eq_getElem inside
        have host := h.host_of_looping on late
        refine ⟨.host, made[c].2, ?_, ?_⟩
        · rw [List.getElem?_append_left inside, late, ← host]
        · rw [if_neg here]
          rfl

-- A turn keeps all of this, whoever has it.
theorem turn (faults : m.FaultsAfter now c f) (h : m.Serial now c f order made m') (p : Party) :
    m.Serial now c f (order ++ [p]) (made ++ ((m'.turn now p).1.map (p, ·)).toList) (m'.turn now p).2 := by
  cases p with
  | host => exact h.hostTurn
  | loop =>
    simp only [Machine.turn]
    cases on : m'.looping with
    | true => exact h.loopTurn faults on
    | false =>
      simp only [Bool.false_eq_true, if_false, Option.map_none, Option.toList_none, List.append_nil]
      refine ⟨h.attempts, h.machine, ?_, ?_, h.loops, h.ended⟩
      · simp [h.host]
      · simp [on]

end Serial

theorem turns_concat (m : Machine) (now : Float) (order : List Party) (p : Party) :
    m.turns now (order ++ [p]) =
      let (made, m') := m.turns now order
      (made ++ ((m'.turn now p).1.map (p, ·)).toList, (m'.turn now p).2) := by
  induction order generalizing m with
  | nil => simp [turns]
  | cons q order ih => simp [turns, ih, List.append_assoc]

theorem Serial.of_turns (s : m.start = .ok m₁) (faults : m.FaultsAfter now c f) (order : List Party) :
    m.Serial now c f order (m₁.turns now order).1 (m₁.turns now order).2 := by
  induction order using List.reverseRecOn with
  | nil =>
    have ⟨_, out⟩ := start_ok s
    rw [out]
    exact ⟨rfl, rfl, rfl, fun _ => rfl, by simp [turns, loopsFrom], by simp [turns]⟩
  | append_singleton order p ih =>
    rw [turns_concat]
    exact ih.turn faults p

-- The attempts up to the one at fault are those that execute a step.
theorem executed_eq (faults : m.FaultsAfter now c f)
    (attempts : made.map Prod.snd = (List.range made.length).map (m.attemptAlone now)) :
    executed made = min made.length (c + 1) := by
  have ok (n : Nat) : (m.attemptAlone now n).isOk = decide (n ≤ c) := by
    have due := faults.due n
    cases a : m.attemptAlone now n with
    | ok e => exact (decide_eq_true (a ▸ due).1).symm
    | error e => exact (decide_eq_false (Nat.not_le_of_gt (a ▸ due).1)).symm
  have upTo (k : Nat) : (List.range k).countP (fun n => decide (n ≤ c)) = min k (c + 1) := by
    induction k with
    | zero => simp
    | succ k ih =>
      rw [List.range_succ, List.countP_append, ih, List.countP_singleton]
      simp only [decide_eq_true_eq]
      split <;> omega
  rw [executed, attempts, List.countP_map, ← upTo]
  exact congrArg (List.countP · _) (funext ok)

-- However the turns of the two come to lie, the steps are made as one party alone would make them.
theorem turns_serial (s : m.start = .ok m₁) (faults : m.FaultsAfter now c f) (order : List Party) :
    let made := (m₁.turns now order).1
    let m' := (m₁.turns now order).2
    -- The attempts are those of one party, in order, and one of them at most is at fault.
    made.map Prod.snd = (List.range made.length).map (m.attemptAlone now) ∧
    (∀ n p a, made[n]? = some (p, a) → Expected c f n a) ∧
    -- They leave what as many executed steps of one party leave.
    executed made = min made.length (c + 1) ∧ m'.apart = (m.alone now (executed made)).apart ∧
    (c < made.length → ∀ now, m'.attempt now = (.error (.fault (.haltedBy (some f))), m')) ∧
    -- Every turn of the host is an attempt, and so is every turn of the loop before it has ended.
    (made.map Prod.fst).count .host = order.count .host ∧ (m'.looping = true → made.map Prod.fst = order) ∧
    -- The loop ends with its first attempt that is not fine, on the fault itself or on the halt.
    loopsFrom c made = (if m'.looping then 0 else 1) ∧
    (m'.looping = false → ∃ p a, made[c]? = some (p, a) ∧ m'.loopFault = some (endOf f p)) ∧
    (endOf f .host).message = "CPU is halted: " ++ f.message := by
  intro made m'
  have h : m.Serial now c f order made m' := Serial.of_turns s faults order
  have count := executed_eq faults h.attempts
  refine ⟨h.attempts, ?_, count, ?_, ?_, h.host, h.looping, h.loops, h.ended, rfl⟩
  case refine_1 =>
    intro n p a here
    have ⟨inside, _⟩ := List.getElem?_eq_some_iff.mp here
    have attempt : (made.map Prod.snd)[n]? = some a := by rw [List.getElem?_map, here, Option.map_some]
    rw [h.attempts, List.getElem?_map, List.getElem?_range inside, Option.map_some] at attempt
    exact Option.some.inj attempt ▸ faults.due n
  case refine_2 =>
    rw [h.machine, count]
    by_cases late : c < made.length
    case pos => rw [(faults.halted late).1, Nat.min_eq_right late]
    case neg => rw [Nat.min_eq_left (by omega)]
  case refine_3 =>
    intro late now
    have ⟨_, halted, fault⟩ := faults.halted late
    have stays : m'.halted = true := (congrArg Machine.halted h.machine).trans halted
    have cause : m'.fault = some f := (congrArg Machine.fault h.machine).trans fault
    rw [attempt_of_halted stays, cause]

theorem start_of_running (idle : m.looping = false) (running : m.halted = false) :
    m.start = .ok { m with looping := true } := by
  simp [start, idle, running]

theorem fault_of_attempt {a : Attempt} {fault : Option Fault} (h : a.toOption.map Entry.fault = some fault) :
    ∃ e, a = .ok e ∧ e.fault = fault := by
  cases a with
  | ok e => exact ⟨e, rfl, Option.some.inj h⟩
  | error e => cases h

-- A program of two words, the second of which is no instruction.
def shortLived : Machine :=
  (Machine.new (.small .strict) .zeros false 0).afterCall 0 (.load [0x60, 0x05, 0xff, 0xff] none)

theorem shortLived_faults : shortLived.FaultsAfter 0 1 (.unknownOpcode 0xffff (some 0x62)) := by
  refine ⟨fun n first => ?_, fault_of_attempt (by decide +kernel)⟩
  rw [Nat.lt_one_iff.mp first]
  exact fault_of_attempt (by decide +kernel)

theorem shortLived_serial : ∃ m₁, shortLived.start = .ok m₁ ∧
    shortLived.FaultsAfter 0 1 (.unknownOpcode 0xffff (some 0x62)) ∧
    let m' := (m₁.turns 0 [.loop, .host, .loop, .host]).2
    m'.looping = false ∧ m'.loopFault = some (.haltedBy (some (.unknownOpcode 0xffff (some 0x62)))) := by
  have started := shortLived.start_of_running (by decide +kernel) (by decide +kernel)
  refine ⟨_, started, shortLived_faults, ?_⟩
  intro m'
  have ended : m'.looping = false := by decide +kernel
  have order : (turns { shortLived with looping := true } 0 [.loop, .host, .loop, .host]).1.map Prod.fst =
    [.loop, .host, .loop, .host] := by decide +kernel
  have ⟨_, _, _, _, _, _, _, _, ends, _⟩ := turns_serial started shortLived_faults [.loop, .host, .loop, .host]
  have ⟨p, a, made, fault⟩ := ends ended
  have host := congrArg (·[1]?) order
  simp only [List.getElem?_map, made] at host
  cases host
  exact ⟨ended, fault⟩

end Chip8.Machine
