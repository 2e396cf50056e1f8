import Chip8.Proofs.CommandReport

namespace Chip8

namespace Machine

variable {m : Machine} {now rate : Float} {e : Entry} {c n limit : Nat} {f : Fault}

-- After a turn that leaves an entry the loop goes on, or it ends on the fault of the entry.
theorem turn_loop (made : (m.attempt now).1 = .ok e) : ((m.withLoop true none).turn now .loop).2 =
    (m.stepped now).withLoop e.fault.isNone e.fault := by
  have on : (m.withLoop true none).looping = true := rfl
  rw [Machine.turn, if_pos on, attempt_withLoop, made, attempt_snd]
  dsimp only [heed]
  cases e.fault <;> rfl

-- Steps that go well are turns of a loop that goes on.
theorem GoesOn.loop (g : m.GoesOn now n) (limit : Nat) :
    (m.withLoop true none).loop now (n + limit) = ((m.alone now n).withLoop true none).loop now limit := by
  induction n generalizing limit with
  | zero => rw [Nat.zero_add, alone]
  | succ n ih =>
    obtain ⟨e, made, fine⟩ := ending?_eq_none_iff.mp (g n (Nat.lt_succ_self n))
    have turn := turn_loop made
    rw [fine] at turn
    rw [Nat.add_right_comm, Nat.add_assoc, ih (g.before (Nat.le_succ n)), Machine.loop, turn]
    rfl

-- A loop ends on the first step at fault.
theorem FaultsAfter.loop (faults : m.FaultsAfter now c f) (lt : c < limit) :
    (m.withLoop true none).loop now limit = (m.alone now (c + 1)).withLoop false (some f) := by
  obtain ⟨rest, rfl⟩ := Nat.exists_eq_add_of_lt lt
  obtain ⟨e, made, fault⟩ := faults.fault
  have turn := turn_loop made
  rw [fault] at turn
  rw [Nat.add_assoc, faults.goesOn.loop, Machine.loop, turn]
  exact loop_of_not_looping rfl rest

-- At a rate that its pauses keep up with a loop makes its turns, and otherwise it makes the first one.
theorem FaultsAfter.loopAt (faults : m.FaultsAfter now c f) (lt : c < limit) :
    (m.withLoop true none).loopAt now rate limit = if canPause rate = true ∨ c = 0
      then (m.alone now (c + 1)).withLoop false (some f) else (m.alone now 1).withLoop false none := by
  simp only [Machine.loopAt, turnsAt]
  cases pauses : canPause rate with
  | true =>
    simp only [if_true, true_or]
    exact faults.loop lt
  | false =>
    simp only [Bool.false_eq_true, if_false, false_or]
    by_cases early : c = 0
    case pos =>
      subst early
      rw [if_pos rfl, faults.loop (Nat.lt_succ_self 0)]
      rfl
    case neg =>
      have one := (faults.goesOn.before (Nat.one_le_iff_ne_zero.mpr early)).loop 0
      rw [if_neg early, one]
      rfl

end Machine

namespace CommandLine

open Machine (canPause)

variable {arguments arguments' : List String} {folder : Folder} {o : Options} {image : List UInt8} {limit : Int}
  {r r' now : Float} {unseeded : Source} {c : Nat} {f : Fault} {fault : Option Fault} {m last : Machine}

-- A run at a rate tells what its loop has ended on.
theorem execute_throttled (steps : o.steps = some limit) (ips : o.ips = some r) (throttled : 0 < r)
    (started : m.start = .ok (m.withLoop true none)) :
    let last := (m.withLoop true none).loopAt now r (turnsAllowed o)
    execute o now m = .ok (last.loopFault, last) := by
  have background : CommandLine.throttled o = true := by simp [CommandLine.throttled, ips, throttled]
  have rate : CommandLine.rate o = r := by rw [CommandLine.rate, ips, Option.getD_some]
  simp [execute, background, started, rate, ips, steps, bind, Except.bind, pure, Except.pure]

theorem lt_turnsAllowed (steps : o.steps = some limit) (lt : c < limit) : c < turnsAllowed o := by
  have := Machine.le_turnsUntil (rate o) limit.toNat
  rw [turnsAllowed, steps, Option.getD_some]
  omega

-- A run without a host that comes to a fault shows the machine behind the step at fault.
theorem Asks.run_direct (asks : Asks arguments folder o image limit r) (direct : ¬ 0 < r)
    (faults : (loaded o image now unseeded).FaultsAfter now c f) (lt : c < limit) :
    ∃ p, run arguments folder now unseeded = .ok p ∧ p.exit = 1 ∧
      p.output = report o (loaded o image now unseeded) (some f) ((loaded o image now unseeded).alone now (c + 1)) := by
  have stops := Machine.Stops.fault (by omega : c < limit.toNat) faults
  obtain ⟨p, ran, exit, output⟩ := asks.run_eq (execute_eq asks direct stops)
  obtain ⟨_, halted, _⟩ := faults.halted (Nat.lt_succ_self c)
  exact ⟨p, ran, exit.trans (if_pos halted), output⟩

-- So does a run at a rate that its loop can keep, and one that has made no other step. If its loop has broken off, the run
-- ends as if there had been no fault.
theorem Asks.run_throttled (asks : Asks arguments folder o image limit r) (throttled : 0 < r)
    (faults : (loaded o image now unseeded).FaultsAfter now c f) (lt : c < limit) :
    ∃ p, run arguments folder now unseeded = .ok p ∧ if canPause r = true ∨ c = 0
      then p.exit = 1 ∧
        p.output = report o (loaded o image now unseeded) (some f) ((loaded o image now unseeded).alone now (c + 1))
      else p.exit = 0 := by
  obtain ⟨_, _, idle, unended, _⟩ := loaded_fresh o image now unseeded
  have running : (loaded o image now unseeded).halted = false := loaded_running o image now unseeded
  have started : (loaded o image now unseeded).start = .ok ((loaded o image now unseeded).withLoop true none) := by
    rw [Machine.start_of_running idle running, Machine.withLoop, ← unended]
  have executes : execute o now (loaded o image now unseeded) = _ := execute_throttled asks.steps asks.ips throttled started
  rw [faults.loopAt (lt_turnsAllowed asks.steps lt)] at executes
  obtain ⟨p, ran, exit, output⟩ := asks.run_eq executes
  refine ⟨p, ran, ?_⟩
  split
  case isTrue keeps =>
    rw [if_pos keeps] at exit output
    obtain ⟨_, halted, _⟩ := faults.halted (Nat.lt_succ_self c)
    exact ⟨exit.trans (if_pos halted), output⟩
  case isFalse breaks =>
    have early : 1 ≤ c := Nat.one_le_iff_ne_zero.mpr fun zero => breaks (.inr zero)
    obtain ⟨_, goes, _⟩ := (faults.goesOn.before early).leaves (reachable_loaded o image now unseeded).sound
    have runs : (((loaded o image now unseeded).alone now 1).withLoop false none).halted = false := goes running
    rw [if_neg breaks] at exit
    exact exit.trans (if_neg (runs ▸ Bool.false_ne_true))

-- A run at a rate that comes to a fault prints what the run without a host prints, and ends with the same exit, exactly
-- if the loop can make the pauses that the rate asks for or the very first step is at fault. Turns take no time here.
theorem throttled_agrees_iff (asks : Asks arguments folder o image limit r) (direct : ¬ 0 < r)
    (asks' : Asks arguments' folder { o with ips := some r' } image limit r') (throttled : 0 < r')
    (faults : (loaded o image now unseeded).FaultsAfter now c f) (lt : c < limit) :
    ∃ p p', run arguments folder now unseeded = .ok p ∧ run arguments' folder now unseeded = .ok p' ∧ p.exit = 1 ∧
      (p'.exit = p.exit ∧ p'.output = p.output ↔ canPause r' = true ∨ c = 0) ∧
      (¬ (canPause r' = true ∨ c = 0) → p'.exit = 0) := by
  obtain ⟨p, ran, exit, output⟩ := asks.run_direct direct faults lt
  obtain ⟨p', ran', reports⟩ := asks'.run_throttled throttled faults lt
  refine ⟨p, p', ran, ran', exit, ?_⟩
  split at reports
  case isTrue keeps =>
    obtain ⟨exit', output'⟩ := reports
    exact ⟨iff_of_true ⟨exit'.trans exit.symm, output'.trans output.symm⟩ keeps, fun breaks => absurd keeps breaks⟩
  case isFalse breaks =>
    refine ⟨iff_of_false (fun ⟨same, _⟩ => ?_) breaks, fun _ => reports⟩
    rw [reports, exit] at same
    cases same

theorem stray_throttled :
    let o : Options := { program := "p", quiet := true }
    Asks ["p", "-q"] strayFolder o Machine.stray 1000 0 ∧ ¬ (0 : Float) < 0 ∧
      Asks ["p", "-q", "--ips=500"] strayFolder { o with ips := some 500 } Machine.stray 1000 500 ∧ (0 : Float) < 500 ∧
      (loaded o Machine.stray 0 .zeros).FaultsAfter 0 1 .stackUnderflow ∧ (1 : Nat) < (1000 : Int) ∧
      ∃ p p', run ["p", "-q"] strayFolder 0 .zeros = .ok p ∧ run ["p", "-q", "--ips=500"] strayFolder 0 .zeros = .ok p' ∧
        p'.exit = p.exit ∧ p'.output = p.output := by
  intro o
  have asks' : Asks ["p", "-q", "--ips=500"] strayFolder { o with ips := some 500 } Machine.stray 1000 500 :=
    ⟨by decide +kernel, isFileName_p.read Machine.stray, rfl, rfl, rfl, rfl, rfl, nofun⟩
  have direct : ¬ (0 : Float) < 0 := by decide +kernel
  have throttled : (0 : Float) < 500 := by decide +kernel
  have faults := stray_loaded o 0 .zeros rfl (by decide +kernel)
  obtain ⟨p, p', ran, ran', _, agrees, _⟩ :=
    throttled_agrees_iff asks_stray direct asks' throttled faults (by decide : ((1 : Nat) : Int) < 1000)
  exact ⟨asks_stray, direct, asks', throttled, faults, by decide, p, p', ran, ran',
    agrees.mpr (.inl (by decide +kernel))⟩

-- At so low a rate the loop breaks off, and the run tells of success.
theorem stray_breaks_off :
    let o : Options := { program := "p", quiet := true }
    (loaded o Machine.stray 0 .zeros).FaultsAfter 0 1 .stackUnderflow ∧ (0 : Float) < 1e-10 ∧
      ∃ p p', run ["p", "-q"] strayFolder 0 .zeros = .ok p ∧ run ["p", "-q", "--ips=1e-10"] strayFolder 0 .zeros = .ok p' ∧
        p.exit = 1 ∧ p'.exit = 0 := by
  intro o
  have asks' : Asks ["p", "-q", "--ips=1e-10"] strayFolder { o with ips := some 1e-10 } Machine.stray 1000 1e-10 :=
    ⟨by decide +kernel, isFileName_p.read Machine.stray, rfl, rfl, rfl, rfl, rfl, nofun⟩
  have throttled : (0 : Float) < 1e-10 := by decide +kernel
  have breaks : ¬ (canPause 1e-10 = true ∨ 1 = 0) := by decide +kernel
  have faults := stray_loaded o 0 .zeros rfl (by decide +kernel)
  obtain ⟨p, ran, exit, _⟩ := asks_stray.run_direct (by decide +kernel) faults (by decide)
  obtain ⟨p', ran', exit'⟩ := asks'.run_throttled throttled faults (by decide)
  rw [if_neg breaks] at exit'
  exact ⟨faults, throttled, p, p', ran, ran', exit, exit'⟩

end CommandLine
end Chip8
