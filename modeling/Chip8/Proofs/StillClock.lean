import Chip8.Proofs.FaultRecords
import Chip8.Proofs.Image
import Chip8.Proofs.Runs
import Chip8.Proofs.Stalls

namespace Chip8

open Double

namespace Double

open Float.Model

variable {x y : Float}

-- Nothing is left of a finite time that is taken from itself.
theorem sub_self (finite : (ofFloat x).isFinite = true) :
    ∃ negative, ofFloat (x - x) = .finite negative 0 leastExponent := by
  rw [ofFloat_sub]
  obtain ⟨s, u⟩ | ⟨s, m, e, pos, u⟩ := unpack_of_isFinite finite <;> rw [u, UnpackedFloat.sub]
  case inl => split <;> exact ⟨_, packed_zero _⟩
  case inr =>
    have none (n : Int) : n - n = 0 := by omega
    simp only [none]
    exact ⟨_, packed_zero .positive⟩

theorem zero_div {negative : Bool} (zero : ofFloat x = .finite negative 0 leastExponent)
    (finite : (ofFloat y).isFinite = true) (some : (ofFloat y).value ≠ 0) :
    ∃ negative, ofFloat (x / y) = .finite negative 0 leastExponent := by
  obtain ⟨s, u⟩ : ∃ s, x.toModel.unpack = .zero s := by
    obtain ⟨s, u⟩ | ⟨s, m, e, pos, u⟩ := unpack_of_isFinite (zero ▸ rfl : (ofFloat x).isFinite = true)
    case inl => exact ⟨s, u⟩
    case inr =>
      rw [ofFloat_eq, u] at zero
      cases zero
      cases pos
  obtain ⟨t, v⟩ | ⟨t, m, e, pos, v⟩ := unpack_of_isFinite finite
  case inl =>
    rw [ofFloat_eq, v] at some
    exact absurd (by simp [ofUnpacked, value]) some
  case inr =>
    rw [ofFloat_div, u, v]
    exact ⟨_, packed_zero _⟩

end Double

variable {now period : Float}

theorem quotient_still (reading : (ofFloat now).isFinite = true) (finite : (ofFloat period).isFinite = true)
    (some : (ofFloat period).value ≠ 0) : Timescale.quotient (now - now) period = .ok 0 := by
  obtain ⟨_, zero⟩ := sub_self reading
  obtain ⟨negative, none⟩ := zero_div zero finite some
  have nothing : truncate 0 leastExponent = 0 := by
    rw [truncate_of_neg (by decide), Nat.zero_div]
  rw [quotient_of_some fun _ => some, none, integer, nothing]
  cases negative <;> rfl

namespace Machine

variable {config : Config} {source : Source} {m m' : Machine} {n : Nat}

-- No time passes for a machine at a reading of the clock.
def Timeless (m : Machine) (now : Float) : Prop :=
  m.metronome.beat now = .ok (0, m.metronome)

namespace Timeless

variable (t : m.Timeless now)

include t

theorem tick : m.tick now = .ok (0, m) := by
  have beat : m.metronome.beat now = .ok (0, m.metronome) := t
  have idle : m.core.state.elapse 0 = (m.core.state, false) := rfl
  simp only [Machine.tick, beat, Except.map, idle, Bool.or_false]

theorem stepped : (m.stepped now).Timeless now := by
  cases m.stepped_cases now with
  | inl idle => rwa [idle]
  | inr made =>
    obtain ⟨_, periods, m₁, tick, out⟩ := made
    cases t.tick.symm.trans tick
    rwa [out, Timeless, metronome_cycle]

theorem alone (n : Nat) : (m.alone now n).Timeless now := by
  induction n with
  | zero => exact t
  | succ n ih => exact ih.stepped

end Timeless

theorem Reachable.alone (r : m.Reachable config source) (now : Float) (n : Nat) :
    (m.alone now n).Reachable config source := by
  induction n with
  | zero => exact r
  | succ n ih =>
    rw [Machine.alone, ← afterCall_step]
    exact ih.call now .step

theorem traced_alone (r : m.Reachable config source) (now : Float) (n : Nat) : (m.alone now n).traced = m.traced := by
  induction n with
  | zero => rfl
  | succ n ih => exact (traced_stepped (r.alone now n).sound now).trans ih

-- A step that the clock does not stop leaves an entry, and the core tells which.
theorem Timeless.attempt (t : m.Timeless now) (r : m.Reachable config source) (draws : source.isEmpty = false)
    (running : m.halted = false) :
    ∃ e, (m.attempt now).1 = .ok e ∧ m.core.failure? = e.fault.map .fault ∧
      (m.stepped now).core.state.pc = (m.core.next config.dialect).state.pc ∧
      (m.stepped now).core.state.calls = (m.core.next config.dialect).state.calls ∧
      (m.stepped now).core.memory = (m.core.next config.dialect).memory := by
  obtain ⟨after, fault, step, _⟩ := step_recorded r.sound (r.isEmpty_source.trans draws) running t.tick
  have leaves := cycle_leaves r.sound ((step_of_tick running t.tick).symm.trans step)
  obtain ⟨_, _, core⟩ := core_cycle r.sound
  rw [stepped_of_tick running t.tick, core, r.sound.config_eq]
  have made : (m.attempt now).1 = .ok (m.entry after fault) := by
    rw [Machine.attempt, step]
    rfl
  exact ⟨_, made, leaves.failure, rfl, rfl, rfl⟩

theorem goesOn_or_faults (r : m.Reachable config source) (draws : source.isEmpty = false) (running : m.halted = false)
    (t : m.Timeless now) (n : Nat) : m.GoesOn now n ∨ ∃ k < n, ∃ f, m.FaultsAfter now k f := by
  refine (m.goesOn_or_ends now n).imp_right fun ⟨k, lt, g, failure, ends⟩ => ⟨k, lt, ?_⟩
  obtain ⟨_, halted, _⟩ := g.leaves r.sound
  obtain ⟨e, made, _⟩ := (t.alone k).attempt (r.alone now k) draws (halted running)
  obtain ⟨f, _, out⟩ : ∃ f, e.fault = some f ∧ .fault f = failure := by
    rw [attemptAlone, made] at ends
    exact Option.map_eq_some_iff.mp ends
  exact ⟨f, g.faultsAfter r.sound running (out ▸ ends)⟩

-- There is one first step at fault at the most.
theorem FaultsAfter.unique {j k : Nat} {f g : Fault} (h : m.FaultsAfter now j f) (h' : m.FaultsAfter now k g) :
    j = k ∧ f = g := by
  have first {i l : Nat} {f g : Fault} (h : m.FaultsAfter now i f) (h' : m.FaultsAfter now l g) : i ≤ l := by
    by_contra later
    obtain ⟨e, made, fine⟩ := h.fine l (Nat.lt_of_not_le later)
    obtain ⟨e', made', fault⟩ := h'.fault
    cases made.symm.trans made'
    cases fine.symm.trans fault
  obtain rfl := Nat.le_antisymm (first h h') (first h' h)
  obtain ⟨e, made, fault⟩ := h.fault
  obtain ⟨e', made', fault'⟩ := h'.fault
  cases made.symm.trans made'
  exact ⟨rfl, Option.some.inj (fault.symm.trans fault')⟩

-- Where a machine stops that was to make up to `n` steps, and how many of them went well: at the first one at fault, or
-- behind all of them.
inductive Stops (m : Machine) (now : Float) (n : Nat) : Option Fault → Nat → Machine → Prop
  | fine : m.GoesOn now n → Stops m now n none n (m.alone now n)
  | fault {k : Nat} {f : Fault} : k < n → m.FaultsAfter now k f → Stops m now n (some f) k (m.alone now (k + 1))

theorem exists_stops (r : m.Reachable config source) (draws : source.isEmpty = false) (running : m.halted = false)
    (t : m.Timeless now) (n : Nat) : ∃ fault good last, m.Stops now n fault good last := by
  obtain g | ⟨k, lt, f, faults⟩ := goesOn_or_faults r draws running t n
  · exact ⟨_, _, _, .fine g⟩
  · exact ⟨_, _, _, .fault lt faults⟩

namespace Stops

variable {fault : Option Fault} {good : Nat} {last : Machine}

theorem faults_iff (s : m.Stops now n fault good last) {f : Fault} :
    fault = some f ↔ ∃ k < n, m.FaultsAfter now k f := by
  cases s with
  | fine g =>
    refine iff_of_false nofun ?_
    rintro ⟨k, lt, faults⟩
    cases (g k lt).symm.trans faults.ending
  | fault lt faults =>
    constructor
    · rintro ⟨⟩
      exact ⟨_, lt, faults⟩
    · rintro ⟨k, _, faults'⟩
      exact congrArg some (faults.unique faults').2

theorem reachable (s : m.Stops now n fault good last) (r : m.Reachable config source) :
    last.Reachable config source := by
  cases s <;> exact r.alone now _

theorem traced (s : m.Stops now n fault good last) (r : m.Reachable config source) : last.traced = m.traced := by
  cases s <;> exact traced_alone r now _

theorem isBare (s : m.Stops now n fault good last) (r : m.Reachable config source) :
    ∀ f ∈ fault, f.isBare = true := by
  cases s with
  | fine => nofun
  | @fault _ f _ faults =>
    obtain ⟨e, made, fault⟩ := faults.fault
    obtain ⟨_, _, _, t, c⟩ := step_ok (step_of_attempt made)
    have bare : f.isBare = true := (cycle_leaves ((r.alone now good).sound.tick t) c).isBare f fault
    exact fun g same => Option.some.inj same ▸ bare

-- What has gone well has been counted, and what has not has halted the machine.
theorem leaves (s : m.Stops now n fault good last) (r : m.Reachable config source) (running : m.halted = false) :
    last.halted = fault.isSome ∧ last.fault = fault ∧ last.state.cycles = m.state.cycles + good := by
  cases s with
  | fine g =>
    obtain ⟨_, halted, cycles⟩ := g.leaves r.sound
    obtain ⟨fault, _⟩ := (r.alone now n).consistent.of_running (halted running)
    exact ⟨halted running, fault, cycles⟩
  | fault lt faults =>
    obtain ⟨_, halted, fault⟩ := faults.halted (Nat.lt_succ_self _)
    exact ⟨halted, fault, faults.cycles r.sound⟩

theorem run {limit : Int} (s : m.Stops now limit.toNat fault good last) :
    m.run now (some limit) = match fault with
      | none => .ok last.trace last
      | some f => .error (.fault f) last := by
  cases s with
  | fine g => rw [Machine.run, Option.getD_some, g.runSteps]
  | fault lt faults => exact faults.run (by omega)

end Stops

-- A program that sets a register and then returns, from no call.
def stray : List UInt8 := [0x60, 0x05, 0x00, 0xee]

theorem stray_faults (r : m.Reachable config source) (draws : source.isEmpty = false) (t : m.Timeless now)
    (fits : config.startPc + stray.length ≤ config.memorySize) (holds : m.core.memory.Holds config.startPc stray)
    {depth : Int} (fresh : m.state = .initial config.startPc depth) : m.FaultsAfter now 1 .stackUnderflow := by
  have pc : m.core.state.pc = config.startPc := congrArg State.pc fresh
  have sets : m.core.Faces config .loadByte :=
    Core.faces_of_holds (k := 0) holds fits (by decide) (pc.trans (by omega))
      (by decide : Operation.decode (.ofBytes 0x60 0x05) = _)
  obtain ⟨e, made, fine, pc', calls, memory⟩ := t.attempt r draws (congrArg State.halted fresh)
  rw [sets.failure?_eq r.sound.core] at fine
  rw [sets.next_eq r.sound.core] at pc' calls memory
  have fault : e.fault = none := by simpa [Operation.failure?] using fine.symm
  have later : (m.stepped now).Reachable config source := r.alone now 1
  have running : (m.stepped now).halted = false := by
    obtain ⟨halted, _⟩ := leaves_of_attempt r.sound made
    rw [halted, fault]
    rfl
  have second : (m.stepped now).core.state.pc = config.startPc + 2 := by
    have inside : config.startPc + 4 ≤ config.memorySize := fits
    have := config.memorySize_le
    have next : word (config.startPc + 2) = config.startPc + 2 := Int.emod_eq_of_lt (by omega) (by omega)
    exact pc'.trans ((congrArg (fun a => word (a + 2)) pc).trans next)
  have uncalled : (m.stepped now).core.state.calls = [] := calls.trans (congrArg State.calls fresh)
  have returns : (m.stepped now).core.Faces config .ret :=
    Core.faces_of_holds (k := 1) (memory ▸ holds) fits (by decide) (second.trans (by omega))
      (by decide : Operation.decode (.ofBytes 0x00 0xee) = _)
  obtain ⟨e', made', failure, _⟩ := t.stepped.attempt later draws running
  have astray : Operation.ret.failure? (m.stepped now).core.nextWord (m.stepped now).core.fetched =
    some (.fault .stackUnderflow) := if_pos uncalled
  rw [returns.failure?_eq later.sound.core, astray] at failure
  obtain ⟨f, out, same⟩ := Option.map_eq_some_iff.mp failure.symm
  cases same
  refine ⟨fun n before => ?_, e', made', out⟩
  rw [Nat.lt_one_iff.mp before]
  exact ⟨e, made, fault⟩
end Machine
end Chip8
