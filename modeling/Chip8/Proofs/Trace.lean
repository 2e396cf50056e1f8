import Chip8.Proofs.Faults
import Chip8.Proofs.Lettering
import Chip8.Proofs.Made
import Mathlib.Data.List.Chain

namespace Chip8

-- The same state some time later, when no timer has gone up.
structure State.Later (s s' : State) : Prop where
  delay : s'.delayTimer ≤ s.delayTimer
  sound : s'.soundTimer ≤ s.soundTimer
  rest : s' = { s with delayTimer := s'.delayTimer, soundTimer := s'.soundTimer }

namespace State.Later

variable {s s' s'' : State}

theorem refl (s : State) : s.Later s :=
  ⟨Int.le_refl _, Int.le_refl _, rfl⟩

theorem trans (l : s.Later s') (l' : s'.Later s'') : s.Later s'' where
  delay := Int.le_trans l'.delay l.delay
  sound := Int.le_trans l'.sound l.sound
  rest := by rw [l'.rest, l.rest]

theorem same (l : s.Later s') : s'.halted = s.halted ∧ s'.cycles = s.cycles := by
  rw [l.rest]
  exact ⟨rfl, rfl⟩

theorem elapse (h : s.Valid) (periods : Int) : s.Later (s.elapse periods).1 := by
  have delay := h.delayTimer
  have sound := h.soundTimer
  unfold State.elapse
  split
  case isTrue => exact refl s
  case isFalse late =>
    refine ⟨?_, ?_, rfl⟩
    · dsimp only
      omega
    · dsimp only
      split <;> omega

end State.Later

-- Both bytes of the instruction have a cell.
def Entry.Fetches (config : Config) (e : Entry) : Prop :=
  config.addressMode = .strict → e.pc + 1 < config.memorySize

namespace Machine

variable {config : Config} {source : Source} {m m' : Machine} {now : Float} {periods : Int} {e : Entry} {call : Call}
  {history : List (Float × Call)}

-- A change that a trace has nothing to tell of.
structure Silent (m m' : Machine) : Prop where
  state : m'.state = m.state
  trace : m'.trace = m.trace
  traced : m'.traced = m.traced
  fault : m'.fault = m.fault

namespace Silent

theorem load {image : List Int} {start : Option Int} (l : m.load image start = .ok m') : m.Silent m' := by
  have ⟨_, _, _, _, out⟩ := load_ok l
  exact out ▸ ⟨rfl, rfl, rfl, rfl⟩

theorem setKey {key : Int} {down : Bool} (k : m.setKey key down = .ok m') : m.Silent m' := by
  have ⟨_, _, out⟩ := setKey_ok k
  exact out ▸ ⟨rfl, rfl, rfl, rfl⟩

theorem writePixel {x y : Int} {lit : Bool} (w : m.writePixel x y lit = .ok m') : m.Silent m' := by
  have ⟨_, _, out⟩ := writePixel_ok w
  exact out ▸ ⟨rfl, rfl, rfl, rfl⟩

theorem writeMemory {a v : Int} (w : m.writeMemory a v = .ok m') : m.Silent m' := by
  have ⟨_, _, out⟩ := writeMemory_ok w
  exact out ▸ ⟨rfl, rfl, rfl, rfl⟩

theorem start (s : m.start = .ok m') : m.Silent m' := by
  have ⟨_, out⟩ := start_ok s
  exact out ▸ ⟨rfl, rfl, rfl, rfl⟩

end Silent

-- How a change bears on what a trace tells of.
theorem Change.shown (c : Change m m') : (∃ clearMemory now, m' = m.reset clearMemory now) ∨
    (∃ now periods, m.tick now = .ok (periods, m')) ∨ m.halted = false ∧ m' = left m.cycle ∨ m.Silent m' := by
  cases c
  case reset => exact .inl ⟨_, _, rfl⟩
  case tick t => exact .inr (.inl ⟨_, _, t⟩)
  case cycle running => exact .inr (.inr (.inl ⟨running, rfl⟩))
  case load l => exact .inr (.inr (.inr (.load l)))
  case setKey k => exact .inr (.inr (.inr (.setKey k)))
  case writePixel w => exact .inr (.inr (.inr (.writePixel w)))
  case writeMemory w => exact .inr (.inr (.inr (.writeMemory w)))
  case start s => exact .inr (.inr (.inr (.start s)))
  case takeDisplaySignal | takeSoundSignal | endLoop => exact .inr (.inr (.inr ⟨rfl, rfl, rfl, rfl⟩))

theorem tick_shown (h : m.Sound config) (t : m.tick now = .ok (periods, m')) :
    m.state.Later m'.state ∧ m'.trace = m.trace ∧ m'.traced = m.traced ∧ m'.fault = m.fault := by
  have ⟨_, _, out⟩ := tick_ok t
  exact out ▸ ⟨.elapse h.core.valid periods, rfl, rfl, rfl⟩

-- A cycle that leaves no entry has found no random byte to draw.
theorem isEmpty_of_cycle_error {failure : Failure} (h : m.Sound config) (c : m.cycle = .error failure m') :
    m.core.source.isEmpty = true := by
  have ⟨_, fails, other⟩ := cycle_error h c
  by_contra draws
  have ⟨f, out, _⟩ := Core.due_of_failure? h.core (Bool.eq_false_iff.mpr draws) fails
  exact other f out

theorem traced_stepped (h : m.Sound config) (now : Float) : (m.stepped now).traced = m.traced := by
  cases m.stepped_cases now with
  | inl idle => rw [idle]
  | inr made =>
    obtain ⟨_, _, m₁, t, out⟩ := made
    obtain ⟨_, _, flag, _⟩ := tick_shown h t
    rw [out]
    cases c : m₁.cycle with
    | ok e m' => exact (cycle_leaves (h.tick t) c).traced.trans flag
    | error failure m' =>
      obtain ⟨out, _⟩ := cycle_error (h.tick t) c
      exact out ▸ flag

theorem Leaves.isBare (l : m.Leaves e m') : ∀ f ∈ e.fault, f.isBare = true := by
  intro f fault
  have fails := l.failure
  rw [fault] at fails
  exact Core.isBare_of_failure? fails

-- What a traced machine shows is invariant if new entries, time and steps that leave none keep it.
theorem Reachable.induct_trace {P : List Entry → State → Option Fault → Prop} (r : m.Reachable config source)
    (traced : m.traced = true)
    (fresh : P [] (.initial config.startPc config.stackDepth) none)
    (wait : ∀ {entries s s' fault}, s.Later s' → P entries s fault → P entries s' fault)
    (cycle : ∀ {m m' : Machine} {e : Entry}, m.Sound config → m.traced = true → m.halted = false → m.Leaves e m' →
      P m.trace.toList m.state m.fault → P (m.trace.toList ++ [e]) m'.state m'.fault)
    (undrawn : ∀ {m : Machine}, m.Sound config → source.isEmpty = true →
      P m.trace.toList m.state m.fault → P m.trace.toList m.advanced.state m.fault) :
    P m.trace.toList m.state m.fault := by
  have both : m.core.source.isEmpty = source.isEmpty ∧
      (m.traced = true → P m.trace.toList m.state m.fault) := by
    clear traced
    refine r.induct (P := fun m => m.core.source.isEmpty = source.isEmpty ∧
      (m.traced = true → P m.trace.toList m.state m.fault)) ?_ ?_
    case refine_1 => exact fun _ _ => ⟨rfl, fun _ => fresh⟩
    case refine_2 =>
      intro m m' h ⟨same, kept⟩ c
      refine ⟨(c.isEmpty_source h).trans same, fun traced => ?_⟩
      rcases c.shown with ⟨_, _, out⟩ | ⟨_, _, t⟩ | ⟨running, out⟩ | silent
      · obtain ⟨rfl, _⟩ := h
        exact out ▸ fresh
      · have ⟨later, trace, flag, fault⟩ := tick_shown h t
        rw [trace, fault]
        exact wait later (kept (flag ▸ traced))
      · cases c : m.cycle with
        | ok e m'' =>
          rw [c] at out
          subst out
          have l := cycle_leaves h c
          have traced : m.traced = true := l.traced ▸ traced
          exact l.trace_concat traced ▸ cycle h traced running l (kept traced)
        | error failure m'' =>
          have ⟨advanced, _⟩ := cycle_error h c
          rw [out, c, advanced] at traced ⊢
          exact undrawn h (same ▸ isEmpty_of_cycle_error h c) (kept traced)
      · rw [silent.trace, silent.state, silent.fault]
        exact kept (silent.traced ▸ traced)
  exact both.2 traced

-- The faults in a trace are those of instructions.
theorem Reachable.isBare (r : m.Reachable config source) (traced : m.traced = true) :
    ∀ e ∈ m.trace.toList, ∀ f ∈ e.fault, f.isBare = true := by
  apply r.induct_trace (P := fun entries _ _ => ∀ e ∈ entries, ∀ f ∈ e.fault, f.isBare = true) traced
  case fresh => exact List.forall_mem_nil _
  case wait => exact fun _ bare => bare
  case cycle =>
    intro m m' e _ _ _ l bare
    exact List.forall_mem_append.mpr ⟨bare, List.forall_mem_singleton.mpr l.isBare⟩
  case undrawn => exact fun _ _ bare => bare

-- A traced machine later on, with the entries of the steps in between behind those that it had.
structure Appends (m m' : Machine) (made : List Made) : Prop where
  traced : m'.traced = true
  trace : m'.trace.toList = m.trace.toList ++ made.map Made.entry

namespace Appends

theorem same (trace : m'.trace = m.trace) (flag : m'.traced = m.traced) (traced : m.traced = true) :
    m.Appends m' [] :=
  ⟨flag.trans traced, by rw [trace, List.map_nil, List.append_nil]⟩

theorem refl (traced : m.traced = true) : m.Appends m [] :=
  same rfl rfl traced

theorem trans {m'' : Machine} {made made' : List Made} (a : m.Appends m' made) (a' : m'.Appends m'' made') :
    m.Appends m'' (made ++ made') :=
  ⟨a'.traced, by rw [a'.trace, a.trace, List.map_append, List.append_assoc]⟩

theorem stepped (h : m.Sound config) (traced : m.traced = true) (now : Float) :
    m.Appends (m.stepped now) (Made.of? m now).toList := by
  cases step : m.step now with
  | ok e m' =>
    obtain ⟨_, _, _, t, c⟩ := step_ok step
    obtain ⟨_, trace, flag, _⟩ := tick_shown h t
    have l := cycle_leaves (h.tick t) c
    have traced := flag.trans traced
    rw [Machine.stepped, step, Made.of?_ok step, left]
    exact ⟨l.traced.trans traced, trace ▸ l.trace_concat traced⟩
  | error failure m' =>
    rw [Made.of?_error step]
    cases m.stepped_cases now with
    | inl idle => exact idle.symm ▸ refl traced
    | inr made =>
      obtain ⟨running, _, _, t, _⟩ := made
      obtain ⟨_, trace, flag, _⟩ := tick_shown h t
      obtain ⟨out, _⟩ := cycle_error (h.tick t) ((step_of_tick running t).symm.trans step)
      rw [Machine.stepped, step, left, out]
      exact same trace flag traced

theorem afterCalls (h : m.Sound config) (traced : m.traced = true) (goesOn : ∀ p ∈ history, p.2.isReset = false) :
    m.Appends (m.afterCalls history) (m.made history) := by
  have both := afterCalls_follows (P := fun past m' => m'.Sound config ∧ m.Appends m' past)
    (C := fun call => call.isReset = false) [] ?_ ?_ ?_ ⟨h, refl traced⟩ goesOn
  case refine_1 =>
    intro past m' now s ⟨sound, a⟩ made
    have here := stepped sound a.traced now
    rw [made, ← Made.left_eq made] at here
    exact ⟨Made.left_eq made ▸ (changes_step m' now).sound sound, a.trans here⟩
  case refine_2 =>
    intro past m' now ⟨sound, a⟩ unmade
    have here := stepped sound a.traced now
    rw [unmade] at here
    exact ⟨(changes_step m' now).sound sound, List.append_nil past ▸ a.trans here⟩
  case refine_3 =>
    intro past m' m'' now call first ⟨sound, a⟩ alters
    have retains := alters.retains first
    exact ⟨alters.change.sound sound, retains.traced.trans a.traced, retains.trace ▸ a.trace⟩
  exact both.2

end Appends

-- A traced machine that has just been set up or reset.
inductive Fresh (config : Config) (source : Source) : Machine → Prop
  | new (now : Float) : Fresh config source (.new config source true now)
  | reset {m : Machine} (clearMemory : Bool) (now : Float) : m.Reachable config source → m.traced = true →
    Fresh config source (m.reset clearMemory now)

theorem Fresh.reachable : m.Fresh config source → m.Reachable config source
  | new now => .new true now
  | reset clearMemory now r _ => r.call now (.reset clearMemory)

theorem Fresh.traced : m.Fresh config source → m.traced = true
  | new _ => rfl
  | reset _ _ _ traced => traced

theorem Fresh.trace : m.Fresh config source → m.trace = #[]
  | new _ => rfl
  | reset .. => rfl

end Machine

namespace Trace

variable {config : Config} {entries : List Entry} {s s' : State} {fault : Option Fault} {m m' : Machine} {e : Entry}

-- The last entry alone may be at fault, and the processor has halted exactly if it is.
structure Ends (entries : List Entry) (s : State) (fault : Option Fault) : Prop where
  early : ∀ e ∈ entries.dropLast, e.fault = none
  last : entries.getLast?.bind Entry.fault = fault
  halts : s.halted = fault.isSome

theorem Ends.running (ends : Ends entries s fault) (running : s.halted = false) :
    fault = none ∧ ∀ e ∈ entries, e.fault = none := by
  have sane : fault = none := by simpa [running] using ends.halts
  refine ⟨sane, fun e mem => ?_⟩
  cases List.eq_nil_or_concat entries with
  | inl empty => simp [empty] at mem
  | inr last =>
    have ⟨before, final, out⟩ := last
    have early := ends.early
    have last := ends.last.trans sane
    simp [out] at mem early last
    exact mem.elim (early e) (· ▸ last)

theorem Ends.concat (ends : Ends entries m.state m.fault) (running : m.halted = false) (l : m.Leaves e m') :
    Ends (entries ++ [e]) m'.state m'.fault := by
  have ⟨sane, faultless⟩ := ends.running running
  have fault : m'.fault = e.fault := by rw [l.fault, sane, Option.or_none]
  have halts : m'.halted = e.fault.isSome := by rw [l.halted, running, Bool.or_false]
  refine ⟨?_, ?_, fault ▸ halts⟩
  · rwa [List.dropLast_concat]
  · rw [List.getLast?_concat, fault]
    rfl

theorem Ends.fault_of_lt (ends : Ends entries s fault) {j k : Nat} {e' : Entry} (lt : j < k)
    (place : entries[j]? = some e) (later : entries[k]? = some e') : e.fault = none := by
  have ⟨inside, _⟩ := List.getElem?_eq_some_iff.mp later
  have early : entries.dropLast[j]? = some e := by rw [List.getElem?_dropLast, if_pos (by omega), place]
  exact ends.early e (List.mem_of_getElem? early)

-- The number of an entry is how many entries there are up to it, less one if it is at fault.
structure Numbered (entries : List Entry) (s : State) : Prop where
  count : (entries.length : Int) = s.cycles + if s.halted then 1 else 0
  number : ∀ (k : Nat) e, entries[k]? = some e → e.cycle = if e.fault.isNone then k + 1 else k

theorem Numbered.concat (n : Numbered entries m.state) (running : m.halted = false) (l : m.Leaves e m') :
    Numbered (entries ++ [e]) m'.state := by
  have before : m.state.halted = false := running
  have halted : m'.state.halted = (e.fault.isSome || m.state.halted) := l.halted
  have count : (entries.length : Int) = m.state.cycles := by simpa [before] using n.count
  have cycles := l.cycles
  refine ⟨?_, fun k e' place => ?_⟩
  · rw [halted, before]
    cases fault : e.fault <;> simp [fault] at cycles ⊢ <;> omega
  · rw [List.getElem?_append, List.getElem?_singleton] at place
    split at place
    case isTrue => exact n.number k e' place
    case isFalse beyond =>
      split at place
      case isTrue =>
        cases place
        have last : k = entries.length := by omega
        have ⟨cycle, _, _⟩ := l.seen
        rw [cycle, cycles, ← count, last]
        split <;> simp
      case isFalse => cases place

-- Entries with the same number: one without fault and the one at fault behind it.
theorem Numbered.same_iff (n : Numbered entries s) (ends : Ends entries s fault) {j k : Nat} {e' : Entry} (lt : j < k)
    (place : entries[j]? = some e) (later : entries[k]? = some e') :
    e.cycle = e'.cycle ↔ j + 1 = k ∧ e'.fault.isSome = true := by
  have sane := ends.fault_of_lt lt place later
  rw [n.number j e place, n.number k e' later, sane]
  cases e'.fault <;> simp <;> omega

-- What an entry tells of its step.
structure Tells (config : Config) (e : Entry) : Prop where
  states : ∃ before after, e.before = some before ∧ e.after = some after ∧ before.pc = e.pc ∧
    after.cycles = before.cycles + if e.fault.isNone then 1 else 0
  text : e.Fetches config → e.mnemonic = disassemble e.opcode
  blank : e.opcode = 0 ∧ e.key = Operation.unnamed ∧ e.mnemonic = "" ↔ ¬ e.Fetches config
  fault : ¬ e.Fetches config → e.fault = some (Core.outside config e.pc)

-- The step of an entry began in the state that the one before it left, or in that state some time later.
def Precedes (e e' : Entry) : Prop :=
  ∃ after before, e.after = some after ∧ e'.before = some before ∧ after.Later before

-- The entries tell how the processor has come to its state, from the first one to the last.
structure Faithful (config : Config) (entries : List Entry) (s : State) (fault : Option Fault) : Prop
    extends Ends entries s fault where
  tells : ∀ e ∈ entries, Tells config e
  goesOn : entries.IsChain Precedes
  current : ∀ e ∈ entries.getLast?, ∃ after, e.after = some after ∧ after.Later s

theorem tells_of_leaves (h : m.Sound config) (traced : m.traced = true) (l : m.Leaves e m') : Tells config e := by
  obtain ⟨_, pc, fetched⟩ := l.seen
  obtain ⟨before, after⟩ := l.states traced
  have fetches : e.Fetches config ↔ m.core.Fetches config := by rw [Entry.Fetches, pc]; rfl
  refine ⟨⟨_, _, before, after, pc.symm, l.cycles⟩, ?_, ?_, ?_⟩
  · intro reads
    rw [Entry.mnemonic, Entry.opcode, fetched, Core.word?_of_fetches h.core (fetches.mp reads)]
    rfl
  · constructor
    case mp =>
      rintro ⟨_, _, blank⟩ reads
      rw [Entry.mnemonic, fetched, Core.word?_of_fetches h.core (fetches.mp reads)] at blank
      exact Listing.disassemble_ne_empty _ blank
    case mpr =>
      intro short
      rw [Entry.opcode, Entry.key, Entry.operation?, Entry.mnemonic, fetched,
        Core.word?_of_not_fetches h.core (mt fetches.mpr short)]
      exact ⟨rfl, rfl, rfl⟩
  · intro short
    obtain ⟨strict, outside⟩ := Classical.not_imp.mp (mt fetches.mpr short)
    have fails : m.core.failure? = some (.fault (Core.outside config m.state.pc)) :=
      Core.failure?_of_due h.core (.fetch strict (Int.not_lt.mp outside))
    rw [l.failure] at fails
    obtain ⟨f, fault, out⟩ := Option.map_eq_some_iff.mp fails
    rw [fault, pc, Failure.fault.inj out]

theorem Faithful.concat (f : Faithful config entries m.state m.fault) (h : m.Sound config) (traced : m.traced = true)
    (running : m.halted = false) (l : m.Leaves e m') : Faithful config (entries ++ [e]) m'.state m'.fault := by
  have ⟨before, after⟩ := l.states traced
  refine { f.toEnds.concat running l with tells := ?_, goesOn := ?_, current := ?_ }
  · exact List.forall_mem_append.mpr ⟨f.tells, List.forall_mem_singleton.mpr (tells_of_leaves h traced l)⟩
  · refine List.isChain_append.mpr ⟨f.goesOn, .singleton e, fun last mem first same => ?_⟩
    cases same
    have ⟨left, out, later⟩ := f.current last mem
    exact ⟨left, m.state, out, before, later⟩
  · rw [List.getLast?_concat]
    intro last same
    cases same
    exact ⟨m'.state, after, .refl _⟩

end Trace

namespace Machine.Reachable

variable {config : Config} {source : Source} {m : Machine}

theorem ends (r : m.Reachable config source) (traced : m.traced = true) :
    Trace.Ends m.trace.toList m.state m.fault := by
  apply r.induct_trace traced
  case fresh => exact ⟨List.forall_mem_nil _, rfl, rfl⟩
  case wait =>
    intro entries s s' fault later ends
    exact { ends with halts := later.same.1.trans ends.halts }
  case cycle =>
    intro m m' e _ _ running l ends
    exact ends.concat running l
  case undrawn =>
    intro m _ _ ends
    exact { ends with halts := m.advanced_progress.1.trans ends.halts }

theorem numbered (r : m.Reachable config source) (traced : m.traced = true) :
    Trace.Numbered m.trace.toList m.state := by
  apply r.induct_trace (P := fun entries s _ => Trace.Numbered entries s) traced
  case fresh => exact ⟨rfl, by simp⟩
  case wait =>
    intro entries s s' fault later n
    have ⟨halted, cycles⟩ := later.same
    exact { n with count := by rw [n.count, halted, cycles] }
  case cycle =>
    intro m m' e _ _ running l n
    exact n.concat running l
  case undrawn =>
    intro m _ _ n
    have ⟨halted, cycles⟩ := m.advanced_progress
    exact { n with count := by rw [n.count, halted, cycles] }

theorem faithful (r : m.Reachable config source) (traced : m.traced = true) (draws : source.isEmpty = false) :
    Trace.Faithful config m.trace.toList m.state m.fault := by
  apply r.induct_trace traced
  case fresh => exact ⟨⟨List.forall_mem_nil _, rfl, rfl⟩, List.forall_mem_nil _, .nil, by simp⟩
  case wait =>
    intro entries s s' fault later f
    refine { f with halts := later.same.1.trans f.halts, current := fun e last => ?_ }
    have ⟨after, out, l⟩ := f.current e last
    exact ⟨after, out, l.trans later⟩
  case cycle =>
    intro m m' e h traced running l f
    exact f.concat h traced running l
  case undrawn =>
    intro m _ empty
    rw [draws] at empty
    cases empty

end Machine.Reachable

namespace Machine

variable {config : Config} {source : Source} {m : Machine} {history : List (Float × Call)}

-- The entries of a trace are numbered from one on, as a cycle is counted before its entry is made. The entry at fault
-- is of no cycle that counts, and it has the number of the entry before it.
theorem trace_numbered (r : m.Reachable config source) (traced : m.traced = true) :
    (∀ (k : Nat) e, m.trace[k]? = some e → e.cycle = if e.fault.isNone then k + 1 else k) ∧
    ∀ (j k : Nat) e e', j < k → m.trace[j]? = some e → m.trace[k]? = some e' →
      (e.cycle = e'.cycle ↔ j + 1 = k ∧ e'.fault.isSome = true) := by
  have n := r.numbered traced
  have ends := r.ends traced
  simp only [← Array.getElem?_toList]
  exact ⟨n.number, fun j k e e' => n.same_iff ends⟩

-- A machine that has made a step without fault and then one at fault.
def failing : Machine :=
  (Machine.new (.small .strict) .zeros true 0).afterCalls
    [(0, .load [0x60, 0x05, 0x00, 0x00] none), (0, .step), (0, .step)]

theorem failing_reachable : failing.Reachable (.small .strict) .zeros :=
  (Reachable.new true 0).calls _

theorem failing_renumbers : ∃ e e', failing.trace[0]? = some e ∧ failing.trace[1]? = some e' ∧ e.cycle = e'.cycle := by
  have two : 1 < failing.trace.size := by decide +kernel
  have fault : ∀ e ∈ failing.trace[1]?, e.fault.isSome = true := by decide +kernel
  have place := Array.getElem?_eq_getElem (Nat.lt_of_succ_lt two)
  have later := Array.getElem?_eq_getElem two
  have ⟨_, same⟩ := trace_numbered failing_reachable (by decide +kernel)
  exact ⟨_, _, place, later, (same 0 1 _ _ Nat.zero_lt_one place later).mpr ⟨rfl, fault _ later⟩⟩

theorem failing_misnumbered : failing.Reachable (.small .strict) .zeros ∧ failing.traced = true ∧
    failing.trace.toList.map Entry.cycle = [1, 1] :=
  ⟨failing_reachable, by decide +kernel, by decide +kernel⟩

-- From the time that a traced machine was set up or reset, its trace has one entry for each step that left one, and
-- the entries tell faithfully how it has come to its state.
theorem trace_faithful (fresh : m.Fresh config source) (draws : source.isEmpty = false)
    (goesOn : ∀ p ∈ history, p.2.isReset = false) :
    (m.afterCalls history).trace.toList = (m.made history).map Made.entry ∧
      Trace.Faithful config (m.afterCalls history).trace.toList (m.afterCalls history).state
        (m.afterCalls history).fault := by
  have r := fresh.reachable
  have appends := Appends.afterCalls r.sound fresh.traced goesOn
  have trace := appends.trace
  rw [fresh.trace] at trace
  exact ⟨trace, (r.calls history).faithful appends.traced draws⟩

-- A machine that waits for a key, runs on when it is given one and ends on a word that it does not know.
theorem waiting_faithful :
    let m := Machine.new (.small .wrap) .zeros true 0
    let history := [(0, .load [0x60, 0x3c, 0xf0, 0x15, 0xf1, 0x0a, 0xff, 0xff] none), (0, .run (some 3)), (1, .tick),
      (1, .setKey 7 true), (2, .step), (3, .run (some 8)), (4, .step)]
    (∀ p ∈ history, p.2.isReset = false) ∧ (m.afterCalls history).trace.size = 5 ∧
      Trace.Faithful (.small .wrap) (m.afterCalls history).trace.toList (m.afterCalls history).state
        (m.afterCalls history).fault := by
  intro m history
  have goesOn : ∀ p ∈ history, p.2.isReset = false := by decide
  have fresh : m.Fresh (.small .wrap) .zeros := .new 0
  have size : (m.afterCalls history).trace.size = 5 := by decide +kernel
  have ⟨_, faithful⟩ := trace_faithful fresh rfl goesOn
  exact ⟨goesOn, size, faithful⟩

end Machine
end Chip8
