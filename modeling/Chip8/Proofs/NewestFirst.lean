import Chip8.Proofs.Trace
import Chip8.Workbench

namespace Chip8

namespace Machine

variable {config : Config} {source : Source} {m m' : Machine} {past : List Made} {now : Float}

theorem Course.reachable (c : Course config source past m) : m.Reachable config source := by
  induction c with
  | new traced now => exact .new traced now
  | call now call _ ih => exact ih.call now call
  | start _ s ih => exact ih.start s
  | turn now party _ ih => exact ih.turn now party

-- A trace keeps the entries of the latest steps, in the order in which the steps were made.
structure Keeps (config : Config) (past : List Made) (m : Machine) : Prop where
  sound : m.Sound config
  trace : m.traced = true → m.trace.toList <:+ past.map Made.entry

namespace Keeps

theorem stepped (k : Keeps config past m) (now : Float) :
    Keeps config (past ++ (Made.of? m now).toList) (m.stepped now) where
  sound := (changes_step m now).sound k.sound
  trace traced := by
    rw [traced_stepped k.sound] at traced
    rw [(Appends.stepped k.sound traced now).trace, List.map_append]
    exact List.suffix_append_self_iff.mpr (k.trace traced)

theorem alters {call : Call} (k : Keeps config past m) (a : m.Alters now call m') : Keeps config past m' where
  sound := a.change.sound k.sound
  trace traced := by
    cases reset : call.isReset with
    | true =>
      cases a <;> cases reset
      exact List.nil_suffix
    | false =>
      have retains := a.retains reset
      rw [retains.trace]
      exact k.trace (retains.traced ▸ traced)

end Keeps

theorem Course.keeps (c : Course config source past m) : Keeps config past m := by
  refine c.follows ?_ ?_ ?_ ?_ ?_
  case refine_1 => exact fun traced now => ⟨.new config source traced now, fun _ => List.nil_suffix⟩
  case refine_2 =>
    intro past m now s k made
    have here := k.stepped now
    rwa [made, ← Made.left_eq made] at here
  case refine_3 =>
    intro past m now k unmade
    have here := k.stepped now
    rwa [unmade, Option.toList_none, List.append_nil] at here
  case refine_4 => exact fun k a => k.alters a
  case refine_5 => exact fun _ _ k => ⟨⟨k.sound.config_eq, k.sound.core⟩, k.trace⟩

end Machine

-- From the newest one on, the first entry alone may be at fault.
theorem Trace.Ends.newest_iff {entries : List Entry} {s : State} {fault : Option Fault} (ends : Ends entries s fault)
    (j : Nat) : (∃ e ∈ entries.reverse[j]?, e.fault.isSome = true) ↔
      j = 0 ∧ (entries.getLast?.bind Entry.fault).isSome = true := by
  obtain rfl | ⟨before, last, rfl⟩ := List.eq_nil_or_concat entries
  case inl => simp
  case inr =>
    have early := ends.early
    rw [List.concat_eq_append] at early ⊢
    rw [List.dropLast_concat] at early
    rw [List.reverse_concat, List.getLast?_concat]
    cases j with
    | zero => simp
    | succ j =>
      refine iff_of_false ?_ nofun
      rintro ⟨e, place, fault⟩
      have mem : e ∈ before := List.mem_reverse.mp (List.mem_of_getElem? place)
      rw [early e mem] at fault
      cases fault

namespace Workbench

def heading : List String :=
  ["EXECUTION TRACE (latest first)", rule '=' 60]

-- A line with the mark of a fault somewhere in it.
def Marked (line : String) : Prop :=
  "ERROR: ".toList <:+: line.toList

-- A text that shows the newest entries of a trace up to a limit, and marks a fault.
structure ShowsNewest (m : Machine) (limit : Int) (text : String) : Prop where
  lines : Text.linesOf text = heading ++ (m.trace.toList.reverse.take limit.toNat).map entryText
  count : (Text.linesOf text).length = heading.length + min limit.toNat m.trace.size
  marks : ∀ k : Nat, (∃ line ∈ (Text.linesOf text)[k]?, Marked line) ↔
    k = heading.length ∧ 0 < limit ∧ (m.trace.back?.bind Entry.fault).isSome = true
  -- Behind the mark stands what the fault says.
  tells : ∀ f ∈ m.trace.back?.bind Entry.fault, ∀ line ∈ (Text.linesOf text)[heading.length]?,
    ("ERROR: " ++ f.message).toList <:+ line.toList

-- The line of an entry as far as it tells of no fault.
def faultless (e : Entry) : String :=
  s!"[{Text.flushRight 5 e.cycle}] {Text.hex 3 e.pc}: {Text.hex 4 e.opcode.toNat}  {e.mnemonic}"

variable {config : Config} {source : Source} {m : Machine} {past : List Machine.Made} {e : Entry} {limit : Int}
  {line : String}

theorem entryText_eq (e : Entry) :
    entryText e = faultless e ++ (e.fault.map fun f => "  ERROR: " ++ f.message).getD "" :=
  rfl

theorem lacks_newline_faultless (e : Entry) : Text.Lacks '\n' (faultless e) := by
  have cycle : Text.Lacks '\n' (Text.flushRight 5 e.cycle) := .flushRight Text.newline_not_mem 5 _
  have pc : Text.Lacks '\n' (Text.hex 3 e.pc) := .hex Text.newline_not_mem 3 _
  have word : Text.Lacks '\n' (Text.hex 4 e.opcode.toNat) := .hex Text.newline_not_mem 4 _
  have head : Text.Lacks '\n' ("[" ++ Text.flushRight 5 e.cycle ++ "] " ++ Text.hex 3 e.pc ++ ": ") :=
    ((((Text.Lacks.append (by decide) cycle).append (by decide)).append pc).append (by decide))
  exact ((head.append word).append (by decide)).append e.lacks_newline_mnemonic

theorem lacks_newline_entryText (bare : ∀ f ∈ e.fault, f.isBare = true) : Text.Lacks '\n' (entryText e) := by
  rw [entryText_eq]
  refine (lacks_newline_faultless e).append ?_
  cases fault : e.fault with
  | none => decide
  | some f => exact .append (by decide) (Fault.lacks_newline (bare f fault))

theorem count_mnemonic_le (e : Entry) : e.mnemonic.toList.count 'R' ≤ 1 := by
  have few : ∀ o ∈ Listing.meanings, (Listing.template o).toList.count 'R' ≤ 1 := by decide +kernel
  rw [Entry.mnemonic]
  cases e.fetched with
  | none => decide
  | some w =>
    rw [Option.map_some, Option.getD_some, Listing.count_disassemble w (by decide) (by decide)]
    exact few _ (Listing.mem_meanings _)

theorem count_faultless_le (e : Entry) : (faultless e).toList.count 'R' ≤ 1 := by
  have none {text : String} (lacks : Text.Lacks 'R' text) : text.toList.count 'R' = 0 := List.count_eq_zero.mpr lacks
  have cycle := none (.flushRight (by decide) 5 e.cycle)
  have pc := none (.hex (by decide) 3 e.pc)
  have word := none (.hex (by decide) 4 e.opcode.toNat)
  have text : faultless e = "[" ++ Text.flushRight 5 e.cycle ++ "] " ++ Text.hex 3 e.pc ++ ": " ++
    Text.hex 4 e.opcode.toNat ++ "  " ++ e.mnemonic := rfl
  rw [text]
  simpa [String.toList_append, List.count_append, cycle, pc, word] using count_mnemonic_le e

-- The mark has more letters R than any line without it.
theorem not_marked (few : line.toList.count 'R' ≤ 1) : ¬ Marked line := by
  intro marked
  have many : 3 ≤ line.toList.count 'R' := marked.sublist.count_le 'R'
  omega

theorem marked_entryText_iff (e : Entry) : Marked (entryText e) ↔ e.fault.isSome = true := by
  rw [entryText_eq]
  cases fault : e.fault with
  | none =>
    refine iff_of_false (not_marked ?_) nofun
    simpa using count_faultless_le e
  | some f =>
    refine iff_of_true ⟨(faultless e ++ "  ").toList, f.message.toList, ?_⟩ rfl
    simp [String.toList_append]

theorem newest_eq (trace : Array Entry) (limit : Int) (some : 0 < limit) :
    (newest trace limit).reverse = trace.toList.reverse.take limit.toNat := by
  have cut : Position.cut trace.size (-limit) = trace.toList.length - limit.toNat := by
    rw [Position.cut, if_pos (by omega), Array.length_toList]
    omega
  rw [newest, cut, List.take_reverse, Array.toList_extract, List.extract_eq_take_drop,
    List.take_of_length_le (by rw [List.length_drop, Array.length_toList])]

theorem newest_zero (trace : Array Entry) : newest trace 0 = trace.toList := by
  have cut : Position.cut trace.size (-0) = 0 := by simp [Position.cut]
  rw [newest, cut, Array.extract_size]

theorem linesOf_traceText (r : m.Reachable config source) (traced : m.traced = true) (limit : Int) :
    Text.linesOf (traceText m limit) = heading ++ (newest m.trace limit).reverse.map entryText := by
  refine Text.linesOf_intercalate (by simp) (List.forall_mem_append.mpr ⟨by decide, ?_⟩)
  intro line mem
  obtain ⟨e, shown, rfl⟩ := List.mem_map.mp mem
  have kept : e ∈ m.trace.toList := by
    rw [List.mem_reverse, newest, Array.toList_extract, List.extract_eq_take_drop] at shown
    exact List.mem_of_mem_drop (List.mem_of_mem_take shown)
  exact lacks_newline_entryText (r.isBare traced e kept)

theorem marks_iff (r : m.Reachable config source) (traced : m.traced = true) (n k : Nat) :
    (∃ line ∈ (heading ++ (m.trace.toList.reverse.take n).map entryText)[k]?, Marked line) ↔
      k = heading.length ∧ 0 < n ∧ (m.trace.back?.bind Entry.fault).isSome = true := by
  have plain : ∀ line ∈ heading, ¬ Marked line := by
    have few : ∀ line ∈ heading, line.toList.count 'R' ≤ 1 := by decide
    exact fun line mem => not_marked (few line mem)
  by_cases inside : k < heading.length
  case pos =>
    refine iff_of_false ?_ fun ⟨here, _⟩ => Nat.ne_of_lt inside here
    rintro ⟨line, place, marked⟩
    rw [List.getElem?_append_left inside] at place
    exact plain line (List.mem_of_getElem? place) marked
  case neg =>
    obtain ⟨j, rfl⟩ := Nat.exists_eq_add_of_le (Nat.le_of_not_lt inside)
    have newest := (r.ends traced).newest_iff j
    have shown : (∃ line ∈ ((m.trace.toList.reverse.take n)[j]?).map entryText, Marked line) ↔
        ∃ e ∈ (m.trace.toList.reverse.take n)[j]?, e.fault.isSome = true := by
      simp [marked_entryText_iff]
    rw [Array.getLast?_toList] at newest
    rw [List.getElem?_append_right (Nat.le_add_right ..), Nat.add_sub_cancel_left, List.getElem?_map, shown,
      List.getElem?_take]
    by_cases within : j < n
    case pos =>
      rw [if_pos within, newest]
      constructor
      · rintro ⟨rfl, fault⟩
        exact ⟨rfl, within, fault⟩
      · rintro ⟨here, _, fault⟩
        exact ⟨by omega, fault⟩
    case neg =>
      rw [if_neg within]
      refine iff_of_false (by simp) ?_
      rintro ⟨here, some, _⟩
      omega

theorem tells_of_newest {n : Nat} {f : Fault} (fault : m.trace.back?.bind Entry.fault = some f)
    (place : (heading ++ (m.trace.toList.reverse.take n).map entryText)[heading.length]? = some line) :
    ("ERROR: " ++ f.message).toList <:+ line.toList := by
  obtain ⟨e, newest, fault⟩ := Option.bind_eq_some_iff.mp fault
  rw [List.getElem?_append_right (Nat.le_refl _), Nat.sub_self, List.getElem?_map] at place
  obtain ⟨e', first, rfl⟩ := Option.map_eq_some_iff.mp place
  have same : e' = e := by
    rw [List.getElem?_take] at first
    split at first
    case isTrue =>
      rw [← List.head?_eq_getElem?, List.head?_reverse, Array.getLast?_toList, newest] at first
      exact (Option.some.inj first).symm
    case isFalse => cases first
  refine ⟨(faultless e' ++ "  ").toList, ?_⟩
  rw [entryText_eq, same, fault]
  simp [String.toList_append]

-- A trace is shown as it should be unless the limit is zero, and then it is shown whole.
theorem newest_first_iff (c : Machine.Course config source past m) (traced : m.traced = true) (nonneg : 0 ≤ limit) :
    m.trace.toList <:+ past.map Machine.Made.entry ∧
    (ShowsNewest m limit (traceText m limit) ↔ (limit = 0 → m.trace.size = 0)) ∧
    Text.linesOf (traceText m 0) = heading ++ m.trace.toList.reverse.map entryText := by
  have r := c.reachable
  have whole : Text.linesOf (traceText m 0) = heading ++ m.trace.toList.reverse.map entryText := by
    rw [linesOf_traceText r traced, newest_zero]
  refine ⟨c.keeps.trace traced, ⟨?_, ?_⟩, whole⟩
  case refine_1 =>
    rintro shows rfl
    have count := shows.count
    rw [whole] at count
    simpa using count
  case refine_2 =>
    intro some
    have lines : Text.linesOf (traceText m limit) =
        heading ++ (m.trace.toList.reverse.take limit.toNat).map entryText := by
      obtain rfl | positive := nonneg.eq_or_lt
      case inl =>
        have empty : m.trace.toList = [] := List.eq_nil_of_length_eq_zero (some rfl)
        rw [whole, empty]
        rfl
      case inr => rw [linesOf_traceText r traced, newest_eq m.trace limit positive]
    refine ⟨lines, ?_, fun k => ?_, fun f fault line place => ?_⟩
    · rw [lines, List.length_append, List.length_map, List.length_take, List.length_reverse, m.trace.length_toList]
    · rw [lines, marks_iff r traced]
      simp
    · rw [lines] at place
      exact tells_of_newest fault place

-- Of two entries the newer one, at fault, is shown alone.
theorem failing_shown : ∃ past, Machine.Course (.small .strict) .zeros past .failing ∧
    Machine.failing.traced = true ∧ Machine.failing.trace.size = 2 ∧
    ShowsNewest .failing 1 (traceText .failing 1) := by
  have course : Machine.Course (.small .strict) .zeros _ .failing :=
    .ofCalls true 0 [(0, .load [0x60, 0x05, 0x00, 0x00] none), (0, .step), (0, .step)]
  have traced : Machine.failing.traced = true := by decide +kernel
  have ⟨_, shows, _⟩ := newest_first_iff course traced (by decide : 0 ≤ (1 : Int))
  exact ⟨_, course, traced, by decide +kernel, shows.mpr nofun⟩

-- Shown up to none, they are both shown.
theorem failing_shown_whole : Machine.failing.Reachable (.small .strict) .zeros ∧
    Machine.failing.traced = true ∧ ¬ ShowsNewest .failing 0 (traceText .failing 0) := by
  have traced : Machine.failing.traced = true := by decide +kernel
  have size : Machine.failing.trace.size = 2 := by decide +kernel
  refine ⟨Machine.failing_reachable, traced, fun shows => ?_⟩
  have count := shows.count
  rw [linesOf_traceText Machine.failing_reachable traced, newest_zero] at count
  simp [size] at count

end Workbench
end Chip8
