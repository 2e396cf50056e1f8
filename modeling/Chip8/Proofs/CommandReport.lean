import Chip8.Proofs.Folder
import Chip8.Proofs.Printing
import Chip8.Proofs.SourceLoading
import Chip8.Proofs.StillClock

namespace Chip8

open Text (Lacks linesOf)

namespace CommandLine

-- The configuration that options ask for.
def config (o : Options) : Config :=
  { Config.standard (o.shiftSource.getD .vx) 0 with
    addressMode := o.addressMode.getD .strict
    advancesIndex := !o.noIndexIncrement
    seed := match o.seed with
      | .number n => some n
      | _ => none }

-- The machine that is set up for a program, with the program in its memory.
def loaded (o : Options) (image : List UInt8) (now : Float) (unseeded : Source) : Machine :=
  (Machine.new (config o) (unseeded.seeded (config o).seed) o.trace now).afterCall now
    (.load (image.map fun b => (b.toNat : Int)) none)

-- Arguments that ask for a run of a program, and leave no option blank.
structure Asks (arguments : List String) (folder : Folder) (o : Options) (image : List UInt8) (limit : Int)
    (rate : Float) : Prop where
  parsed : parse arguments = .ok o
  program : folder.read o.program = .ok image
  runs : o.disassemble = false
  steps : o.steps = some limit
  ips : o.ips = some rate
  shiftSource : o.shiftSource.isSome = true
  addressMode : o.addressMode.isSome = true
  seed : o.seed ≠ .blank

variable {arguments : List String} {folder : Folder} {o : Options} {image : List UInt8} {limit : Int} {r now : Float}
  {unseeded : Source} {fault : Option Fault} {cycles : Nat} {m last : Machine} {line : String}

theorem check_settings (source : o.shiftSource.isSome = true) (mode : o.addressMode.isSome = true) :
    (settings o).check = .ok (config o) := by
  obtain ⟨source, hs⟩ := Option.isSome_iff_exists.mp source
  obtain ⟨mode, hm⟩ := Option.isSome_iff_exists.mp mode
  have same : settings o = (config o).settings := by
    simp only [settings, config, Config.settings, Config.standard, choice, hs, hm]
    rfl
  rw [same, Config.check_settings]

section

variable (o : Options) (image : List UInt8) (now : Float) (unseeded : Source)

theorem reachable_loaded :
    (loaded o image now unseeded).Reachable (config o) (unseeded.seeded (config o).seed) :=
  (Machine.Reachable.new o.trace now).call now _

theorem load_new : (Machine.new (config o) (unseeded.seeded (config o).seed) o.trace now).load
    (image.map fun b => (b.toNat : Int)) none = .ok (loaded o image now unseeded) := by
  have load := Machine.load_bytes (.new (config o) (unseeded.seeded (config o).seed) o.trace now) image
  rw [loaded, Machine.afterCall, Machine.answer, load]

-- Apart from its memory the machine is new.
theorem loaded_fresh : let m := loaded o image now unseeded
    m.state = .initial 0x200 16 ∧ m.metronome = ⟨1.0 / 60.0, now⟩ ∧ m.looping = false ∧ m.loopFault = none ∧
      m.traced = o.trace := by
  obtain ⟨_, _, _, _, out⟩ := Machine.load_ok (load_new o image now unseeded)
  rw [out]
  exact ⟨rfl, rfl, rfl, rfl, rfl⟩

theorem loaded_running : (loaded o image now unseeded).halted = false :=
  congrArg State.halted (loaded_fresh o image now unseeded).1

end

theorem timeless_loaded (reading : (Double.ofFloat now).isFinite = true) :
    (loaded o image now unseeded).Timeless now := by
  obtain ⟨_, beat, _⟩ := loaded_fresh o image now unseeded
  have still : Timescale.quotient (now - now) (1.0 / 60.0) = .ok 0 :=
    quotient_still reading (by decide +kernel) (by decide +kernel)
  rw [Machine.Timeless, beat, Metronome.beat]
  exact congrArg (Except.map _) still

-- What is printed once the program has run.
theorem Asks.run_eq (asks : Asks arguments folder o image limit r)
    (executes : execute o now (loaded o image now unseeded) = .ok (fault, m)) :
    ∃ p, run arguments folder now unseeded = .ok p ∧ p.exit = (if m.halted then 1 else 0) ∧
      p.output = report o (loaded o image now unseeded) fault m := by
  have fresh : newMachine o (config o) now unseeded =
      .ok (.new (config o) (unseeded.seeded (config o).seed) o.trace now) := by
    rw [newMachine, if_neg asks.seed]
  simp only [run, asks.parsed, runOptions, asks.program, runFound, asks.runs,
    check_settings asks.shiftSource asks.addressMode, fresh, runImage, load_new, executes, bind, Except.bind,
    Except.mapError]
  exact ⟨_, rfl, rfl, rfl⟩

-- The line on the fault that has ended a run.
def errorLine (f : Fault) : String :=
  "Execution error: " ++ f.message

-- A line that begins as such a line does.
def TellsError (line : String) : Prop :=
  "Execution error: ".toList <+: line.toList

instance (line : String) : Decidable (TellsError line) :=
  inferInstanceAs (Decidable (_ <+: _))

theorem tellsError_errorLine (f : Fault) : TellsError (errorLine f) := by
  have letters : (errorLine f).toList = "Execution error: ".toList ++ f.message.toList := String.toList_append
  rw [TellsError, letters]
  exact List.prefix_append ..

-- A line that neither tells of a fault nor warns.
def Harmless (line : String) : Prop :=
  ¬ TellsError line ∧ line ≠ integrityWarning

theorem Begins.harmless {letters : List Char} (begins : Begins letters line) (sub : letters ⊆ lineLetters)
    (other : 'E' ∉ letters) : Harmless line := by
  refine ⟨?_, (begins.mono sub).ne_warning⟩
  rintro ⟨rest, out⟩
  exact other (begins 'E' (by rw [← out]; rfl))

-- The number of the register that a line such as `VA=16` is about, and its value.
def told? (line : String) : Option (Nat × Int) :=
  match line.toList with
  | 'V' :: digit :: '=' :: value => do return (← Text.hexValue? digit, ← (String.ofList value).toInt?)
  | _ => none

-- The registers that lines tell of, zero where they tell of none.
def registersTold (lines : List String) : List Int :=
  (List.range 16).map fun i => ((lines.filterMap told?).lookup i).getD 0

-- The registers that are not zero, by their numbers.
def nonzero (registers : List Int) : List (Nat × Int) :=
  (registers.zipIdx.filter fun (v, _) => v ≠ 0).map fun (v, i) => (i, v)

-- The line on a register.
def registerLine (i : Nat) (v : Int) : String :=
  s!"{registerName i}={v}"

theorem quietReport_eq (m : Machine) :
    quietReport m = (nonzero m.state.registers).map fun (i, v) => registerLine i v := by
  rw [quietReport, namedRegisters, nonzero, List.filterMap_map, List.map_map]
  induction m.state.registers.zipIdx with
  | nil => rfl
  | cons p rest ih =>
    obtain ⟨v, i⟩ := p
    rw [List.filterMap_cons, List.filter_cons, ih]
    by_cases zero : v = 0 <;> simp [zero, registerLine]

theorem told?_registerLine {i : Nat} (h : i < 16) (v : Int) : told? (registerLine i v) = some (i, v) := by
  have letters : (registerLine i v).toList = 'V' :: Text.upperDigit i :: '=' :: v.repr.toList := by
    simp [registerLine, registerName, toString, Text.toList_hex_digit h]
  rw [told?, letters]
  simp [Text.hexValue?_upperDigit i h, Int.toInt?_repr]

theorem lookup_zipIdx (registers : List Int) (first i : Nat) :
    ((((registers.zipIdx first).filter fun (v, _) => v ≠ 0).map fun (v, i) => (i, v)).lookup i).getD 0 =
      if first ≤ i then registers.getD (i - first) 0 else 0 := by
  induction registers generalizing first with
  | nil => simp
  | cons v rest ih =>
    have later := ih (first + 1)
    rw [List.zipIdx_cons, List.filter_cons]
    by_cases here : i = first
    case pos =>
      subst here
      rw [if_neg (Nat.not_succ_le_self i)] at later
      by_cases zero : v = 0
      · simpa [zero] using later
      · simp [zero]
    case neg =>
      have skips : (i == first) = false := beq_false_of_ne here
      have shifted : (if first ≤ i then (v :: rest).getD (i - first) 0 else 0) =
          if first + 1 ≤ i then rest.getD (i - (first + 1)) 0 else 0 := by
        by_cases after : first + 1 ≤ i
        case pos =>
          obtain ⟨k, rfl⟩ := Nat.exists_eq_add_of_le after
          have place : first + 1 + k - first = k + 1 := by omega
          rw [if_pos after, if_pos (by omega), place, List.getD_cons_succ, Nat.add_sub_cancel_left]
        case neg => rw [if_neg after, if_neg (by omega)]
      rw [shifted, ← later]
      by_cases zero : v = 0
      · simp [zero]
      · simp [zero, List.lookup_cons, skips]

theorem lookup_nonzero (registers : List Int) (i : Nat) :
    ((nonzero registers).lookup i).getD 0 = registers.getD i 0 :=
  (lookup_zipIdx registers 0 i).trans (if_pos (Nat.zero_le i))

theorem registersTold_quietReport {m : Machine} (valid : m.state.Valid) :
    (quietReport m).map told? = (nonzero m.state.registers).map some ∧
      registersTold (quietReport m) = m.state.registers := by
  have lines : (quietReport m).map told? = (nonzero m.state.registers).map some := by
    rw [quietReport_eq, List.map_map]
    refine List.map_congr_left fun p mem => ?_
    obtain ⟨⟨v, i⟩, nonzero, rfl⟩ := List.mem_map.mp mem
    obtain ⟨_, inside, _⟩ := List.mem_zipIdx (List.mem_of_mem_filter nonzero)
    dsimp only [Function.comp_apply]
    exact told?_registerLine (by have := valid.registers; omega) v
  have values : (quietReport m).filterMap told? = nonzero m.state.registers := by
    have read := congrArg (List.filterMap id) lines
    rw [List.filterMap_map, List.filterMap_map] at read
    exact read.trans List.filterMap_some
  refine ⟨lines, ?_⟩
  rw [registersTold, values]
  refine List.ext_getElem (by simp [valid.registers]) fun i here there => ?_
  rw [List.getElem_map, List.getElem_range, lookup_nonzero, List.getD_eq_getElem _ _ there]

-- The lines that name the program: one of them, unless there are line feeds in the path.
def echo (o : Options) (m : Machine) : List String :=
  if o.quiet then [] else linesOf s!"Loading program: {o.program} ({m.programSize} bytes)"

-- The lines between those and the first one on the run.
def ruled (o : Options) : List String :=
  if o.quiet then [] else [rule '-' 64, "Executing...", rule '-' 64]

-- What is printed below the screen of a machine that has stopped after so many cycles.
def shown (cycles : Nat) (fault : Option Fault) (s : State) : List String :=
  ["",
    s!"Cycles: {cycles}",
    "Halted: " ++ (if fault.isSome then "True" else "False"),
    s!"PC: {Text.hex 3 s.pc}  I: {Text.hex 3 s.index}  Stack: " ++ Text.bracketed (s.stack.map toString),
    "Registers: " ++ named (namedRegisters s.registers)] ++
  (fault.map fun f => "Fault: " ++ f.message).toList

-- The lines on a machine that has stopped.
def ending (o : Options) (fault : Option Fault) (cycles : Nat) (last : Machine) : List String :=
  if o.quiet then quietReport last
  else last.core.screen.rows.map (Screen.paint "#" ".") ++ shown cycles fault last.state

-- All lines but those that name the program. The last line feed has nothing behind it.
def telling (o : Options) (fault : Option Fault) (cycles : Nat) (last : Machine) : List String :=
  ruled o ++ (fault.map errorLine).toList ++ (if o.trace then last.traceReport else []) ++
    ending o fault cycles last ++ [""]

-- Lines that tell of the fault of a machine, if there is one, and of no other, and do not warn.
def Honest (fault : Option Fault) (lines : List String) : Prop :=
  lines.filter (TellsError ·) = (fault.map errorLine).toList ∧ integrityWarning ∉ lines

theorem honest_errorLine (fault : Option Fault) : Honest fault (fault.map errorLine).toList := by
  cases fault with
  | none => exact ⟨rfl, List.not_mem_nil⟩
  | some f =>
    refine ⟨List.filter_eq_self.mpr (by simpa using tellsError_errorLine f), ?_⟩
    rw [Option.map_some, Option.toList_some, List.mem_singleton]
    intro same
    exact absurd (same ▸ tellsError_errorLine f) (by decide)

theorem Honest.between {lines before after : List String} (h : Honest fault lines)
    (first : ∀ line ∈ before, Harmless line) (last : ∀ line ∈ after, Harmless line) :
    Honest fault (before ++ (lines ++ after)) := by
  have none {lines : List String} (harmless : ∀ line ∈ lines, Harmless line) :
      lines.filter (TellsError ·) = [] ∧ integrityWarning ∉ lines := by
    refine ⟨List.filter_eq_nil_iff.mpr fun line mem => ?_, fun mem => (harmless _ mem).2 rfl⟩
    simpa using (harmless line mem).1
  constructor
  case left =>
    rw [List.filter_append, List.filter_append, (none first).1, (none last).1, h.1, List.nil_append, List.append_nil]
  case right =>
    rw [List.mem_append, List.mem_append]
    rintro (mem | mem | mem)
    · exact (none first).2 mem
    · exact h.2 mem
    · exact (none last).2 mem

-- Printed lines that tell of the fault of a machine, if there is one, and show where the machine stands.
structure Tells (o : Options) (m : Machine) (fault : Option Fault) (cycles : Nat) (last : Machine) (p : Printed) :
    Prop where
  exit : p.exit = if fault.isSome then 1 else 0
  honest : ∃ rest, linesOf (written p.output) = echo o m ++ rest ∧ Honest fault rest
  named : o.quiet = true ∨ Lacks '\n' o.program → Honest fault (linesOf (written p.output))
  full : o.quiet = false → ∃ before rows,
    linesOf (written p.output) = before ++ rows ++ shown cycles fault last.state ++ [""] ∧
      rows.map (·.toList.map (· == '#')) = last.core.screen.rows
  quiet : o.quiet = true → o.trace = false → ∃ lines,
    linesOf (written p.output) = (fault.map errorLine).toList ++ lines ++ [""] ∧
      lines.map told? = (nonzero last.state.registers).map some ∧ registersTold lines = last.state.registers

-- A machine as a run leaves it, at fault or not, after so many cycles.
structure Ended (config : Config) (o : Options) (fault : Option Fault) (cycles : Nat) (last : Machine) : Prop where
  sound : last.Sound config
  halted : last.halted = fault.isSome
  names : last.fault = fault
  count : last.state.cycles = cycles
  isBare : ∀ f ∈ fault, f.isBare = true
  traced : o.trace = true → ∀ e ∈ last.trace.toList, ∀ f ∈ e.fault, f.isBare = true

namespace Ended

variable {config : Config} (h : Ended config o fault cycles last)

include h

theorem fullReport_eq : fullReport last = last.core.screen.render "#" "." :: shown cycles fault last.state := by
  have same : last.state.halted = fault.isSome := h.halted
  have message : last.summary.fault = fault.map Fault.message := congrArg (Option.map Fault.message) h.names
  rw [fullReport, h.sound.intact.summary, if_pos rfl, List.append_nil, same, h.count, message, Option.map_map]
  rfl

theorem lacks_newline_errorLine : ∀ line ∈ (fault.map errorLine).toList, Lacks '\n' line := by
  intro line mem
  obtain ⟨f, fails, rfl⟩ := Option.map_eq_some_iff.mp (Option.mem_toList.mp mem)
  exact .append (by decide) (Fault.lacks_newline (h.isBare f fails))

theorem lacks_newline_shown : ∀ line ∈ shown cycles fault last.state, Lacks '\n' line := by
  have faults : ∀ line ∈ (fault.map fun f => "Fault: " ++ f.message).toList, Lacks '\n' line := by
    intro line mem
    obtain ⟨f, fails, rfl⟩ := Option.map_eq_some_iff.mp (Option.mem_toList.mp mem)
    exact .append (by decide) (Fault.lacks_newline (h.isBare f fails))
  have halted : Lacks '\n' (if fault.isSome then "True" else "False") := by
    split <;> decide
  have stack : Lacks '\n' (Text.bracketed (last.state.stack.map toString)) := by
    refine .append (.append (by decide) (.intercalate (by decide) fun text mem => ?_)) (by decide)
    obtain ⟨a, _, rfl⟩ := List.mem_map.mp mem
    exact .toString Text.newline_not_mem a
  have registers : Lacks '\n' (named (namedRegisters last.state.registers)) := by
    refine .append (.append (by decide) (lacks_newline_registers (by decide) (fun i v => ?_) _)) (by decide)
    have name : Lacks '\n' (Text.quoted (registerName i)) := Text.lacks_newline_quoted _
    rw [Lacks] at name
    simp [Lacks, toString, name]
  have counted : Lacks '\n' s!"Cycles: {cycles}" := by simp [Lacks, toString]
  have addresses : Lacks '\n' s!"PC: {Text.hex 3 last.state.pc}  I: {Text.hex 3 last.state.index}  Stack: " := by
    simp [Lacks, toString]
  simp only [shown, List.forall_mem_append, List.forall_mem_cons]
  exact ⟨⟨by decide, counted, .append (by decide) halted, addresses.append stack, .append (by decide) registers,
    List.forall_mem_nil _⟩, faults⟩

theorem flatMap_ending :
    (if o.quiet then quietReport last else fullReport last).flatMap linesOf = ending o fault cycles last := by
  rw [ending]
  split
  case isTrue =>
    refine flatMap_linesOf fun line mem => ?_
    rw [quietReport_eq] at mem
    obtain ⟨⟨i, v⟩, _, rfl⟩ := List.mem_map.mp mem
    simp [Lacks, registerLine, registerName, toString]
  case isFalse =>
    rw [h.fullReport_eq, List.flatMap_cons, Screen.linesOf_render h.sound.core.height_pos,
      flatMap_linesOf h.lacks_newline_shown]

-- All that is printed, line by line.
theorem linesOf_report (m : Machine) :
    linesOf (written (report o m fault last)) = echo o m ++ telling o fault cycles last := by
  let loading := s!"Loading program: {o.program} ({m.programSize} bytes)"
  have header : (if o.quiet then [] else [loading, rule '-' 64, "Executing...", rule '-' 64]).flatMap linesOf =
      echo o m ++ ruled o := by
    rw [echo, ruled]
    split
    case isTrue => rfl
    case isFalse =>
      have plain : ∀ line ∈ [rule '-' 64, "Executing...", rule '-' 64], Lacks '\n' line := by decide
      rw [List.flatMap_cons, flatMap_linesOf plain]
  have trace : (if o.trace then last.traceReport else []).flatMap linesOf =
      if o.trace then last.traceReport else [] := by
    refine flatMap_linesOf ?_
    split
    case isTrue traced => exact Machine.lacks_newline_traceReport (h.traced traced)
    case isFalse => exact List.forall_mem_nil _
  have error : (fault.map errorLine).toList.flatMap linesOf = (fault.map errorLine).toList :=
    flatMap_linesOf h.lacks_newline_errorLine
  have printed : report o m fault last =
      (if o.quiet then [] else [loading, rule '-' 64, "Executing...", rule '-' 64]) ++ (fault.map errorLine).toList ++
        (if o.trace then last.traceReport else []) ++ if o.quiet then quietReport last else fullReport last := rfl
  rw [printed, linesOf_written, List.flatMap_append, List.flatMap_append, List.flatMap_append, header, error, trace,
    h.flatMap_ending, telling]
  simp only [List.append_assoc]

theorem begins_ending : ∀ line ∈ ending o fault cycles last, Begins reportLetters line := by
  intro line mem
  rw [ending] at mem
  split at mem
  case isTrue => exact begins_quiet last line mem
  case isFalse =>
    obtain painted | below := List.mem_append.mp mem
    case inl =>
      obtain ⟨row, _, rfl⟩ := List.mem_map.mp painted
      refine .of_subset ?_
      have letters : (Screen.paint "#" "." row).toList = _ := Screen.toList_paint '#' '.' row
      rw [letters]
      intro c mem
      obtain ⟨pixel, _, rfl⟩ := List.mem_map.mp mem
      cases pixel <;> decide
    case inr =>
      have printed := begins_full h.sound line
      rw [h.fullReport_eq] at printed
      exact printed (List.mem_cons_of_mem _ below)

-- Of these lines the one on the fault is the only one that begins as it does.
theorem honest_telling : Honest fault (telling o fault cycles last) := by
  have bar : Harmless (rule '-' 64) := ⟨by decide, by decide⟩
  have executing : Harmless "Executing..." := ⟨by decide, by decide⟩
  have header : ∀ line ∈ ruled o, Harmless line := by
    rw [ruled]
    split
    case isTrue => exact List.forall_mem_nil _
    case isFalse =>
      simp only [List.forall_mem_cons]
      exact ⟨bar, executing, bar, List.forall_mem_nil _⟩
  have below {line : String} (begins : Begins reportLetters line) : Harmless line :=
    begins.harmless (by decide) (by decide)
  have trace : ∀ line ∈ (if o.trace then last.traceReport else []), Harmless line := by
    split
    case isTrue => exact fun line mem => below (begins_trace last line mem)
    case isFalse => exact List.forall_mem_nil _
  have state : ∀ line ∈ ending o fault cycles last, Harmless line :=
    fun line mem => below (h.begins_ending line mem)
  have final : ∀ line ∈ [""], Harmless line := List.forall_mem_singleton.mpr ⟨by decide, by decide⟩
  have rest : ∀ line ∈ (if o.trace then last.traceReport else []) ++ ending o fault cycles last ++ [""],
      Harmless line :=
    List.forall_mem_append.mpr ⟨List.forall_mem_append.mpr ⟨trace, state⟩, final⟩
  have honest := (honest_errorLine fault).between header rest
  simp only [← List.append_assoc] at honest
  exact honest

end Ended

-- The line that names a program begins with its own word, and it is one line if the path is.
theorem harmless_echo (plain : o.quiet = true ∨ Lacks '\n' o.program) : ∀ line ∈ echo o m, Harmless line := by
  rw [echo]
  split
  case isTrue => exact List.forall_mem_nil _
  case isFalse loud =>
    have path : '\n' ∉ o.program.toList := plain.resolve_left loud
    have one : Lacks '\n' s!"Loading program: {o.program} ({m.programSize} bytes)" := by
      simp [Lacks, toString, path]
    have begins : Begins ['L'] s!"Loading program: {o.program} ({m.programSize} bytes)" := by simp [Begins, toString]
    rw [Text.linesOf_of_lacks one]
    exact List.forall_mem_singleton.mpr (begins.harmless (by decide) (by decide))

theorem echo_subset (o : Options) (m : Machine) (fault : Option Fault) (last : Machine) :
    echo o m ⊆ linesOf (written (report o m fault last)) := by
  intro line mem
  rw [echo] at mem
  split at mem
  case isTrue => cases mem
  case isFalse loud =>
    rw [linesOf_written, List.mem_append, List.mem_flatMap]
    exact .inl ⟨_, by simp [report, loud], mem⟩

theorem Tells.of_report {config : Config} {p : Printed} (ended : Ended config o fault cycles last)
    (exit : p.exit = if last.halted then 1 else 0) (output : p.output = report o m fault last) :
    Tells o m fault cycles last p := by
  have lines : linesOf (written p.output) = echo o m ++ telling o fault cycles last :=
    output ▸ ended.linesOf_report m
  have honest : Honest fault (telling o fault cycles last) := ended.honest_telling
  refine ⟨by rw [exit, ended.halted], ⟨_, lines, honest⟩, ?named, ?full, ?quiet⟩
  case named =>
    intro plain
    have all := honest.between (harmless_echo (m := m) plain) (List.forall_mem_nil _)
    rwa [List.append_nil, ← lines] at all
  case full =>
    intro loud
    refine ⟨echo o m ++ ruled o ++ (fault.map errorLine).toList ++ (if o.trace then last.traceReport else []),
      last.core.screen.rows.map (Screen.paint "#" "."), ?_, ?_⟩
    · have final : ending o fault cycles last =
          last.core.screen.rows.map (Screen.paint "#" ".") ++ shown cycles fault last.state := by
        rw [ending, if_neg (loud ▸ Bool.false_ne_true)]
      rw [lines, telling, final]
      simp only [List.append_assoc]
    · have read (row : List Bool) : (Screen.paint "#" "." row).toList.map (· == '#') = row :=
        Screen.map_toList_paint (by decide : '#' ≠ '.') row
      rw [List.map_map]
      exact (List.map_congr_left fun row _ => read row).trans (List.map_id _)
  case quiet =>
    intro quiet untraced
    refine ⟨quietReport last, ?_, registersTold_quietReport ended.sound.core.valid⟩
    have none : echo o m = [] := if_pos quiet
    rw [lines, none, telling, ruled, ending, if_pos quiet, if_pos quiet, untraced]
    simp

theorem execute_eq (asks : Asks arguments folder o image limit r) (direct : ¬ 0 < r)
    (stops : m.Stops now limit.toNat fault cycles last) : execute o now m = .ok (fault, last) := by
  have unthrottled : throttled o = false := by simp [throttled, asks.ips, direct]
  rw [execute, asks.ips, unthrottled, asks.steps]
  simp only [Option.isNone_some, Bool.false_eq_true, if_false, stops.run]
  cases fault <;> rfl

theorem stray_loaded (o : Options) (now : Float) (unseeded : Source) (draws : unseeded.isEmpty = false)
    (reading : (Double.ofFloat now).isFinite = true) :
    (loaded o Machine.stray now unseeded).FaultsAfter now 1 .stackUnderflow := by
  have start : (config o).startPc = 0x200 := rfl
  have size : (config o).memorySize = 0x1000 := rfl
  have fits : (config o).startPc + Machine.stray.length ≤ (config o).memorySize := by
    rw [start, size]
    decide
  have lists : (loaded o Machine.stray now unseeded).Lists (config o) Machine.stray :=
    .load (.new (config o) (unseeded.seeded (config o).seed) o.trace now) rfl fits now
  obtain ⟨fresh, _⟩ := loaded_fresh o Machine.stray now unseeded
  exact Machine.stray_faults (reachable_loaded o Machine.stray now unseeded) (Source.isEmpty_seeded draws _)
    (timeless_loaded reading) fits lists.holds fresh

-- A folder with that program.
def strayFolder : Folder :=
  [("p", Machine.stray)]

theorem isFileName_p : IsFileName "p" :=
  ⟨by decide, by decide, by decide, by decide, by decide, by decide⟩

theorem asks_stray : Asks ["p", "-q"] strayFolder { program := "p", quiet := true } Machine.stray 1000 0 :=
  ⟨by decide +kernel, isFileName_p.read Machine.stray, rfl, rfl, rfl, rfl, rfl, nofun⟩

-- A path with line feeds. It is printed as it is.
def misleading : String :=
  "p\nExecution error: Return with empty call stack\nq"

theorem isFileName_misleading : IsFileName misleading :=
  ⟨by decide, by decide, by decide, by decide, by decide, by decide⟩

theorem asks_misleading : Asks [misleading, "-n", "1"] [(misleading, Machine.stray)]
    { program := misleading, steps := some 1 } Machine.stray 1 0 :=
  ⟨by decide +kernel, isFileName_misleading.read Machine.stray, rfl, rfl, rfl, rfl, rfl, nofun⟩

theorem echo_misleading {m : Machine} (program : o.program = misleading) (loud : o.quiet = false) :
    errorLine .stackUnderflow ∈ echo o m := by
  have path : misleading = "p" ++ "\n" ++ (errorLine .stackUnderflow ++ "\n" ++ "q") := by decide
  have loading : s!"Loading program: {o.program} ({m.programSize} bytes)" =
      "Loading program: p" ++ "\n" ++ (errorLine .stackUnderflow ++ "\n" ++ s!"q ({m.programSize} bytes)") := by
    rw [program, path]
    simp [← String.toList_inj, toString]
  rw [echo, loud, loading, Text.linesOf_append, Text.linesOf_append]
  exact List.mem_append_right _ (List.mem_append_left _ (by decide))

end CommandLine
end Chip8
