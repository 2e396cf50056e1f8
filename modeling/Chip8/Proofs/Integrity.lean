import Chip8.CommandLine
import Chip8.Proofs.Lettering
import Chip8.Proofs.Reachable

namespace Chip8

-- What a host may rely on: a valid state, and the sizes that the configuration asks for.
structure Machine.Intact (config : Config) (m : Machine) : Prop where
  valid : m.state.Valid
  calls : m.state.calls.length ≤ config.stackDepth
  returns : ∀ a ∈ m.state.calls, 0 ≤ a ∧ a ≤ 0xffff
  memory : m.core.memory.size = config.memorySize
  cells : ∀ b ∈ m.core.memory.cells, b.toNat ≤ 0xff
  pixels : m.core.screen.pixels.size = config.width * config.height
  summary : m.summary.valid = true

theorem Machine.Sound.intact {config : Config} {m : Machine} (h : m.Sound config) : m.Intact config where
  valid := h.core.valid
  calls := by
    have fits := h.core.valid.calls
    rw [h.core.depth] at fits
    exact Int.ofNat_le.mp fits
  returns := h.core.returns
  memory := h.core.size
  cells := by
    intro b _
    exact Nat.le_of_lt_succ b.toNat_lt
  pixels := h.core.size_pixels
  summary := State.isValid_iff.mpr h.core.valid

theorem Screen.render_subset {letters : List Char} (s : Screen) (all : ['#', '.', '\n'] ⊆ letters) :
    (s.render "#" ".").toList ⊆ letters := by
  intro c mem
  by_contra other
  obtain ⟨lit, dark, newline⟩ : c ≠ '#' ∧ c ≠ '.' ∧ c ≠ '\n' := by
    simpa using fun mem => other (all mem)
  refine Text.Lacks.intercalate (c := c) (by simpa [Text.Lacks] using newline) ?_ mem
  intro line h
  obtain ⟨row, _, eq⟩ := List.mem_map.mp h
  rw [← eq, paint, Text.Lacks, String.toList_join, List.mem_flatMap]
  rintro ⟨text, h, w⟩
  obtain ⟨pixel, _, eq⟩ := List.mem_map.mp h
  rw [← eq] at w
  cases pixel <;> simp [lit, dark] at w

namespace CommandLine

def integrityWarning : String :=
  "Warning: CPU state failed its integrity check"

-- The lines that a command prints.
def Ending.lines : Ending → List String
  | .ok p => p.output
  | .error _ => []

-- A line that is empty or begins with one of some letters.
def Begins (letters : List Char) (line : String) : Prop :=
  ∀ c ∈ line.toList.head?, c ∈ letters

-- The letters that the lines on a sound machine and its trace begin with.
def reportLetters : List Char :=
  ['#', '.', '\n', '=', '[', ' ', 'C', 'F', 'H', 'P', 'R', 'V']

-- The letters that lines of all kinds begin with.
def lineLetters : List Char :=
  'E' :: 'L' :: ':' :: (reportLetters ++ Text.numeralLetters)

namespace Begins

variable {letters more : List Char} {line : String}

theorem mono (h : Begins letters line) (sub : letters ⊆ more) : Begins more line :=
  fun c first => sub (h c first)

theorem of_subset (h : line.toList ⊆ letters) : Begins letters line :=
  fun _ first => h (List.mem_of_mem_head? first)

theorem rule {c : Char} (width : Nat) (h : c ∈ letters) : Begins letters (rule c width) := by
  refine of_subset fun a mem => ?_
  rw [Chip8.rule, String.toList_ofList] at mem
  exact List.eq_of_mem_replicate mem ▸ h

-- A line is known by how it begins.
theorem append {a b : String} (h : Begins letters a) (filled : a ≠ "") : Begins letters (a ++ b) := by
  rw [Begins, String.toList_append]
  cases chars : a.toList with
  | nil => exact absurd (String.toList_eq_nil_iff.mp chars) filled
  | cons c cs =>
    rw [Begins, chars] at h
    exact h

theorem ne_warning (h : Begins lineLetters line) : line ≠ integrityWarning := by
  rintro rfl
  exact absurd (h 'W' (by decide)) (by decide)

end Begins

theorem begins_listing (image : List UInt8) : ∀ line ∈ listingLines image, Begins lineLetters line := by
  intro line h
  have ⟨row, _, eq⟩ := List.mem_map.mp h
  have address : Begins lineLetters (Text.hex 3 row.address ++ ": ") := by
    refine .of_subset ?_
    rw [String.toList_append, List.append_subset]
    exact ⟨List.Subset.trans (Text.hex_subset 3 row.address) (by decide), by decide⟩
  rw [← eq]
  simp only [toString]
  exact ((address.append (by simp)).append (by simp)).append (by simp)

theorem begins_entry (e : Entry) : ∀ line ∈ e.report, Begins reportLetters line := by
  simp only [Entry.report, List.forall_mem_cons]
  refine ⟨by simp [Begins], by simp [Begins, reportLetters, toString], ?_⟩
  intro line h
  split at h
  case h_1 =>
    simp only [List.mem_append] at h
    cases h with
    | inl h => split at h <;> simp_all [Begins, reportLetters]
    | inr h => split at h <;> simp_all [Begins, reportLetters, toString]
  case h_2 => cases h

theorem begins_trace (m : Machine) : ∀ line ∈ m.traceReport, Begins reportLetters line := by
  have bar : Begins reportLetters (rule '=' 70) := .rule 70 (by decide)
  have entries : ∀ line ∈ m.trace.toList.flatMap Entry.report, Begins reportLetters line := by
    intro line h
    have ⟨e, _, h⟩ := List.mem_flatMap.mp h
    exact begins_entry e line h
  simp only [Machine.traceReport, List.forall_mem_append, List.forall_mem_cons]
  refine ⟨⟨⟨bar, ?_, bar, nofun⟩, entries⟩, ?_, bar, ?_, bar, ?_, nofun⟩
  all_goals simp [Begins, reportLetters]

-- The report on a sound machine ends without the warning.
theorem begins_full {config : Config} {m : Machine} (h : m.Sound config) :
    ∀ line ∈ fullReport m, Begins reportLetters line := by
  have screen : Begins reportLetters (m.core.screen.render "#" ".") :=
    .of_subset (m.core.screen.render_subset (by decide))
  have fault : ∀ line ∈ (m.summary.fault.map ("Fault: " ++ ·)).toList, Begins reportLetters line := by
    cases m.summary.fault <;> simp [Begins, reportLetters]
  simp only [fullReport, h.intact.summary, if_true, List.forall_mem_append, List.forall_mem_cons]
  refine ⟨⟨⟨screen, ?_, ?_, ?_, ?_, ?_, nofun⟩, fault⟩, nofun⟩
  all_goals simp [Begins, reportLetters, toString]

theorem begins_quiet (m : Machine) : ∀ line ∈ quietReport m, Begins reportLetters line := by
  intro line h
  have ⟨⟨name, v⟩, mem, eq⟩ := List.mem_filterMap.mp h
  have ⟨⟨_, i⟩, _, named⟩ := List.mem_map.mp mem
  have start : name = registerName i := congrArg Prod.fst named.symm
  by_cases zero : v = 0
  case pos => simp [zero] at eq
  case neg =>
    simp only [zero, if_false, Option.some.injEq] at eq
    simp [← eq, start, registerName, Begins, reportLetters, toString]

theorem begins_report {config : Config} {o : Options} {loaded m : Machine} {fault : Option Fault}
    (h : m.Sound config) : ∀ line ∈ report o loaded fault m, Begins lineLetters line := by
  have wider : reportLetters ⊆ lineLetters := by decide
  have bar : Begins lineLetters (rule '-' 64) := .rule 64 (by decide)
  have error : ∀ line ∈ (fault.map fun f => "Execution error: " ++ f.message).toList, Begins lineLetters line := by
    cases fault <;> simp [Begins, lineLetters]
  simp only [report, List.forall_mem_append]
  refine ⟨⟨⟨?_, error⟩, ?_⟩, ?_⟩
  case refine_1 =>
    split
    · nofun
    · simp only [List.forall_mem_cons]
      refine ⟨?_, bar, ?_, bar, nofun⟩
      all_goals simp [Begins, lineLetters, toString]
  case refine_2 =>
    split
    · exact fun line mem => (begins_trace m line mem).mono wider
    · nofun
  case refine_3 =>
    split
    · exact fun line mem => (begins_quiet m line mem).mono wider
    · exact fun line mem => (begins_full h line mem).mono wider

theorem execute_sound {config : Config} {o : Options} {now : Float} {m m' : Machine}
    {fault : Option Fault} (h : m.Sound config) (e : execute o now m = .ok (fault, m')) :
    m'.Sound config := by
  simp only [execute] at e
  split at e
  case isTrue => cases e
  case isFalse =>
    split at e
    case isTrue =>
      cases s : m.start with
      | error e' =>
        rw [s] at e
        cases e
      | ok begun =>
        have looped := (Machine.changes_loopAt begun now (rate o) (turnsAllowed o)).sound ((Machine.Change.start s).sound h)
        simp only [s, bind, Except.bind] at e
        split at e
        · cases e
        · cases e
          exact looped
    case isFalse =>
      split at e
      case h_1 => cases e
      case h_2 steps _ =>
        have ran := (Machine.changes_run m now steps []).sound h
        split at e
        case h_1 r =>
          cases e
          rwa [r] at ran
        case h_2 r =>
          cases e
          rwa [r] at ran
        case h_3 => cases e

theorem begins_image {o : Options} {config : Config} {fresh : Machine} {now : Float} {image : List UInt8}
    {p : Printed} (h : fresh.Sound config) (r : runImage o fresh now image = .ok p) :
    ∀ line ∈ p.output, Begins lineLetters line := by
  simp only [runImage, bind, Except.bind] at r
  split at r
  case h_1 => cases r
  case h_2 loaded l =>
    split at r
    case h_1 => cases r
    case h_2 result e =>
      cases r
      exact begins_report (execute_sound (h.load l) e)

theorem begins_found (o : Options) (contents : Except Unreadable (List UInt8)) (now : Float) (unseeded : Source) :
    ∀ line ∈ (runFound o contents now unseeded).lines, Begins lineLetters line := by
  simp only [runFound]
  split
  case isTrue =>
    cases contents with
    | error e => nofun
    | ok image => exact begins_listing image
  case isFalse =>
    split
    case h_1 => nofun
    case h_2 config _ =>
      cases fresh : newMachine o config now unseeded with
      | error e => nofun
      | ok m =>
        cases contents with
        | error e => nofun
        | ok image =>
          cases r : runImage o m now image with
          | error e =>
            simp only [bind, Except.bind, Except.mapError, r]
            nofun
          | ok p =>
            have sound : m.Sound config := by
              simp only [newMachine] at fresh
              split at fresh
              · cases fresh
              · cases fresh
                exact .new ..
            simp only [bind, Except.bind, Except.mapError, r]
            exact begins_image sound r

theorem begins_run (arguments : List String) (folder : Folder) (now : Float) (unseeded : Source) :
    ∀ line ∈ (run arguments folder now unseeded).lines, Begins lineLetters line := by
  simp only [run]
  cases parse arguments with
  | error refusal => cases refusal <;> nofun
  | ok o =>
    simp only [runOptions]
    split
    case h_1 => exact begins_found o _ now unseeded
    case h_2 => exact begins_found o _ now unseeded
    case h_3 => nofun
    case h_4 => simp [Ending.lines, notFound, Begins, lineLetters]

end CommandLine

-- Every reachable machine is intact, and no report on one has the warning. No run of the command prints it.
theorem integrity_preserved (config : Config) :
    (∀ source (m : Machine), m.Reachable config source → m.Intact config ∧
      ∀ o loaded fault, CommandLine.integrityWarning ∉ CommandLine.report o loaded fault m) ∧
    ∀ arguments folder now unseeded,
      CommandLine.integrityWarning ∉ (CommandLine.run arguments folder now unseeded).lines := by
  constructor
  case left =>
    intro source m r
    refine ⟨r.sound.intact, fun o loaded fault mem => ?_⟩
    exact (CommandLine.begins_report r.sound _ mem).ne_warning rfl
  case right =>
    intro arguments folder now unseeded mem
    exact (CommandLine.begins_run arguments folder now unseeded _ mem).ne_warning rfl

-- A machine whose memory ended before the last of three digits was stored.
def Machine.overrun : Machine :=
  (Machine.new (.small .strict) .zeros true 0).afterCalls
    [(0, .load [0x60, 0xff, 0xa0, 0x7e, 0xf0, 0x33] none), (1, .run none [2, 3])]

theorem overrun_intact : Machine.overrun.Reachable (.small .strict) .zeros ∧
    Machine.overrun.fault = some (.address 0x80 0x80) ∧ Machine.overrun.Intact (.small .strict) ∧
    ∀ o loaded fault, CommandLine.integrityWarning ∉ CommandLine.report o loaded fault Machine.overrun := by
  have reachable : Machine.overrun.Reachable (.small .strict) .zeros := (Machine.Reachable.new true 0).calls _
  have ⟨intact, silent⟩ := (integrity_preserved (.small .strict)).1 .zeros Machine.overrun reachable
  exact ⟨reachable, by decide +kernel, intact, silent⟩

end Chip8
