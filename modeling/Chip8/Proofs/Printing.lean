import Chip8.Proofs.Integrity
import Chip8.Proofs.Picture
import Chip8.Proofs.Trace

namespace Chip8

open Text (Lacks linesOf)

namespace Text

@[simp]
theorem newline_not_mem_hex (width : Nat) (n : Int) : '\n' ∉ (hex width n).toList :=
  Lacks.hex newline_not_mem width n

@[simp]
theorem newline_not_mem_digits (n : Nat) : '\n' ∉ Nat.toDigits 10 n :=
  fun mem => absurd (Nat.isDigit_of_mem_toDigits (by decide) (Nat.le_refl 10) mem) (by decide)

@[simp]
theorem newline_not_mem_int (n : Int) : '\n' ∉ n.repr.toList :=
  Lacks.toString newline_not_mem n

theorem newline_not_mem_escape {quote : Char} (other : quote ≠ '\n') (c : Char) : '\n' ∉ escape quote c := by
  have digits (width n : Nat) : '\n' ∉ escapeDigits width n := by
    intro mem
    obtain zero | digit := List.mem_append.mp mem
    · cases List.eq_of_mem_replicate zero
    · exact newline_not_mem (digits_subset lowerDigit_mem n digit)
  by_cases newline : c = '\n'
  case pos =>
    subst newline
    simp [escape, other.symm]
  case neg =>
    have letter : '\n' ≠ c := Ne.symm newline
    simp only [escape]
    repeat' split
    all_goals simp [digits, letter]

-- A quoted text is one line, whatever it quotes.
theorem lacks_newline_quoted (text : String) : Lacks '\n' (quoted text) := by
  have quote : quoteOf text.toList ≠ '\n' := by
    rw [quoteOf]
    split <;> decide
  have ends : '\n' ∉ [quoteOf text.toList] := by simpa using quote.symm
  simp only [Lacks, quoted, String.toList_ofList, List.mem_append, List.mem_flatMap, not_or, not_exists, not_and]
  exact ⟨⟨ends, fun c _ => newline_not_mem_escape quote c⟩, ends⟩

end Text

namespace Screen

theorem lacks_newline_paint (row : List Bool) : Lacks '\n' (paint "#" "." row) :=
  newline_not_mem_paint (by decide : '#' ≠ '\n') (by decide : '.' ≠ '\n') row

theorem linesOf_render {s : Screen} (h : 0 < s.height) : linesOf (s.render "#" ".") = s.rows.map (paint "#" ".") := by
  have some : s.rows.map (paint "#" ".") ≠ [] := by
    rw [Ne, List.map_eq_nil_iff, ← List.length_eq_zero_iff, length_rows]
    omega
  refine Text.linesOf_intercalate some fun line mem => ?_
  obtain ⟨row, _, rfl⟩ := List.mem_map.mp mem
  exact lacks_newline_paint row

end Screen

theorem lacks_newline_registers {separator : String} {f : String × Int → String} (between : Lacks '\n' separator)
    (each : ∀ i v, Lacks '\n' (f (registerName i, v))) (registers : List Int) :
    Lacks '\n' (separator.intercalate ((namedRegisters registers).map f)) := by
  refine .intercalate between fun text mem => ?_
  obtain ⟨p, named, rfl⟩ := List.mem_map.mp mem
  obtain ⟨⟨v, i⟩, _, rfl⟩ := List.mem_map.mp named
  exact each i v

theorem State.lacks_newline_describe (s : State) : Lacks '\n' s.describe := by
  delta describe
  refine .append (.append ?_ (lacks_newline_registers (by decide) (fun i v => ?_) _)) ?_
  · simp [Lacks, toString]
  · simp [Lacks, registerName]
  · split <;> decide

namespace Entry

variable {e : Entry}

theorem lacks_newline_changes (before after : State) : Lacks '\n' (", ".intercalate (changes before after)) := by
  refine .intercalate (by decide) fun text mem => ?_
  obtain ⟨⟨⟨old, new⟩, i⟩, _, out⟩ := List.mem_filterMap.mp mem
  by_cases same : old = new
  · simp [same] at out
  · simp only [same, if_false, Option.some.injEq] at out
    simp [← out, Lacks, registerName, toString]

theorem lacks_newline_report (bare : ∀ f ∈ e.fault, f.isBare = true) : ∀ line ∈ e.report, Lacks '\n' line := by
  have mnemonic := e.lacks_newline_mnemonic
  have status : Lacks '\n' ((e.fault.map fun f => "ERROR: " ++ f.message).getD "OK") := by
    cases fault : e.fault with
    | none => decide
    | some f => exact .append (by decide) (Fault.lacks_newline (bare f fault))
  rw [Lacks] at mnemonic status
  simp only [report, List.forall_mem_cons]
  refine ⟨by decide, by simp [Lacks, toString, mnemonic, status], ?_⟩
  split
  case h_1 before after _ _ =>
    refine List.forall_mem_append.mpr ⟨?_, ?_⟩
    · split
      · exact List.forall_mem_nil _
      · exact List.forall_mem_singleton.mpr (.append (by decide) (lacks_newline_changes before after))
    · split
      · exact List.forall_mem_nil _
      · exact List.forall_mem_singleton.mpr (by simp [Lacks, toString])
  case h_2 => exact List.forall_mem_nil _

end Entry

theorem Machine.lacks_newline_traceReport {m : Machine}
    (bare : ∀ e ∈ m.trace.toList, ∀ f ∈ e.fault, f.isBare = true) :
    ∀ line ∈ m.traceReport, Lacks '\n' line := by
  have bar : Lacks '\n' (rule '=' 70) := by decide
  have entries : ∀ line ∈ m.trace.toList.flatMap Entry.report, Lacks '\n' line := by
    intro line mem
    obtain ⟨e, kept, reported⟩ := List.mem_flatMap.mp mem
    exact Entry.lacks_newline_report (bare e kept) line reported
  simp only [traceReport, List.forall_mem_append, List.forall_mem_cons]
  exact ⟨⟨⟨bar, by decide, bar, List.forall_mem_nil _⟩, entries⟩,
    by decide, bar, by decide, bar, .append (by decide) m.state.lacks_newline_describe, List.forall_mem_nil _⟩

namespace CommandLine

-- What is printed are the lines of all that is printed, one after another.
theorem linesOf_written (printed : List String) : linesOf (written printed) = printed.flatMap linesOf ++ [""] := by
  induction printed with
  | nil => rfl
  | cons text printed ih =>
    have first : written (text :: printed) = text ++ "\n" ++ written printed := by
      rw [written, List.map_cons, String.join_cons, written]
    rw [first, Text.linesOf_append, ih, List.flatMap_cons, List.append_assoc]

theorem flatMap_linesOf {lines : List String} (plain : ∀ line ∈ lines, Lacks '\n' line) :
    lines.flatMap linesOf = lines := by
  induction lines with
  | nil => rfl
  | cons line lines ih =>
    obtain ⟨first, rest⟩ := List.forall_mem_cons.mp plain
    rw [List.flatMap_cons, Text.linesOf_of_lacks first, ih rest, List.singleton_append]

end CommandLine
end Chip8
