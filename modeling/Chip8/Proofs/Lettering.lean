import Chip8.Proofs.Cycle
import Chip8.Proofs.Listing

namespace Chip8

namespace Text

variable {c : Char}

-- The letters of numerals, with the signs, the marks and the blanks in front of them.
def numeralLetters : List Char :=
  "-0123456789ABCDEFabcdefx ".toList

theorem hexDigits_lt {n d : Nat} (h : d ∈ hexDigits n) : d < 16 := by
  induction n using hexDigits.induct with
  | case1 n lt =>
    rw [hexDigits_of_lt lt, List.mem_singleton] at h
    exact h ▸ lt
  | case2 n le ih =>
    rw [hexDigits_of_le (Nat.le_of_not_lt le), List.mem_append, List.mem_singleton] at h
    cases h
    case inl h => exact ih h
    case inr h => exact h ▸ Nat.mod_lt _ (by decide)

theorem upperDigit_mem : ∀ d < 16, upperDigit d ∈ numeralLetters := by
  decide

theorem lowerDigit_mem : ∀ d < 16, lowerDigit d ∈ numeralLetters := by
  decide

theorem replicate_subset (k : Nat) (letter : c ∈ numeralLetters) : List.replicate k c ⊆ numeralLetters := by
  intro c' h
  rw [List.eq_of_mem_replicate h]
  exact letter

theorem filled_subset {mark digits : List Char} (width : Nat) (n : Int) (marks : mark ⊆ numeralLetters)
    (letters : digits ⊆ numeralLetters) : (filled width n mark digits).toList ⊆ numeralLetters := by
  have signs : sign n ⊆ numeralLetters := by
    rw [sign]
    split <;> decide
  simp only [filled, String.toList_ofList, List.append_subset]
  exact ⟨⟨⟨signs, marks⟩, replicate_subset _ (by decide)⟩, letters⟩

theorem digits_subset {digit : Nat → Char} (letters : ∀ d < 16, digit d ∈ numeralLetters) (n : Nat) :
    (hexDigits n).map digit ⊆ numeralLetters := by
  intro c h
  obtain ⟨d, mem, rfl⟩ := List.mem_map.mp h
  exact letters d (hexDigits_lt mem)

theorem hex_subset (width : Nat) (n : Int) : (hex width n).toList ⊆ numeralLetters :=
  filled_subset width n (List.nil_subset _) (digits_subset upperDigit_mem _)

theorem markedHex_subset (width : Nat) (n : Int) : (markedHex width n).toList ⊆ numeralLetters :=
  filled_subset width n (by decide) (digits_subset lowerDigit_mem _)

theorem mem_of_isDigit (digit : c.isDigit = true) : c ∈ numeralLetters := by
  have letters : ∀ k ∈ List.range' 48 10, Char.ofNat k ∈ numeralLetters := by decide
  have range : 48 ≤ c.toNat ∧ c.toNat ≤ 57 := Char.isDigit_iff_toNat.mp digit
  rw [← Char.ofNat_toNat c]
  exact letters _ (List.mem_range'_1.mpr (by omega))

theorem repr_subset (n : Nat) : n.repr.toList ⊆ numeralLetters := by
  intro c h
  rw [Nat.repr_eq_ofList_toDigits, String.toList_ofList] at h
  exact mem_of_isDigit (Nat.isDigit_of_mem_toDigits (by omega) (Nat.le_refl 10) h)

theorem toString_subset (n : Int) : (toString n).toList ⊆ numeralLetters := by
  have repr : toString n = n.repr := rfl
  rw [repr, Int.repr_eq_if]
  split
  case isTrue => exact repr_subset _
  case isFalse =>
    rw [String.toList_append, List.append_subset]
    exact ⟨by decide, repr_subset _⟩

theorem flushRight_subset (width : Nat) (n : Int) : (flushRight width n).toList ⊆ numeralLetters := by
  rw [flushRight, String.toList_append, String.toList_ofList, List.append_subset]
  exact ⟨replicate_subset _ (by decide), toString_subset n⟩

-- A letter that a text is without.
def Lacks (c : Char) (text : String) : Prop :=
  c ∉ text.toList

instance (c : Char) (text : String) : Decidable (Lacks c text) :=
  inferInstanceAs (Decidable (¬ _))

namespace Lacks

theorem append {a b : String} (ha : Lacks c a) (hb : Lacks c b) : Lacks c (a ++ b) := by
  rw [Lacks, String.toList_append, List.mem_append, not_or]
  exact ⟨ha, hb⟩

theorem intercalate {separator : String} {texts : List String} (s : Lacks c separator)
    (h : ∀ text ∈ texts, Lacks c text) : Lacks c (separator.intercalate texts) := by
  induction texts with
  | nil => simp [Lacks]
  | cons text texts ih =>
    have ⟨first, rest⟩ := List.forall_mem_cons.mp h
    cases texts with
    | nil => simpa using first
    | cons next texts =>
      rw [String.intercalate_cons_cons]
      exact (first.append s).append (ih rest)

section

variable (other : c ∉ numeralLetters)

include other

theorem hex (width : Nat) (n : Int) : Lacks c (Text.hex width n) :=
  fun h => other (hex_subset width n h)

theorem markedHex (width : Nat) (n : Int) : Lacks c (Text.markedHex width n) :=
  fun h => other (markedHex_subset width n h)

theorem toString (n : Int) : Lacks c (ToString.toString n) :=
  fun h => other (toString_subset n h)

theorem flushRight (width : Nat) (n : Int) : Lacks c (Text.flushRight width n) :=
  fun h => other (flushRight_subset width n h)

end

end Lacks

theorem newline_not_mem : '\n' ∉ numeralLetters := by
  decide

-- The lines of a text that line feeds alone cut apart.
def linesOf (text : String) : List String :=
  (text.toList.splitOn '\n').map String.ofList

theorem linesOf_of_lacks {text : String} (plain : Lacks '\n' text) : linesOf text = [text] := by
  have one : text.toList.splitOn '\n' = [text.toList] :=
    List.splitOnP_eq_singleton fun c mem => beq_false_of_ne fun same => plain (same ▸ mem)
  rw [linesOf, one, List.map_singleton, String.ofList_toList]

theorem linesOf_append (a b : String) : linesOf (a ++ "\n" ++ b) = linesOf a ++ linesOf b := by
  have letters : (a ++ "\n" ++ b).toList = a.toList ++ '\n' :: b.toList := by simp [String.toList_append]
  have cut : (a.toList ++ '\n' :: b.toList).splitOn '\n' = _ :=
    List.splitOnP_append_cons a.toList b.toList (beq_self_eq_true '\n')
  rw [linesOf, letters, cut, List.map_append]
  rfl

theorem linesOf_intercalate {texts : List String} (some : texts ≠ []) (plain : ∀ text ∈ texts, Lacks '\n' text) :
    linesOf ("\n".intercalate texts) = texts := by
  have newline : "\n".toList = ['\n'] := rfl
  have plain : ∀ text ∈ texts.map String.toList, '\n' ∉ text := by
    simpa only [List.forall_mem_map, Lacks] using plain
  rw [linesOf, String.toList_intercalate, newline, List.splitOn_intercalate _ plain (by simpa using some), List.map_map]
  exact (List.map_congr_left fun text _ => String.ofList_toList).trans (List.map_id _)

end Text

namespace Listing

variable {c : Char}

-- A letter that no digit can be is in the text of a word as often as in its template.
theorem count_disassemble (w : Opcode) (digit : c ∉ Text.numeralLetters) (mark : c ∉ marks) :
    (disassemble w).toList.count c = (template (Operation.decode w)).toList.count c := by
  rw [toList_disassemble, List.count_eq_countP, List.countP_map, List.count_eq_countP]
  refine List.countP_congr fun a _ => ?_
  rw [Function.comp_apply, beq_iff_eq, beq_iff_eq]
  by_cases marked : a ∈ marks
  case pos =>
    obtain ⟨i, place⟩ := List.mem_iff_getElem?.mp marked
    obtain ⟨d, lt, _, filled⟩ := fill_mark place w
    rw [filled]
    exact iff_of_false (fun same => digit (same ▸ Text.upperDigit_mem d lt)) fun same => mark (same ▸ marked)
  case neg => rw [fill_of_not_mem marked]

theorem lacks_newline (w : Opcode) : Text.Lacks '\n' (disassemble w) := by
  have none : ∀ o ∈ meanings, (template o).toList.count '\n' = 0 := by decide +kernel
  rw [Text.Lacks, ← List.count_eq_zero, count_disassemble w Text.newline_not_mem (by decide)]
  exact none _ (mem_meanings _)

end Listing

theorem Entry.lacks_newline_mnemonic (e : Entry) : Text.Lacks '\n' e.mnemonic := by
  rw [mnemonic]
  cases e.fetched with
  | none => decide
  | some w => exact Listing.lacks_newline w

-- Faults that are told without a reason in words of its own.
def Fault.isBare : Fault → Bool
  | .unknownOpcode .. | .hostRoutine .. | .stackOverflow _ | .stackUnderflow | .address .. | .invalidKey _ => true
  | .undecodable .. | .stack _ | .halted _ | .other _ => false

namespace Fault

variable {letter : Char} {reason : String} {f : Fault}

theorem lacks_located (other : letter ∉ Text.numeralLetters) (why : Text.Lacks letter reason)
    (place : Text.Lacks letter " at ") : (pc : Option Int) → Text.Lacks letter (located reason pc)
  | none => why
  | some pc => (why.append place).append (.hex other 3 pc)

theorem lacks_newline (bare : f.isBare = true) : Text.Lacks '\n' f.message := by
  have decimal (n : Int) : Text.Lacks '\n' (toString n) := .toString Text.newline_not_mem n
  cases f <;> cases bare
  case unknownOpcode opcode pc =>
    have why : Text.Lacks '\n' ("Unknown opcode " ++ Text.hex 4 opcode) :=
      .append (by decide) (.hex Text.newline_not_mem 4 opcode)
    exact lacks_located Text.newline_not_mem why (by decide) pc
  case hostRoutine opcode pc =>
    have why : Text.Lacks '\n' ("Machine code routine " ++ Text.hex 4 opcode ++ " is not supported") :=
      .append (.append (by decide) (.hex Text.newline_not_mem 4 opcode)) (by decide)
    exact lacks_located Text.newline_not_mem why (by decide) pc
  case stackOverflow depth =>
    have most : Text.Lacks '\n' ("Call stack overflow (depth " ++ toString depth) := .append (by decide) (decimal depth)
    exact most.append (by decide)
  case stackUnderflow => decide
  case address a size =>
    have place : Text.Lacks '\n' ("Address " ++ Text.markedHex 6 a) :=
      .append (by decide) (.markedHex Text.newline_not_mem 6 a)
    exact ((place.append (by decide)).append (decimal size)).append (by decide)
  case invalidKey key => exact .append (by decide) (decimal key)

end Fault

namespace Core

variable {c : Core} {f : Fault}

theorem isBare_of_shortage? {start : Int} {count : Nat}
    (fails : c.memory.shortage? start count = some (.fault f)) : f.isBare = true := by
  rw [Memory.shortage?] at fails
  split at fails
  case isTrue =>
    cases fails
    rfl
  case isFalse => cases fails

-- The faults of instructions are among them.
theorem isBare_of_failure? (fails : c.failure? = some (.fault f)) : f.isBare = true := by
  obtain fetch | ⟨_, performs⟩ := Option.or_eq_some_iff.mp fails
  case inl => exact isBare_of_shortage? fetch
  case inr =>
    cases decode : Operation.decode c.nextWord with
    | none =>
      rw [decode] at performs
      cases performs
      rfl
    | some op =>
      simp only [decode] at performs
      cases op <;> simp only [Operation.failure?, reduceCtorEq] at performs
      case storeDigits | storeRegisters | loadRegisters | draw => exact isBare_of_shortage? performs
      case hostRoutine =>
        cases performs
        rfl
      case random => split at performs <;> cases performs
      all_goals
        split at performs <;> cases performs
        rfl

end Core
end Chip8
