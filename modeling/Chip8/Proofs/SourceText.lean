import Chip8.Proofs.Listing
import Chip8.Workbench.Source
import Mathlib.Data.List.Forall2

namespace Chip8

namespace Text

variable {c : Char} {d : Nat}

-- A character that stands for a hexadecimal digit, in either case.
def IsDigit (c : Char) (d : Nat) : Prop :=
  d < 16 ∧ (c = lowerDigit d ∨ c = upperDigit d)

theorem hexValue?_lowerDigit : ∀ d < 16, hexValue? (lowerDigit d) = some d := by
  decide

theorem eq_ofNat_add {n : Nat} (le : n ≤ c.toNat) : c = Char.ofNat (n + (c.toNat - n)) := by
  rw [Nat.add_sub_of_le le, Char.ofNat_toNat]

theorem isDigit_of_hexValue? (value : hexValue? c = some d) : IsDigit c d := by
  have within {first last : Char} (inside : first ≤ c ∧ c ≤ last) :
      first.toNat ≤ c.toNat ∧ c.toNat ≤ last.toNat := inside
  refine ⟨hexValue?_lt value, ?_⟩
  unfold hexValue? at value
  split at value
  case isTrue decimal =>
    obtain ⟨lower, upper⟩ : 48 ≤ c.toNat ∧ c.toNat ≤ 57 := within decimal
    cases value
    rw [lowerDigit, if_pos (by omega)]
    exact .inl (eq_ofNat_add lower)
  case isFalse =>
    split at value
    case isTrue small =>
      obtain ⟨lower, upper⟩ : 97 ≤ c.toNat ∧ c.toNat ≤ 102 := within small
      cases value
      rw [lowerDigit, if_neg (by omega)]
      exact .inl (eq_ofNat_add (by omega))
    case isFalse =>
      split at value
      case isTrue capital =>
        obtain ⟨lower, upper⟩ : 65 ≤ c.toNat ∧ c.toNat ≤ 70 := within capital
        cases value
        rw [upperDigit, if_neg (by omega)]
        exact .inr (eq_ofNat_add (by omega))
      case isFalse => cases value

theorem hexValue?_eq_some_iff : hexValue? c = some d ↔ IsDigit c d := by
  refine ⟨isDigit_of_hexValue?, ?_⟩
  rintro ⟨lt, rfl | rfl⟩
  · exact hexValue?_lowerDigit d lt
  · exact hexValue?_upperDigit d lt

theorem hexValue?_eq_none_iff : hexValue? c = none ↔ ∀ d, ¬ IsDigit c d := by
  rw [Option.eq_none_iff_forall_ne_some]
  exact forall_congr' fun d => not_congr hexValue?_eq_some_iff

-- One pass over a source. A comment lasts up to the next line boundary.
def kept (inComment : Bool) : List Char → List Char
  | [] => []
  | c :: rest =>
    if isBoundary c then kept false rest
    else if inComment || c == ';' then kept true rest
    else if isBlank c then kept false rest
    else c :: kept false rest

theorem flatten_splitOnP (p : Char → Bool) (text : List Char) :
    (text.splitOnP p).flatten = text.filter (!p ·) := by
  induction text with
  | nil => rfl
  | cons c rest ih =>
    rw [List.splitOnP_cons_eq_if_modifyHead, List.filter_cons, ← ih]
    obtain ⟨word, others, split⟩ := List.exists_cons_of_ne_nil (List.splitOnP_ne_nil p rest)
    cases p c <;> simp [split]

theorem flatten_words (text : List Char) : (words text).flatten = text.filter (!isBlank ·) := by
  rw [words, ← flatten_splitOnP]
  induction text.splitOnP isBlank with
  | nil => rfl
  | cons word others ih => cases word <;> simp [ih]

-- What is left of a line.
def keptOfLine (line : List Char) : List Char :=
  (words (beforeMark ';' line)).flatten

theorem keptOfLine_nil : keptOfLine [] = [] :=
  rfl

theorem keptOfLine_cons (c : Char) (line : List Char) : keptOfLine (c :: line) =
    if c = ';' then [] else if isBlank c then keptOfLine line else c :: keptOfLine line := by
  simp only [keptOfLine, flatten_words, beforeMark, List.takeWhile_cons, bne_iff_ne, ne_eq, ite_not]
  split
  case isTrue => rfl
  case isFalse => cases blank : isBlank c <;> simp [blank]

theorem kept_cons (inComment : Bool) (c : Char) (rest : List Char) : kept inComment (c :: rest) =
    if isBoundary c then kept false rest
    else if inComment || c == ';' then kept true rest
    else if isBlank c then kept false rest
    else c :: kept false rest :=
  rfl

-- A further character of the first line.
theorem kept_of_line {line rest : List Char} {others : List (List Char)} (inside : isBoundary c = false)
    (all : keptOfLine line ++ others.flatMap keptOfLine = kept false rest)
    (behind : others.flatMap keptOfLine = kept true rest) :
    keptOfLine (c :: line) ++ others.flatMap keptOfLine = kept false (c :: rest) ∧
      others.flatMap keptOfLine = kept true (c :: rest) := by
  simp only [kept_cons, inside, keptOfLine_cons, Bool.false_eq_true, if_false, Bool.false_or, Bool.true_or, if_true,
    beq_iff_eq]
  refine ⟨?_, behind⟩
  split
  case isTrue => exact behind
  case isFalse =>
    split
    case isTrue => exact all
    case isFalse => rw [List.cons_append, all]

-- What is kept of all lines, and of those behind the first one, if that is a comment. The cases are those of the lines.
theorem kept_of_lines (text : List Char) : (lines text).flatMap keptOfLine = kept false text ∧
    (lines text).tail.flatMap keptOfLine = kept true text := by
  fun_induction lines text with
  | case1 => exact ⟨rfl, rfl⟩
  | case2 rest ih =>
    have both : isBoundary '\r' = true ∧ isBoundary '\n' = true := by decide
    simp only [kept_cons, both.1, both.2, if_true, List.flatMap_cons, keptOfLine_nil, List.nil_append, List.tail_cons,
      ih.1, and_self]
  | case3 c rest _ boundary ih =>
    simp only [kept_cons, boundary, if_true, List.flatMap_cons, keptOfLine_nil, List.nil_append, List.tail_cons, ih.1,
      and_self]
  | case4 c rest _ inside none ih =>
    rw [none] at ih
    exact @kept_of_line c [] rest [] (by simpa using inside) ih.1 ih.2
  | case5 c rest _ inside line others split ih =>
    rw [split, List.flatMap_cons] at ih
    rw [List.flatMap_cons]
    exact kept_of_line (by simpa using inside) ih.1 ih.2

-- Texts as they may be written for a row of digits: digits in either case, blanks anywhere between them, and comments
-- up to a line boundary or to the end.
inductive Written : List Char → List Nat → Prop
  | done : Written [] []
  | digit {c d text ds} : IsDigit c d → Written text ds → Written (c :: text) (d :: ds)
  | blank {c text ds} : isBlank c = true → Written text ds → Written (c :: text) ds
  | comment {remark c text ds} : (∀ c ∈ remark, isBoundary c = false) → isBoundary c = true →
    Written text ds → Written (';' :: remark ++ c :: text) ds
  | remark {remark} : (∀ c ∈ remark, isBoundary c = false) → Written (';' :: remark) []

variable {text : List Char} {ds : List Nat}

-- A digit is neither blank nor the mark of a comment.
theorem IsDigit.plain (digit : IsDigit c d) : isBlank c = false ∧ c ≠ ';' := by
  have each : ∀ d < 16, (isBlank (lowerDigit d) = false ∧ lowerDigit d ≠ ';') ∧
      isBlank (upperDigit d) = false ∧ upperDigit d ≠ ';' := by
    decide
  obtain ⟨lt, rfl | rfl⟩ := digit
  · exact (each d lt).1
  · exact (each d lt).2

theorem isBoundary_of_not_isBlank (plain : isBlank c = false) : isBoundary c = false := by
  cases boundary : isBoundary c with
  | false => rfl
  | true => cases plain.symm.trans (isBlank_of_isBoundary boundary)

theorem kept_of_plain (plain : isBlank c = false) (other : c ≠ ';') (rest : List Char) :
    kept false (c :: rest) = c :: kept false rest := by
  simp [kept_cons, isBoundary_of_not_isBlank plain, plain, other]

theorem kept_of_isBlank (blank : isBlank c = true) (rest : List Char) :
    kept false (c :: rest) = kept false rest := by
  have other : c ≠ ';' := by
    rintro rfl
    cases blank
  rw [kept_cons]
  cases isBoundary c <;> simp [blank, other]

theorem kept_mark (rest : List Char) : kept false (';' :: rest) = kept true rest := by
  have inside : isBoundary ';' = false := by decide
  simp [kept_cons, inside]

theorem kept_remark {remark : List Char} (inside : ∀ c ∈ remark, isBoundary c = false) (rest : List Char) :
    kept true (remark ++ rest) = kept true rest := by
  induction remark with
  | nil => rfl
  | cons c remark ih =>
    obtain ⟨first, later⟩ := List.forall_mem_cons.mp inside
    rw [List.cons_append, kept_cons, first]
    exact ih later

theorem kept_boundary (boundary : isBoundary c = true) (inComment : Bool) (rest : List Char) :
    kept inComment (c :: rest) = kept false rest := by
  rw [kept_cons, if_pos boundary]

theorem Written.kept (written : Written text ds) : List.Forall₂ IsDigit (kept false text) ds := by
  induction written with
  | done => exact .nil
  | digit digit _ ih =>
    rw [kept_of_plain digit.plain.1 digit.plain.2]
    exact .cons digit ih
  | blank blank _ ih => rwa [kept_of_isBlank blank]
  | comment inside boundary _ ih => rwa [List.cons_append, kept_mark, kept_remark inside, kept_boundary boundary]
  | @remark remark inside =>
    have all := kept_remark inside []
    rw [List.append_nil] at all
    rw [kept_mark, all]
    exact .nil

-- A comment may begin one character earlier.
theorem Written.lengthen (written : Written (';' :: text) ds) (inside : isBoundary c = false) :
    Written (';' :: c :: text) ds := by
  cases written with
  | digit digit _ => exact absurd rfl digit.plain.2
  | blank blank _ => cases blank
  | comment others boundary rest => exact .comment (List.forall_mem_cons.mpr ⟨inside, others⟩) boundary rest
  | remark others => exact .remark (List.forall_mem_cons.mpr ⟨inside, others⟩)

-- A text is read as it stands, or behind the mark of a comment.
theorem written_of_kept (text : List Char) : (∀ ds, List.Forall₂ IsDigit (kept false text) ds → Written text ds) ∧
    ∀ ds, List.Forall₂ IsDigit (kept true text) ds → Written (';' :: text) ds := by
  induction text with
  | nil =>
    constructor <;> intro ds digits <;> cases digits
    · exact .done
    · exact .remark nofun
  | cons c rest ih =>
    obtain ⟨plain, commented⟩ := ih
    constructor
    case left =>
      intro ds digits
      by_cases blank : isBlank c = true
      case pos =>
        rw [kept_of_isBlank blank] at digits
        exact .blank blank (plain ds digits)
      case neg =>
        by_cases mark : c = ';'
        case pos =>
          rw [mark, kept_mark] at digits
          exact mark ▸ commented ds digits
        case neg =>
          rw [kept_of_plain (by simpa using blank) mark] at digits
          cases digits with
          | cons first later => exact .digit first (plain _ later)
    case right =>
      intro ds digits
      cases boundary : isBoundary c with
      | true =>
        rw [kept_boundary boundary] at digits
        exact @Written.comment [] c rest ds nofun boundary (plain ds digits)
      | false =>
        rw [kept_cons, boundary] at digits
        exact (commented ds digits).lengthen boundary

theorem written_iff : Written text ds ↔ List.Forall₂ IsDigit (kept false text) ds :=
  ⟨Written.kept, (written_of_kept text).1 ds⟩

end Text

-- The two digits of each byte.
def nibbles (bytes : List UInt8) : List Nat :=
  bytes.flatMap fun b => [b.toNat / 16, b.toNat % 16]

namespace Workbench

open Text

variable {digits : List Char} {bytes : List UInt8}

theorem digitsOf_eq_kept (text : List Char) : digitsOf text = kept false text :=
  (kept_of_lines text).1

theorem ofNat_eq_iff {high low : Nat} (hh : high < 16) (hl : low < 16) {b : UInt8} :
    UInt8.ofNat (16 * high + low) = b ↔ high = b.toNat / 16 ∧ low = b.toNat % 16 := by
  have := b.toNat_lt
  rw [← UInt8.toNat_inj, UInt8.toNat_ofNat']
  omega

theorem nibbles_cons (b : UInt8) (rest : List UInt8) :
    nibbles (b :: rest) = b.toNat / 16 :: b.toNat % 16 :: nibbles rest :=
  rfl

theorem pairs?_cons {high low : Char} {rest : List Char} {b : UInt8} :
    pairs? (high :: low :: rest) = some (b :: bytes) ↔
    IsDigit high (b.toNat / 16) ∧ IsDigit low (b.toNat % 16) ∧ pairs? rest = some bytes := by
  simp only [pairs?, Option.bind_eq_bind, Option.bind_eq_some_iff, Option.pure_def, Option.some.injEq, List.cons.injEq,
    hexValue?_eq_some_iff]
  constructor
  case mp =>
    rintro ⟨h, high, l, low, bytes', rest, byte, rfl⟩
    obtain ⟨rfl, rfl⟩ := (ofNat_eq_iff high.1 low.1).mp byte
    exact ⟨high, low, rest⟩
  case mpr =>
    rintro ⟨high, low, rest⟩
    exact ⟨_, high, _, low, _, rest, (ofNat_eq_iff high.1 low.1).mpr ⟨rfl, rfl⟩, rfl⟩

theorem pairs?_eq_nil_iff : pairs? digits = some [] ↔ digits = [] := by
  match digits with
  | [] => simp [pairs?]
  | [_] => simp [pairs?]
  | high :: low :: rest => simp [pairs?, Option.bind_eq_some_iff]

-- Two digits stand for each byte.
theorem pairs?_eq_some_iff : pairs? digits = some bytes ↔ List.Forall₂ IsDigit digits (nibbles bytes) := by
  induction bytes generalizing digits with
  | nil => rw [pairs?_eq_nil_iff, nibbles, List.flatMap_nil, List.forall₂_nil_right_iff]
  | cons b bytes ih =>
    rw [nibbles_cons]
    match digits with
    | [] => simp [pairs?]
    | [_] => simp [pairs?]
    | high :: low :: rest => rw [pairs?_cons, List.forall₂_cons, List.forall₂_cons, ih]

-- Characters do not come in pairs of digits if there is an odd number of them, or one of them that is no digit.
theorem pairs?_eq_none_iff : pairs? digits = none ↔
    digits.length % 2 = 1 ∨ ∃ c ∈ digits, hexValue? c = none := by
  fun_induction pairs? digits with
  | case1 => simp
  | case2 => simp
  | case3 high low rest ih =>
    have length : (high :: low :: rest).length % 2 = rest.length % 2 := by
      rw [List.length_cons, List.length_cons]
      omega
    simp only [length, List.mem_cons, exists_eq_or_imp]
    cases hexValue? high with
    | none => simp
    | some h =>
      cases hexValue? low with
      | none => simp
      | some l => cases later : pairs? rest <;> simpa [later] using ih

end Workbench
end Chip8
