import Chip8.Listing
import Chip8.Proofs.Table

namespace Chip8

namespace Text

theorem hexValue?_upperDigit : ∀ d < 16, hexValue? (upperDigit d) = some d := by
  decide

theorem eq_of_upperDigit {d e : Nat} (hd : d < 16) (he : e < 16) (same : upperDigit d = upperDigit e) :
    d = e := by
  have value := hexValue?_upperDigit d hd
  rw [same, hexValue?_upperDigit e he] at value
  exact (Option.some.inj value).symm

theorem toList_hex_digit {d : Nat} (h : d < 16) : (hex 1 d).toList = [upperDigit d] := by
  have nonneg : ¬ (d : Int) < 0 := by omega
  simp [hex, filled, sign, nonneg, hexDigits_of_lt h]

-- A wider numeral has one digit more at its end.
theorem toList_hex_succ (width v : Nat) {d : Nat} (h : d < 16) :
    (hex (width + 2) (16 * v + d : Nat)).toList = (hex (width + 1) v).toList ++ [upperDigit d] := by
  have nonneg (n : Nat) : ¬ (n : Int) < 0 := by omega
  have last : (16 * v + d) % 16 = d := by omega
  have others : (16 * v + d) / 16 = v := by omega
  simp only [hex, filled, sign, if_neg (nonneg _), String.toList_ofList, Int.natAbs_natCast]
  by_cases zero : v = 0
  case pos =>
    subst zero
    simp [hexDigits_of_lt h, hexDigits_of_lt (show 0 < 16 by omega), List.replicate_succ']
    rfl
  case neg =>
    rw [hexDigits_of_le (by omega), last, others]
    simp

end Text

namespace Opcode

variable (w : Opcode)

theorem toList_hex_nn : (Text.hex 2 w.nn).toList = [Text.upperDigit w.y, Text.upperDigit w.n] := by
  rw [nn_eq_digits, Text.toList_hex_succ 0 w.y w.n_lt, Text.toList_hex_digit w.y_lt]
  rfl

theorem toList_hex_nnn : (Text.hex 3 w.nnn).toList =
    [Text.upperDigit w.x, Text.upperDigit w.y, Text.upperDigit w.n] := by
  have digits : w.nnn = 16 * (16 * w.x + w.y) + w.n := by
    have := w.nnn_eq_digits
    have := w.nn_eq_digits
    omega
  rw [digits, Text.toList_hex_succ 1 _ w.n_lt, Text.toList_hex_succ 0 w.x w.y_lt,
    Text.toList_hex_digit w.x_lt]
  rfl

theorem toList_hex_word : (Text.hex 4 w.toNat).toList =
    [Text.upperDigit w.family, Text.upperDigit w.x, Text.upperDigit w.y, Text.upperDigit w.n] := by
  have digits : w.toNat = 16 * (16 * (16 * w.family + w.x) + w.y) + w.n := by
    have := w.toNat_eq_digits
    omega
  rw [digits, Text.toList_hex_succ 2 _ w.n_lt, Text.toList_hex_succ 1 _ w.y_lt,
    Text.toList_hex_succ 0 w.family w.x_lt, Text.toList_hex_digit w.family_lt]
  rfl

end Opcode

-- A template has a mark for each digit of the word that it shows.
def Operation.template : Operation → String
  | hostRoutine => "SYS xyn"
  | clearScreen => "CLS"
  | ret => "RET"
  | jump => "JP xyn"
  | call => "CALL xyn"
  | skipEqualByte => "SE Vx, yn"
  | skipUnequalByte => "SNE Vx, yn"
  | skipEqual => "SE Vx, Vy"
  | loadByte => "LD Vx, yn"
  | addByte => "ADD Vx, yn"
  | load => "LD Vx, Vy"
  | or => "OR Vx, Vy"
  | and => "AND Vx, Vy"
  | xor => "XOR Vx, Vy"
  | add => "ADD Vx, Vy"
  | subtract => "SUB Vx, Vy"
  | shiftRight => "SHR Vx, Vy"
  | subtractFrom => "SUBN Vx, Vy"
  | shiftLeft => "SHL Vx, Vy"
  | skipUnequal => "SNE Vx, Vy"
  | loadIndex => "LD I, xyn"
  | jumpOffset => "JP V0, xyn"
  | random => "RND Vx, yn"
  | draw => "DRW Vx, Vy, n"
  | skipHeld => "SKP Vx"
  | skipReleased => "SKNP Vx"
  | loadDelay => "LD Vx, DT"
  | awaitKey => "LD Vx, K"
  | setDelay => "LD DT, Vx"
  | setSound => "LD ST, Vx"
  | addIndex => "ADD I, Vx"
  | loadGlyph => "LD F, Vx"
  | storeDigits => "LD B, Vx"
  | storeRegisters => "LD [I], Vx"
  | loadRegisters => "LD Vx, [I]"

namespace Listing

def template : Option Operation → String
  | some op => op.template
  | none => "DW fxyn"

-- The marks of the four digits, in the order of the digits.
def marks : List Char :=
  ['f', 'x', 'y', 'n']

-- What a letter of a template becomes.
def fill (w : Opcode) : Char → Char
  | 'f' => Text.upperDigit w.family
  | 'x' => Text.upperDigit w.x
  | 'y' => Text.upperDigit w.y
  | 'n' => Text.upperDigit w.n
  | c => c

theorem toList_disassemble (w : Opcode) :
    (disassemble w).toList = (template (Operation.decode w)).toList.map (fill w) := by
  unfold disassemble
  cases Operation.decode w with
  | none => simp [template, fill, toString, w.toList_hex_word]
  | some op =>
    cases op <;> simp [template, Operation.template, Operation.mnemonic, fill, toString, Text.toList_hex_digit w.x_lt,
      Text.toList_hex_digit w.y_lt, Text.toList_hex_digit w.n_lt, w.toList_hex_nn, w.toList_hex_nnn]

theorem fill_of_not_mem {c : Char} (h : c ∉ marks) (w : Opcode) : fill w c = c := by
  unfold fill
  split <;> simp_all [marks]

theorem fill_mark {i : Nat} {c : Char} (mark : marks[i]? = some c) (w : Opcode) :
    ∃ d < 16, w.digits[i]? = some d ∧ fill w c = Text.upperDigit d := by
  match i with
  | 0 =>
    cases mark
    exact ⟨_, w.family_lt, rfl, rfl⟩
  | 1 =>
    cases mark
    exact ⟨_, w.x_lt, rfl, rfl⟩
  | 2 =>
    cases mark
    exact ⟨_, w.y_lt, rfl, rfl⟩
  | 3 =>
    cases mark
    exact ⟨_, w.n_lt, rfl, rfl⟩
  | _ + 4 => cases mark

-- Letters of templates that may come out as a digit.
def MaybeDigit (c : Char) : Prop :=
  c ∈ marks ∨ (Text.hexValue? c).isSome

instance (c : Char) : Decidable (MaybeDigit c) :=
  inferInstanceAs (Decidable (_ ∨ _))

-- Letters of two templates that may come out the same.
def Meets (c d : Char) : Prop :=
  c = d ∨ (c ∈ marks ∨ d ∈ marks) ∧ MaybeDigit c ∧ MaybeDigit d

instance (c d : Char) : Decidable (Meets c d) :=
  inferInstanceAs (Decidable (_ ∨ _))

variable {w w' : Opcode} {c d : Char}

theorem maybeDigit_of_fill (mark : c ∈ marks) (h : fill w c = fill w' d) : MaybeDigit d := by
  by_cases same : d ∈ marks
  case pos => exact .inl same
  case neg =>
    have ⟨i, place⟩ := List.mem_iff_getElem?.mp mark
    have ⟨k, lt, _, digit⟩ := fill_mark place w
    rw [fill_of_not_mem same, digit] at h
    exact .inr (by rw [← h, Text.hexValue?_upperDigit k lt]; rfl)

theorem meets_of_fill (h : fill w c = fill w' d) : Meets c d := by
  by_cases left : c ∈ marks
  case pos => exact .inr ⟨.inl left, .inl left, maybeDigit_of_fill left h⟩
  case neg =>
    by_cases right : d ∈ marks
    case pos => exact .inr ⟨.inr right, maybeDigit_of_fill right h.symm, .inl right⟩
    case neg => exact .inl (by rwa [fill_of_not_mem left, fill_of_not_mem right] at h)

-- The operations that a word may have, and that it may have none.
def meanings : List (Option Operation) :=
  none :: Operation.all.map some

theorem mem_meanings (o : Option Operation) : o ∈ meanings := by
  cases o with
  | none => exact List.mem_cons_self
  | some op => exact List.mem_cons_of_mem _ (List.mem_map_of_mem op.mem_all)

-- Every word has a text.
theorem disassemble_ne_empty (w : Opcode) : disassemble w ≠ "" := by
  have filled : ∀ o ∈ meanings, template o ≠ "" := by
    decide +kernel
  intro blank
  have text := toList_disassemble w
  rw [blank, String.toList_empty, eq_comm, List.map_eq_nil_iff, String.toList_eq_nil_iff] at text
  exact filled _ (mem_meanings _) text

theorem eq_of_meets {o o' : Option Operation}
    (h : List.Forall₂ Meets (template o).toList (template o').toList) : o = o' := by
  have apart : ∀ o ∈ meanings, ∀ o' ∈ meanings,
      List.Forall₂ Meets (template o).toList (template o').toList → o = o' := by
    decide +kernel
  exact apart o (mem_meanings o) o' (mem_meanings o') h

-- A digit of a word has its mark in the template, or the form of the operation fixes it.
theorem mark_or_fixed (o : Option Operation) {i : Nat} {c : Char} (mark : marks[i]? = some c) :
    c ∈ (template o).toList ∨
      ∃ op, o = some op ∧ ∃ v, op.form.toList[i]?.bind Text.hexValue? = some v := by
  have all : ∀ o ∈ meanings, ∀ p ∈ marks.zipIdx, p.1 ∈ (template o).toList ∨
      (o.bind fun op => op.form.toList[p.2]?.bind Text.hexValue?).isSome := by
    decide +kernel
  have place : (c, i) ∈ marks.zipIdx := List.mk_mem_zipIdx_iff_getElem?.mpr mark
  refine (all o (mem_meanings o) (c, i) place).imp_right fun fixed => ?_
  have ⟨v, fixed⟩ := Option.isSome_iff_exists.mp fixed
  have ⟨op, known, fixed⟩ := Option.bind_eq_some_iff.mp fixed
  exact ⟨op, known, v, fixed⟩

end Listing

namespace Operation.Fits

variable {op : Operation} {w : Opcode}

theorem digit {i v : Nat} (f : op.Fits w) (fixed : op.form.toList[i]?.bind Text.hexValue? = some v) :
    w.digits[i]? = some v := by
  have ⟨c, letter, value⟩ := Option.bind_eq_some_iff.mp fixed
  have ⟨inside, out⟩ := List.getElem?_eq_some_iff.mp letter
  have ⟨lengths, fits⟩ := List.forall₂_iff_get.mp f
  have digit := fits i inside (lengths ▸ inside) v (by simpa [out] using value)
  exact List.getElem?_eq_some_iff.mpr ⟨lengths ▸ inside, digit⟩

end Operation.Fits

theorem Opcode.eq_of_digits {w w' : Opcode} (h : w.digits = w'.digits) : w = w' := by
  simp only [digits, List.cons.injEq] at h
  obtain ⟨family, x, y, n, _⟩ := h
  apply UInt16.toNat_inj.mp
  rw [toNat_eq_digits, toNat_eq_digits w', family, x, y, n]

namespace Listing

variable {w w' : Opcode}

theorem digit_eq (same : ∀ c ∈ (template (Operation.decode w)).toList, fill w c = fill w' c)
    (meaning : Operation.decode w = Operation.decode w') {i : Nat} (h : i < marks.length) :
    w.digits[i]? = w'.digits[i]? := by
  have mark := List.getElem?_eq_getElem h
  cases mark_or_fixed (Operation.decode w) mark with
  | inl shown =>
    have ⟨d, lt, digit, letter⟩ := fill_mark mark w
    have ⟨d', lt', digit', letter'⟩ := fill_mark mark w'
    have eq : d = d' := Text.eq_of_upperDigit lt lt' (letter.symm.trans ((same _ shown).trans letter'))
    rw [digit, digit', eq]
  | inr fixed =>
    have ⟨op, known, v, fixed⟩ := fixed
    have digit := (Operation.fits_of_decode known).digit fixed
    have digit' := (Operation.fits_of_decode (meaning ▸ known)).digit fixed
    rw [digit, digit']

theorem disassemble_injective : Function.Injective disassemble := by
  intro w w' texts
  have filled := congrArg String.toList texts
  rw [toList_disassemble, toList_disassemble, ← List.forall₂_eq_eq_eq, List.forall₂_map_left_iff,
    List.forall₂_map_right_iff] at filled
  have meaning : Operation.decode w = Operation.decode w' :=
    eq_of_meets (filled.imp fun _ _ => meets_of_fill)
  rw [← meaning, List.forall₂_same] at filled
  apply Opcode.eq_of_digits
  apply List.ext_getElem?
  intro i
  by_cases inside : i < 4
  case pos => exact digit_eq filled meaning inside
  case neg =>
    have none (w : Opcode) : w.digits[i]? = none := List.getElem?_eq_none (Nat.le_of_not_lt inside)
    rw [none, none]

end Listing

namespace Opcode

-- The two bytes of a word, the high one first.
def bytes (w : Opcode) : List UInt8 :=
  [UInt8.ofNat (w.toNat / 256), UInt8.ofNat w.toNat]

theorem bytes_ofBytes (high low : UInt8) : (ofBytes high low).bytes = [high, low] := by
  have := high.toNat_lt
  have := low.toNat_lt
  have word := toNat_ofBytes high low
  have first : (ofBytes high low).toNat / 256 = high.toNat := by omega
  have second : UInt8.ofNat (ofBytes high low).toNat = low := by
    apply UInt8.toNat_inj.mp
    rw [UInt8.toNat_ofNat']
    omega
  rw [bytes, first, second, UInt8.ofNat_toNat]

theorem toNat_ofInt (n : Int) : ((ofInt n).toNat : Int) = n % 0x10000 := by
  simp only [ofInt, UInt16.ofInt, UInt16.toNat_ofNat']
  omega

theorem ofInt_eq_iff (a b : Int) : ofInt a = ofInt b ↔ a % 0x10000 = b % 0x10000 := by
  rw [← toNat_ofInt, ← toNat_ofInt, Int.natCast_inj, UInt16.toNat_inj]

end Opcode

namespace Listing

-- An image without an odd byte at its end.
def paired (image : List UInt8) : List UInt8 :=
  image.take (2 * (image.length / 2))

theorem paired_cons_cons (high low : UInt8) (rest : List UInt8) :
    paired (high :: low :: rest) = high :: low :: paired rest := by
  have half : (rest.length + 1 + 1) / 2 = rest.length / 2 + 1 := by omega
  simp only [paired, List.length_cons, half, Nat.mul_add, List.take_succ_cons]

theorem bytes_listing : (origin : Int) → (image : List UInt8) →
    (listing origin image).flatMap (·.opcode.bytes) = paired image
  | _, [] => rfl
  | _, [_] => by simp [listing, paired]
  | origin, high :: low :: rest => by
    rw [listing, List.flatMap_cons, bytes_listing (origin + 2) rest, Opcode.bytes_ofBytes, paired_cons_cons]
    rfl

theorem addresses_listing : (origin : Int) → (image : List UInt8) →
    (listing origin image).map (·.address) =
      (List.range (image.length / 2)).map fun (k : Nat) => origin + 2 * k
  | _, [] => rfl
  | _, [_] => by simp [listing]
  | origin, high :: low :: rest => by
    have half : (rest.length + 1 + 1) / 2 = rest.length / 2 + 1 := by omega
    rw [listing, List.map_cons, addresses_listing (origin + 2) rest, List.length_cons, List.length_cons, half,
      List.range_succ_eq_map, List.map_cons, List.map_map, Int.natCast_zero, Int.mul_zero, Int.add_zero]
    refine congrArg _ (List.map_congr_left fun k _ => ?_)
    simp only [Function.comp, Nat.succ_eq_add_one]
    omega

-- The words depend neither on the origin nor on an odd byte.
theorem opcodes_listing (origin' : Int) : (origin : Int) → (image : List UInt8) →
    (listing origin image).map (·.opcode) = (listing origin' (paired image)).map (·.opcode)
  | _, [] => rfl
  | _, [_] => by simp [listing, paired]
  | origin, high :: low :: rest => by
    rw [paired_cons_cons, listing, listing, List.map_cons, List.map_cons,
      opcodes_listing (origin' + 2) (origin + 2) rest]

theorem texts_eq (rows : List Row) : rows.map (·.text) = (rows.map (·.opcode)).map disassemble := by
  rw [List.map_map]
  rfl

theorem texts_listing_eq_iff (origin origin' : Int) (image image' : List UInt8) :
    (listing origin image).map (·.text) = (listing origin' image').map (·.text) ↔
      paired image = paired image' := by
  rw [texts_eq, texts_eq, (List.map_injective_iff.mpr disassemble_injective).eq_iff]
  constructor
  case mp =>
    intro opcodes
    have bytes := congrArg (List.flatMap Opcode.bytes) opcodes
    rw [List.flatMap_map, List.flatMap_map] at bytes
    exact (bytes_listing origin image).symm.trans (bytes.trans (bytes_listing origin' image'))
  case mpr =>
    intro same
    rw [opcodes_listing 0 origin image, same, ← opcodes_listing]

-- The text of a word tells the word, and a listing tells its image up to an odd byte at the end.
theorem listing_lossless :
    (∀ a b : Int, disassemble (.ofInt a) = disassemble (.ofInt b) ↔ a % 0x10000 = b % 0x10000) ∧
    ∀ (origin : Int) (image : List UInt8),
      (listing origin image).length = image.length / 2 ∧
      (listing origin image).map (·.address) =
        (List.range (image.length / 2)).map (fun (k : Nat) => origin + 2 * k) ∧
      (listing origin image).flatMap (·.opcode.bytes) = paired image ∧
      ∀ (origin' : Int) (image' : List UInt8),
        (listing origin image).map (·.text) = (listing origin' image').map (·.text) ↔
          paired image = paired image' := by
  refine ⟨?_, ?_⟩
  case refine_1 =>
    intro a b
    rw [disassemble_injective.eq_iff, Opcode.ofInt_eq_iff]
  case refine_2 =>
    intro origin image
    refine ⟨length_listing .., addresses_listing .., bytes_listing .., ?_⟩
    exact fun origin' image' => texts_listing_eq_iff ..

-- Even a digit that a shift may not use is in the text.
example : (listing 0x200 [0x81, 0x26, 0x81, 0x36, 0x5]).map (·.text) = ["SHR V1, V2", "SHR V1, V3"] := by
  decide +kernel

end Listing
end Chip8
