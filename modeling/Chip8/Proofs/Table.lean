import Chip8.Operation
import Chip8.Text.Digit
import Mathlib.Data.List.Forall2

namespace Chip8

def Opcode.digits (w : Opcode) : List Nat :=
  [w.family, w.x, w.y, w.n]

namespace Operation

-- Four digits, of which `X`, `Y` and `N` stand for any.
def form : Operation → String
  | hostRoutine => "0NNN"
  | clearScreen => "00E0"
  | ret => "00EE"
  | jump => "1NNN"
  | call => "2NNN"
  | skipEqualByte => "3XNN"
  | skipUnequalByte => "4XNN"
  | skipEqual => "5XY0"
  | loadByte => "6XNN"
  | addByte => "7XNN"
  | load => "8XY0"
  | or => "8XY1"
  | and => "8XY2"
  | xor => "8XY3"
  | add => "8XY4"
  | subtract => "8XY5"
  | shiftRight => "8XY6"
  | subtractFrom => "8XY7"
  | shiftLeft => "8XYE"
  | skipUnequal => "9XY0"
  | loadIndex => "ANNN"
  | jumpOffset => "BNNN"
  | random => "CXNN"
  | draw => "DXYN"
  | skipHeld => "EX9E"
  | skipReleased => "EXA1"
  | loadDelay => "FX07"
  | awaitKey => "FX0A"
  | setDelay => "FX15"
  | setSound => "FX18"
  | addIndex => "FX1E"
  | loadGlyph => "FX29"
  | storeDigits => "FX33"
  | storeRegisters => "FX55"
  | loadRegisters => "FX65"

-- The opcode has the digits that the form fixes.
def Fits (op : Operation) (w : Opcode) : Prop :=
  List.Forall₂ (fun c d => ∀ v ∈ Text.hexValue? c, d = v) op.form.toList w.digits

-- An opcode stands for the operation whose form it has, and for the most particular one if it has several.
def IsMeant (op : Operation) (w : Opcode) : Prop :=
  op.Fits w ∧ (op = hostRoutine → ¬ clearScreen.Fits w ∧ ¬ ret.Fits w)

end Operation

namespace Opcode

variable (w : Opcode)

theorem n_lt : w.n < 16 :=
  Nat.mod_lt _ (by decide)

theorem nn_lt : w.nn < 256 :=
  Nat.mod_lt _ (by decide)

theorem nn_eq_digits : w.nn = 16 * w.y + w.n := by
  simp only [nn, y, n]
  omega

theorem nnn_eq_digits : w.nnn = 256 * w.x + w.nn := by
  simp only [nnn, x, nn]
  omega

end Opcode

namespace Operation

variable {w : Opcode} {op : Operation}

theorem fits_of_decode (h : decode w = some op) : op.Fits w := by
  have nn := w.nn_eq_digits
  have nnn := w.nnn_eq_digits
  have x := w.x_lt
  have y := w.y_lt
  have n := w.n_lt
  simp only [decode, ofArithmetic?, ofDevice?] at h
  -- The cases are those of the family and, in six families, of the digits after it.
  split at h <;> (try split at h) <;> (try split at h) <;> cases h <;>
    simp [Fits, form, Opcode.digits, Text.hexValue?, *] <;> omega

theorem decode_hostRoutine (host : hostRoutine.Fits w) (screen : ¬ clearScreen.Fits w)
    (back : ¬ ret.Fits w) : decode w = some hostRoutine := by
  have nn := w.nn_eq_digits
  have nnn := w.nnn_eq_digits
  have y := w.y_lt
  have n := w.n_lt
  simp [Fits, form, Opcode.digits, Text.hexValue?] at host screen back
  have notScreen : w.nnn ≠ 0x0e0 := by
    intro e
    exact screen host (by omega) (by omega) (by omega)
  have notBack : w.nnn ≠ 0x0ee := by
    intro e
    exact back host (by omega) (by omega) (by omega)
  simp only [decode, host, if_neg notScreen, if_neg notBack]

theorem decode_of_isMeant (h : op.IsMeant w) : decode w = some op := by
  have ⟨f, meant⟩ := h
  by_cases host : op = hostRoutine
  case pos =>
    subst host
    exact decode_hostRoutine f (meant rfl).1 (meant rfl).2
  case neg =>
    have nn := w.nn_eq_digits
    have nnn := w.nnn_eq_digits
    cases op <;> simp [Fits, form, Opcode.digits, Text.hexValue?] at f host <;>
      simp [decode, ofArithmetic?, ofDevice?, *]

theorem isMeant_of_decode (h : decode w = some op) : op.IsMeant w := by
  refine ⟨fits_of_decode h, ?_⟩
  intro host
  have never {other : Operation} (ne : other ≠ hostRoutine) : ¬ other.Fits w := by
    intro f
    have d := decode_of_isMeant ⟨f, fun e => absurd e ne⟩
    rw [host, d] at h
    exact ne (Option.some.inj h)
  exact ⟨never (by decide), never (by decide)⟩

theorem exists_isMeant (f : op.Fits w) : ∃ meant : Operation, meant.IsMeant w := by
  by_cases host : op = hostRoutine
  case neg => exact ⟨op, f, fun e => absurd e host⟩
  case pos =>
    by_cases screen : clearScreen.Fits w
    case pos => exact ⟨clearScreen, screen, nofun⟩
    case neg =>
      by_cases back : ret.Fits w
      case pos => exact ⟨ret, back, nofun⟩
      case neg => exact ⟨hostRoutine, host ▸ f, fun _ => ⟨screen, back⟩⟩

theorem decode_eq_none_iff : decode w = none ↔ ∀ op : Operation, ¬ op.Fits w := by
  constructor
  case mp =>
    intro none op f
    have ⟨meant, h⟩ := exists_isMeant f
    rw [decode_of_isMeant h] at none
    cases none
  case mpr =>
    intro h
    cases d : decode w with
    | none => rfl
    | some op => exact absurd (fits_of_decode d) (h op)

end Operation
end Chip8
