import Chip8.Proofs.Image
import Chip8.Proofs.SourceText
import Chip8.Proofs.Stalls
import Chip8.Workbench

namespace Chip8

-- The configuration of the workbench.
def Config.standard (shiftSource : ShiftSource) (seed : Int) : Config where
  memorySize := 4096
  width := 64
  height := 32
  startPc := 0x200
  stackDepth := 16
  timerHz := 60.0
  fontAddress := 0
  addressMode := .strict
  shiftSource := shiftSource
  advancesIndex := true
  seed := some seed
  memorySize_le := by decide
  width_pos := by decide
  height_pos := by decide
  startPc_lt := by decide
  stackDepth_pos := by decide
  timerHz_pos := by decide +kernel
  font_fits := by decide

theorem Config.check_standard (shiftSource : ShiftSource) (seed : Int) :
    ({ shiftSource := .named shiftSource.name, seed := some seed } : Settings).check =
      .ok (.standard shiftSource seed) :=
  check_settings (.standard shiftSource seed)

-- A machine into which bytes have been loaded when it was new, as many as there was room for.
structure Machine.Carries (fresh : Machine) (bytes : List UInt8) (m : Machine) : Prop where
  loaded : m = { fresh with
    core := { fresh.core with memory := m.core.memory }
    programSize := min bytes.length (fresh.config.memorySize - fresh.config.startPc) }
  image : ∀ j < m.programSize, m.core.memory.cells[fresh.config.startPc + j]? = bytes[j]?
  others : ∀ j, j < fresh.config.startPc ∨ fresh.config.startPc + m.programSize ≤ j →
    m.core.memory.cells[j]? = fresh.core.memory.cells[j]?

namespace Workbench

open Text

variable {text : String} {bytes : List UInt8} {seed now : Float} {n : Int}

theorem imageOf_eq_ok_iff :
    imageOf text = .ok bytes ↔ List.Forall₂ IsDigit (kept false text.toList) (nibbles bytes) := by
  rw [← pairs?_eq_some_iff, imageOf, digitsOf_eq_kept]
  cases pairs? (kept false text.toList) <;> simp

theorem imageOf_eq_error_iff {e : Failure} : imageOf text = .error e ↔
    pairs? (kept false text.toList) = none ∧ e = .noHexDigit (badPosition (kept false text.toList)) := by
  rw [imageOf, digitsOf_eq_kept]
  cases pairs? (kept false text.toList) <;> simp [eq_comm]

theorem exists_carries (config : Config) (source : Source) (traced : Bool) (now : Float) (bytes : List UInt8) :
    let fresh := Machine.new config source traced now
    ∃ m, fresh.load (bytes.map fun b => (b.toNat : Int)) none = .ok m ∧ fresh.Carries bytes m := by
  intro fresh
  have h : fresh.Sound config := .new config source traced now
  have size : fresh.core.memory.size = config.memorySize := h.core.size
  have room : fresh.core.memory.room config.startPc bytes.length =
      min bytes.length (config.memorySize - config.startPc) := by
    rw [Memory.room, size]
  have fits : config.startPc ≤ fresh.core.memory.size := size ▸ Nat.le_of_lt config.startPc_lt
  refine ⟨_, Machine.load_bytes h bytes, ?_, fun j inside => ?_, fun j apart => ?_⟩
  case refine_1 => exact congrArg (fun count => { fresh with
    core := { fresh.core with memory := fresh.core.memory.place config.startPc bytes }
    programSize := count }) room
  case refine_2 => exact Memory.getElem?_place_add bytes fits inside
  case refine_3 => exact Memory.getElem?_place_of_apart bytes fits apart

-- What loading comes to with a number for a seed.
theorem load_source (text : String) (r : ShiftSource) (now : Float) (integer : (Double.ofFloat seed).integer = .ok n) :
    (∀ bytes, bytes ≠ [] → imageOf text = .ok bytes →
      ∃ m, (Machine.new (.standard r n) (.ofSeed n) true now).Carries bytes m ∧
        load (.source text) (.named r.name) seed now = .ok {
          machine := some m
          screen := screenText m
          registers := registersText m
          status := s!"Loaded {m.programSize} bytes" }) ∧
    ((∀ bytes, imageOf text = .ok bytes → bytes = []) →
      ∃ reason, load (.source text) (.named r.name) seed now = .ok { status := "Error: " ++ reason }) := by
  constructor
  case left =>
    intro bytes filled image
    obtain ⟨m, loads, carries⟩ := exists_carries (.standard r n) (.ofSeed n) true now bytes
    obtain ⟨b, rest, rfl⟩ := List.exists_cons_of_ne_nil filled
    refine ⟨m, carries, ?_⟩
    have checked := Config.check_standard r n
    simp only [load, Program.image, image, Except.mapError, integer, bind, Except.bind, checked, loads]
    rfl
  case right =>
    intro empty
    cases image : imageOf text with
    | error e => exact ⟨e.message, by simp only [load, Program.image, image, Except.mapError]⟩
    | ok bytes =>
      obtain rfl := empty bytes image
      exact ⟨"No program provided", by simp only [load, Program.image, image, Except.mapError]; rfl⟩

-- A source stands for the digits that one pass over it keeps, and these for bytes if they come in pairs. So a source
-- stands for bytes exactly if it is one of the texts that may be written for them. With a number for a seed it is
-- loaded if there is at least one, and otherwise an error is told.
theorem source_loads (text : String) (r : ShiftSource) (seed now : Float)
    (finite : (Double.ofFloat seed).isFinite = true) :
    let digits := kept false text.toList
    digitsOf text.toList = digits ∧
    (∀ bytes, imageOf text = .ok bytes ↔ List.Forall₂ IsDigit digits (nibbles bytes)) ∧
    (∀ bytes, imageOf text = .ok bytes ↔ Written text.toList (nibbles bytes)) ∧
    ((∃ e, imageOf text = .error e) ↔ digits.length % 2 = 1 ∨ ∃ c ∈ digits, ∀ d, ¬ IsDigit c d) ∧
    (∀ e, imageOf text = .error e → ∃ position, e = .noHexDigit position) ∧
    ∃ n loaded, (Double.ofFloat seed).integer = .ok n ∧ load (.source text) (.named r.name) seed now = .ok loaded ∧
      (∀ bytes, bytes ≠ [] → imageOf text = .ok bytes →
        ∃ m, loaded.machine = some m ∧
          (Machine.new (.standard r n) (.ofSeed n) true now).Carries bytes m ∧
          loaded.status = s!"Loaded {m.programSize} bytes") ∧
      ((∀ bytes, imageOf text = .ok bytes → bytes = []) →
        loaded.machine = none ∧ ∃ reason, loaded.status = "Error: " ++ reason) := by
  intro digits
  refine ⟨digitsOf_eq_kept _, fun _ => imageOf_eq_ok_iff, fun _ => imageOf_eq_ok_iff.trans written_iff.symm, ?_, ?_, ?_⟩
  case refine_1 =>
    simp only [imageOf_eq_error_iff, exists_and_left, exists_eq, and_true, pairs?_eq_none_iff, hexValue?_eq_none_iff]
    rfl
  case refine_2 =>
    intro e error
    exact ⟨_, (imageOf_eq_error_iff.mp error).2⟩
  case refine_3 =>
    obtain ⟨n, integer⟩ := Double.exists_integer finite
    obtain ⟨loads, fails⟩ := load_source text r now integer
    by_cases empty : ∀ bytes, imageOf text = .ok bytes → bytes = []
    case pos =>
      obtain ⟨reason, out⟩ := fails empty
      refine ⟨n, _, integer, out, fun bytes filled image => ?_, fun _ => ⟨rfl, reason, rfl⟩⟩
      exact absurd (empty bytes image) filled
    case neg =>
      obtain ⟨bytes, some⟩ := not_forall.mp empty
      obtain ⟨image, filled⟩ := Classical.not_imp.mp some
      obtain ⟨m, carries, out⟩ := loads bytes filled image
      refine ⟨n, _, integer, out, fun bytes' _ image' => ?_, fun none => absurd none empty⟩
      cases image.symm.trans image'
      exact ⟨m, rfl, carries, rfl⟩

-- Two bytes with a comment between the digits of the second one.
theorem commented_loads : ∃ loaded m, load (.source "60 0;y\n5") (.named "vy") 7.0 0 = .ok loaded ∧
    loaded.machine = some m ∧ m.programSize = 2 ∧ m.core.memory.cells[0x200]? = some 0x60 ∧
    m.core.memory.cells[0x201]? = some 0x05 := by
  have finite : (Double.ofFloat 7.0).isFinite = true := by decide +kernel
  obtain ⟨_, _, reads, _, _, n, loaded, _, loads, fills, _⟩ := source_loads "60 0;y\n5" .vy 7.0 0 finite
  have text : "60 0;y\n5".toList = ['6', '0', ' ', '0', ';', 'y', '\n', '5'] := rfl
  have digit {c : Char} {d : Nat} (value : hexValue? c = some d) : IsDigit c d := hexValue?_eq_some_iff.mp value
  have written : Written ['6', '0', ' ', '0', ';', 'y', '\n', '5'] [6, 0, 0, 5] :=
    .digit (digit rfl) <| .digit (digit rfl) <| .blank rfl <| .digit (digit rfl) <|
      @Written.comment ['y'] '\n' ['5'] [5] (List.forall_mem_singleton.mpr rfl) rfl <| .digit (digit rfl) .done
  have digits : nibbles [0x60, 0x05] = [6, 0, 0, 5] := by decide
  have image : imageOf "60 0;y\n5" = .ok [0x60, 0x05] := by
    rw [reads, text, digits]
    exact written
  obtain ⟨m, machine, carries, _⟩ := fills [0x60, 0x05] (by decide) image
  have start : (Machine.new (.standard .vy n) (.ofSeed n) true 0).config.startPc = 0x200 := rfl
  have size : m.programSize = 2 := by
    simpa [Machine.new, Config.standard] using congrArg Machine.programSize carries.loaded
  have first := carries.image 0 (by omega)
  have second := carries.image 1 (by omega)
  rw [start] at first second
  exact ⟨loaded, m, loads, machine, size, first, second⟩

end Workbench
end Chip8
