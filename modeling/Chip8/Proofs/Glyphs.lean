import Chip8.Proofs.ByteStore
import Chip8.Proofs.Overlay
import Chip8.Proofs.Ring
import Chip8.Proofs.Unwritten

namespace Chip8

-- The rows of the glyph of a digit.
def glyph (digit : Nat) : List UInt8 :=
  (font.drop (digit * glyphSize)).take glyphSize

theorem length_font : font.length = fontSize :=
  rfl

theorem length_glyph {digit : Nat} (lt : digit < 16) : (glyph digit).length = glyphSize := by
  rw [glyph, List.length_take, List.length_drop, length_font, fontSize, glyphSize]
  omega

namespace Screen

-- The coordinates of the set bits of rows that are drawn at a place, one row below the other.
def bits : List UInt8 → Int → Int → List (Int × Int)
  | [], _, _ => []
  | row :: rest, x, y =>
    ((List.range 8).filter (Operation.isSet row ·)).map (fun (column : Nat) => (x + column, y)) ++ bits rest x (y + 1)

-- A screen on which rows have been drawn at a place: a pixel is inverted if an odd number of set bits lie on it.
structure Drawn (s : Screen) (rows : List UInt8) (x y : Int) (s' : Screen) : Prop where
  alike : s'.Alike s
  pixels : ∀ i j, s.Contains i j → ∃ old, s.read i j = .ok old ∧
    s'.read i j = .ok (old ^^ Odd (s.landings (bits rows x y) i j))

theorem rows_eq_flips_bits (p : Drawing) (rows : List UInt8) (x y : Int) :
    p.rows x y rows = p.flips (bits rows x y) := by
  induction rows generalizing p y with
  | nil => rfl
  | cons row rest ih => rw [Drawing.rows, bits, Drawing.flips_append, Drawing.row_eq_flips, ih]

theorem drawn_rows {s : Screen} (w : 0 < s.width) (h : 0 < s.height) (rows : List UInt8) (x y : Int) :
    s.Drawn rows x y (Drawing.rows (s, false) x y rows).1 := by
  have alike : (Drawing.rows (s, false) x y rows).1.Alike s := .rows ..
  refine ⟨alike, fun i j _ => ⟨_, read_eq w h i j, ?_⟩⟩
  rw [read_eq (alike.1 ▸ w) (alike.2 ▸ h), rows_eq_flips_bits]
  exact congrArg _ (lit_flips (p := (s, false)) w h _ i j)

end Screen

-- Where the font lies.
def Config.IsFont (config : Config) (j : Nat) : Prop :=
  config.fontAddress ≤ j ∧ j < config.fontAddress + fontSize

instance (config : Config) (j : Nat) : Decidable (config.IsFont j) :=
  inferInstanceAs (Decidable (_ ∧ _))

-- The address of the glyph of a digit.
def Config.glyphAddress (config : Config) (digit : Nat) : Nat :=
  config.fontAddress + digit * glyphSize

theorem Config.glyph_fits (config : Config) {digit : Nat} (lt : digit < 16) :
    config.glyphAddress digit + glyphSize ≤ config.memorySize := by
  have := config.font_fits
  rw [glyphAddress, glyphSize]
  rw [fontSize] at this
  omega

namespace Memory

-- The whole font in its place, and zeros elsewhere.
structure OnlyFont (config : Config) (m : Memory) : Prop where
  size : m.size = config.memorySize
  font : m.Holds config.fontAddress font
  zeros : ∀ j < config.memorySize, ¬ config.IsFont j → m.cells[j]? = some 0

variable {m : Memory} {start n : Nat} {bytes : List UInt8}

theorem bytesFrom_of_holds (holds : m.Holds start bytes) (le : n ≤ bytes.length) :
    m.bytesFrom start n = bytes.take n := by
  refine List.ext_getElem ?_ fun i here _ => ?_
  · rw [length_bytesFrom, List.length_take_of_le le]
  · rw [length_bytesFrom] at here
    have byte : m.byteAt (start + i : Nat) = bytes[i] := by
      refine byteAt_of_getElem? ((holds i (by omega)).trans ?_)
      exact List.getElem?_eq_getElem (by omega)
    simpa [bytesFrom] using byte

-- A part of what lies in memory.
theorem Holds.part (holds : m.Holds start bytes) (skipped count : Nat) :
    m.Holds (start + skipped) ((bytes.drop skipped).take count) := by
  intro i inside
  rw [List.length_take, List.length_drop] at inside
  rw [List.getElem?_take_of_lt (by omega), List.getElem?_drop, Nat.add_assoc]
  exact holds (skipped + i) (by omega)

theorem read_of_holds (holds : m.Holds start bytes) {i : Nat} (inside : i < bytes.length) :
    m.read (start + (i : Nat)) = .ok bytes[i] := by
  obtain ⟨lt, byte⟩ := Array.getElem?_eq_some_iff.mp ((holds i inside).trans (List.getElem?_eq_getElem inside))
  rw [← byte]
  exact read_natCast lt

end Memory

namespace Core

theorem onlyFont_new (config : Config) (source : Source) : (Core.new config source).memory.OnlyFont config := by
  have fits := config.font_fits
  have blank : (Memory.blank config.memorySize config.wraps).size = config.memorySize := Memory.size_blank ..
  have room : config.fontAddress ≤ (Memory.blank config.memorySize config.wraps).size := by omega
  refine ⟨(Core.new_sound config source).size, ?_, fun j inside other => ?_⟩
  case refine_1 =>
    apply Memory.holds_place
    rwa [blank, length_font]
  case refine_2 =>
    have all : (Memory.blank config.memorySize config.wraps).room config.fontAddress font.length = fontSize := by
      rw [Memory.room, blank, length_font]
      omega
    have apart : j < config.fontAddress ∨ config.fontAddress + fontSize ≤ j := by
      rw [Config.IsFont] at other
      omega
    refine (Memory.getElem?_place_of_apart font room (by rwa [all])).trans ?_
    simp [Memory.blank, inside]

end Core

namespace Machine

variable {config : Config} {source : Source} {m m' : Machine} {now : Float} {op : Operation} {digit : Nat}

theorem onlyFont_reset (h : m.Sound config) (now : Float) : (m.reset true now).core.memory.OnlyFont config := by
  have fresh := Core.onlyFont_new config m.core.source
  rw [← h.freshMemory_eq] at fresh
  exact fresh

theorem Unwritten.holds_font (u : m.Unwritten config source config.IsFont) :
    m.core.memory.Holds config.fontAddress font := by
  intro i inside
  rw [length_font] at inside
  exact (u.getElem? ⟨by omega, by omega⟩).trans ((Core.onlyFont_new config source).font i inside)

theorem Unwritten.holds_glyph (u : m.Unwritten config source config.IsFont) (digit : Nat) :
    m.core.memory.Holds (config.glyphAddress digit) (glyph digit) :=
  u.holds_font.part _ _

-- A machine whose next step is made and comes to this operation.
structure AboutTo (config : Config) (m : Machine) (now : Float) (op : Operation) : Prop where
  running : m.halted = false
  ticks : (m.tick now).isOk = true
  faces : m.core.Faces config op

theorem AboutTo.exists_performs (a : m.AboutTo config now op) (h : m.Sound config)
    (fine : op.failure? m.core.nextWord m.core.fetched = none) : ∃ m', m.Performs now op m' := by
  obtain ⟨_, _, t⟩ := tick_of_isOk a.ticks
  exact Machine.exists_performs h a.running t a.faces fine

-- The digit whose glyph the next instruction asks for.
def askedDigit (m : Machine) : Nat :=
  (m.state.value m.core.nextWord.x % 16).toNat

theorem askedDigit_lt (m : Machine) : m.askedDigit < 16 := by
  rw [askedDigit]
  omega

-- The index register comes to name the glyph, and nothing is stored.
theorem Performs.names_glyph (u : m.Unwritten config source config.IsFont) (p : m.Performs now .loadGlyph m') :
    m'.Unwritten config source config.IsFont ∧ m'.state.index = config.glyphAddress m.askedDigit := by
  have h := u.reachable.sound
  constructor
  case left =>
    rw [← p.stepped]
    refine u.stepped now ?_
    rw [written_of_faces h (p.faces h) rfl]
    exact List.forall_mem_nil _
  case right =>
    obtain ⟨_, _, _, _, _, core⟩ := p.leaves h
    rw [state, core, Config.glyphAddress, askedDigit]
    simp only [Operation.after, Core.modifyState, Core.fetched, Config.dialect, state, State.value, glyphSize]
    omega

-- The rows of a glyph can be read from its place and are drawn.
theorem AboutTo.exists_draws_glyph (a : m.AboutTo config now .draw) (u : m.Unwritten config source config.IsFont)
    (lt : digit < 16) (index : m.state.index = config.glyphAddress digit) (le : m.core.nextWord.n ≤ glyphSize) :
    ∃ m', m.Performs now .draw m' ∧ m.core.screen.Drawn ((glyph digit).take m.core.nextWord.n)
      (m.state.value m.core.nextWord.x) (m.state.value m.core.nextWord.y) m'.core.screen := by
  have h := u.reachable.sound
  have fits := config.glyph_fits lt
  have size := h.core.size
  have index : m.core.state.index = config.glyphAddress digit := index
  have reach : m.core.memory.reach m.core.state.index m.core.nextWord.n = m.core.nextWord.n := by
    rw [Memory.reach, index]
    split <;> omega
  have rows : m.core.memory.bytesFrom m.core.state.index m.core.nextWord.n = (glyph digit).take m.core.nextWord.n := by
    rw [index]
    exact Memory.bytesFrom_of_holds (u.holds_glyph digit) (by rwa [length_glyph lt])
  have fine : Operation.draw.failure? m.core.nextWord m.core.fetched = none := by
    have short : ¬ m.core.fetched.memory.reach m.core.fetched.state.index m.core.nextWord.n < m.core.nextWord.n :=
      Nat.not_lt_of_le (Nat.le_of_eq reach.symm)
    simp only [Operation.failure?, Memory.shortage?, short, if_false]
  obtain ⟨m', performs⟩ := a.exists_performs h fine
  obtain ⟨_, _, _, _, _, core⟩ := performs.leaves h
  have screen : m'.core.screen = (Screen.Drawing.rows (m.core.screen, false) (m.state.value m.core.nextWord.x)
      (m.state.value m.core.nextWord.y) ((glyph digit).take m.core.nextWord.n)).1 := by
    rw [← rows, core, Core.modifyState, Operation.after_screen]
    simp only [reduceCtorEq, if_false, if_true, Operation.drawing, Core.modifyState, Core.fetched, reach]
    rfl
  refine ⟨m', performs, ?_⟩
  rw [screen]
  exact Screen.drawn_rows h.core.width_pos h.core.height_pos ..

-- Setting memory up leaves the whole font in it and zeros elsewhere. As long as nothing is stored in the font, asking
-- for the glyph of a digit makes the index register name its five rows, all of them inside memory, and as long as the
-- index register keeps to them, a draw of no more rows is not at fault and draws those of the glyph.
theorem font_reachable (config : Config) (source : Source) :
    font.length = fontSize ∧
    (∀ traced now, (Machine.new config source traced now).core.memory.OnlyFont config) ∧
    (∀ (m : Machine) now, m.Reachable config source → (m.reset true now).core.memory.OnlyFont config) ∧
    ∀ (m : Machine) now, m.Unwritten config source config.IsFont → m.AboutTo config now .loadGlyph →
      ∃ m', m.Performs now .loadGlyph m' ∧ m'.Unwritten config source config.IsFont ∧
        0 ≤ m'.state.index ∧ m'.state.index + 4 < config.memorySize ∧
        (List.range 5).map (fun (i : Nat) => m'.core.memory.read (m'.state.index + i)) =
          (glyph m.askedDigit).map .ok ∧
        ∀ (m₁ : Machine) now₁, m₁.Unwritten config source config.IsFont → m₁.state.index = m'.state.index →
          m₁.AboutTo config now₁ .draw → m₁.core.nextWord.n ≤ 5 →
          ∃ m₂, m₁.Performs now₁ .draw m₂ ∧
            m₁.core.screen.Drawn ((glyph m.askedDigit).take m₁.core.nextWord.n)
              (m₁.state.value m₁.core.nextWord.x) (m₁.state.value m₁.core.nextWord.y) m₂.core.screen := by
  refine ⟨length_font, fun _ _ => Core.onlyFont_new config source, fun m now r => onlyFont_reset r.sound now, ?_⟩
  intro m now u about
  obtain ⟨m', performs⟩ := about.exists_performs u.reachable.sound rfl
  obtain ⟨u', index⟩ := performs.names_glyph u
  have fits := config.glyph_fits m.askedDigit_lt
  have length := length_glyph m.askedDigit_lt
  rw [glyphSize] at fits length
  refine ⟨m', performs, u', by omega, by omega, ?_, ?_⟩
  case refine_1 =>
    refine List.ext_getElem (by simp [length]) fun i _ inside => ?_
    rw [List.length_map] at inside
    rw [List.getElem_map, List.getElem_map, List.getElem_range, index]
    exact Memory.read_of_holds (u'.holds_glyph m.askedDigit) inside
  case refine_2 =>
    intro m₁ now₁ u₁ same about₁ le
    exact about₁.exists_draws_glyph u₁ m.askedDigit_lt (same.trans index) le

-- A machine whose font ends with memory, about to ask for the last glyph.
def endingInFont : Config :=
  { Config.small .strict with
    startPc := 0
    fontAddress := 48
    startPc_lt := by decide
    font_fits := by decide }

def asking : Machine :=
  ((Machine.new endingInFont .zeros false 0).afterCall 0
    (.load [0x60, 0x0f, 0xf0, 0x29, 0xd0, 0x15] none)).afterCall 0 .step

theorem last_glyph_drawn :
    asking.Unwritten endingInFont .zeros endingInFont.IsFont ∧ asking.askedDigit = 15 ∧
      ∃ m' m₂, asking.Performs 0 .loadGlyph m' ∧ m'.state.index = 123 ∧ m'.Performs 0 .draw m₂ ∧
        m'.core.screen.Drawn [0xf0, 0x80, 0xf0, 0x80, 0x80] 15 0 m₂.core.screen := by
  have loaded : ((Machine.new endingInFont .zeros false 0).afterCall 0
      (.load [0x60, 0x0f, 0xf0, 0x29, 0xd0, 0x15] none)).Unwritten endingInFont .zeros endingInFont.IsFont :=
    (Unwritten.new false 0).call 0 _ (by decide +kernel)
  have unwritten : asking.Unwritten endingInFont .zeros endingInFont.IsFont :=
    loaded.call 0 .step (by decide +kernel)
  have sound := unwritten.reachable.sound
  obtain ⟨running, ticks, faces, digit⟩ : asking.halted = false ∧ (asking.tick 0).isOk = true ∧
      asking.core.word?.bind Operation.decode = some .loadGlyph ∧ asking.askedDigit = 15 := by
    decide +kernel
  obtain ⟨_, _, _, reachable⟩ := font_reachable endingInFont .zeros
  obtain ⟨m', performs, unwritten', _, _, _, draws⟩ :=
    reachable asking 0 unwritten ⟨running, ticks, sound.core.faces_iff.mpr faces⟩
  obtain rfl : asking.stepped 0 = m' := performs.stepped
  obtain ⟨running', ticks', faces', index, le, rows, x, y⟩ :
      (asking.stepped 0).halted = false ∧ ((asking.stepped 0).tick 0).isOk = true ∧
      (asking.stepped 0).core.word?.bind Operation.decode = some .draw ∧ (asking.stepped 0).state.index = 123 ∧
      (asking.stepped 0).core.nextWord.n ≤ 5 ∧
      (glyph asking.askedDigit).take (asking.stepped 0).core.nextWord.n = [0xf0, 0x80, 0xf0, 0x80, 0x80] ∧
      (asking.stepped 0).state.value (asking.stepped 0).core.nextWord.x = 15 ∧
      (asking.stepped 0).state.value (asking.stepped 0).core.nextWord.y = 0 := by
    decide +kernel
  have about : (asking.stepped 0).AboutTo endingInFont 0 .draw :=
    ⟨running', ticks', (performs.sound sound).core.faces_iff.mpr faces'⟩
  obtain ⟨m₂, drawn, screen⟩ := draws _ 0 unwritten' rfl about le
  rw [rows, x, y] at screen
  exact ⟨unwritten, digit, _, m₂, performs, index, drawn, screen⟩

end Machine
end Chip8
