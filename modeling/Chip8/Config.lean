import Chip8.Decimal.Shortest
import Chip8.Text.Quoted

namespace Chip8

-- What is done about an address outside memory: a fault, or its residue modulo the size.
inductive AddressMode where
  | strict
  | wrap
deriving DecidableEq

-- The register whose value an instruction shifts.
inductive ShiftSource where
  | vx
  | vy
deriving DecidableEq

def AddressMode.ofName? (name : String) : Option AddressMode :=
  if name = "strict" then some .strict else if name = "wrap" then some .wrap else none

def AddressMode.name : AddressMode → String
  | strict => "strict"
  | wrap => "wrap"

def ShiftSource.ofName? (name : String) : Option ShiftSource :=
  if name = "vx" then some .vx else if name = "vy" then some .vy else none

def ShiftSource.name : ShiftSource → String
  | vx => "vx"
  | vy => "vy"

-- The points on which programs for the machine disagree.
structure Dialect where
  shiftSource : ShiftSource := .vx
  -- Whether a block transfer leaves the index register behind the block.
  advancesIndex : Bool := true
  fontAddress : Int := 0
deriving DecidableEq

-- What a host gives where a name is asked for: a name, or something else, told by how it is shown.
inductive Choice where
  | named (name : String)
  | unnamed (shown : String)
deriving DecidableEq

namespace Choice

-- What the name stands for.
def pick? {α : Type} (ofName? : String → Option α) : Choice → Option α
  | named name => ofName? name
  | unnamed _ => none

def shown : Choice → String
  | named name => Text.quoted name
  | unnamed shown => shown

end Choice

structure Settings where
  memorySize : Int := 4096
  width : Int := 64
  height : Int := 32
  startPc : Int := 0x200
  stackDepth : Int := 16
  timerHz : Float := 60.0
  fontAddress : Int := 0
  addressMode : Choice := .named "strict"
  shiftSource : Choice := .named "vx"
  advancesIndex : Bool := true
  seed : Option Int := none

def fontSize : Nat := 80

structure Config where
  memorySize : Nat
  width : Nat
  height : Nat
  startPc : Nat
  stackDepth : Nat
  timerHz : Float
  fontAddress : Nat
  addressMode : AddressMode
  shiftSource : ShiftSource
  advancesIndex : Bool
  seed : Option Int
  memorySize_le : memorySize ≤ 0x10000
  width_pos : 0 < width
  height_pos : 0 < height
  startPc_lt : startPc < memorySize
  stackDepth_pos : 0 < stackDepth
  timerHz_pos : ¬ timerHz ≤ 0
  font_fits : fontAddress + fontSize ≤ memorySize

namespace Settings

-- The first parameter that is out of range.
inductive Invalid where
  | memorySize (size : Int)
  | display (width height : Int)
  | startPc (pc : Int)
  | stackDepth (depth : Int)
  | timerHz (hz : Float)
  | fontAddress (address : Int)
  | addressMode (choice : Choice)
  | shiftSource (choice : Choice)

def Invalid.message : Invalid → String
  | memorySize size => s!"memory_size must be in 1..65536, got {size}"
  | display width height => s!"Invalid display size {width}x{height}"
  | startPc pc => s!"start_pc {Text.markedHex 0 pc} outside memory"
  | stackDepth depth => s!"stack_depth must be positive, got {depth}"
  | timerHz hz => s!"timer_hz must be positive, got {(Double.ofFloat hz).text}"
  | fontAddress address => s!"font_address {Text.markedHex 0 address} leaves no room for the font"
  | addressMode choice => s!"address_mode must be one of ('strict', 'wrap'), got {choice.shown}"
  | shiftSource choice => s!"shift_source must be one of ('vx', 'vy'), got {choice.shown}"

-- The checks are made in the order of the fields.
def check (s : Settings) : Except Invalid Config :=
  if size : 0 < s.memorySize ∧ s.memorySize ≤ 0x10000 then
    if display : 0 < s.width ∧ 0 < s.height then
      if start : 0 ≤ s.startPc ∧ s.startPc < s.memorySize then
        if depth : 0 < s.stackDepth then
          if hz : s.timerHz ≤ 0 then .error (.timerHz s.timerHz)
          else if font : 0 ≤ s.fontAddress ∧ s.fontAddress ≤ s.memorySize - fontSize then
            match s.addressMode.pick? AddressMode.ofName?, s.shiftSource.pick? ShiftSource.ofName? with
            | none, _ => .error (.addressMode s.addressMode)
            | some _, none => .error (.shiftSource s.shiftSource)
            | some mode, some source => .ok {
                memorySize := s.memorySize.toNat
                width := s.width.toNat
                height := s.height.toNat
                startPc := s.startPc.toNat
                stackDepth := s.stackDepth.toNat
                timerHz := s.timerHz
                fontAddress := s.fontAddress.toNat
                addressMode := mode
                shiftSource := source
                advancesIndex := s.advancesIndex
                seed := s.seed
                memorySize_le := by omega
                width_pos := by omega
                height_pos := by omega
                startPc_lt := by omega
                stackDepth_pos := by omega
                timerHz_pos := hz
                font_fits := by simp only [fontSize] at font ⊢; omega }
          else .error (.fontAddress s.fontAddress)
        else .error (.stackDepth s.stackDepth)
      else .error (.startPc s.startPc)
    else .error (.display s.width s.height)
  else .error (.memorySize s.memorySize)

end Settings

namespace Config

theorem memorySize_pos (c : Config) : 0 < c.memorySize :=
  Nat.zero_lt_of_lt c.startPc_lt

def dialect (c : Config) : Dialect where
  shiftSource := c.shiftSource
  advancesIndex := c.advancesIndex
  fontAddress := c.fontAddress

def wraps (c : Config) : Bool :=
  c.addressMode = .wrap

def settings (c : Config) : Settings where
  memorySize := c.memorySize
  width := c.width
  height := c.height
  startPc := c.startPc
  stackDepth := c.stackDepth
  timerHz := c.timerHz
  fontAddress := c.fontAddress
  addressMode := .named c.addressMode.name
  shiftSource := .named c.shiftSource.name
  advancesIndex := c.advancesIndex
  seed := c.seed

-- Every configuration is the outcome of a check.
theorem check_settings (c : Config) : c.settings.check = .ok c := by
  have h₁ := c.memorySize_pos
  have h₂ := c.memorySize_le
  have h₃ := c.width_pos
  have h₄ := c.height_pos
  have h₅ := c.startPc_lt
  have h₆ := c.stackDepth_pos
  have h₇ := c.font_fits
  rcases c with ⟨size, width, height, start, depth, hz, font, mode, source, advances, seed⟩
  simp only [fontSize] at h₁ h₂ h₃ h₄ h₅ h₆ h₇
  unfold Settings.check settings
  rw [dif_pos (by constructor <;> simp <;> omega), dif_pos (by constructor <;> simp <;> omega),
    dif_pos (by constructor <;> simp; omega), dif_pos (by simp; omega), dif_neg (by assumption),
    dif_pos (by constructor <;> simp only [fontSize] <;> omega)]
  cases mode <;> cases source <;>
    simp [Choice.pick?, AddressMode.ofName?, AddressMode.name, ShiftSource.ofName?, ShiftSource.name]

end Config
end Chip8
