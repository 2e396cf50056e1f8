import Chip8.Machine
import Chip8.Proofs.Memory
import Chip8.Proofs.Screen
import Chip8.Proofs.State

namespace Chip8.Core

structure Sound (config : Config) (c : Core) : Prop where
  valid : c.state.Valid
  depth : c.state.stackDepth = config.stackDepth
  returns : ∀ a ∈ c.state.calls, 0 ≤ a ∧ a ≤ 0xffff
  size : c.memory.size = config.memorySize
  wraps : c.memory.wraps = config.wraps
  width : c.screen.width = config.width
  height : c.screen.height = config.height

namespace Sound

variable {config : Config} {c : Core}

theorem registers_length (h : c.Sound config) : c.state.registers.length = 16 :=
  h.valid.registers

theorem memory_pos (h : c.Sound config) : 0 < c.memory.size :=
  h.size ▸ config.memorySize_pos

theorem wraps_of_wrap (h : c.Sound config) (mode : config.addressMode = .wrap) : c.memory.wraps = true := by
  rw [h.wraps, Config.wraps, mode]
  rfl

theorem width_pos (h : c.Sound config) : 0 < c.screen.width := by
  have := config.width_pos
  have := h.width
  omega

theorem height_pos (h : c.Sound config) : 0 < c.screen.height := by
  have := config.height_pos
  have := h.height
  omega

theorem size_pixels (h : c.Sound config) : c.screen.pixels.size = config.width * config.height := by
  rw [c.screen.size_pixels, h.width, h.height]
  exact Int.toNat_natCast (config.width * config.height)

-- A state that takes over the stack.
theorem withState {s : State} (h : c.Sound config) (valid : s.Valid)
    (depth : s.stackDepth = c.state.stackDepth := by rfl)
    (calls : s.calls = c.state.calls := by rfl) : { c with state := s }.Sound config :=
  { h with
    valid := valid
    depth := depth.trans h.depth
    returns := by simpa only [calls] using h.returns }

theorem withMemory {m : Memory} (h : c.Sound config) (size : m.size = c.memory.size)
    (wraps : m.wraps = c.memory.wraps) : { c with memory := m }.Sound config :=
  { h with
    size := size.trans h.size
    wraps := wraps.trans h.wraps }

theorem withScreen {s : Screen} (h : c.Sound config) (alike : s.Alike c.screen) :
    { c with screen := s }.Sound config :=
  { h with
    width := alike.1.trans h.width
    height := alike.2.trans h.height }

theorem withWait (h : c.Sound config) (wait : Option KeySet) : { c with wait := wait }.Sound config :=
  { h with }

theorem withKeys (h : c.Sound config) (keys : KeySet) : { c with keys := keys }.Sound config :=
  { h with }

theorem withSource (h : c.Sound config) (source : Source) :
    { c with source := source }.Sound config :=
  { h with }

end Sound

-- The core that a configuration asks for is sound. The font fits, so it changes no size.
theorem new_sound (config : Config) (source : Source) : (Core.new config source).Sound config where
  valid := by
    have := config.startPc_lt
    have := config.memorySize_le
    exact State.initial_valid (by omega) (Int.natCast_nonneg _)
  depth := rfl
  returns := by simp [Core.new, State.initial]
  size := by
    have := config.font_fits
    rw [Core.new, Memory.size_place, Memory.size_blank]
    rw [Memory.size_blank]
    omega
  wraps := rfl
  width := rfl
  height := rfl

end Chip8.Core
