import Chip8.Proofs.BlockTransfer
import Chip8.Proofs.Flow

namespace Chip8

-- Coming back to zero keeps the residues modulo the divisors of 65536.
theorem word_emod {a size : Int} (start : 0 ≤ a) (near : a < 0x10000 ∨ size ∣ 0x10000) : word a % size = a % size := by
  cases near with
  | inl below => rw [word, Int.emod_eq_of_lt start below]
  | inr divides => exact Int.emod_emod_of_dvd a divides

-- Where an address comes back to zero just once, it keeps no other residues.
theorem word_emod_iff {a size : Int} (range : 0 ≤ a ∧ a < 0x20000) :
    word a % size = a % size ↔ a < 0x10000 ∨ size ∣ 0x10000 := by
  refine ⟨fun same => ?_, word_emod range.1⟩
  by_cases below : a < 0x10000
  case pos => exact .inl below
  case neg =>
    have back : a - word a = 0x10000 := by
      unfold word
      omega
    exact .inr (back ▸ Int.dvd_of_emod_eq_zero (Int.emod_eq_emod_iff_emod_sub_eq_zero.mp same.symm))

namespace Memory

variable {m m' : Memory} {a b : Int} {j k : Nat} {vs : List Int}

-- Values lie in the ring from a cell on, as far as no later ones have come to their cells, and the cells where none
-- came are as they were.
structure Filled (m : Memory) (j : Nat) (vs : List Int) (m' : Memory) : Prop where
  filled : ∀ t < vs.length, vs.length ≤ t + m.size →
    m'.cells[(j + t) % m.size]?.map (fun b => (b.toNat : Int)) = vs[t]?
  spared : ∀ i : Nat, (∀ t < vs.length, (j + t) % m.size ≠ i) → m'.cells[i]? = m.cells[i]?

theorem cell?_of_wraps (wraps : m.wraps = true) (pos : 0 < m.size) (a : Int) : m.cell? a = some (a % m.size).toNat :=
  cell?_of_reaches pos (.inl wraps)

theorem cell?_congr (wraps : m.wraps = true) (pos : 0 < m.size) (same : a % m.size = b % m.size) :
    m.cell? a = m.cell? b := by
  rw [cell?_of_wraps wraps pos, cell?_of_wraps wraps pos, same]

theorem cell?_add (wraps : m.wraps = true) (pos : 0 < m.size) (cell : m.cell? a = some j) (k : Nat) :
    m.cell? (a + k) = some ((j + k) % m.size) := by
  rw [cell?_of_wraps wraps pos, Option.some.injEq] at cell ⊢
  have range := Int.emod_nonneg a (show (m.size : Int) ≠ 0 by omega)
  have shifted := Int.emod_add_emod a m.size k
  rw [show a % m.size = (j : Int) by omega] at shifted
  rw [← shifted]
  rfl

-- Whether the address `k` further on still names the cell `k` further round the ring, once it has come back to zero.
theorem cell?_word_iff (wraps : m.wraps = true) (pos : 0 < m.size) (cell : m.cell? a = some j)
    (range : 0 ≤ a + k ∧ a + k < 0x20000) :
    m.cell? (word (a + k)) = some ((j + k) % m.size) ↔ a + k < 0x10000 ∨ m.size ∣ 0x10000 := by
  have nonzero : (m.size : Int) ≠ 0 := by omega
  have here := Int.emod_nonneg (a + k) nonzero
  have there := Int.emod_nonneg (word (a + k)) nonzero
  have divides : m.size ∣ 0x10000 ↔ (m.size : Int) ∣ 0x10000 := Int.natCast_dvd_natCast.symm
  rw [← cell?_add wraps pos cell, cell?_of_wraps wraps pos, cell?_of_wraps wraps pos, Option.some.injEq, divides,
    ← word_emod_iff range]
  omega

theorem poke_congr (wraps : m.wraps = true) (pos : 0 < m.size) (same : a % m.size = b % m.size) (v : Int) :
    m.poke a v = m.poke b v := by
  have cell := cell?_of_wraps wraps pos a
  obtain ⟨i, here, first⟩ := exists_of_cell? cell
  obtain ⟨k, there, second⟩ := exists_of_cell? ((cell?_congr wraps pos same).symm.trans cell)
  simp only [poke, here, there, Fin.ext (first.trans second.symm)]

theorem store_congr (wraps : m.wraps = true) (pos : 0 < m.size) (same : a % m.size = b % m.size) (vs : List Int) :
    m.store a vs = m.store b vs := by
  induction vs generalizing m a b with
  | nil => rfl
  | cons v vs ih =>
    rw [store, store, poke_congr wraps pos same]
    refine ih ((wraps_poke ..).trans wraps) ((size_poke ..).symm ▸ pos) ?_
    rw [size_poke, ← Int.emod_add_emod, same, Int.emod_add_emod]

theorem filled_store (wraps : m.wraps = true) (pos : 0 < m.size) (cell : m.cell? a = some j)
    (bytes : ∀ v ∈ vs, 0 ≤ v ∧ v ≤ 0xff) : m.Filled j vs (m.store a vs) := by
  constructor
  case filled =>
    -- The last value is the one that may have replaced an earlier one.
    induction vs using List.reverseRecOn with
    | nil => nofun
    | append_singleton vs v ih =>
      intro t here latest
      rw [List.length_append, List.length_singleton] at here latest
      have last := cell?_add wraps pos cell vs.length
      rw [store_concat]
      by_cases earlier : t < vs.length
      case pos =>
        have apart : (m.store a vs).cell? (a + vs.length) ≠ some ((j + t) % m.size) := by
          intro again
          rw [cell?_store, last, Option.some.injEq] at again
          have round := Nat.sub_mod_eq_zero_of_mod_eq again
          rw [Nat.mod_eq_of_lt (by omega)] at round
          omega
        have before := List.forall_mem_append.mp bytes
        rw [getElem?_poke apart, ih before.1 t earlier (by omega), List.getElem?_append_left earlier]
      case neg =>
        obtain rfl : t = vs.length := by omega
        have value := toNat_ofInt_of_range (bytes v (by simp))
        rw [getElem?_poke_self ((cell?_store ..).trans last), Option.map_some, value, List.getElem?_concat_length]
  case spared =>
    intro i apart
    refine getElem?_store fun t inside names => apart t inside ?_
    rwa [cell?_add wraps pos cell, Option.some.injEq] at names

end Memory

namespace Machine

variable {config : Config} {source : Source} {m m' m₁ m₂ : Machine} {now : Float} {e : Entry} {op : Operation}
  {vs : List Int} {j : Nat}

-- The registers that a block transfer stores or loads if it is the next instruction.
def block (m : Machine) : List Int :=
  m.state.registers.take (m.core.nextWord.x + 1)

-- Values are stored block by block, by steps that follow each other.
inductive Fills (m : Machine) : List Int → Machine → Prop
  | none : Fills m [] m
  | more {vs : List Int} {now : Float} {m₁ m₂ : Machine} :
    Fills m vs m₁ → m₁.Performs now .storeRegisters m₂ → Fills m (vs ++ m₁.block) m₂

theorem Performs.sound (h : m.Sound config) (p : m.Performs now op m') : m'.Sound config :=
  p.stepped ▸ (changes_step m now).sound h

theorem length_block (h : m.Sound config) : m.block.length = m.core.nextWord.x + 1 :=
  Core.length_block h.core.registers_length (Opcode.x_lt _)

-- The word of a step begins with the byte that its counter names.
theorem first_byte_of_step (h : m.Sound config) (wrap : config.addressMode = .wrap) (s : m.step now = .ok e m')
    (cell : m.core.memory.cell? m.state.pc = some j) :
    ∃ b, m.core.memory.cells[j]? = some b ∧ e.opcode.toNat / 0x100 = b.toNat := by
  have fetches : m.core.Fetches config := fun strict => by cases wrap.symm.trans strict
  have fetched := fetched_of_step h s
  rw [Core.word?_of_fetches h.core fetches] at fetched
  refine ⟨_, Memory.getElem?_of_cell? cell, ?_⟩
  have low := (m.core.memory.byteAt (m.core.state.pc + 1)).toNat_lt
  rw [Entry.opcode, fetched, Option.getD_some, Core.nextWord, Opcode.toNat_ofBytes, state]
  omega

-- A block goes to the addresses from the index register on, which moves behind the last of them.
theorem Performs.stores (h : m.Sound config) (wrap : config.addressMode = .wrap)
    (p : m.Performs now .storeRegisters m') :
    m'.core.memory = m.core.memory.store m.state.index m.block ∧ m'.state.index =
      if config.advancesIndex then word (m.state.index + (m.core.nextWord.x + 1)) else m.state.index := by
  obtain ⟨delay, sound, halted, cycles, _, core⟩ := p.leaves h
  rw [Core.after_storeBlock (Memory.reach_of_wraps (by exact h.core.wraps_of_wrap wrap) ..)] at core
  simp only [state, core, Core.modifyState, Core.withBlockStored, State.advance_eq]
  exact ⟨rfl, rfl⟩

theorem Performs.loads (h : m.Sound config) (wrap : config.addressMode = .wrap)
    (p : m.Performs now .loadRegisters m') : m'.state.index =
      if config.advancesIndex then word (m.state.index + (m.core.nextWord.x + 1)) else m.state.index := by
  obtain ⟨delay, sound, halted, cycles, _, core⟩ := p.leaves h
  rw [Core.after_loadBlock (Memory.reach_of_wraps (by exact h.core.wraps_of_wrap wrap) ..)] at core
  simp only [state, core, Core.modifyState, Core.withBlockLoaded, State.advance_eq]
  rfl

-- What the steps before the last one have stored lies at the addresses from the first one's index register on.
namespace Fills

theorem sound (h : m.Sound config) (f : m.Fills vs m₁) : m₁.Sound config := by
  induction f with
  | none => exact h
  | more _ p ih => exact p.sound ih

theorem bytes (h : m.Sound config) (f : m.Fills vs m₁) : ∀ v ∈ vs, 0 ≤ v ∧ v ≤ 0xff := by
  induction f with
  | none => nofun
  | more f _ ih =>
    refine List.forall_mem_append.mpr ⟨ih, fun v hv => ?_⟩
    exact (f.sound h).core.valid.bytes v (List.mem_of_mem_take hv)

theorem index (h : m.Sound config) (wrap : config.addressMode = .wrap) (advances : config.advancesIndex = true)
    (f : m.Fills vs m₁) : m₁.state.index = word (m.state.index + vs.length) := by
  induction f with
  | none =>
    have range : 0 ≤ m.state.index ∧ m.state.index ≤ 0xffff := h.core.valid.index
    rw [List.length_nil, Int.natCast_zero, Int.add_zero, word, Int.emod_eq_of_lt range.1 (by omega)]
  | more f p ih =>
    have sound := f.sound h
    obtain ⟨_, index⟩ := p.stores sound wrap
    rw [index, if_pos advances, ih, word_add, List.length_append, length_block sound]
    congr 1
    omega

-- A further block goes on where the blocks before it end, if the index register has not come back to zero by then or
-- has come to the same cell.
theorem memory_more (h : m.Sound config) (wrap : config.addressMode = .wrap) (advances : config.advancesIndex = true)
    (f : m.Fills vs m₁) (near : m.state.index + vs.length < 0x10000 ∨ config.memorySize ∣ 0x10000)
    (before : m₁.core.memory = m.core.memory.store m.state.index vs) (p : m₁.Performs now .storeRegisters m₂) :
    m₂.core.memory = m.core.memory.store m.state.index (vs ++ m₁.block) := by
  have range : 0 ≤ m.state.index ∧ m.state.index ≤ 0xffff := h.core.valid.index
  have sound := f.sound h
  have same : word (m.state.index + vs.length) % config.memorySize = (m.state.index + vs.length) % config.memorySize :=
    word_emod (by omega) (near.imp_right Int.natCast_dvd_natCast.mpr)
  rw [← f.index h wrap advances, ← sound.core.size] at same
  rw [(p.stores sound wrap).1, Memory.store_congr (sound.core.wraps_of_wrap wrap) sound.core.memory_pos same, before,
    Memory.store_append]

theorem memory (h : m.Sound config) (wrap : config.addressMode = .wrap) (advances : config.advancesIndex = true)
    (f : m.Fills vs m₁) (near : m.state.index + vs.length < 0x10000 ∨ config.memorySize ∣ 0x10000) :
    m₁.core.memory = m.core.memory.store m.state.index vs := by
  induction f with
  | none => rfl
  | @more vs _ m₁ _ f p ih =>
    rw [List.length_append] at near
    have nearer : m.state.index + vs.length < 0x10000 ∨ config.memorySize ∣ 0x10000 := near.imp_left (by omega)
    exact f.memory_more h wrap advances nearer (ih nearer) p

end Fills

-- A register that has moved on by `k` and come back to zero at the end of its range, and the cell that it names then.
theorem cell?_word_iff {a : Int} {k : Nat} (h : m.Sound config) (h' : m'.Sound config)
    (wrap : config.addressMode = .wrap) (cell : m.core.memory.cell? a = some j) (range : 0 ≤ a + k ∧ a + k < 0x20000) :
    m'.core.memory.cell? (word (a + k)) = some ((j + k) % config.memorySize) ↔
      a + k < 0x10000 ∨ config.memorySize ∣ 0x10000 := by
  have size := h'.core.size
  rw [Memory.cell?_eq, h.core.size, h.core.wraps, ← size, ← h'.core.wraps, ← Memory.cell?_eq] at cell
  rw [← size]
  exact Memory.cell?_word_iff (h'.core.wraps_of_wrap wrap) h'.core.memory_pos cell range

-- Where addresses wrap, an instruction that passes on is followed by the one two cells further round the ring, and a
-- block transfer leaves the index register at the cell behind the last one of its block, exactly if the register in
-- question has not come back to zero or the size of memory divides 65536. Up to there, blocks that are stored one after
-- another fill the ring one cell after another.
theorem ring_access (r : m.Reachable config source) (wrap : config.addressMode = .wrap) :
    (∃ j, m.core.memory.cell? m.state.pc = some j ∧
      (∀ now e m', m.step now = .ok e m' →
        ∃ b, m.core.memory.cells[j]? = some b ∧ e.opcode.toNat / 0x100 = b.toNat) ∧
      ∀ now op m', m.Performs now op m' → op.passesOn m.core.nextWord m.core = true →
        (m'.core.memory.cell? m'.state.pc = some ((j + 2) % config.memorySize) ↔
          m.state.pc + 2 < 0x10000 ∨ config.memorySize ∣ 0x10000)) ∧
    (config.advancesIndex = true →
      (∀ now op m', op = .storeRegisters ∨ op = .loadRegisters → m.Performs now op m' →
        ∃ j, m.core.memory.cell? (m.state.index + m.core.nextWord.x) = some j ∧
          (m'.core.memory.cell? m'.state.index = some ((j + 1) % config.memorySize) ↔
            m.state.index + m.core.nextWord.x + 1 < 0x10000 ∨ config.memorySize ∣ 0x10000)) ∧
      ∀ vs m₁ now m₂, m.Fills vs m₁ → m₁.Performs now .storeRegisters m₂ →
        m.state.index + vs.length < 0x10000 ∨ config.memorySize ∣ 0x10000 →
        ∃ j, m.core.memory.cell? m.state.index = some j ∧
          m.core.memory.Filled j (vs ++ m₁.block) m₂.core.memory) := by
  have h := r.sound
  have wraps := h.core.wraps_of_wrap wrap
  have pos := h.core.memory_pos
  have pc : 0 ≤ m.state.pc ∧ m.state.pc ≤ 0xffff := h.core.valid.pc
  have index : 0 ≤ m.state.index ∧ m.state.index ≤ 0xffff := h.core.valid.index
  refine ⟨⟨_, Memory.cell?_of_wraps wraps pos _, ?_, ?_⟩, fun advances => ⟨?_, ?_⟩⟩
  case refine_1 =>
    intro now e m' s
    exact first_byte_of_step h wrap s (Memory.cell?_of_wraps wraps pos _)
  case refine_2 =>
    intro now op m' p on
    rw [p.passes h on]
    exact cell?_word_iff (k := 2) h (p.sound h) wrap (Memory.cell?_of_wraps wraps pos _) (by omega)
  case refine_3 =>
    intro now op m' transfer p
    have behind : m'.state.index = word (m.state.index + m.core.nextWord.x + (1 : Nat)) := by
      rw [Int.add_assoc]
      obtain rfl | rfl := transfer
      · exact (p.stores h wrap).2.trans (if_pos advances)
      · exact (p.loads h wrap).trans (if_pos advances)
    have x := m.core.nextWord.x_lt
    refine ⟨_, Memory.cell?_of_wraps wraps pos _, ?_⟩
    rw [behind]
    exact cell?_word_iff h (p.sound h) wrap (Memory.cell?_of_wraps wraps pos _) (by omega)
  case refine_4 =>
    intro vs m₁ now m₂ f p near
    refine ⟨_, Memory.cell?_of_wraps wraps pos _, ?_⟩
    rw [f.memory_more h wrap advances near (f.memory h wrap advances near) p]
    exact Memory.filled_store wraps pos (Memory.cell?_of_wraps wraps pos _) ((Fills.more f p).bytes h)

-- A machine about to store two registers twice, the first of them in the last cell to begin with.
def circling : Machine :=
  (Machine.new (.small .wrap) .zeros false 0).afterCalls
    [(0, .load [0x60, 0xaa, 0x61, 0xbb, 0xa0, 0x7f, 0xf1, 0x55, 0xf1, 0x55] none), (0, .run (some 3))]

theorem circling_fills :
    let m₁ := circling.stepped 0
    let m₂ := m₁.stepped 0
    circling.Performs 0 .storeRegisters m₁ ∧ m₁.Performs 0 .storeRegisters m₂ ∧
      m₁.core.memory.cell? m₁.state.pc = some 0x68 ∧ m₁.core.memory.cell? m₁.state.index = some 1 ∧
      m₂.core.memory.cells[0x7f]?.map (fun b => (b.toNat : Int)) = some 0xaa ∧
      m₂.core.memory.cells[0]?.map (fun b => (b.toNat : Int)) = some 0xbb ∧
      m₂.core.memory.cells[1]?.map (fun b => (b.toNat : Int)) = some 0xaa ∧
      m₂.core.memory.cells[2]?.map (fun b => (b.toNat : Int)) = some 0xbb := by
  intro m₁ m₂
  have reachable : circling.Reachable (.small .wrap) .zeros := (Reachable.new false 0).calls _
  have first : circling.Performs 0 .storeRegisters m₁ := performs_stepped (by decide +kernel)
  have second : m₁.Performs 0 .storeRegisters m₂ := performs_stepped (by decide +kernel)
  obtain ⟨size, counter, passesOn, index, lastCell, block, block₁⟩ :
      circling.core.memory.size = 128 ∧ circling.core.memory.cell? circling.state.pc = some 0x66 ∧
      Operation.storeRegisters.passesOn circling.core.nextWord circling.core = true ∧
      circling.core.memory.cell? circling.state.index = some 0x7f ∧
      circling.core.memory.cell? (circling.state.index + circling.core.nextWord.x) = some 0 ∧
      circling.block = [0xaa, 0xbb] ∧ (circling.stepped 0).block = [0xaa, 0xbb] := by
    decide +kernel
  obtain ⟨⟨j, here, _, passes⟩, transfers⟩ := ring_access reachable rfl
  obtain ⟨behind, fills⟩ := transfers rfl
  obtain ⟨k, last, moves⟩ := behind _ _ _ (.inl rfl) first
  obtain ⟨i, start, filled⟩ := fills _ _ _ _ (.more .none first) second (.inr (by decide))
  cases here.symm.trans counter
  cases last.symm.trans lastCell
  cases start.symm.trans index
  have values := filled.filled
  rw [block, block₁, size] at values
  have divides : (Config.small .wrap).memorySize ∣ 0x10000 := by decide
  exact ⟨first, second, (passes _ _ _ first passesOn).mpr (.inr divides), moves.mpr (.inr divides),
    values 0 (by decide) (by decide), values 1 (by decide) (by decide), values 2 (by decide) (by decide),
    values 3 (by decide) (by decide)⟩

end Machine

-- A configuration with one cell less than there are addresses, where the program starts in the last cell, on the last
-- byte of the font.
def Config.odd : Config :=
  { Config.small .wrap with
    memorySize := 0xffff
    startPc := 0xfffe
    fontAddress := 0xffaf
    memorySize_le := by decide
    startPc_lt := by decide
    font_fits := by decide }

namespace Machine

theorem odd_leaves_ring :
    let m := Machine.new .odd .zeros false 0
    m.Reachable .odd .zeros ∧ m.core.memory.cell? m.state.pc = some 0xfffe ∧
      ∃ m', m.Performs 0 .load m' ∧ Operation.load.passesOn m.core.nextWord m.core = true ∧
        m'.core.memory.cell? m'.state.pc = some 0 ∧
        m'.core.memory.cell? m'.state.pc ≠ some ((0xfffe + 2) % Config.odd.memorySize) := by
  intro m
  have reachable : m.Reachable .odd .zeros := .new false 0
  have h := reachable.sound
  have cell (a : Int) : m.core.memory.cell? a = some (a % 0xffff).toNat :=
    (Memory.cell?_of_wraps (h.core.wraps_of_wrap rfl) h.core.memory_pos a).trans (by rw [h.core.size]; rfl)
  have blank : (Memory.blank Config.odd.memorySize Config.odd.wraps).size = 0xffff := Memory.size_blank ..
  have holds : m.core.memory.Holds Config.odd.fontAddress font := Memory.holds_place (by rw [blank]; decide)
  have high : m.core.memory.byteAt m.core.state.pc = 0x80 := Memory.byteAt_of_getElem? (holds 79 (by decide))
  have first : m.core.memory.cells[0]? = some 0 := by
    refine (Memory.getElem?_place_of_apart font (by rw [blank]; decide) (.inl (by decide))).trans ?_
    simp [Config.odd, Memory.blank]
  have low : m.core.memory.byteAt (m.core.state.pc + 1) = 0 :=
    Option.some.inj ((Memory.getElem?_of_cell? (cell (m.core.state.pc + 1))).symm.trans first)
  have word : m.core.nextWord = 0x8000 := by
    rw [Core.nextWord, high, low]
    rfl
  have faces : m.core.Faces .odd .load :=
    ⟨fun strict => absurd strict (by decide), word ▸ Operation.isMeant_of_decode (by decide +kernel)⟩
  obtain ⟨_, _, t⟩ := tick_of_isOk (show (m.tick 0).isOk = true by decide +kernel)
  obtain ⟨m', p⟩ := exists_performs h rfl t faces rfl
  have back : m'.core.memory.cell? m'.state.pc = some 0 := by
    rw [p.passes h rfl, Memory.cell?_of_wraps ((p.sound h).core.wraps_of_wrap rfl) (p.sound h).core.memory_pos,
      (p.sound h).core.size]
    rfl
  exact ⟨reachable, cell _, m', p, rfl, back, back ▸ by decide⟩

end Machine
end Chip8
