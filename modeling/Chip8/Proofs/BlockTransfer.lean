import Chip8.Proofs.Footprint

namespace Chip8

-- Values have been stored from an address on, each in a cell of its own, and no other cell has changed.
structure Memory.Stored (m : Memory) (a : Int) (vs : List Int) (m' : Memory) : Prop where
  own : m.OwnCells a vs.length
  stored : ∀ i < vs.length, ∀ j, m.cell? (a + (i : Nat)) = some j →
    m'.cells[j]?.map (fun b => (b.toNat : Int)) = vs[i]?
  spared : ∀ j : Nat, (∀ i < vs.length, m.cell? (a + (i : Nat)) ≠ some j) → m'.cells[j]? = m.cells[j]?

theorem Memory.OwnCells.stored {m : Memory} {a : Int} {vs : List Int} (own : m.OwnCells a vs.length)
    (bytes : ∀ v ∈ vs, 0 ≤ v ∧ v ≤ 0xff) : m.Stored a vs (m.store a vs) where
  own := own
  stored := by
    intro i inside j cell
    have same := toNat_ofInt_of_range (bytes _ (List.getElem_mem inside))
    rw [own.getElem?_store inside cell, Option.map_some, same, List.getElem?_eq_getElem inside]
  spared _ apart := Memory.getElem?_store apart

namespace Core

open Operation

-- The registers up to `x` have been stored, each in a cell of its own, and the index register has moved behind them.
structure BlockStored (d : Dialect) (x : Nat) (c c' : Core) : Prop where
  own : c.memory.OwnCells c.state.index (x + 1)
  stored : ∀ i ≤ x, ∀ j, c.memory.cell? (c.state.index + (i : Nat)) = some j →
    c'.memory.cells[j]?.map (fun b => (b.toNat : Int)) = c.state.registers[i]?
  spared : ∀ j : Nat, (∀ i ≤ x, c.memory.cell? (c.state.index + (i : Nat)) ≠ some j) →
    c'.memory.cells[j]? = c.memory.cells[j]?
  size : c'.memory.size = c.memory.size
  wraps : c'.memory.wraps = c.memory.wraps
  rest : c' = { c with
    memory := c'.memory
    state := { c.state with index := if d.advancesIndex then word (c.state.index + (x + 1)) else c.state.index } }

-- The registers up to `x` have been loaded, as they were once, and the index register has moved behind their cells.
structure BlockLoaded (d : Dialect) (x : Nat) (once : State) (c c' : Core) : Prop where
  loaded : ∀ i ≤ x, c'.state.registers[i]? = once.registers[i]?
  spared : ∀ i : Nat, x < i → c'.state.registers[i]? = c.state.registers[i]?
  rest : c' = { c with
    state := { c.state with
      registers := c'.state.registers
      index := if d.advancesIndex then word (c.state.index + (x + 1)) else c.state.index } }

variable {config : Config} {c c' : Core} {d : Dialect} {w : Opcode} {x y : Nat}

theorem length_block (len : c.state.registers.length = 16) (hx : x < 16) :
    (c.state.registers.take (x + 1)).length = x + 1 :=
  List.length_take_of_le (len ▸ hx)

-- A block of registers has no address beyond memory, or addresses wrap.
theorem reach_block (size : c.memory.size = config.memorySize) (wraps : c.memory.wraps = config.wraps)
    (fits : config.addressMode = .strict → c.state.index + x < config.memorySize) (le : y ≤ x) :
    c.memory.reach c.state.index (y + 1) = y + 1 := by
  refine Nat.le_antisymm (c.memory.reach_le ..) (Nat.not_lt.mp fun short => ?_)
  obtain ⟨strict, _, beyond⟩ := Memory.reach_lt_iff.mp short
  rw [wraps, Config.wraps] at strict
  cases mode : config.addressMode with
  | wrap => simp [mode] at strict
  | strict =>
    have inside := fits mode
    omega

theorem ownCells_block (index : 0 ≤ c.state.index) (size : c.memory.size = config.memorySize) (hx : x < 16)
    (full : c.memory.reach c.state.index (x + 1) = x + 1) : c.memory.OwnCells c.state.index (x + 1) := by
  have font := config.font_fits
  refine .of_reaches ?_ fun i hi => Memory.reaches_of_lt_reach index (full.symm ▸ hi)
  simp only [fontSize] at font
  omega

-- A core that has stored the registers up to `x`.
def withBlockStored (d : Dialect) (x : Nat) (c : Core) : Core :=
  { c with
    memory := c.memory.store c.state.index (c.state.registers.take (x + 1))
    state := c.state.advance d (x + 1) }

-- A core that has loaded the registers up to `x`.
def withBlockLoaded (d : Dialect) (x : Nat) (c : Core) : Core :=
  c.modifyState fun s => (s.load (c.memory.bytesFrom s.index (x + 1))).advance d (x + 1)

theorem shortage?_block (full : c.memory.reach c.state.index (x + 1) = x + 1) :
    c.memory.shortage? c.state.index (x + 1) = none :=
  if_neg (full.symm ▸ Nat.lt_irrefl _)

theorem after_storeBlock (full : c.memory.reach c.state.index (w.x + 1) = w.x + 1) :
    storeRegisters.after d w c = c.withBlockStored d w.x := by
  have fine : storeRegisters.failure? w c = none := shortage?_block full
  simp only [after, fine, full]
  rfl

theorem after_loadBlock (full : c.memory.reach c.state.index (w.x + 1) = w.x + 1) :
    loadRegisters.after d w c = c.withBlockLoaded d w.x := by
  have fine : loadRegisters.failure? w c = none := shortage?_block full
  simp only [after, fine, full]
  rfl

theorem perform_storeBlock (len : c.state.registers.length = 16) (pos : 0 < c.memory.size) (index : 0 ≤ c.state.index)
    (full : c.memory.reach c.state.index (w.x + 1) = w.x + 1) :
    storeRegisters.perform d w c = .ok () (c.withBlockStored d w.x) := by
  have fine : storeRegisters.failure? w c = none := shortage?_block full
  rw [perform_storeRegisters len pos index, fine, after_storeBlock full]
  rfl

theorem perform_loadBlock (len : c.state.registers.length = 16) (pos : 0 < c.memory.size) (index : 0 ≤ c.state.index)
    (full : c.memory.reach c.state.index (w.x + 1) = w.x + 1) :
    loadRegisters.perform d w c = .ok () (c.withBlockLoaded d w.x) := by
  have fine : loadRegisters.failure? w c = none := shortage?_block full
  rw [perform_loadRegisters len pos index, fine, after_loadBlock full]
  rfl

theorem blockStored (bytes : c.state.HasBytes) (hx : x < 16) (own : c.memory.OwnCells c.state.index (x + 1)) :
    c.BlockStored d x (c.withBlockStored d x) := by
  have length := length_block bytes.length hx
  have block : c.memory.Stored c.state.index (c.state.registers.take (x + 1)) (c.withBlockStored d x).memory :=
    (length.symm ▸ own).stored fun v hv => bytes.bytes v (List.mem_of_mem_take hv)
  refine ⟨own, ?_, ?_, Memory.size_store .., Memory.wraps_store .., ?_⟩
  case refine_1 =>
    intro i hi j cell
    rw [block.stored i (by omega) j cell, List.getElem?_take_of_lt (by omega)]
  case refine_2 =>
    intro j apart
    exact block.spared j fun i hi => apart i (by omega)
  case refine_3 =>
    rw [withBlockStored, State.advance_eq]
    rfl

-- The bytes that have been stored are the values once more.
theorem registers_withBlockLoaded {m : Memory} {vs : List Int} (bytes : ∀ v ∈ vs, 0 ≤ v ∧ v ≤ 0xff)
    (own : m.OwnCells c.state.index vs.length) (le : y + 1 ≤ vs.length) (memory : c.memory = m.store c.state.index vs) :
    (c.withBlockLoaded d y).state.registers = vs.take (y + 1) ++ c.state.registers.drop (y + 1) := by
  have once := fun v (hv : v ∈ vs.take (y + 1)) => bytes v (List.mem_of_mem_take hv)
  simp only [withBlockLoaded, modifyState, State.advance_eq]
  rw [memory, own.bytesFrom_store le, State.load_ofInt once, List.length_take_of_le le]

theorem blockLoaded (bytes : c.state.HasBytes) (hx : x < 16) (own : c.memory.OwnCells c.state.index (x + 1))
    (le : y ≤ x) (memory : c'.memory = (c.withBlockStored d x).memory) (index : c'.state.index = c.state.index) :
    c'.BlockLoaded d y c.state (c'.withBlockLoaded d y) := by
  have block := length_block bytes.length hx
  have length := length_block bytes.length (Nat.lt_of_le_of_lt le hx)
  have registers := registers_withBlockLoaded (c := c') (d := d) (y := y)
    (fun v hv => bytes.bytes v (List.mem_of_mem_take hv)) (by rwa [index, block]) (by omega)
    (by rw [memory, index]; rfl)
  rw [List.take_take, Nat.min_eq_left (show y + 1 ≤ x + 1 by omega)] at registers
  refine ⟨?_, ?_, ?_⟩
  case refine_1 =>
    intro i hi
    rw [registers, List.getElem?_append_left (by omega), List.getElem?_take_of_lt (by omega)]
  case refine_2 =>
    intro i hi
    rw [registers, List.getElem?_append_right (by omega), List.getElem?_drop, length, Nat.add_sub_of_le hi]
  case refine_3 =>
    simp only [withBlockLoaded, modifyState, State.advance_eq]
    rfl

-- A block of registers is stored in as many cells, and no others change. Loading from the same address brings all of
-- the block or its first registers back, whatever the registers hold by then, and changes nothing else. The index
-- register moves alike behind what is stored and behind what is loaded.
theorem block_transfer (valid : c.state.Valid) (size : c.memory.size = config.memorySize)
    (wraps : c.memory.wraps = config.wraps) (stores : storeRegisters.IsMeant w)
    (fits : config.addressMode = .strict → c.state.index + w.x < config.memorySize) (pc : Int) :
    ∃ c₁, performWord config.dialect pc w c = .ok () c₁ ∧ c.BlockStored config.dialect w.x c₁ ∧
      ∀ (c₂ : Core) (w' : Opcode) (pc' : Int), loadRegisters.IsMeant w' → w'.x ≤ w.x → c₂.memory = c₁.memory →
        c₂.state.index = c.state.index → c₂.state.registers.length = 16 →
        ∃ c₃, performWord config.dialect pc' w' c₂ = .ok () c₃ ∧ c₂.BlockLoaded config.dialect w'.x c.state c₃ ∧
          (w'.x = w.x → c₃.state.index = c₁.state.index) := by
  have bytes := valid.hasBytes
  have index := valid.index.1
  have pos : 0 < c.memory.size := size ▸ config.memorySize_pos
  have full := reach_block size wraps fits (Nat.le_refl w.x)
  have own := ownCells_block index size w.x_lt full
  have stored := blockStored (d := config.dialect) bytes w.x_lt own
  refine ⟨c.withBlockStored config.dialect w.x, ?_, stored, ?_⟩
  case refine_1 => rw [performWord_of_isMeant _ pc stores, perform_storeBlock bytes.length pos index full]
  case refine_2 =>
    intro c₂ w' pc' loads le memory back len
    have loaded := blockLoaded bytes w.x_lt own le memory back
    have size' : c₂.memory.size = config.memorySize := memory ▸ stored.size.trans size
    have wraps' : c₂.memory.wraps = config.wraps := memory ▸ stored.wraps.trans wraps
    have pos' : 0 < c₂.memory.size := size' ▸ config.memorySize_pos
    have full' := reach_block size' wraps' (back ▸ fits) le
    refine ⟨c₂.withBlockLoaded config.dialect w'.x, ?_, loaded, ?_⟩
    case refine_1 => rw [performWord_of_isMeant _ pc' loads, perform_loadBlock len pos' (back ▸ index) full']
    case refine_2 =>
      intro whole
      rw [loaded.rest, stored.rest, back, whole]

-- Two registers on both sides of the end of memory, of which the first is loaded again, and then both.
theorem straddling_transfer :
    ∃ c₁, performWord (Config.small .wrap).dialect 0x66 0xf155 Machine.straddling.core = .ok () c₁ ∧
      c₁.memory.cells[0x7f]?.map (fun b => (b.toNat : Int)) = some 0xaa ∧
      c₁.memory.cells[0]?.map (fun b => (b.toNat : Int)) = some 0xbb ∧
      let c₂ := { c₁ with state := { Machine.straddling.core.state with registers := List.replicate 16 1 } }
      (∃ c₃, performWord (Config.small .wrap).dialect 0x68 0xf065 c₂ = .ok () c₃ ∧
        c₃.state.registers[0]? = some 0xaa ∧ c₃.state.registers[1]? = some 1) ∧
      ∃ c₃, performWord (Config.small .wrap).dialect 0x68 0xf165 c₂ = .ok () c₃ ∧
        c₃.state.registers[0]? = some 0xaa ∧ c₃.state.registers[1]? = some 0xbb ∧
        c₃.state.index = c₁.state.index := by
  have sound : Machine.straddling.core.Sound (.small .wrap) := ((Machine.Reachable.new false 0).calls _).sound.core
  obtain ⟨first, second, last, start⟩ : Machine.straddling.core.state.registers[0]? = some 0xaa ∧
      Machine.straddling.core.state.registers[1]? = some 0xbb ∧
      Machine.straddling.core.memory.cell? (Machine.straddling.core.state.index + (0 : Nat)) = some 0x7f ∧
      Machine.straddling.core.memory.cell? (Machine.straddling.core.state.index + (1 : Nat)) = some 0 := by
    decide +kernel
  generalize Machine.straddling.core = c at sound first second last start ⊢
  obtain ⟨c₁, performed, stored, loads⟩ := block_transfer sound.valid sound.size sound.wraps
    (isMeant_of_decode (w := 0xf155) (by decide +kernel)) nofun 0x66
  have loads := loads { c₁ with state := { c.state with registers := List.replicate 16 1 } }
  have part := loads 0xf065 0x68 (isMeant_of_decode (by decide +kernel)) (by decide) rfl rfl rfl
  have whole := loads 0xf165 0x68 (isMeant_of_decode (by decide +kernel)) (by decide) rfl rfl rfl
  refine ⟨c₁, performed, (stored.stored 0 (by decide) 0x7f last).trans first,
    (stored.stored 1 (by decide) 0 start).trans second, ?_, ?_⟩
  case refine_1 =>
    obtain ⟨c₃, performed, loaded, _⟩ := part
    exact ⟨c₃, performed, (loaded.loaded 0 (by decide)).trans first, loaded.spared 1 (by decide)⟩
  case refine_2 =>
    obtain ⟨c₃, performed, loaded, index⟩ := whole
    exact ⟨c₃, performed, (loaded.loaded 0 (by decide)).trans first, (loaded.loaded 1 (by decide)).trans second,
      index rfl⟩

end Core
end Chip8
