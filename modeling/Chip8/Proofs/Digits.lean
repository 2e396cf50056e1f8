import Chip8.Proofs.BlockTransfer

namespace Chip8

namespace Memory

variable {m m' : Memory} {a v : Int} {n : Nat}

theorem reaches_of_write (h : m.write a v = .ok m') : m.Reaches a := by
  by_contra outside
  rw [write, cell_of_not_reaches outside] at h
  cases h

theorem reach_eq_of_reaches (reaches : ∀ i < n, m.Reaches (a + (i : Nat))) : m.reach a n = n := by
  refine Nat.le_antisymm (m.reach_le a n) (Nat.not_lt.mp fun short => ?_)
  exact not_reaches_add_reach short (reaches _ short)

end Memory

namespace Operation

theorem digits_range {n v : Int} (byte : 0 ≤ n ∧ n ≤ 0xff) (digit : v ∈ digits n) : 0 ≤ v ∧ v ≤ 9 := by
  simp only [digits, List.mem_cons, List.not_mem_nil, or_false] at digit
  omega

theorem digits_value (n : Int) : 100 * (n / 100) + 10 * (n / 10 % 10) + n % 10 = n := by
  omega

end Operation

namespace Core

open Operation

variable {config : Config} {c c' : Core} {d : Dialect} {w : Opcode}

-- A core that has stored the digits of a register.
def withDigitsStored (c : Core) (x : Nat) : Core :=
  { c with memory := c.memory.store c.state.index (digits (c.state.value x)) }

theorem perform_storeDigits_full (len : c.state.registers.length = 16) (pos : 0 < c.memory.size)
    (index : 0 ≤ c.state.index) (full : c.memory.reach c.state.index 3 = 3) :
    storeDigits.perform d w c = .ok () (c.withDigitsStored w.x) := by
  have fine : storeDigits.failure? w c = none := if_neg (full.symm ▸ Nat.lt_irrefl _)
  rw [perform_storeDigits len pos index, fine]
  simp only [after, full]
  rfl

-- Three registers take the values that have been stored in three cells.
theorem performWord_load_three (pos : 0 < c.memory.size) (index : 0 ≤ c.state.index) {h t u : Int}
    (bytes : ∀ v ∈ [h, t, u], 0 ≤ v ∧ v ≤ 0xff) (reaches : ∀ i < 3, c.memory.Reaches (c.state.index + (i : Nat)))
    (own : c.memory.OwnCells c.state.index 3) (memory : c'.memory = c.memory.store c.state.index [h, t, u])
    (back : c'.state.index = c.state.index) (len : c'.state.registers.length = 16) (pc : Int) :
    ∃ c₃, performWord d pc 0xf265 c' = .ok () c₃ ∧
      c₃.state.value 0 = h ∧ c₃.state.value 1 = t ∧ c₃.state.value 2 = u := by
  have loads : loadRegisters.IsMeant 0xf265 := isMeant_of_decode (by decide +kernel)
  have full : c'.memory.reach c'.state.index 3 = 3 := by
    refine Memory.reach_eq_of_reaches fun i hi => ?_
    rw [memory, Memory.reaches_store, back]
    exact reaches i hi
  have pos' : 0 < c'.memory.size := by
    rw [memory, Memory.size_store]
    exact pos
  have registers := registers_withBlockLoaded (c := c') (d := d) (y := 2) bytes (back.symm ▸ own) (Nat.le_refl 3)
    (back.symm ▸ memory)
  have value (i : Nat) : (c'.withBlockLoaded d 2).state.value i = (h :: t :: u :: c'.state.registers.drop 3).getD i 0 :=
    congrArg (·.getD i 0) registers
  refine ⟨c'.withBlockLoaded d 2, ?_, value 0, value 1, value 2⟩
  rw [performWord_of_isMeant d pc loads]
  exact perform_loadBlock len pos' (back.symm ▸ index) full

-- The digits of a register are stored in the three cells that the next three addresses name, and nothing else changes.
-- Loading three registers from there brings the digits, whatever the registers hold by then.
theorem digits_transfer (valid : c.state.Valid) (size : c.memory.size = config.memorySize)
    (stores : storeDigits.IsMeant w)
    (writes : ∀ i < 3, ∀ v, ∃ m, c.memory.write (c.state.index + (i : Nat)) v = .ok m) (pc : Int) :
    ∃ h t u : Int, (0 ≤ h ∧ h ≤ 9) ∧ (0 ≤ t ∧ t ≤ 9) ∧ (0 ≤ u ∧ u ≤ 9) ∧ 100 * h + 10 * t + u = c.state.value w.x ∧
      (∀ i < 3, c.memory.cell? (c.state.index + (i : Nat)) =
        some ((c.state.index + (i : Nat)) % config.memorySize).toNat) ∧
      ∃ c₁, performWord config.dialect pc w c = .ok () c₁ ∧ c.memory.Stored c.state.index [h, t, u] c₁.memory ∧
        c₁ = { c with memory := c₁.memory } ∧
        ∀ (c₂ : Core) (pc' : Int), c₂.memory = c₁.memory → c₂.state.index = c.state.index →
          c₂.state.registers.length = 16 → ∃ c₃, performWord config.dialect pc' 0xf265 c₂ = .ok () c₃ ∧
            c₃.state.value 0 = h ∧ c₃.state.value 1 = t ∧ c₃.state.value 2 = u ∧
            100 * c₃.state.value 0 + 10 * c₃.state.value 1 + c₃.state.value 2 = c.state.value w.x := by
  have index := valid.index.1
  have pos : 0 < c.memory.size := size ▸ config.memorySize_pos
  have reaches : ∀ i < 3, c.memory.Reaches (c.state.index + (i : Nat)) := by
    intro i hi
    obtain ⟨m, write⟩ := writes i hi 0
    exact Memory.reaches_of_write write
  have own : c.memory.OwnCells c.state.index 3 := by
    have font := config.font_fits
    refine .of_reaches ?_ reaches
    simp only [fontSize] at font
    omega
  have digit {v : Int} (hv : v ∈ digits (c.state.value w.x)) : 0 ≤ v ∧ v ≤ 9 :=
    digits_range (valid.value_range w.x_lt) hv
  have bytes : ∀ v ∈ digits (c.state.value w.x), 0 ≤ v ∧ v ≤ 0xff := by
    intro v hv
    have small := digit hv
    omega
  refine ⟨_, _, _, digit (by simp [digits]), digit (by simp [digits]), digit (by simp [digits]),
    digits_value (c.state.value w.x), ?_, c.withDigitsStored w.x, ?_, own.stored bytes, rfl, ?_⟩
  case refine_1 =>
    intro i hi
    rw [Memory.cell?_of_reaches pos (reaches i hi), size]
  case refine_2 =>
    rw [performWord_of_isMeant _ pc stores]
    exact perform_storeDigits_full valid.registers pos index (Memory.reach_eq_of_reaches reaches)
  case refine_3 =>
    intro c₂ pc' memory back len
    obtain ⟨c₃, performed, hundreds, tens, units⟩ :=
      performWord_load_three (d := config.dialect) pos index bytes reaches own memory back len pc'
    refine ⟨c₃, performed, hundreds, tens, units, ?_⟩
    rw [hundreds, tens, units, digits_value]

-- The digits of the first register lie on both sides of the end of memory, and the load replaces that register.
theorem straddling_digits :
    ∃ c₁, performWord (Config.small .wrap).dialect 0x66 0xf033 Machine.straddling.core = .ok () c₁ ∧
      c₁.memory.cells[0x7f]?.map (fun b => (b.toNat : Int)) = some 1 ∧
      c₁.memory.cells[0]?.map (fun b => (b.toNat : Int)) = some 7 ∧
      c₁.memory.cells[1]?.map (fun b => (b.toNat : Int)) = some 0 ∧
      ∃ c₃, performWord (Config.small .wrap).dialect 0x68 0xf265 c₁ = .ok () c₃ ∧
        c₃.state.value 0 = 1 ∧ c₃.state.value 1 = 7 ∧ c₃.state.value 2 = 0 := by
  have sound : Machine.straddling.core.Sound (.small .wrap) := ((Machine.Reachable.new false 0).calls _).sound.core
  obtain ⟨value, some, last, first, second⟩ :
      Machine.straddling.core.state.value (0xf033 : Opcode).x = 170 ∧
      (∀ i < 3, (Machine.straddling.core.memory.cell? (Machine.straddling.core.state.index + (i : Nat))).isSome) ∧
      Machine.straddling.core.memory.cell? (Machine.straddling.core.state.index + (0 : Nat)) = some 0x7f ∧
      Machine.straddling.core.memory.cell? (Machine.straddling.core.state.index + (1 : Nat)) = some 0 ∧
      Machine.straddling.core.memory.cell? (Machine.straddling.core.state.index + (2 : Nat)) = some 1 := by
    decide +kernel
  generalize Machine.straddling.core = c at sound value some last first second ⊢
  have writes : ∀ i < 3, ∀ v, ∃ m, c.memory.write (c.state.index + (i : Nat)) v = .ok m := by
    intro i hi v
    obtain ⟨j, cell⟩ := Option.isSome_iff_exists.mp (some i hi)
    obtain ⟨k, ok, _⟩ := Memory.exists_of_cell? cell
    exact ⟨c.memory.put k v, by rw [Memory.write, ok]; rfl⟩
  obtain ⟨h, t, u, hundreds, tens, units, sum, _, c₁, performed, stored, rest, loads⟩ :=
    digits_transfer sound.valid sound.size (isMeant_of_decode (w := 0xf033) (by decide +kernel)) writes 0x66
  obtain ⟨rfl, rfl, rfl⟩ : h = 1 ∧ t = 7 ∧ u = 0 := by
    rw [value] at sum
    omega
  obtain ⟨c₃, performed', three⟩ := loads c₁ 0x68 rfl (by rw [rest]) (by rw [rest]; exact sound.valid.registers)
  exact ⟨c₁, performed, stored.stored 0 (by decide) _ last, stored.stored 1 (by decide) _ first,
    stored.stored 2 (by decide) _ second, c₃, performed', three.1, three.2.1, three.2.2.1⟩

end Core
end Chip8
