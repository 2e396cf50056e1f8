import Chip8.Proofs.ByteStore
import Chip8.Proofs.Reachable

namespace Chip8

namespace Memory

-- Writes at addresses in a row, one after the other.
def writeAll (m : Memory) (a : Int) : List Int → Except Failure Memory
  | [] => .ok m
  | v :: vs => (m.write a v).bind fun m => m.writeAll (a + 1) vs

variable {m m' : Memory} {a : Int} {start j : Nat} {vs image : List Int}

theorem writeAll_of_reaches (pos : 0 < m.size) (reaches : ∀ i < vs.length, m.Reaches (a + (i : Nat))) :
    m.writeAll a vs = .ok (m.store a vs) := by
  induction vs generalizing m a with
  | nil => rfl
  | cons v vs ih =>
    have first := reaches 0 (Nat.zero_lt_succ _)
    obtain ⟨i, cell⟩ := cell_of_reaches pos (by simpa using first)
    have write : m.write a v = .ok (m.poke a v) := by simp [write, poke, cell, Except.map]
    rw [writeAll, write, store]
    apply ih
    case pos => rwa [size_poke]
    case reaches =>
      intro i inside
      have next := reaches (i + 1) (Nat.succ_lt_succ inside)
      rw [Reaches, size_poke, wraps_poke, Int.add_assoc, Int.add_comm 1]
      exact next

theorem cell?_natCast (inside : j < m.size) : m.cell? j = some j := by
  rw [cell?_eq, if_pos (by omega), Int.toNat_natCast]

theorem eq_of_getElem? (cells : ∀ j : Nat, m.cells[j]? = m'.cells[j]?) (wraps : m.wraps = m'.wraps) : m = m' := by
  cases m
  cases m'
  cases wraps
  congr
  exact Array.ext_getElem? cells

-- Placing what there is room for is storing it byte by byte. The cells are compared one by one.
theorem place_eq_store (fits : start ≤ m.size) (image : List Int) :
    m.place start (image.map UInt8.ofInt) = m.store start (image.take (m.room start image.length)) := by
  have le : m.room start image.length ≤ image.length := Nat.min_le_left ..
  have room : m.room start image.length ≤ m.size - start := Nat.min_le_right ..
  have count : (image.take (m.room start image.length)).length = m.room start image.length :=
    List.length_take_of_le le
  have cell {i : Nat} (hi : i < m.room start image.length) : m.cell? (start + (i : Nat)) = some (start + i) :=
    cell?_natCast (j := start + i) (by omega)
  refine eq_of_getElem? (fun j => ?_) (wraps_store (m := m) ..).symm
  rw [getElem?_place _ fits, List.length_map]
  by_cases inside : start ≤ j ∧ j < start + m.room start image.length
  case pos =>
    have hi : j - start < m.room start image.length := by omega
    have here : start + (j - start) = j := by omega
    have own : m.OwnCells start (image.take (m.room start image.length)).length := by
      rw [count]
      exact .of_reaches (by omega) fun i hi => .inr (by omega)
    rw [if_pos inside, own.getElem?_store (count.symm ▸ hi) ((cell hi).trans (congrArg some here)), List.getElem_take,
      List.getElem?_map, List.getElem?_eq_getElem (by omega)]
    rfl
  case neg =>
    rw [if_neg inside, getElem?_store]
    intro i hi names
    rw [count] at hi
    rw [cell hi] at names
    cases names
    omega

theorem writeAll_eq_place (pos : 0 < m.size) (fits : start ≤ m.size) (image : List Int) :
    m.writeAll start (image.take (m.room start image.length)) = .ok (m.place start (image.map UInt8.ofInt)) := by
  have le : m.room start image.length ≤ image.length := Nat.min_le_left ..
  have room : m.room start image.length ≤ m.size - start := Nat.min_le_right ..
  rw [place_eq_store fits]
  apply writeAll_of_reaches pos
  intro i hi
  rw [List.length_take_of_le le] at hi
  exact .inr (by omega)

theorem getElem?_place_image (h : IsImage image) (fits : start ≤ m.size) (inside : j < m.room start image.length) :
    (m.place start (image.map UInt8.ofInt)).cells[start + j]?.map (fun b => (b.toNat : Int)) = image[j]? := by
  have here : j < image.length := Nat.lt_of_lt_of_le inside (Nat.min_le_left ..)
  have byte := toNat_ofInt_of_range (h image[j] (List.getElem_mem here))
  rw [getElem?_place_add _ fits (by rwa [List.length_map]), List.getElem?_map, List.getElem?_eq_getElem here]
  exact congrArg some byte

end Memory

namespace Machine

variable {config : Config} {source : Source} {m : Machine} {now : Float} {image : List Int} {start : Option Int}

theorem answer_load_of_error {e : Failure} (l : m.core.memory.load (start.getD m.config.startPc) image = .error e) :
    m.answer now (.load image start) = .error e m := by
  rw [answer, load, l]
  rfl

theorem answer_load_of_ok {memory : Memory} {count : Nat}
    (l : m.core.memory.load (start.getD m.config.startPc) image = .ok (memory, count)) :
    m.answer now (.load image start) =
      .ok (.number count) { m with core := { m.core with memory := memory }, programSize := count } := by
  rw [answer, load, l]
  rfl

-- A load fails before it changes anything, or puts as much of the image into memory as there is room for.
theorem load_all_or_nothing (r : m.Reachable config source) (now : Float) (image : List Int) (start : Option Int) :
    let a := start.getD config.startPc
    let s := (a % config.memorySize).toNat
    let count := min image.length (config.memorySize - s)
    (¬ IsImage image → m.answer now (.load image start) = .error .byteRange m) ∧
    (IsImage image → config.addressMode = .strict → ¬ (0 ≤ a ∧ a < config.memorySize) →
      m.answer now (.load image start) = .error (.fault (.address a config.memorySize)) m) ∧
    (IsImage image → config.addressMode = .wrap ∨ 0 ≤ a ∧ a < config.memorySize →
      ∃ memory, m.answer now (.load image start) =
          .ok (.number count) { m with core := { m.core with memory := memory }, programSize := count } ∧
        memory.size = config.memorySize ∧
        (∀ j < count, memory.cells[s + j]?.map (fun b => (b.toNat : Int)) = image[j]?) ∧
        (∀ j, j < s ∨ s + count ≤ j → memory.cells[j]? = m.core.memory.cells[j]?) ∧
        m.core.memory.writeAll s (image.take count) = .ok memory) := by
  intro a s count
  have h := r.sound
  have size := h.core.size
  have pos := h.core.memory_pos
  have wraps := h.core.wraps
  have place : m.core.memory.Reaches a ↔ config.addressMode = .wrap ∨ 0 ≤ a ∧ a < config.memorySize := by
    rw [Memory.Reaches, wraps, size, Config.wraps, decide_eq_true_iff]
  refine ⟨fun other => ?_, fun bytes strict outside => ?_, fun bytes inside => ?_⟩
  case refine_1 => exact answer_load_of_error (Memory.load_of_not_isImage other _)
  case refine_2 =>
    have unreached : ¬ m.core.memory.Reaches a := by simpa [place, strict] using outside
    apply answer_load_of_error
    rw [h.config_eq, Memory.load_of_not_reaches bytes unreached, size]
  case refine_3 =>
    have fits : s ≤ m.core.memory.size := by
      have := Memory.emod_size_lt pos a
      rw [size] at this ⊢
      exact Nat.le_of_lt this
    have room : m.core.memory.room s image.length = count := by rw [Memory.room, size]
    refine ⟨m.core.memory.place s (image.map UInt8.ofInt), ?_, ?_, fun j hj => ?_, fun j apart => ?_, ?_⟩
    case refine_1 =>
      apply answer_load_of_ok
      rw [h.config_eq, Memory.load_of_reaches bytes pos (place.mpr inside), size, room]
    case refine_2 => rw [Memory.size_place _ _ fits, size]
    case refine_3 => exact Memory.getElem?_place_image bytes fits (room ▸ hj)
    case refine_4 =>
      apply Memory.getElem?_place_of_apart _ fits
      rwa [List.length_map, room]
    case refine_5 => rw [← room, Memory.writeAll_eq_place pos fits]

-- Even where addresses wrap, the end of an image is dropped.
theorem load_truncated : let m := Machine.new (.small .wrap) .zeros false 0
    ∃ m', m.answer 0 (.load [1, 2, 3] (some 254)) = .ok (.number 2) m' ∧ m'.programSize = 2 ∧
      m'.core.memory.cells[127]?.map (fun b => (b.toNat : Int)) = some 2 ∧
      m'.core.memory.cells[0]? = m.core.memory.cells[0]? ∧
      m.answer 0 (.load [256] (some 254)) = .error .byteRange m := by
  intro m
  have reachable : m.Reachable (.small .wrap) .zeros := .new false 0
  obtain ⟨memory, loads, _, cells, others, _⟩ :=
    (load_all_or_nothing reachable 0 [1, 2, 3] (some 254)).2.2 (by decide) (.inl rfl)
  have fails := (load_all_or_nothing reachable 0 [256] (some 254)).1 (by decide)
  exact ⟨_, loads, rfl, cells 1 (by decide), others 0 (by decide), fails⟩

end Machine
end Chip8
