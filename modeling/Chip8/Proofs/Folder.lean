import Chip8.CommandLine.Folder
import Chip8.Proofs.Lettering

namespace Chip8

open Text (Lacks)

-- Names that a file can have within a folder.
structure IsFileName (name : String) : Prop where
  slash : Lacks '/' name
  null : Lacks '\x00' name
  filled : name ≠ ""
  here : name ≠ "."
  above : name ≠ ".."
  short : name.utf8ByteSize ≤ Folder.longestPart

namespace IsFileName

variable {name : String} (h : IsFileName name)

include h

theorem partsOf : Path.partsOf name = [name] := by
  have one : name.toList.splitOn '/' = [name.toList] :=
    List.splitOnP_eq_singleton fun c mem => beq_false_of_ne fun same => h.slash (same ▸ mem)
  simp [Path.partsOf, one, String.ofList_toList, h.filled, h.here]

theorem parse : Path.parse name = ⟨"", [name]⟩ := by
  have relative (slashes : String) (first : slashes.toList.head? = some '/') : name.startsWith slashes = false := by
    rw [String.startsWith_string_eq_false_iff]
    exact fun start => h.slash (start.subset (List.mem_of_mem_head? first))
  rw [Path.parse, h.partsOf, Path.rootOf, relative "//" rfl, relative "/" rfl]
  rfl

-- A file in a folder of its own is found under its name.
theorem read (contents : List UInt8) : Folder.read [(name, contents)] name = .ok contents := by
  have plain : name.contains '\x00' = false := by
    rw [String.contains_char_eq]
    exact decide_eq_false h.null
  have text : (⟨"", [name]⟩ : Path).toString = name := by
    simp [Path.toString, h.filled]
  have short := h.short
  have longest : name.utf8ByteSize ≤ Folder.longestPath := Nat.le_trans short (by decide)
  have parts := h.partsOf
  have above := h.above
  simp [Folder.read, h.parse, plain, text, Folder.walk, Folder.enter, parts, above, not_lt.mpr longest, not_lt.mpr short]

end IsFileName
end Chip8
