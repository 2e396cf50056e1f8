import Chip8.Proofs.Trace

namespace Chip8

-- A failure that is no fault is for want of a random byte, and then nothing is stored.
theorem Operation.stored_of_undrawn {op : Operation} {w : Opcode} {c : Core} {e : Failure}
    (fails : op.failure? w c = some e) (other : ∀ f, e ≠ .fault f) : op.stored w c = [] := by
  have short {a : Int} {n : Nat} (fails : c.memory.shortage? a n = some e) : False := by
    unfold Memory.shortage? at fails
    split at fails
    case isTrue => exact other _ (Option.some.inj fails).symm
    case isFalse => cases fails
  cases op
  case storeDigits | storeRegisters => exact (short fails).elim
  all_goals rfl

namespace Core

-- The values that the next instruction stores.
def stored (c : Core) : List Int :=
  match c.word?.bind Operation.decode with
  | some op => op.stored c.nextWord c
  | none => []

-- The cells that the next instruction stores a byte in.
def written (c : Core) : List Nat :=
  (List.range c.stored.length).filterMap fun (i : Nat) => c.memory.cell? (c.state.index + i)

theorem next_memory (c : Core) (d : Dialect) : (c.next d).memory = c.memory.store c.state.index c.stored := by
  cases fetch : c.fetchFailure? with
  | some e =>
    simp only [next, stored, word?, fetch]
    rfl
  | none =>
    have word : c.word?.bind Operation.decode = Operation.decode c.nextWord := by simp [word?, fetch]
    simp only [next, stored, word, fetch]
    cases Operation.decode c.nextWord with
    | none => rfl
    | some op => exact op.after_memory d c.nextWord c.fetched

theorem getElem?_next {c : Core} {j : Nat} (spared : j ∉ c.written) (d : Dialect) :
    (c.next d).memory.cells[j]? = c.memory.cells[j]? := by
  rw [next_memory]
  refine Memory.getElem?_store fun i inside names => ?_
  exact spared (List.mem_filterMap.mpr ⟨i, List.mem_range.mpr inside, names⟩)

theorem written_of_undrawn {c : Core} {e : Failure} (fails : c.failure? = some e) (other : ∀ f, e ≠ .fault f) :
    c.written = [] := by
  have nothing : c.stored = [] := by
    simp only [failure?, stored, word?] at fails ⊢
    cases fetch : c.fetchFailure? with
    | some e' => rfl
    | none =>
      cases decoded : Operation.decode c.nextWord with
      | none => simp [decoded]
      | some op =>
        simp only [fetch, decoded, Option.or] at fails
        have later : op.stored c.nextWord c.fetched = [] := Operation.stored_of_undrawn fails other
        have nothing : op.stored c.nextWord c = [] := later
        simpa [decoded] using nothing
  rw [written, nothing]
  rfl

-- The word at the program counter, where an image lies in memory.
theorem nextWord_of_holds {c : Core} {image : List UInt8} {start k : Nat} (holds : c.memory.Holds start image)
    (inside : 2 * k + 1 < image.length) (found : c.state.pc = start + 2 * k) :
    c.nextWord = .ofBytes image[2 * k] image[2 * k + 1] := by
  have byte (i : Nat) (lt : i < image.length) : c.memory.byteAt (start + i : Nat) = image[i] := by
    refine Memory.byteAt_of_getElem? ((holds i lt).trans ?_)
    exact List.getElem?_eq_getElem lt
  have high : c.memory.byteAt c.state.pc = image[2 * k] := by
    rw [found, ← byte (2 * k) (by omega)]
    rfl
  have low : c.memory.byteAt (c.state.pc + 1) = image[2 * k + 1] := by
    rw [found, ← byte (2 * k + 1) inside]
    rfl
  rw [nextWord, high, low]

theorem faces_of_holds {config : Config} {c : Core} {image : List UInt8} {op : Operation} {start k : Nat}
    (holds : c.memory.Holds start image) (fits : start + image.length ≤ config.memorySize)
    (inside : 2 * k + 1 < image.length) (found : c.state.pc = start + 2 * k)
    (decode : Operation.decode (.ofBytes image[2 * k] image[2 * k + 1]) = some op) : c.Faces config op :=
  ⟨fun _ => by omega, nextWord_of_holds holds inside found ▸ Operation.isMeant_of_decode decode⟩

end Core

theorem getElem?_listing : (origin : Int) → (image : List UInt8) → (k : Nat) → (inside : 2 * k + 1 < image.length) →
    (listing origin image)[k]? = some ⟨origin + 2 * k, .ofBytes image[2 * k] image[2 * k + 1]⟩
  | _, [], _, inside => by simp at inside
  | _, [_], _, inside => by simp at inside
  | origin, high :: low :: rest, 0, _ => by simp [listing]
  | origin, high :: low :: rest, k + 1, inside => by
    have place : origin + 2 + 2 * (k : Int) = origin + 2 * (k + 1 : Nat) := by omega
    rw [listing, List.getElem?_cons_succ, getElem?_listing (origin + 2) rest k (by simp at inside; omega), place]
    rfl

-- An entry inside an image that was loaded to the start of programs is a row of the image's listing.
def Entry.Listed (config : Config) (image : List UInt8) (e : Entry) : Prop :=
  ∀ k : Nat, 2 * k + 1 < image.length → e.pc = config.startPc + 2 * k →
    ∃ row, (listing config.startPc image)[k]? = some row ∧ e.pc = row.address ∧ e.opcode = row.opcode ∧
      e.mnemonic = row.text ∧ e.key = ((Operation.decode row.opcode).map Operation.name).getD Operation.unnamed

-- Calls after which memory is as it was, but for what instructions store.
def Call.keepsMemory : Call → Bool
  | .load .. | .reset true | .writeMemory .. => false
  | _ => true

namespace Machine

variable {config : Config} {source : Source} {image : List UInt8} {m m' : Machine} {now : Float} {periods : Int}
  {e : Entry} {call : Call} {history : List (Float × Call)} {j : Nat}

-- A cell that the instruction spares is as it was.
theorem getElem?_cycle (h : m.Sound config) (spared : j ∉ m.core.written) :
    (left m.cycle).core.memory.cells[j]? = m.core.memory.cells[j]? := by
  obtain ⟨_, _, core⟩ := core_cycle h
  rw [core]
  exact Core.getElem?_next spared _

theorem getElem?_stepped (h : m.Sound config) (spared : ∀ s ∈ Made.of? m now, j ∉ s.found.core.written) :
    (m.stepped now).core.memory.cells[j]? = m.core.memory.cells[j]? := by
  cases m.stepped_cases now with
  | inl idle => rw [idle]
  | inr made =>
    obtain ⟨running, _, m₁, t, out⟩ := made
    obtain ⟨_, _, core⟩ := tick_core t
    have untimed : m₁.core.written = m.core.written := by
      rw [core]
      rfl
    have spared : j ∉ m₁.core.written := by
      cases c : m₁.cycle with
      | ok e m' =>
        rw [untimed]
        exact spared _ (Made.of?_ok ((step_of_tick running t).trans c))
      | error failure m' =>
        obtain ⟨_, fails, other⟩ := cycle_error (h.tick t) c
        rw [Core.written_of_undrawn fails other]
        exact List.not_mem_nil
    rw [out, getElem?_cycle (h.tick t) spared, core]

-- No instruction that the core faces stores a byte inside the image.
def Spares (config : Config) (image : List UInt8) (m : Machine) : Prop :=
  ∀ j ∈ m.core.written, ¬ (config.startPc ≤ j ∧ j < config.startPc + image.length)

instance (config : Config) (image : List UInt8) (m : Machine) : Decidable (m.Spares config image) :=
  inferInstanceAs (Decidable (∀ j ∈ _, _))

-- The image is in place, and the trace agrees with its listing.
structure Lists (config : Config) (image : List UInt8) (m : Machine) : Prop where
  sound : m.Sound config
  holds : m.core.memory.Holds config.startPc image
  listed : ∀ e ∈ m.trace, e.Listed config image

theorem listed_of_leaves (h : m.Sound config) (fits : config.startPc + image.length ≤ config.memorySize)
    (holds : m.core.memory.Holds config.startPc image) (l : m.Leaves e m') : e.Listed config image := by
  intro k inside place
  have ⟨_, pc, fetched⟩ := l.seen
  have found : m.core.state.pc = config.startPc + 2 * k := pc.symm.trans place
  have fetches : m.core.Fetches config := fun _ => by omega
  have word : e.fetched = some (.ofBytes image[2 * k] image[2 * k + 1]) := by
    rw [fetched, Core.word?_of_fetches h.core fetches, Core.nextWord_of_holds holds inside found]
  refine ⟨_, getElem?_listing config.startPc image k inside, place, ?_⟩
  rw [Entry.opcode, Entry.mnemonic, Entry.key, Entry.operation?, word]
  exact ⟨rfl, rfl, rfl⟩

namespace Lists

theorem listed_cycle (l : m.Lists config image) (fits : config.startPc + image.length ≤ config.memorySize) :
    ∀ e ∈ (left m.cycle).trace, e.Listed config image := by
  cases c : m.cycle with
  | ok e m' =>
    have leaves := cycle_leaves l.sound c
    have new := listed_of_leaves l.sound fits l.holds leaves
    intro e' mem
    rw [left, leaves.trace] at mem
    split at mem
    · exact (Array.mem_push.mp mem).elim (l.listed e') (· ▸ new)
    · exact l.listed e' mem
  | error failure m' =>
    obtain ⟨out, _⟩ := cycle_error l.sound c
    exact out ▸ l.listed

theorem tick (l : m.Lists config image) (t : m.tick now = .ok (periods, m')) : m'.Lists config image := by
  have ⟨_, _, out⟩ := tick_ok t
  have sound := l.sound.tick t
  subst out
  exact ⟨sound, l.holds, l.listed⟩

theorem stepped (fits : config.startPc + image.length ≤ config.memorySize) (m : Machine) (now : Float)
    (l : m.Lists config image) (spares : ∀ s ∈ Made.of? m now, s.found.Spares config image) :
    (m.stepped now).Lists config image := by
  refine ⟨(changes_step m now).sound l.sound, fun i inside => ?_, ?_⟩
  case refine_1 =>
    refine (getElem?_stepped l.sound fun s made mem => ?_).trans (l.holds i inside)
    exact spares s made _ mem ⟨Nat.le_add_right .., Nat.add_lt_add_left inside _⟩
  case refine_2 =>
    cases m.stepped_cases now with
    | inl idle =>
      rw [idle]
      exact l.listed
    | inr made =>
      obtain ⟨_, _, m₁, t, out⟩ := made
      rw [out]
      exact (l.tick t).listed_cycle fits

theorem alters (keeps : call.keepsMemory = true) (l : m.Lists config image) (a : m.Alters now call m') :
    m'.Lists config image := by
  have sound := a.change.sound l.sound
  by_cases goesOn : call.isReset = false
  · have retains := a.retains goesOn
    have unstored : call.stores = false := by cases call <;> first | rfl | cases keeps
    exact ⟨sound, retains.memory unstored ▸ l.holds, retains.trace ▸ l.listed⟩
  · cases a
    case reset clearMemory =>
      cases clearMemory
      case true => cases keeps
      case false => exact ⟨sound, l.holds, by simp [reset]⟩
    all_goals exact absurd rfl goesOn

theorem afterCalls (l : m.Lists config image) (fits : config.startPc + image.length ≤ config.memorySize)
    (keeps : ∀ p ∈ history, p.2.keepsMemory = true) (spares : ∀ s ∈ m.made history, s.found.Spares config image) :
    (m.afterCalls history).Lists config image :=
  afterCalls_keeps (P := (·.Lists config image)) (C := fun call => call.keepsMemory = true) (stepped fits) alters l
    keeps spares

end Lists

theorem bytesOf_toNat (image : List UInt8) : bytesOf (image.map fun b => (b.toNat : Int)) = .ok image := by
  have bytes : IsImage (image.map fun b => (b.toNat : Int)) := by
    intro n mem
    obtain ⟨b, _, rfl⟩ := List.mem_map.mp mem
    have := b.toNat_lt
    omega
  have same (b : UInt8) : UInt8.ofInt b.toNat = b := by
    have residue := toNat_ofInt_emod b.toNat
    have := b.toNat_lt
    rw [← UInt8.toNat_inj]
    omega
  rw [bytesOf_of_isImage bytes]
  simp [Function.comp_def, same]

-- Bytes are loaded to the start of programs, as far as there is room for them.
theorem load_bytes (h : m.Sound config) (bytes : List UInt8) :
    m.load (bytes.map fun b => (b.toNat : Int)) none = .ok { m with
      core := { m.core with memory := m.core.memory.place m.config.startPc bytes }
      programSize := m.core.memory.room m.config.startPc bytes.length } := by
  obtain ⟨rfl, core⟩ := h
  have inside : 0 ≤ (m.config.startPc : Int) ∧ (m.config.startPc : Int) < m.core.memory.cells.size := by
    have := m.config.startPc_lt
    have : m.core.memory.cells.size = m.config.memorySize := core.size
    omega
  have cell := m.core.memory.cell_of_inside inside
  simp [Machine.load, Memory.load, bytesOf_toNat, cell, bind, Except.bind, pure, Except.pure]

-- An image that fits goes to the start of programs.
theorem Lists.load (h : m.Sound config) (empty : m.trace = #[])
    (fits : config.startPc + image.length ≤ config.memorySize) (now : Float) :
    (m.afterCall now (.load (image.map fun b => (b.toNat : Int)) none)).Lists config image := by
  have load := load_bytes h image
  obtain ⟨rfl, core⟩ := h
  have sound := Sound.load ⟨rfl, core⟩ load
  rw [afterCall, answer, load]
  refine ⟨sound, Memory.holds_place ?_, by simp [empty]⟩
  rw [core.size]
  exact fits

-- A program that does not store into itself is traced as it is listed, up to and including the instruction at fault.
theorem trace_listed (fresh : m.Fresh config source) (now : Float) (image : List UInt8)
    (fits : config.startPc + image.length ≤ config.memorySize) (history : List (Float × Call)) :
    let loaded := m.afterCall now (.load (image.map fun b => (b.toNat : Int)) none)
    (∀ p ∈ history, p.2.keepsMemory = true) → (∀ s ∈ loaded.made history, s.found.Spares config image) →
      ∀ e ∈ (loaded.afterCalls history).trace, e.Listed config image := by
  intro loaded keeps spares
  have lists : loaded.Lists config image := .load fresh.reachable.sound fresh.trace fits now
  exact (lists.afterCalls fits keeps spares).listed

-- A program that stores behind its end, jumps and comes to a word that it does not know.
theorem jumping_listed :
    let m := Machine.new (.small .strict) .zeros true 0
    let image : List UInt8 := [0xa0, 0x78, 0xf0, 0x33, 0x10, 0x68, 0x00, 0xe0, 0xff, 0xff]
    let history : List (Float × Call) := [(0, .step), (0, .run (some 2)), (1, .reset false), (1, .run none)]
    let loaded := m.afterCall 0 (.load (image.map fun b => (b.toNat : Int)) none)
    (∀ p ∈ history, p.2.keepsMemory = true) ∧ (∀ s ∈ loaded.made history, s.found.Spares (.small .strict) image) ∧
      (loaded.afterCalls history).trace.size = 4 ∧ (loaded.afterCalls history).fault.isSome = true ∧
      ∀ e ∈ (loaded.afterCalls history).trace, e.Listed (.small .strict) image := by
  intro m image history loaded
  have fresh : m.Fresh (.small .strict) .zeros := .new 0
  have keeps : ∀ p ∈ history, p.2.keepsMemory = true := by decide
  have spares : ∀ s ∈ loaded.made history, s.found.Spares (.small .strict) image := by decide +kernel
  have size : (loaded.afterCalls history).trace.size = 4 := by decide +kernel
  have fault : (loaded.afterCalls history).fault.isSome = true := by decide +kernel
  exact ⟨keeps, spares, size, fault, trace_listed fresh 0 image (by decide) history keeps spares⟩

end Machine
end Chip8
