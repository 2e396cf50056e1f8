import Chip8.Proofs.Sound

namespace Chip8

-- The end of an action without an answer: the core that it leaves, and its failure if it fails.
def Core.ended (c : Core) : Option Failure → EStateM.Result Failure Core Unit
  | none => .ok () c
  | some e => .error e c

namespace Action

variable {α β : Type} {c c' : Core}

theorem bind_apply (x : Action α) (f : α → Action β) (c : Core) :
    (x >>= f) c = match x c with
      | .ok a c => f a c
      | .error e c => .error e c := by
  change EStateM.bind x f c = _
  unfold EStateM.bind
  cases x c <;> rfl

theorem bind_of_ok {x : Action α} {a : α} (h : x c = .ok a c') (f : α → Action β) :
    (x >>= f) c = f a c' := by
  rw [bind_apply, h]

theorem bind_of_error {x : Action α} {e : Failure} (h : x c = .error e c') (f : α → Action β) :
    (x >>= f) c = .error e c' := by
  rw [bind_apply, h]

theorem get_apply (c : Core) : (get : Action Core) c = .ok c c :=
  rfl

theorem ofExcept_ok (a : α) (c : Core) : (ofExcept (.ok a : Except Failure α) : Action α) c = .ok a c :=
  rfl

theorem ofExcept_error (e : Failure) (c : Core) :
    (ofExcept (.error e : Except Failure α) : Action α) c = .error e c :=
  rfl

theorem jumpTo_apply (a : Int) (c : Core) :
    jumpTo a c = .ok () { c with state := { c.state with pc := a } } :=
  rfl

theorem skipIf_apply (b : Bool) (c : Core) :
    skipIf b c = .ok () { c with state := if b then c.state.skip else c.state } :=
  rfl

theorem pollKey_apply (c : Core) :
    pollKey c = .ok (c.keys.poll c.wait).1 { c with wait := (c.keys.poll c.wait).2 } :=
  rfl

theorem register_apply {i : Nat} (h : c.state.registers.length = 16) (hi : i < 16) :
    register i c = .ok (c.state.value i) c := by
  rw [register, bind_of_ok (get_apply c), State.element_registers (h ▸ hi), ofExcept_ok]

theorem setRegister_apply {i : Nat} (v : Int) (h : c.state.registers.length = 16) (hi : i < 16) :
    setRegister i v c = .ok () { c with state := c.state.put i v } := by
  simp only [setRegister, updateState?, State.setRegister_eq v h hi]

theorem setFlag_apply (v : Int) (h : c.state.registers.length = 16) :
    setFlag v c = .ok () { c with state := c.state.put flagRegister v } := by
  simp only [setFlag, updateState?, State.setFlag_eq v h]

theorem setWithFlag_apply {i : Nat} (v flag : Int) (h : c.state.registers.length = 16) (hi : i < 16) :
    Operation.setWithFlag i v flag c =
      .ok () { c with state := (c.state.put i v).put flagRegister flag } := by
  rw [Operation.setWithFlag, bind_of_ok (setRegister_apply v h hi), setFlag_apply]
  simpa using h

theorem drawByte_apply (c : Core) : drawByte c = match c.source.draw? with
    | some (b, source) => .ok b { c with source := source }
    | none => .error .zeroModulus c :=
  rfl

theorem readByte_of_ok {a : Int} {b : UInt8} (read : c.memory.read a = .ok b) : readByte a c = .ok b c := by
  rw [readByte, bind_of_ok (get_apply c), read, ofExcept_ok]

theorem readByte_of_error {a : Int} {e : Failure} (read : c.memory.read a = .error e) :
    readByte a c = .error e c := by
  rw [readByte, bind_of_ok (get_apply c), read, ofExcept_error]

theorem readByte_apply {a : Int} (pos : 0 < c.memory.size) (h : c.memory.Reaches a) :
    readByte a c = .ok (c.memory.byteAt a) c :=
  readByte_of_ok (Memory.read_of_reaches pos h)

theorem readByte_of_not_reaches {a : Int} (h : ¬ c.memory.Reaches a) :
    readByte a c = .error (.fault (.address a c.memory.size)) c :=
  readByte_of_error (Memory.read_of_not_reaches h)

theorem writeByte_apply {a : Int} (v : Int) (pos : 0 < c.memory.size) (h : c.memory.Reaches a) :
    writeByte a v c = .ok () { c with memory := c.memory.poke a v } := by
  have ⟨i, hi⟩ := Memory.cell_of_reaches pos h
  simp [writeByte, Memory.poke, hi]

theorem writeByte_of_not_reaches {a : Int} (v : Int) (h : ¬ c.memory.Reaches a) :
    writeByte a v c = .error (.fault (.address a c.memory.size)) c := by
  simp [writeByte, Memory.cell_of_not_reaches h]

theorem flipPixel_apply (x y : Int) (w : 0 < c.screen.width) (h : 0 < c.screen.height) :
    flipPixel x y c = .ok (c.screen.lit x y) { c with screen := c.screen.flip x y } := by
  have ⟨i, hi, _⟩ := c.screen.index_of_pos w h x y .noElement
  simp [flipPixel, hi, Screen.lit, Screen.read, Screen.flip, Except.map]

-- The states `s` and the answers `b` of a loop that goes well up to a number `k`, and ends with it or fails
-- there.
theorem foldlM_range {f : β → Nat → Action β} {b : Nat → β} {s : Nat → Core} {e : Failure} {n k : Nat}
    (le : k ≤ n) (ok : ∀ i < k, f (b i) i (s i) = .ok (b (i + 1)) (s (i + 1)))
    (fails : k < n → f (b k) k (s k) = .error e (s k)) :
    (List.range n).foldlM f (b 0) (s 0) = if k < n then .error e (s k) else .ok (b k) (s k) := by
  induction n generalizing k with
  | zero =>
    obtain rfl : k = 0 := by omega
    rfl
  | succ n ih =>
    rw [List.range_succ, List.foldlM_append]
    by_cases last : k = n + 1
    case pos =>
      subst last
      have start := ih (Nat.le_refl n) (fun i hi => ok i (by omega)) (by omega)
      rw [if_neg (by omega)] at start ⊢
      rw [bind_of_ok start]
      exact (bind_of_ok (ok n (by omega)) _).trans rfl
    case neg =>
      by_cases inner : k < n
      case pos =>
        have start := ih (Nat.le_of_lt inner) ok fun _ => fails (by omega)
        rw [if_pos inner] at start
        rw [bind_of_error start, if_pos (by omega)]
      case neg =>
        obtain rfl : k = n := by omega
        have start := ih (Nat.le_refl k) ok (by omega)
        rw [if_neg (by omega)] at start
        rw [bind_of_ok start, if_pos (by omega)]
        exact bind_of_error (fails (by omega)) _

theorem forM_eq_foldlM {f : Nat → Action Unit} (is : List Nat) :
    is.forM f = is.foldlM (fun _ i => f i) () := by
  induction is with
  | nil => rfl
  | cons i is ih => rw [List.forM, List.foldlM, ih]

theorem forM_range {f : Nat → Action Unit} {s : Nat → Core} {e : Failure} {n k : Nat} (le : k ≤ n)
    (ok : ∀ i < k, f i (s i) = .ok () (s (i + 1))) (fails : k < n → f k (s k) = .error e (s k)) :
    (List.range n).forM f (s 0) = (s k).ended (if k < n then some e else none) := by
  rw [forM_eq_foldlM, foldlM_range (b := fun _ => ()) le ok fails]
  split <;> rfl

variable {config : Config}

-- Writing values to a row of addresses, each by an action that depends on the state alone.
theorem forM_writeByte {f : Nat → Action Unit} {a : Int} (vs : List Int) (pos : 0 < c.memory.size)
    (ha : 0 ≤ a) (write : ∀ (i : Nat) (hi : i < vs.length) (m : Memory),
      f i { c with memory := m } = writeByte (a + i) vs[i] { c with memory := m }) :
    (List.range vs.length).forM f c =
      { c with memory := c.memory.store a (vs.take (c.memory.reach a vs.length)) }.ended
        (c.memory.shortage? a vs.length) := by
  have le := c.memory.reach_le a vs.length
  refine (forM_range (s := fun i => { c with memory := c.memory.store a (vs.take i) })
    (e := .fault (.address (max a c.memory.size) c.memory.size)) le ?_ ?_).trans ?_
  case refine_1 =>
    intro i hi
    have inside : i < vs.length := Nat.lt_of_lt_of_le hi le
    have reaches := Memory.reaches_of_lt_reach ha hi
    rw [write i inside, writeByte_apply]
    · have next : vs.take (i + 1) = vs.take i ++ [vs[i]] := (List.take_append_getElem inside).symm
      have count : (vs.take i).length = i := List.length_take_of_le (Nat.le_of_lt inside)
      rw [next, Memory.store_concat, count]
    · simpa using pos
    · exact Memory.reaches_store.mpr reaches
  case refine_2 =>
    intro short
    rw [write _ short, writeByte_of_not_reaches]
    · simp [Memory.add_reach short]
    · exact mt Memory.reaches_store.mp (Memory.not_reaches_add_reach short)
  case refine_3 => rfl

-- Loading the registers from a row of addresses.
theorem forM_assignRegister {a : Int} {n : Nat} (len : c.state.registers.length = 16) (pos : 0 < c.memory.size)
    (ha : 0 ≤ a) (hn : n ≤ 16) :
    (List.range n).forM (fun (i : Nat) => do assignRegister i (← readByte (a + i)).toNat : Nat → Action Unit) c =
      { c with state := c.state.load (c.memory.bytesFrom a (c.memory.reach a n)) }.ended
        (c.memory.shortage? a n) := by
  have le := c.memory.reach_le a n
  refine (forM_range (s := fun i => { c with state := c.state.load (c.memory.bytesFrom a i) })
    (e := .fault (.address (max a c.memory.size) c.memory.size)) le ?_ ?_).trans ?_
  case refine_1 =>
    intro i hi
    have inside : i < c.state.registers.length := by
      rw [len]
      omega
    have reaches := Memory.reaches_of_lt_reach ha hi
    have read (s) : readByte (a + i) { c with state := s } = .ok (c.memory.byteAt (a + i)) _ :=
      readByte_apply pos reaches
    rw [bind_of_ok (read _)]
    have loaded : i < (c.state.load (c.memory.bytesFrom a i)).registers.length := by
      simp [State.load]
      omega
    have next := State.load_concat (c.memory.bytesFrom a i) (by simpa using inside)
      (c.memory.byteAt (a + i))
    rw [Memory.bytesFrom_succ, next]
    simp [assignRegister, updateState?, setElement, loaded, bind, Except.bind, pure, Except.pure]
  case refine_2 =>
    intro short
    have stop (s) : readByte (a + c.memory.reach a n) { c with state := s } = .error _ _ :=
      readByte_of_not_reaches (Memory.not_reaches_add_reach short)
    rw [bind_of_error (stop _)]
    simp only [Memory.add_reach short]
  case refine_3 =>
    simp [Memory.bytesFrom, State.load, Memory.shortage?]

theorem drawRow_apply (x y : Int) (bits : UInt8) (hit : Bool) (w : 0 < c.screen.width)
    (h : 0 < c.screen.height) :
    Operation.drawRow x y bits hit c =
      .ok (Screen.Drawing.row (c.screen, hit) x y bits).2
        { c with screen := (Screen.Drawing.row (c.screen, hit) x y bits).1 } := by
  unfold Operation.drawRow Screen.Drawing.row
  induction List.range 8 generalizing c hit with
  | nil => rfl
  | cons i is ih =>
    rw [List.foldlM_cons, List.foldl_cons, Screen.Drawing.column]
    cases Operation.isSet bits i
    case false => exact ih hit w h
    case true =>
      have alike := Screen.Alike.flip c.screen (x + i) y
      rw [if_pos rfl, bind_apply, bind_of_ok (flipPixel_apply _ _ w h)]
      exact ih _ (alike.1 ▸ w) (alike.2 ▸ h)

-- Rows are drawn up to the first one that cannot be read.
theorem drawRows_upTo {x y a : Int} {n k : Nat} {e : Failure} (w : 0 < c.screen.width) (h : 0 < c.screen.height)
    (le : k ≤ n) (reads : ∀ i < k, c.memory.read (a + i) = .ok (c.memory.byteAt (a + i)))
    (fails : k < n → c.memory.read (a + k) = .error e) :
    let drawn := Screen.Drawing.rows (c.screen, false) x y (c.memory.bytesFrom a k)
    Operation.drawRows x y a n c = if k < n then .error e { c with screen := drawn.1 }
      else .ok drawn.2 { c with screen := drawn.1 } := by
  intro drawn
  let p (i : Nat) := Screen.Drawing.rows (c.screen, false) x y (c.memory.bytesFrom a i)
  refine (foldlM_range (b := fun i => (p i).2) (s := fun i => { c with screen := (p i).1 }) (e := e) le ?_ ?_).trans rfl
  case refine_1 =>
    intro i hi
    have alike := Screen.Alike.rows (c.screen, false) x y (c.memory.bytesFrom a i)
    have read (t) : readByte (a + i) { c with screen := t } = .ok (c.memory.byteAt (a + i)) _ :=
      readByte_of_ok (reads i hi)
    rw [bind_of_ok (read _)]
    rw [drawRow_apply _ _ _ _ (alike.1 ▸ w) (alike.2 ▸ h)]
    simp [p, Memory.bytesFrom_succ, Screen.Drawing.rows_concat]
  case refine_2 =>
    intro short
    have stop (t) : readByte (a + k) { c with screen := t } = .error e _ :=
      readByte_of_error (fails short)
    rw [bind_of_error (stop _)]

theorem drawRows_apply {x y a : Int} {n : Nat} (h : c.Sound config) (ha : 0 ≤ a) :
    let k := c.memory.reach a n
    let drawn := Screen.Drawing.rows (c.screen, false) x y (c.memory.bytesFrom a k)
    Operation.drawRows x y a n c = if k < n
      then .error (.fault (.address (max a c.memory.size) c.memory.size)) { c with screen := drawn.1 }
      else .ok drawn.2 { c with screen := drawn.1 } := by
  refine drawRows_upTo h.width_pos h.height_pos (c.memory.reach_le a n) ?_ ?_
  case refine_1 =>
    intro i hi
    exact Memory.read_of_reaches h.memory_pos (Memory.reaches_of_lt_reach ha hi)
  case refine_2 =>
    intro short
    rw [Memory.read_of_not_reaches (Memory.not_reaches_add_reach short), Memory.add_reach short]

end Action
end Chip8
