import Chip8.Keypad
import Mathlib.Order.Bounds.Basic

namespace Chip8.KeySet

-- Whether the key with the given number is held.
def holds (s : KeySet) (n : Int) : Bool :=
  match s.get n with
  | .ok b => b
  | .error _ => false

theorem get_eq {s : KeySet} {n : Int} (h : 0 ≤ n ∧ n ≤ 15) : s.get n = .ok (s.holds n) := by
  have inside : 0 ≤ n ∧ n < 16 := by omega
  simp [get, key, inside, holds, Except.map]

theorem get_of_lt {s : KeySet} {n : Int} (h : 15 < n) : s.get n = .error (.fault (.invalidKey n)) := by
  have outside : ¬ (0 ≤ n ∧ n < 16) := by omega
  rw [get, key, dif_neg outside]
  rfl

instance : HasSubset KeySet :=
  ⟨fun s t => ∀ k ∈ s, k ∈ t⟩

variable {s t held last : KeySet} {k : Fin 16}

theorem ext (h : ∀ k, k ∈ s ↔ k ∈ t) : s = t := by
  have same : s.held = t.held := by
    apply Vector.ext
    intro i hi
    exact Bool.eq_iff_iff.mpr (h ⟨i, hi⟩)
  cases s
  cases t
  exact congrArg KeySet.mk same

theorem least?_eq_none_iff : s.least? = none ↔ ∀ k, k ∉ s := by
  simp [least?, mem_iff]

theorem isLeast_of_least? (h : s.least? = some k) : IsLeast {j | j ∈ s} k := by
  have ⟨held, before, after, keys, unheld⟩ := List.find?_eq_some_iff_append.mp h
  refine ⟨held, ?_⟩
  intro j hj
  have sorted := List.pairwise_lt_finRange 16
  have mem := List.mem_finRange j
  rw [keys] at sorted mem
  cases List.mem_append.mp mem with
  | inl earlier =>
    have none := unheld j earlier
    rw [mem_iff.mp hj] at none
    cases none
  | inr later =>
    cases later with
    | head => exact Nat.le_refl _
    | tail _ later =>
      have above := List.rel_of_pairwise_cons (List.pairwise_append.mp sorted).2.1 later
      exact Nat.le_of_lt above

-- Without a new key a poll leaves the keys that it found held.
theorem poll_of_subset (h : held ⊆ last) : held.poll (some last) = (none, some held) := by
  have none : (held.diff last).least? = none := by
    rw [least?_eq_none_iff]
    intro k hk
    have ⟨inside, outside⟩ := mem_diff.mp hk
    exact outside (h k inside)
  have same : last.inter held = held := by
    apply ext
    intro k
    rw [mem_inter]
    exact ⟨And.right, fun hk => ⟨h k hk, hk⟩⟩
  simp only [poll, none, same]

theorem poll_of_not_subset (h : ¬ held ⊆ last) :
    ∃ k, held.poll (some last) = (some k, none) ∧ IsLeast {j | j ∈ held ∧ j ∉ last} k := by
  cases least : (held.diff last).least? with
  | none =>
    have none := least?_eq_none_iff.mp least
    refine absurd (fun k hk => ?_) h
    by_contra outside
    exact none k (mem_diff.mpr ⟨hk, outside⟩)
  | some k =>
    have first := isLeast_of_least? least
    simp only [mem_diff] at first
    exact ⟨k, by simp only [poll, least], first⟩

-- An answer ends the wait.
theorem wait_of_poll_some {wait wait' : Option KeySet} (h : held.poll wait = (some k, wait')) : wait' = none := by
  cases wait with
  | none => cases h
  | some last =>
    simp only [poll] at h
    split at h
    case h_1 =>
      cases h
      rfl
    case h_2 => cases h

end Chip8.KeySet
