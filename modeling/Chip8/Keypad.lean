import Chip8.Failure

namespace Chip8

structure KeySet where
  held : Vector Bool 16
deriving DecidableEq

namespace KeySet

def empty : KeySet :=
  ⟨Vector.replicate 16 false⟩

def contains (s : KeySet) (key : Fin 16) : Bool :=
  s.held[key]

instance : Membership (Fin 16) KeySet :=
  ⟨fun s key => s.contains key = true⟩

instance (key : Fin 16) (s : KeySet) : Decidable (key ∈ s) :=
  inferInstanceAs (Decidable (s.contains key = true))

def toList (s : KeySet) : List (Fin 16) :=
  (List.finRange 16).filter s.contains

def diff (s t : KeySet) : KeySet :=
  ⟨Vector.zipWith (fun a b => a && !b) s.held t.held⟩

def inter (s t : KeySet) : KeySet :=
  ⟨Vector.zipWith (· && ·) s.held t.held⟩

def least? (s : KeySet) : Option (Fin 16) :=
  (List.finRange 16).find? s.contains

def key (n : Int) : Except Failure (Fin 16) :=
  if h : 0 ≤ n ∧ n < 16 then .ok ⟨n.toNat, by omega⟩ else .error (.fault (.invalidKey n))

def get (s : KeySet) (n : Int) : Except Failure Bool :=
  (key n).map s.contains

def set (s : KeySet) (n : Int) (down : Bool) : Except Failure KeySet :=
  (key n).map fun k => ⟨s.held.set k.val down k.isLt⟩

def ofTest (test : Int → Bool) : KeySet :=
  ⟨Vector.ofFn fun k => test k⟩

theorem mem_iff {s : KeySet} {k : Fin 16} : k ∈ s ↔ s.contains k = true :=
  Iff.rfl

@[simp] theorem mem_diff {s t : KeySet} {k : Fin 16} : k ∈ s.diff t ↔ k ∈ s ∧ k ∉ t := by
  simp [mem_iff, contains, diff]

@[simp] theorem mem_inter {s t : KeySet} {k : Fin 16} : k ∈ s.inter t ↔ k ∈ s ∧ k ∈ t := by
  simp [mem_iff, contains, inter]

@[simp] theorem not_mem_empty {k : Fin 16} : k ∉ empty := by
  simp [mem_iff, contains, empty]

theorem mem_toList {s : KeySet} {k : Fin 16} : k ∈ s.toList ↔ k ∈ s := by
  simp [toList, mem_iff]

-- One poll of a wait for a key. The first poll only remembers the keys held. A later one is answered by the
-- lowest key that went down since, and otherwise forgets the keys that were released.
def poll (held : KeySet) : Option KeySet → Option (Fin 16) × Option KeySet
  | none => (none, some held)
  | some remembered => match (held.diff remembered).least? with
    | some k => (some k, none)
    | none => (none, some (remembered.inter held))

end KeySet
end Chip8
