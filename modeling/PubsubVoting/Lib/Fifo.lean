import Mathlib.Tactic

/-!
A bounded set that forgets its oldest member first: the members, and the order they came in.

* `FifoSet.record`: a member that is there stays; a new one is added and, over the bound, the
  oldest one leaves.
* `mem_keys_record`: recording adds at most the recorded key.
-/

/-- The members and the order they were recorded in. -/
structure FifoSet (κ : Type) where
  keys : Finset κ
  order : List κ

namespace FifoSet

variable {κ : Type}

/-- Nothing recorded. -/
def empty : FifoSet κ := ⟨∅, []⟩

variable [DecidableEq κ]

/-- Drop the oldest member once there are more than the bound. -/
def trim (maxEntries : ℕ) (s : FifoSet κ) : FifoSet κ :=
  if s.order.length > maxEntries then
    match s.order with
    | [] => s
    | evicted :: order => ⟨s.keys.erase evicted, order⟩
  else s

/-- Record a key. -/
def record (maxEntries : ℕ) (s : FifoSet κ) (k : κ) : FifoSet κ :=
  if k ∈ s.keys then s else trim maxEntries ⟨insert k s.keys, s.order ++ [k]⟩

lemma keys_trim_subset (maxEntries : ℕ) (s : FifoSet κ) : (trim maxEntries s).keys ⊆ s.keys := by
  rw [trim]
  split_ifs
  · cases hs : s.order with
    | nil => exact subset_rfl
    | cons evicted order => exact Finset.erase_subset _ _
  · exact subset_rfl

/-- Recording adds at most the recorded key. -/
lemma mem_keys_record {maxEntries : ℕ} {s : FifoSet κ} {k k' : κ}
    (h : k' ∈ (record maxEntries s k).keys) : k' = k ∨ k' ∈ s.keys := by
  rw [record] at h
  split_ifs at h
  · exact Or.inr h
  · exact Finset.mem_insert.mp (keys_trim_subset _ _ h)

end FifoSet
