import Mathlib.Tactic

/-!
Listing items by a reading, the latest first, and what stands past a number of them.

* `LatestFirst`: a listing that sorts its items by their readings. Which of two items with the same
  reading comes first is left open.
* `LatestFirst.not_mem_drop`: an item with few others at or above its reading is not past them.
* `LatestFirst.eq_reverse`: where the readings differ, there is one such listing.
-/

variable {ρ : Type}

/-- A listing that puts the latest reading first. -/
structure LatestFirst (reading : ρ → ℤ) (listing : List ρ → List ρ) : Prop where
  perm : ∀ items, (listing items).Perm items
  sorted : ∀ items, (listing items).Pairwise fun x y => reading y ≤ reading x

namespace LatestFirst

variable {reading : ρ → ℤ} {listing : List ρ → List ρ} {items aged : List ρ} {x : ρ} {n : ℕ}

/-- An item is among the first `n` if at most `n` items have its reading or a later one. -/
lemma not_mem_drop (h : LatestFirst reading listing)
    (hcount : items.countP (fun y => decide (reading x ≤ reading y)) ≤ n) :
    x ∉ (listing items).drop n := by
  intro hx
  have hsplit : (listing items).take n ++ (listing items).drop n = listing items :=
    List.take_append_drop n _
  have hsorted := h.sorted items
  rw [← hsplit, List.pairwise_append] at hsorted
  have hlater : ((listing items).take n).countP (fun y => decide (reading x ≤ reading y)) = n := by
    have hall : ∀ y ∈ (listing items).take n, decide (reading x ≤ reading y) = true :=
      fun y hy => decide_eq_true (hsorted.2.2 y hy x hx)
    have hlength : 0 < ((listing items).drop n).length := List.length_pos_of_mem hx
    rw [List.countP_eq_length.mpr hall, List.length_take]
    rw [List.length_drop] at hlength
    omega
  have hself : 0 < ((listing items).drop n).countP (fun y => decide (reading x ≤ reading y)) :=
    List.countP_pos_iff.mpr ⟨x, hx, decide_eq_true le_rfl⟩
  have htotal : items.countP (fun y => decide (reading x ≤ reading y)) = _ :=
    (h.perm items).symm.countP_eq _
  rw [← hsplit, List.countP_append, hlater] at htotal
  omega

/-- Items whose readings grow are listed from the last one to the first. -/
lemma eq_reverse (h : LatestFirst reading listing) (hperm : items.Perm aged)
    (haged : aged.Pairwise fun x y => reading x < reading y) : listing items = aged.reverse := by
  have hdistinct : ∀ x ∈ aged, ∀ y ∈ aged, reading x = reading y → x = y := by
    intro x hx y hy heq
    by_contra hne
    have hcases := List.pairwise_iff_getElem.mp haged
    obtain ⟨i, hi, rfl⟩ := List.mem_iff_getElem.mp hx
    obtain ⟨j, hj, rfl⟩ := List.mem_iff_getElem.mp hy
    rcases lt_trichotomy i j with hij | rfl | hij
    · have := hcases i j hi hj hij
      omega
    · exact hne rfl
    · have := hcases j i hj hi hij
      omega
  have hreverse : aged.reverse.Pairwise fun x y => reading y ≤ reading x :=
    List.pairwise_reverse.mpr (haged.imp le_of_lt)
  refine List.Perm.eq_of_pairwise ?_ (h.sorted items) hreverse
    ((h.perm items).trans (hperm.trans aged.reverse_perm.symm))
  intro x y hx hy hxy hyx
  have hx' : x ∈ aged := hperm.mem_iff.mp ((h.perm items).mem_iff.mp hx)
  exact hdistinct x hx' y (List.mem_reverse.mp hy) (le_antisymm hyx hxy)

end LatestFirst
