import PubsubVoting.Lib.JsMap

/-!
Items collapsed by a key: the first item of every key is kept, and a map remembers its position.

* `dedupe`: the kept items and the positions.
* `get?_dedupe`: the position of the key of any item leads to a kept item with the same key.
-/

/-- The items kept so far, and where each key is. -/
structure Deduped (κ α : Type) where
  position : JsMap κ ℕ
  kept : List α

variable {κ α : Type} [DecidableEq κ]

/-- Keep an item unless its key was seen. -/
def Deduped.add (key : α → κ) (s : Deduped κ α) (x : α) : Deduped κ α :=
  if s.position.has (key x) then s
  else ⟨s.position.set (key x) s.kept.length, s.kept ++ [x]⟩

/-- Collapse the items of a list that share a key. -/
def dedupe (key : α → κ) (xs : List α) : Deduped κ α := xs.foldl (Deduped.add key) ⟨∅, []⟩

/-- Every position leads to a kept item with that key, and the kept items come from the list. -/
structure Deduped.Sound (key : α → κ) (xs : List α) (s : Deduped κ α) : Prop where
  kept_at : ∀ k i, s.position.get? k = some i → ∃ y, s.kept[i]? = some y ∧ key y = k
  mem : ∀ y ∈ s.kept, y ∈ xs

variable {key : α → κ} {s : Deduped κ α}

lemma Deduped.Sound.add {xs : List α} (h : s.Sound key xs) {x : α} (hx : x ∈ xs) :
    (s.add key x).Sound key xs := by
  rw [Deduped.add]
  split_ifs with hseen
  · exact h
  · refine ⟨fun k i hi => ?_, fun y hy => ?_⟩
    · rw [JsMap.get?_set] at hi
      split_ifs at hi with hk
      · obtain rfl := Option.some.inj hi
        exact ⟨x, List.getElem?_concat_length, hk.symm⟩
      · obtain ⟨y, hy, hkey⟩ := h.kept_at k i hi
        have hlt : i < s.kept.length := (List.getElem?_eq_some_iff.mp hy).1
        exact ⟨y, by rw [List.getElem?_append_left hlt, hy], hkey⟩
    · rcases List.mem_append.mp hy with hy | hy
      · exact h.mem y hy
      · rwa [List.mem_singleton.mp hy]

lemma Deduped.has_add (x : α) (k : κ) :
    (s.add key x).position.has k = true ↔ k = key x ∨ s.position.has k = true := by
  rw [Deduped.add]
  split_ifs with hseen
  · constructor
    · exact .inr
    · rintro (rfl | h)
      · exact hseen
      · exact h
  · rw [JsMap.has_iff, JsMap.mem_keys_set, JsMap.has_iff]

lemma has_foldl_add (xs : List α) (s : Deduped κ α) (k : κ) :
    (xs.foldl (Deduped.add key) s).position.has k = true ↔
      s.position.has k = true ∨ ∃ x ∈ xs, key x = k := by
  induction xs generalizing s with
  | nil => simp
  | cons x xs ih =>
      rw [List.foldl_cons, ih, Deduped.has_add, List.exists_mem_cons_iff, or_comm (a := k = key x),
        or_assoc, eq_comm (a := k)]

lemma sound_foldl_add {xs ys : List α} (hsub : ∀ x ∈ ys, x ∈ xs) (h : s.Sound key xs) :
    (ys.foldl (Deduped.add key) s).Sound key xs := by
  induction ys generalizing s with
  | nil => exact h
  | cons y ys ih =>
      obtain ⟨hy, hsub⟩ := List.forall_mem_cons.mp hsub
      exact ih hsub (h.add hy)

/-- **The position of an item's key leads to a kept item with that key.** -/
theorem get?_dedupe (key : α → κ) {xs : List α} {x : α} (hx : x ∈ xs) :
    ∃ i y, (dedupe key xs).position.get? (key x) = some i ∧ (dedupe key xs).kept[i]? = some y
      ∧ key y = key x ∧ y ∈ xs := by
  have hsound : (dedupe key xs).Sound key xs := by
    refine sound_foldl_add (fun x hx => hx) ⟨?_, ?_⟩
    · intro k i hi
      cases hi
    · exact fun y hy => absurd hy List.not_mem_nil
  have hhas : (dedupe key xs).position.has (key x) = true := by
    rw [dedupe, has_foldl_add]
    exact .inr ⟨x, hx, rfl⟩
  obtain ⟨i, hi⟩ := Option.isSome_iff_exists.mp hhas
  obtain ⟨y, hy, hkey⟩ := hsound.kept_at _ _ hi
  exact ⟨i, y, hi, hy, hkey, hsound.mem y (List.mem_of_getElem? hy)⟩
