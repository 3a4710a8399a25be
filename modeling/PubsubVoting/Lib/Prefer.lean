import Mathlib.Tactic

/-!
A slot that items overwrite one after the other, until one that is preferred holds it.

* `overwrite`, `kept`: one step of the fold, and what it comes to: the first preferred item, or the
  last one.
* `foldl_overwrite`: the fold keeps `kept`.
* `kept_perm_iff`: it is the same in every order exactly if there is one candidate.
-/

section

variable {α β : Type} (preferred : β → Bool)

/-- An item takes the slot, unless a preferred one holds it. -/
def overwrite (slot : Option β) (item : β) : Option β :=
  if slot.any preferred then slot else some item

/-- The first preferred item; where there is none, the last one. -/
def kept (items : List β) : Option β := (items.find? preferred).or items.getLast?

/-- The items that a preferred one does not keep from the slot. -/
def Candidate (items : List β) (x : β) : Prop :=
  x ∈ items ∧ (preferred x = true ∨ ∀ y ∈ items, preferred y = false)

variable {preferred}

lemma foldl_overwrite_held {slot : Option β} (h : slot.any preferred = true) (items : List β) :
    items.foldl (overwrite preferred) slot = slot := by
  induction items with
  | nil => rfl
  | cons x items ih =>
      rw [List.foldl_cons, overwrite, if_pos h]
      exact ih

/-- The slot at the end of the fold. -/
lemma foldl_overwrite_free {slot : Option β} (h : slot.any preferred = false) (items : List β) :
    items.foldl (overwrite preferred) slot = (kept preferred items).or slot := by
  induction items generalizing slot with
  | nil => rfl
  | cons x items ih =>
      have hfirst : overwrite preferred slot x = some x := by
        rw [overwrite, if_neg (by rw [h]; exact Bool.false_ne_true)]
      rw [List.foldl_cons, hfirst]
      cases hx : preferred x with
      | true =>
          have hheld : (some x).any preferred = true := hx
          rw [foldl_overwrite_held hheld, kept, List.find?_cons_of_pos hx]
          rfl
      | false =>
          have hfree : (some x).any preferred = false := hx
          rw [ih hfree, kept, kept, List.find?_cons_of_neg (by rw [hx]; exact Bool.false_ne_true)]
          cases hfind : items.find? preferred with
          | some y => rfl
          | none =>
              rw [Option.none_or, Option.none_or, List.getLast?_cons]
              cases items.getLast? with
              | none => rfl
              | some y => rfl

/-- **What the fold keeps.** -/
theorem foldl_overwrite (items : List β) :
    items.foldl (overwrite preferred) none = kept preferred items := by
  rw [foldl_overwrite_free (by rfl), Option.or_none]

/-- What is kept is a candidate. -/
lemma candidate_of_kept {items : List β} {x : β} (h : kept preferred items = some x) :
    Candidate preferred items x := by
  rw [kept] at h
  cases hfind : items.find? preferred with
  | some y =>
      rw [hfind, Option.some_or] at h
      obtain rfl := Option.some.inj h
      exact ⟨List.mem_of_find?_eq_some hfind, .inl (List.find?_some hfind)⟩
  | none =>
      rw [hfind, Option.none_or] at h
      refine ⟨List.mem_of_getLast? h, .inr fun y hy => ?_⟩
      have hnot := List.find?_eq_none.mp hfind y hy
      exact Bool.eq_false_iff.mpr hnot

lemma kept_eq_none_iff {items : List β} : kept preferred items = none ↔ items = [] := by
  rw [kept]
  rw [Option.or_eq_none_iff, List.getLast?_eq_none_iff]
  constructor
  · exact fun h => h.2
  · rintro rfl
    exact ⟨rfl, rfl⟩

/-- A preferred item that comes first is kept. -/
lemma kept_cons_of_preferred {x : β} (hx : preferred x = true) (items : List β) :
    kept preferred (x :: items) = some x := by
  rw [kept, List.find?_cons_of_pos hx]
  rfl

/-- An item that comes last is kept where none is preferred. -/
lemma kept_append_of_not {x : β} {items : List β}
    (h : ∀ y ∈ items ++ [x], preferred y = false) : kept preferred (items ++ [x]) = some x := by
  have hnone : (items ++ [x]).find? preferred = none :=
    List.find?_eq_none.mpr fun y hy => by rw [h y hy]; exact Bool.false_ne_true
  rw [kept, hnone, Option.none_or, List.getLast?_concat]

/-- **One candidate**: what is kept of the items that a list gives is the same for every order of
the list exactly if there are no two candidates. -/
theorem kept_perm_iff {f : α → Option β} {xs : List α} :
    (∀ xs' : List α, xs'.Perm xs →
        kept preferred (xs'.filterMap f) = kept preferred (xs.filterMap f)) ↔
      ∀ x y, Candidate preferred (xs.filterMap f) x → Candidate preferred (xs.filterMap f) y →
        x = y := by
  constructor
  · intro hsame
    -- some order of the list keeps a given candidate, so that this one does
    have hkept : ∀ x, Candidate preferred (xs.filterMap f) x →
        kept preferred (xs.filterMap f) = some x := by
      rintro x ⟨hx, hcase⟩
      obtain ⟨a, ha, hfa⟩ := List.mem_filterMap.mp hx
      obtain ⟨before, after, rfl⟩ := List.append_of_mem ha
      rcases hcase with hpreferred | hnone
      · rw [← hsame (a :: (before ++ after)) List.perm_middle.symm,
          List.filterMap_cons_some hfa]
        exact kept_cons_of_preferred hpreferred _
      · have hperm : ((before ++ after) ++ [a]).Perm (before ++ a :: after) :=
          (List.perm_append_singleton a _).trans List.perm_middle.symm
        have hlast : ((before ++ after) ++ [a]).filterMap f
            = (before ++ after).filterMap f ++ [x] := by
          rw [List.filterMap_append, List.filterMap_cons_some hfa, List.filterMap_nil]
        rw [← hsame _ hperm, hlast]
        refine kept_append_of_not fun y hy => hnone y ?_
        rw [← hlast] at hy
        exact (hperm.filterMap f).mem_iff.mp hy
    intro x y hx hy
    exact Option.some.inj ((hkept x hx).symm.trans (hkept y hy))
  · intro hone xs' hperm
    have hitems : (xs'.filterMap f).Perm (xs.filterMap f) := hperm.filterMap f
    cases hkept : kept preferred (xs.filterMap f) with
    | none =>
        rw [kept_eq_none_iff] at hkept ⊢
        rw [hkept] at hitems
        exact hitems.eq_nil
    | some x =>
        cases hkept' : kept preferred (xs'.filterMap f) with
        | none =>
            rw [kept_eq_none_iff] at hkept'
            rw [hkept'] at hitems
            have hnil : xs.filterMap f = [] := hitems.symm.eq_nil
            rw [hnil] at hkept
            cases hkept
        | some y =>
            obtain ⟨hy, hcase⟩ := candidate_of_kept hkept'
            have hcandidate : Candidate preferred (xs.filterMap f) y := by
              refine ⟨hitems.mem_iff.mp hy, hcase.imp id fun hnone z hz => ?_⟩
              exact hnone z (hitems.mem_iff.mpr hz)
            rw [hone y x hcandidate (candidate_of_kept hkept)]

end
