import PubsubVoting.Lib.JsMap

/-!
Last write wins: one winner per key, chosen by a pairwise rule that follows a rank.

* `winners`: the fold that keeps, for every key, the winner so far.
* `get?_winners_eq_some_iff`: the winner of a key is its highest-ranked item.
* `get?_winners_eq_none_iff`: a key has no winner exactly if no item has it.
* `Top`, `Covers`, `Covers.union`, `Covers.top`, `Covers.exists_top`: a set that lost only dead and
  outranked items has the same live winners.
-/

namespace Lww

section

variable {α κ β : Type} [DecidableEq κ] [LinearOrder β] (key : α → κ) (choose : α → α → α)

/-- One item against the winner of its key so far. -/
def step (m : JsMap κ α) (e : α) : JsMap κ α :=
  match m.get? (key e) with
  | none => m.set (key e) e
  | some prev => m.set (key e) (choose prev e)

/-- The winners of a list, key by key. -/
def winners (es : List α) : JsMap κ α := es.foldl (step key choose) ∅

/-- The rule prefers the item of higher rank and keeps the first one on a tie. -/
def Follows (rank : α → β) (es : List α) : Prop :=
  ∀ x ∈ es, ∀ y ∈ es, choose x y = if rank y ≤ rank x then x else y

variable {key choose} {rank : α → β} {es : List α} {k : κ} {w : α}

lemma get?_step (m : JsMap κ α) (e : α) (k : κ) :
    (step key choose m e).get? k =
      if k = key e then some (((m.get? k).map fun prev => choose prev e).getD e) else m.get? k := by
  rw [step]
  by_cases hk : k = key e
  · subst hk
    cases m.get? (key e) <;> simp
  · cases m.get? (key e) <;> simp [hk]

lemma winners_append_singleton (es : List α) (e : α) :
    winners key choose (es ++ [e]) = step key choose (winners key choose es) e := by
  simp [winners]

/-- A key has no winner exactly if no item has it. -/
lemma get?_winners_eq_none_iff : (winners key choose es).get? k = none ↔ ∀ e ∈ es, key e ≠ k := by
  induction es using List.reverseRecOn with
  | nil => simp [winners]
  | append_singleton es e ih =>
      rw [winners_append_singleton, get?_step]
      simp only [List.mem_append, List.mem_singleton, or_imp, forall_and, forall_eq, ← ih]
      by_cases hk : k = key e
      · simp [hk]
      · simp [hk, Ne.symm hk]

/-- The winner of a key is an item with that key that no item with that key outranks. -/
lemma get?_winners (h : Follows choose rank es) (hw : (winners key choose es).get? k = some w) :
    w ∈ es ∧ key w = k ∧ ∀ e ∈ es, key e = k → rank e ≤ rank w := by
  induction es using List.reverseRecOn generalizing w with
  | nil => cases hw
  | append_singleton es e ih =>
      have hes : Follows choose rank es := fun x hx y hy => h x (by simp [hx]) y (by simp [hy])
      rw [winners_append_singleton, get?_step] at hw
      by_cases hk : k = key e
      · rw [if_pos hk] at hw
        cases hprev : (winners key choose es).get? k with
        | none =>
            rw [hprev, Option.map_none, Option.getD_none] at hw
            obtain rfl := Option.some.inj hw
            refine ⟨by simp, hk.symm, fun x hx hxk => ?_⟩
            rcases List.mem_append.mp hx with hx | hx
            · exact absurd hxk (get?_winners_eq_none_iff.mp hprev x hx)
            · rw [List.mem_singleton.mp hx]
        | some prev =>
            obtain ⟨hmem, hkey, hmax⟩ := ih hes hprev
            have hchoose := h prev (by simp [hmem]) e (by simp)
            rw [hprev, Option.map_some, Option.getD_some, hchoose] at hw
            obtain rfl := Option.some.inj hw
            split_ifs with hle
            · refine ⟨by simp [hmem], hkey, fun x hx hxk => ?_⟩
              rcases List.mem_append.mp hx with hx | hx
              · exact hmax x hx hxk
              · rw [List.mem_singleton.mp hx]
                exact hle
            · refine ⟨by simp, hk.symm, fun x hx hxk => ?_⟩
              rcases List.mem_append.mp hx with hx | hx
              · exact (hmax x hx hxk).trans (not_le.mp hle).le
              · rw [List.mem_singleton.mp hx]
      · rw [if_neg hk] at hw
        obtain ⟨hmem, hkey, hmax⟩ := ih hes hw
        refine ⟨by simp [hmem], hkey, fun x hx hxk => ?_⟩
        rcases List.mem_append.mp hx with hx | hx
        · exact hmax x hx hxk
        · rw [List.mem_singleton.mp hx] at hxk
          exact absurd hxk.symm hk

/-- **The winner of a key** is its highest-ranked item, where no two items share a rank. -/
theorem get?_winners_eq_some_iff (h : Follows choose rank es)
    (hinj : ∀ x ∈ es, ∀ y ∈ es, rank x = rank y → x = y) :
    (winners key choose es).get? k = some w ↔
      w ∈ es ∧ key w = k ∧ ∀ e ∈ es, key e = k → rank e ≤ rank w := by
  constructor
  · exact get?_winners h
  · rintro ⟨hmem, hkey, hmax⟩
    cases hget : (winners key choose es).get? k with
    | none => exact absurd hkey (get?_winners_eq_none_iff.mp hget w hmem)
    | some w' =>
        obtain ⟨hmem', hkey', hmax'⟩ := get?_winners h hget
        rw [hinj w' hmem' w hmem (le_antisymm (hmax w' hmem' hkey') (hmax' w hmem hkey))]

end

/-! ### Losing dead and outranked items -/

section

variable {α κ β : Type} [LinearOrder β] (key : α → κ) (rank : α → β) (dead : α → Prop)

/-- The item outranks every item of its key. -/
def Top (s : Set α) (e : α) : Prop := e ∈ s ∧ ∀ x ∈ s, key x = key e → rank x ≤ rank e

/-- Of the items of one key the lower-ranked ones are dead no later. -/
def DiesDown : Prop := ∀ x y, key x = key y → rank x ≤ rank y → dead y → dead x

/-- A part of a set stands for all of it: every item is dead, or no higher than one that is
there. -/
structure Covers (s t : Set α) : Prop where
  subset : t ⊆ s
  covers : ∀ x ∈ s, dead x ∨ ∃ y ∈ t, key y = key x ∧ rank x ≤ rank y

variable {key rank dead} {s t u : Set α} {e : α}

lemma Covers.trans (hdead : DiesDown key rank dead) (h : Covers key rank dead s t)
    (h' : Covers key rank dead t u) : Covers key rank dead s u := by
  refine ⟨h'.subset.trans h.subset, fun x hx => ?_⟩
  rcases h.covers x hx with hx | ⟨y, hy, hkey, hle⟩
  · exact Or.inl hx
  · rcases h'.covers y hy with hy | ⟨z, hz, hkey', hle'⟩
    · exact Or.inl (hdead x y hkey.symm hle hy)
    · exact Or.inr ⟨z, hz, hkey'.trans hkey, hle.trans hle'⟩

/-- What is dead, or no higher than something that is stood for, is stood for as well. -/
lemma Covers.union (hdead : DiesDown key rank dead) (h : Covers key rank dead s t)
    (h' : ∀ x ∈ u, dead x ∨ ∃ y ∈ s, key y = key x ∧ rank x ≤ rank y) :
    Covers key rank dead (s ∪ u) t := by
  refine ⟨h.subset.trans Set.subset_union_left, fun x hx => ?_⟩
  rcases hx with hx | hx
  · exact h.covers x hx
  · rcases h' x hx with hx | ⟨y, hy, hkey, hle⟩
    · exact Or.inl hx
    · rcases h.covers y hy with hy | ⟨z, hz, hkey', hle'⟩
      · exact Or.inl (hdead x y hkey.symm hle hy)
      · exact Or.inr ⟨z, hz, hkey'.trans hkey, hle.trans hle'⟩

/-- A live winner of the part is a winner of the whole. -/
lemma Covers.top (hdead : DiesDown key rank dead) (h : Covers key rank dead s t) (hlive : ¬ dead e)
    (htop : Top key rank t e) : Top key rank s e := by
  refine ⟨h.subset htop.1, fun x hx hkey => ?_⟩
  rcases h.covers x hx with hx | ⟨y, hy, hkey', hle⟩
  · by_contra hlt
    exact hlive (hdead e x hkey.symm (not_le.mp hlt).le hx)
  · exact hle.trans (htop.2 y hy (hkey'.trans hkey))

/-- A live winner of the whole has its like in the part. -/
lemma Covers.exists_top (h : Covers key rank dead s t) (hlive : ¬ dead e)
    (htop : Top key rank s e) : ∃ y, Top key rank t y ∧ key y = key e ∧ rank y = rank e := by
  rcases h.covers e htop.1 with he | ⟨y, hy, hkey, hle⟩
  · exact absurd he hlive
  · have heq : rank y = rank e := le_antisymm (htop.2 y (h.subset hy) hkey) hle
    refine ⟨y, ⟨hy, fun x hx hkey' => ?_⟩, hkey, heq⟩
    rw [heq]
    exact htop.2 x (h.subset hx) (hkey'.trans hkey)

end

end Lww
