import Mathlib.Tactic

/-!
`mapM` over a list in `Option`: it succeeds exactly if every item does, and then item by item.
-/

namespace List

variable {α β γ : Type} {f : α → Option β} {xs : List α} {ys : List β}

/-- **`mapM` succeeds item by item.** -/
theorem mapM_eq_some_iff : xs.mapM f = some ys ↔ Forall₂ (fun x y => f x = some y) xs ys := by
  induction xs generalizing ys with
  | nil => simp [eq_comm]
  | cons x xs ih =>
      rw [mapM_cons]
      simp only [Option.bind_eq_bind, Option.bind_eq_some_iff, Option.pure_def, Option.some.injEq]
      constructor
      · rintro ⟨y, hy, ys', hys, rfl⟩
        exact Forall₂.cons hy (ih.mp hys)
      · intro h
        rcases h with - | ⟨hy, hys⟩
        exact ⟨_, hy, _, ih.mpr hys, rfl⟩

lemma length_of_mapM (h : xs.mapM f = some ys) : ys.length = xs.length :=
  (mapM_eq_some_iff.mp h).length_eq.symm

/-- What holds of every result of a successful item holds of every item of the result. -/
lemma forall_mem_of_mapM {P : β → Prop} (h : xs.mapM f = some ys)
    (hP : ∀ x ∈ xs, ∀ y, f x = some y → P y) : ∀ y ∈ ys, P y := by
  rw [mapM_eq_some_iff] at h
  induction h with
  | nil => simp
  | cons hxy _ ih =>
      refine forall_mem_cons.mpr ⟨hP _ (by simp) _ hxy, ih fun x hx => hP x (by simp [hx])⟩

/-- Mapping results back, where each step is undone. -/
lemma map_eq_map_of_mapM {g : α → γ} {k : β → γ} (h : xs.mapM f = some ys)
    (hgk : ∀ x ∈ xs, ∀ y, f x = some y → k y = g x) : ys.map k = xs.map g := by
  rw [mapM_eq_some_iff] at h
  induction h with
  | nil => rfl
  | cons hxy _ ih =>
      rw [map_cons, map_cons, hgk _ (by simp) _ hxy, ih fun x hx => hgk x (by simp [hx])]

/-- Lists whose items are related by what two maps make the same. -/
lemma map_eq_map_of_forall₂ {R : α → β → Prop} {f : α → γ} {g : β → γ} (h : Forall₂ R xs ys)
    (hfg : ∀ x y, R x y → f x = g y) : xs.map f = ys.map g := by
  rw [← forall₂_eq_eq_eq, forall₂_map_left_iff, forall₂_map_right_iff]
  exact h.imp hfg

/-- Lists whose items are related have results that are. -/
lemma exists_mapM_of_forall₂ {R : α → α → Prop} {Q : β → β → Prop} {xs' : List α}
    (hxs : Forall₂ R xs xs')
    (hf : ∀ x x' y, R x x' → f x = some y → ∃ y', f x' = some y' ∧ Q y y')
    (h : xs.mapM f = some ys) : ∃ ys', xs'.mapM f = some ys' ∧ Forall₂ Q ys ys' := by
  rw [mapM_eq_some_iff] at h
  induction hxs generalizing ys with
  | nil =>
      cases h
      exact ⟨[], rfl, .nil⟩
  | cons hx _ ih =>
      cases h with
      | cons hy hys =>
          obtain ⟨y', hy', hQ⟩ := hf _ _ _ hx hy
          obtain ⟨ys', hys', hQs⟩ := ih hys
          refine ⟨y' :: ys', ?_, .cons hQ hQs⟩
          rw [mapM_cons, hy', hys']
          rfl

lemma mapM_eq_some_of_forall {g : α → β} (h : ∀ x ∈ xs, f x = some (g x)) :
    xs.mapM f = some (xs.map g) := by
  induction xs with
  | nil => rfl
  | cons x xs ih =>
      rw [mapM_cons, h x (by simp), ih fun y hy => h y (by simp [hy])]
      rfl

/-- Going on with every result, where each second step succeeds. -/
lemma mapM_of_mapM {g : β → Option γ} {k : α → γ} (h : xs.mapM f = some ys)
    (hgk : ∀ x ∈ xs, ∀ y ∈ ys, f x = some y → g y = some (k x)) : ys.mapM g = some (xs.map k) := by
  rw [mapM_eq_some_iff] at h
  induction h with
  | nil => rfl
  | cons hxy _ ih =>
      rw [mapM_cons, hgk _ (by simp) _ (by simp) hxy,
        ih fun x hx y hy => hgk x (by simp [hx]) y (by simp [hy])]
      rfl

/-- Going on with every result, where each second step has one possible outcome. -/
lemma eq_map_of_mapM_mapM {g : β → Option γ} {k : α → γ} {zs : List γ} (h : xs.mapM f = some ys)
    (hg : ys.mapM g = some zs)
    (hgk : ∀ x ∈ xs, ∀ y ∈ ys, f x = some y → ∀ z, g y = some z → z = k x) : zs = xs.map k := by
  rw [mapM_eq_some_iff] at h hg
  induction h generalizing zs with
  | nil =>
      cases hg
      rfl
  | cons hxy _ ih =>
      cases hg with
      | cons hyz hg =>
          rw [map_cons, hgk _ (by simp) _ (by simp) hxy _ hyz,
            ih hg fun x hx y hy => hgk x (by simp [hx]) y (by simp [hy])]

/-- Results that stand in a relation to their items. -/
lemma exists_mapM_of_forall {R : α → β → Prop} (h : ∀ x ∈ xs, ∃ y, f x = some y ∧ R x y) :
    ∃ ys, xs.mapM f = some ys ∧ Forall₂ R xs ys := by
  induction xs with
  | nil => exact ⟨[], rfl, .nil⟩
  | cons x xs ih =>
      obtain ⟨⟨y, hy, hR⟩, hrest⟩ := forall_mem_cons.mp h
      obtain ⟨ys, hys, hRs⟩ := ih hrest
      exact ⟨y :: ys, by rw [mapM_cons, hy, hys]; rfl, .cons hR hRs⟩

/-- Optional results that are all there. -/
lemma exists_mapM_id {R : α → β → Prop} {rs : List (Option β)}
    (h : Forall₂ (fun x r => ∃ y, r = some y ∧ R x y) xs rs) :
    ∃ ys, rs.mapM id = some ys ∧ Forall₂ R xs ys := by
  induction h with
  | nil => exact ⟨[], rfl, .nil⟩
  | @cons x r xs rs hxr _ ih =>
      obtain ⟨y, rfl, hxy⟩ := hxr
      obtain ⟨ys, hys, hR⟩ := ih
      exact ⟨y :: ys, by rw [mapM_cons, id, hys]; rfl, hR.cons hxy⟩

/-- `mapM` fails exactly if some item does. -/
theorem mapM_eq_none_iff : xs.mapM f = none ↔ ∃ x ∈ xs, f x = none := by
  constructor
  · intro h
    by_contra hall
    obtain ⟨ys, hys, -⟩ := exists_mapM_of_forall (f := f) (R := fun _ _ => True) fun x hx => by
      obtain ⟨y, hy⟩ := Option.ne_none_iff_exists'.mp fun hnone => hall ⟨x, hx, hnone⟩
      exact ⟨y, hy, trivial⟩
    rw [hys] at h
    cases h
  · rintro ⟨x, hx, hnone⟩
    cases hxs : xs.mapM f with
    | none => rfl
    | some ys =>
        obtain ⟨i, hi, rfl⟩ := mem_iff_getElem.mp hx
        have hlt : i < ys.length := by rwa [length_of_mapM hxs]
        have hsome := (forall₂_iff_get.mp (mapM_eq_some_iff.mp hxs)).2 i hi hlt
        rw [get_eq_getElem, hnone] at hsome
        cases hsome

/-- Where nothing is left out, the positions stay. -/
lemma getElem?_filterMap_of_isSome (h : ∀ x ∈ xs, (f x).isSome = true) (i : ℕ) :
    (xs.filterMap f)[i]? = xs[i]?.bind f := by
  induction xs generalizing i with
  | nil => rfl
  | cons x xs ih =>
      obtain ⟨y, hy⟩ := Option.isSome_iff_exists.mp (h x mem_cons_self)
      rw [filterMap_cons_some hy]
      cases i with
      | zero => exact hy.symm
      | succ i => exact ih (fun x' hx' => h x' (mem_cons_of_mem _ hx')) i

end List
