import PubsubVoting.Rules.Unread

/-!
What explains a refusal: the leaves `gateBlame` names.

* `GateResult.Within`: one evaluated node inside another.
* `blamedLeaves`: the leaves the blame names, in document order (`blamedLeaves_sublist`).
* `gateBlame_ne_nil`, `holds_of_blamed`: a refusal always blames a leaf, and it is enough that the
  blamed leaves pass.
* `not_mem_of_within`: nothing inside a satisfied node is blamed.
* `Explains`: all of it, for a gate (`explains_of_refused`).
-/

namespace PubsubVoting

/-- One node of an evaluated tree lies inside another, or is it. -/
inductive GateResult.Within : GateResult → GateResult → Prop
  | refl (result : GateResult) : Within result result
  | child (inner result : GateResult) (kind : GateKind) (satisfied : Option Bool)
      (children : List GateResult) (hmem : result ∈ children) (h : Within inner result) :
      Within inner (.branch kind satisfied children)

/-- The leaves that explain a refusal. -/
def blamedLeaves (result : GateResult) : List ℕ := (gateBlame result).map (·.leaf)

/-- What a blame tells of a refusal: it is not empty, it names leaves that failed and why, in
document order and none inside a satisfied node, and the gate admits once exactly these leaves pass
and every other answer stays; a leaf nobody could read has to pass as well. -/
structure Explains (evaluate : ℕ → Option RuleResult) (node : GateNode) (result : GateResult) :
    Prop where
  nonempty : gateBlame result ≠ []
  fails : ∀ blamed ∈ gateBlame result, ∃ answered failed,
    evaluate blamed.leaf = some answered ∧ gateFailure answered = some failed
      ∧ blamed.error = some failed.error ∧ blamed.penalize = failed.penalize
  relevant : ∀ inner, GateResult.Within inner result → inner.satisfied = some true →
    ∀ leaf ∈ blamedLeaves result, leaf ∉ inner.tree.leaves
  ordered : (blamedLeaves result).Sublist (List.range (gateLeaves node).length)
  sufficient : ∀ answer : ℕ → RuleResult,
    (∀ leaf ∈ blamedLeaves result, (answer leaf).passes = true) →
    (∀ leaf ∉ blamedLeaves result, ∀ answered, evaluate leaf = some answered →
      answer leaf = answered) →
    (∀ leaf, evaluate leaf = none → (answer leaf).passes = true) → Decides answer node true

section

variable {evaluate : ℕ → Option RuleResult} {kind : GateKind} {children : List IndexedGate}

/-- An admitted tree blames nothing. -/
lemma gateBlame_of_satisfied {result : GateResult} (h : result.satisfied ≠ some false) :
    gateBlame result = [] := by
  cases result <;> exact if_neg h

lemma gateBlames_eq_flatMap (results : List GateResult) :
    gateBlames results = results.flatMap gateBlame := by
  induction results with
  | nil => rfl
  | cons result results ih => rw [gateBlames, ih, List.flatMap_cons]

lemma leavesOf_eq_flatMap (children : List IndexedGate) :
    leavesOf children = children.flatMap (·.leaves) := by
  induction children with
  | nil => rfl
  | cons child children ih => rw [leavesOf, ih, List.flatMap_cons]

/-- A refused branch blames what its children blame. -/
lemma gateBlame_collecting
    (h : (tolerantGate evaluate true (.branch kind children)).satisfied = some false) :
    gateBlame (tolerantGate evaluate true (.branch kind children))
      = children.flatMap fun child => gateBlame (tolerantGate evaluate true child) := by
  rw [tolerantGate_collecting] at h ⊢
  have hfold : foldSatisfied kind (children.map fun child =>
      (tolerantGate evaluate true child).satisfied) = some false := h
  rw [gateBlame, if_pos hfold, gateBlames_eq_flatMap, List.flatMap_map]

/-- The blame of a child is part of its parent's, once the parent refuses. -/
lemma mem_gateBlame_of_child
    (h : (tolerantGate evaluate true (.branch kind children)).satisfied = some false)
    {child : IndexedGate} (hchild : child ∈ children) {blamed : BlamedLeaf}
    (hblamed : blamed ∈ gateBlame (tolerantGate evaluate true child)) :
    blamed ∈ gateBlame (tolerantGate evaluate true (.branch kind children)) := by
  rw [gateBlame_collecting h]
  exact List.mem_flatMap.mpr ⟨child, hchild, hblamed⟩

/-- A refused branch that is not empty has a child that refuses; every child of a refused `any`
does. -/
lemma exists_refused_child (hne : children ≠ [])
    (h : (tolerantGate evaluate true (.branch kind children)).satisfied = some false) :
    ∃ child ∈ children, (tolerantGate evaluate true child).satisfied = some false := by
  rw [tolerantGate_collecting] at h
  have hfold : foldSatisfied kind (children.map fun child =>
      (tolerantGate evaluate true child).satisfied) = some false := h
  rw [foldSatisfied_eq_false] at hfold
  cases kind with
  | all => exact List.mem_map.mp hfold
  | any =>
      obtain ⟨child, hchild⟩ := List.exists_mem_of_ne_nil _ hne
      exact ⟨child, hchild, List.forall_mem_map.mp hfold child hchild⟩

/-- **A refusal always blames a leaf.** -/
theorem gateBlame_ne_nil {t : IndexedGate} (hbranching : t.Branching)
    (h : (tolerantGate evaluate true t).satisfied = some false) :
    gateBlame (tolerantGate evaluate true t) ≠ [] := by
  induction t using IndexedGate.ind with
  | leaf leaf =>
      rw [tolerantGate_leaf] at h ⊢
      cases hread : evaluate leaf with
      | none =>
          rw [hread] at h
          cases h
      | some result =>
          rw [hread] at h
          rw [Option.elim_some, leafResult] at h ⊢
          cases hfails : gateFailure result with
          | none => simp [hfails, GateResult.satisfied] at h
          | some failed => simp [gateBlame]
  | branch kind children ih =>
      cases hbranching with
      | branch _ _ hne hchildren =>
          obtain ⟨child, hchild, hrefused⟩ := exists_refused_child hne h
          obtain ⟨blamed, hblamed⟩ := List.exists_mem_of_ne_nil _
            (ih child hchild (hchildren child hchild) hrefused)
          exact List.ne_nil_of_mem (mem_gateBlame_of_child h hchild hblamed)

/-- **It is enough that the blamed leaves pass**, next to everything that may pass already. -/
theorem holds_of_blamed (evaluate : ℕ → Option RuleResult) {t : IndexedGate}
    (hbranching : t.Branching) {pass : ℕ → Bool}
    (hmay : ∀ leaf, mayPass evaluate leaf = true → pass leaf = true)
    (hblamed : ∀ blamed ∈ gateBlame (tolerantGate evaluate true t), pass blamed.leaf = true) :
    t.holds pass = true := by
  by_cases hrefused : (tolerantGate evaluate true t).satisfied = some false
  · induction t using IndexedGate.ind with
    | leaf leaf =>
        obtain ⟨blamed, hmem⟩ := List.exists_mem_of_ne_nil _
          (gateBlame_ne_nil hbranching hrefused)
        have hleaf : blamed.leaf = leaf := by
          rw [tolerantGate_leaf] at hmem
          cases hread : evaluate leaf with
          | none => simp [hread, gateBlame, unevaluated] at hmem
          | some result =>
              rw [hread, Option.elim_some, leafResult] at hmem
              cases hfails : gateFailure result with
              | none => simp [hfails, gateBlame] at hmem
              | some failed => simp_all [gateBlame]
        have hpass := hblamed blamed hmem
        rwa [hleaf] at hpass
    | branch kind children ih =>
        cases hbranching with
        | branch _ _ hne hchildren =>
            have hholds : ∀ child ∈ children,
                (tolerantGate evaluate true child).satisfied = some false →
                  child.holds pass = true := fun child hchild hfails =>
              ih child hchild (hchildren child hchild) (fun blamed hmem =>
                hblamed blamed (mem_gateBlame_of_child hrefused hchild hmem)) hfails
            rw [holds_branch_iff]
            cases kind with
            | all =>
                intro child hchild
                by_cases hfails : (tolerantGate evaluate true child).satisfied = some false
                · exact hholds child hchild hfails
                · rw [satisfied_collecting, readableVerdict_eq_false, Bool.not_eq_false] at hfails
                  exact holds_mono hmay child hfails
            | any =>
                obtain ⟨child, hchild, hfails⟩ := exists_refused_child hne hrefused
                exact ⟨child, hchild, hholds child hchild hfails⟩
  · rw [satisfied_collecting, readableVerdict_eq_false, Bool.not_eq_false] at hrefused
    exact holds_mono hmay t hrefused

/-- **The blame lists its leaves in document order.** -/
theorem blamedLeaves_sublist (t : IndexedGate) :
    (blamedLeaves (tolerantGate evaluate true t)).Sublist t.leaves := by
  induction t using IndexedGate.ind with
  | leaf leaf =>
      rw [tolerantGate_leaf]
      cases evaluate leaf with
      | none => exact List.nil_sublist _
      | some result =>
          rw [Option.elim_some, leafResult]
          cases gateFailure result with
          | none => exact List.nil_sublist _
          | some failed => exact List.Sublist.refl _
  | branch kind children ih =>
      by_cases hrefused : (tolerantGate evaluate true (.branch kind children)).satisfied
          = some false
      · rw [blamedLeaves, gateBlame_collecting hrefused, List.map_flatMap, IndexedGate.leaves,
          leavesOf_eq_flatMap]
        clear hrefused
        induction children with
        | nil => exact List.Sublist.refl _
        | cons child children ih' =>
            obtain ⟨hchild, hrest⟩ := List.forall_mem_cons.mp ih
            rw [List.flatMap_cons, List.flatMap_cons]
            exact hchild.append (ih' hrest)
      · rw [blamedLeaves, gateBlame_of_satisfied hrefused]
        exact List.nil_sublist _

lemma tree_tolerantGate (evaluate : ℕ → Option RuleResult) (t : IndexedGate) :
    (tolerantGate evaluate true t).tree = t := by
  induction t using IndexedGate.ind with
  | leaf leaf =>
      rw [tolerantGate_leaf]
      cases evaluate leaf with
      | none => rfl
      | some result =>
          rw [Option.elim_some, leafResult]
          cases gateFailure result <;> rfl
  | branch kind children ih =>
      rw [tolerantGate_collecting, GateResult.tree]
      congr 1
      induction children with
      | nil => rfl
      | cons child children ih' =>
          obtain ⟨hchild, hrest⟩ := List.forall_mem_cons.mp ih
          rw [List.map_cons, treesOf, hchild, ih' hrest]

/-- Two children that share a leaf are one. -/
lemma eq_of_mem_leaves {child child' : IndexedGate} {leaf : ℕ}
    (hnodup : (leavesOf children).Nodup) (hchild : child ∈ children) (hchild' : child' ∈ children)
    (hleaf : leaf ∈ child.leaves) (hleaf' : leaf ∈ child'.leaves) : child = child' := by
  rw [leavesOf_eq_flatMap, List.nodup_flatMap] at hnodup
  by_contra hne
  have : Std.Symm fun a b : IndexedGate => List.Disjoint a.leaves b.leaves :=
    ⟨fun _ _ h => h.symm⟩
  exact (List.Pairwise.forall hnodup.2 hchild hchild' hne) hleaf hleaf'

/-- The leaves of an inner node are among those of the outer one. -/
lemma leaves_subset_of_within {inner result : GateResult} (h : GateResult.Within inner result) :
    inner.tree.leaves ⊆ result.tree.leaves := by
  induction h with
  | refl => exact List.Subset.refl _
  | child result kind satisfied children hmem _ ih =>
      intro leaf hleaf
      rw [GateResult.tree, IndexedGate.leaves, mem_leavesOf]
      refine ⟨result.tree, ?_, ih hleaf⟩
      clear ih
      induction children with
      | nil => cases hmem
      | cons child children ih' =>
          rw [treesOf, List.mem_cons]
          rcases List.mem_cons.mp hmem with rfl | hmem
          · exact .inl rfl
          · exact .inr (ih' hmem)

/-- **Nothing inside a satisfied node is blamed.** -/
theorem not_mem_of_within {t : IndexedGate} (hnodup : t.leaves.Nodup) {inner : GateResult}
    (hwithin : GateResult.Within inner (tolerantGate evaluate true t))
    (hsatisfied : inner.satisfied = some true) :
    ∀ leaf ∈ blamedLeaves (tolerantGate evaluate true t), leaf ∉ inner.tree.leaves := by
  induction t using IndexedGate.ind with
  | leaf leaf =>
      rw [tolerantGate_leaf] at hwithin ⊢
      obtain rfl : inner = (evaluate leaf).elim (unevaluated leaf) (leafResult leaf) := by
        cases hread : evaluate leaf with
        | none =>
            rw [hread] at hwithin
            cases hwithin
            rfl
        | some result =>
            rw [hread, Option.elim_some, leafResult] at hwithin
            rw [Option.elim_some, leafResult]
            cases hfails : gateFailure result with
            | none =>
                rw [hfails] at hwithin
                cases hwithin
                rfl
            | some failed =>
                rw [hfails] at hwithin
                cases hwithin
                rfl
      rw [blamedLeaves, gateBlame_of_satisfied (by simp [hsatisfied])]
      exact fun _ h => absurd h List.not_mem_nil
  | branch kind children ih =>
      intro leaf hblamed hinner
      by_cases hrefused : (tolerantGate evaluate true (.branch kind children)).satisfied
          = some false
      · obtain ⟨blamed, hmem, rfl⟩ := List.mem_map.mp hblamed
        rw [gateBlame_collecting hrefused] at hmem
        obtain ⟨child, hchild, hmem⟩ := List.mem_flatMap.mp hmem
        rw [tolerantGate_collecting] at hwithin
        cases hwithin with
        | refl =>
            rw [tolerantGate_collecting] at hrefused
            rw [hsatisfied] at hrefused
            cases hrefused
        | child result _ _ _ hresult hwithin =>
            -- the child that holds the inner node shares a leaf with the child that is blamed
            obtain ⟨other, hother, rfl⟩ := List.mem_map.mp hresult
            have hleaf : blamed.leaf ∈ child.leaves :=
              (blamedLeaves_sublist child).subset (List.mem_map_of_mem hmem)
            have hleaf' : blamed.leaf ∈ other.leaves := by
              rw [← tree_tolerantGate evaluate other]
              exact leaves_subset_of_within hwithin hinner
            obtain rfl := eq_of_mem_leaves hnodup hchild hother hleaf hleaf'
            have hnodup' : child.leaves.Nodup :=
              (List.nodup_flatMap.mp (leavesOf_eq_flatMap children ▸ hnodup)).1 child hchild
            exact ih child hchild hnodup' hwithin _ (List.mem_map_of_mem hmem) hinner
      · rw [blamedLeaves, gateBlame_of_satisfied hrefused] at hblamed
        cases hblamed

/-! ### A whole gate -/

/-- **The blame explains the refusal.** -/
theorem explains_of_refused {node : GateNode} (hnode : gateNodeSchema node = true)
    (hrefused : (tolerantGate evaluate true (indexGate 0 node).1).satisfied = some false) :
    Explains evaluate node (tolerantGate evaluate true (indexGate 0 node).1) := by
  have hbranching := branching_indexGate 0 node hnode
  have hleaves : (indexGate 0 node).1.leaves = List.range (gateLeaves node).length := by
    rw [(leaves_indexGate 0 node).1, List.range_eq_range']
  refine ⟨gateBlame_ne_nil hbranching hrefused, failed_of_mem_gateBlame _, ?_, ?_, ?_⟩
  · intro inner hwithin hsatisfied
    exact not_mem_of_within (hleaves ▸ List.nodup_range) hwithin hsatisfied
  · rw [← hleaves]
    exact blamedLeaves_sublist _
  · intro answer hblamed hothers hunread
    rw [decides_iff, gateHolds]
    refine holds_of_blamed evaluate hbranching (fun leaf hmay => ?_)
      fun blamed hmem => hblamed _ (List.mem_map_of_mem hmem)
    by_cases hleaf : leaf ∈ blamedLeaves (tolerantGate evaluate true (indexGate 0 node).1)
    · exact hblamed leaf hleaf
    · cases hread : evaluate leaf with
      | none => exact hunread leaf hread
      | some answered =>
          rw [passing, hothers leaf hleaf answered hread]
          simpa [mayPass, hread] using hmay

end

end PubsubVoting
