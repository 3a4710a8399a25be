import PubsubVoting.Rules.Gate

/-!
Whom a refusal may be blamed on: what `gatePenalize` reads off a completely evaluated tree.

* `isUnattributable`, `forgive`: a failure another verifier may not see, and the answer it would
  then see.
* `IndexedGate.Branching`: every branch has a child, as `gateNodeSchema` makes sure.
* `holds_mono`: a tree that admits keeps admitting when more leaves pass.
* `runGate_judged`: the refusal is attributable exactly if the tree still refuses once every
  unattributable failure is forgiven.
-/

namespace PubsubVoting

/-! ### Failures another verifier may not see -/

/-- The answer is a failure that may not be blamed on the sender. -/
def isUnattributable (result : RuleResult) : Bool :=
  (gateFailure result).any fun failed => !failed.penalize

/-- An unattributable failure becomes a pass, everything else stays. -/
def forgive (result : RuleResult) : RuleResult :=
  if isUnattributable result then .success 1 else result

/-- The answers of another verifier differ on unattributable failures only. -/
def DiffersOnUnattributable (answer answer' : ℕ → RuleResult) : Prop :=
  ∀ leaf, answer' leaf = answer leaf ∨ isUnattributable (answer leaf) = true

lemma passes_forgive (result : RuleResult) :
    (forgive result).passes = (result.passes || isUnattributable result) := by
  rw [forgive]
  cases h : isUnattributable result with
  | true => simp [RuleResult.passes, gateFailure]
  | false => simp

lemma passes_of_differs {answer answer' : ℕ → RuleResult}
    (h : DiffersOnUnattributable answer answer') (leaf : ℕ) (hpass : (answer' leaf).passes = true) :
    (forgive (answer leaf)).passes = true := by
  rw [passes_forgive]
  rcases h leaf with heq | hunattributable
  · rw [← heq, hpass, Bool.true_or]
  · rw [hunattributable, Bool.or_true]

lemma differs_forgive (answer : ℕ → RuleResult) :
    DiffersOnUnattributable answer fun leaf => forgive (answer leaf) := by
  intro leaf
  cases h : isUnattributable (answer leaf) with
  | true => exact Or.inr rfl
  | false => exact Or.inl (by simp [forgive, h])

/-- What a failing leaf is blamed with. -/
lemma gatePenalize_leafResult (leaf : ℕ) (result : RuleResult) (hfail : result.passes = false) :
    gatePenalize (leafResult leaf result) = !(forgive result).passes := by
  rw [passes_forgive, hfail, Bool.false_or]
  cases h : gateFailure result with
  | none => simp [RuleResult.passes, h] at hfail
  | some failed => simp [leafResult, h, gatePenalize, isUnattributable]

/-! ### Trees without empty branches -/

/-- No branch of the tree is empty. -/
inductive IndexedGate.Branching : IndexedGate → Prop
  | leaf (leaf : ℕ) : Branching (.leaf leaf)
  | branch (kind : GateKind) (children : List IndexedGate) (hne : children ≠ [])
      (h : ∀ child ∈ children, Branching child) : Branching (.branch kind children)

mutual

/-- What parses as a gate has no empty branch. -/
lemma branching_indexGate (next : ℕ) (node : GateNode) (h : gateNodeSchema node = true) :
    (indexGate next node).1.Branching := by
  cases node with
  | rule ref => exact .leaf next
  | branch kind children =>
      rw [gateNodeSchema, Bool.and_eq_true, decide_eq_true_iff] at h
      obtain ⟨hlen, hchildren⟩ := h
      have hlen' := length_indexGates next children
      refine .branch kind _ ?_ (branching_indexGates next children hchildren)
      intro hnil
      rw [hnil, List.length_nil] at hlen'
      omega

lemma branching_indexGates (next : ℕ) (children : List GateNode)
    (h : gateNodesSchema children = true) :
    ∀ child ∈ (indexGates next children).1, child.Branching := by
  cases children with
  | nil => exact fun _ hmem => absurd hmem List.not_mem_nil
  | cons child children =>
      rw [gateNodesSchema, Bool.and_eq_true] at h
      exact List.forall_mem_cons.mpr ⟨branching_indexGate next child h.1,
        branching_indexGates _ children h.2⟩

lemma length_indexGates (next : ℕ) (children : List GateNode) :
    (indexGates next children).1.length = children.length := by
  cases children with
  | nil => rfl
  | cons child children =>
      exact congrArg Nat.succ (length_indexGates (indexGate next child).2 children)

end

/-- **More passing leaves never close a gate.** -/
lemma holds_mono {pass pass' : ℕ → Bool} (h : ∀ leaf, pass leaf = true → pass' leaf = true)
    (t : IndexedGate) : t.holds pass = true → t.holds pass' = true := by
  induction t using IndexedGate.ind with
  | leaf i => exact h i
  | branch kind children ih =>
      rw [holds_branch, holds_branch]
      cases kind with
      | all =>
          intro hall
          rw [List.all_map, List.all_eq_true] at hall ⊢
          exact fun child hchild => ih child hchild (hall child hchild)
      | any =>
          intro hany
          rw [List.any_map, List.any_eq_true] at hany ⊢
          obtain ⟨child, hchild, hholds⟩ := hany
          exact ⟨child, hchild, ih child hchild hholds⟩

/-! ### Attributable on every view -/

/-- The verdict of an evaluated tree, and on a refusal whether it survives forgiveness. -/
structure Judged (pass pass' : ℕ → Bool) (t : IndexedGate) (result : GateResult) : Prop where
  satisfied : result.satisfied = some (t.holds pass)
  penalize : t.holds pass = false → gatePenalize result = !t.holds pass'

section

variable {answer : ℕ → RuleResult} {tolerate : Bool} {pass pass' : ℕ → Bool}
  {children : List IndexedGate} {results : List GateResult}

lemma failingPenalties_judged (h : List.Forall₂ (Judged pass pass') children results) :
    failingPenalties results =
      (children.filter fun child => !child.holds pass).map fun child => !child.holds pass' := by
  induction h with
  | nil => rfl
  | @cons child result children results hchild _ ih =>
      rw [failingPenalties, hchild.satisfied, ih]
      cases hholds : child.holds pass with
      | true => simp [hholds]
      | false => simp [hholds, hchild.penalize hholds]

lemma satisfied_judged (h : List.Forall₂ (Judged pass pass') children results) :
    results.map (·.satisfied) = (children.map (·.holds pass)).map some := by
  induction h with
  | nil => rfl
  | cons hchild _ ih => simp [hchild.satisfied, ih]

/-- A refused `all` is attributable if one failing child is; a child that holds goes on holding. -/
lemma judged_all (hmono : ∀ leaf, pass leaf = true → pass' leaf = true)
    (h : List.Forall₂ (Judged pass pass') children results) :
    (failingPenalties results).any id = !(IndexedGate.branch .all children).holds pass' := by
  rw [failingPenalties_judged h, holds_branch, Bool.eq_iff_iff]
  simp only [List.any_map, List.any_filter, List.any_eq_true, Function.comp_apply, id_eq,
    Bool.and_eq_true, Bool.not_eq_true', List.all_map, List.all_eq_false]
  constructor
  · rintro ⟨child, hchild, -, hfalse⟩
    exact ⟨child, hchild, by simp [hfalse]⟩
  · rintro ⟨child, hchild, hnot⟩
    have hfalse : child.holds pass' = false := by simpa using hnot
    refine ⟨child, hchild, ?_, hfalse⟩
    by_contra hholds
    rw [Bool.not_eq_false] at hholds
    exact absurd (holds_mono hmono child hholds) (by simp [hfalse])

/-- A refused `any` has failing children only, so it is attributable if all its children are. -/
lemma judged_any (hne : children ≠ []) (h : List.Forall₂ (Judged pass pass') children results)
    (hfalse : (IndexedGate.branch .any children).holds pass = false) :
    (!(failingPenalties results).isEmpty && (failingPenalties results).all id)
      = !(IndexedGate.branch .any children).holds pass' := by
  rw [holds_branch] at hfalse
  have hfail : ∀ child ∈ children, child.holds pass = false := by simpa using hfalse
  have hkeep : children.filter (fun child => !child.holds pass) = children :=
    List.filter_eq_self.mpr fun child hchild => by simp [hfail child hchild]
  rw [failingPenalties_judged h, hkeep, holds_branch]
  have hempty : (children.map fun child => !child.holds pass').isEmpty = false := by simpa using hne
  rw [hempty, Bool.not_false, Bool.true_and, List.all_map, List.any_map, List.not_any_eq_all_not]
  rfl

lemma runGates_forall₂
    (h : ∀ child ∈ children, ∀ result,
      runGate (fun leaf => some (answer leaf)) true tolerate child = some result →
        Judged pass pass' child result)
    (hrun : runGates (fun leaf => some (answer leaf)) true tolerate children = some results) :
    List.Forall₂ (Judged pass pass') children results := by
  induction children generalizing results with
  | nil =>
      obtain rfl : [] = results := by simpa [runGates] using hrun
      exact .nil
  | cons child children ih =>
      rw [List.forall_mem_cons] at h
      simp only [runGates, Option.bind_eq_bind, Option.bind_eq_some_iff, Option.pure_def,
        Option.some.injEq] at hrun
      obtain ⟨result, hresult, rest, hrest, rfl⟩ := hrun
      exact .cons (h.1 result hresult) (ih h.2 hrest)

/-- A complete evaluation judges every subtree: by induction on the tree, a branch from its
children. -/
theorem runGate_judged {t : IndexedGate} (hbranching : t.Branching) {result : GateResult}
    (hrun : runGate (fun leaf => some (answer leaf)) true tolerate t = some result) :
    Judged (passing answer) (passing fun leaf => forgive (answer leaf)) t result := by
  have hmono : ∀ leaf, passing answer leaf = true →
      passing (fun leaf => forgive (answer leaf)) leaf = true := fun leaf hpass => by
    rw [passing, passes_forgive, show (answer leaf).passes = true from hpass, Bool.true_or]
  induction t using IndexedGate.ind generalizing result with
  | leaf i =>
      obtain rfl : leafResult i (answer i) = result := by simpa [runGate] using hrun
      exact ⟨leafResult_satisfied i (answer i), gatePenalize_leafResult i (answer i)⟩
  | branch kind children ih =>
      cases hbranching with
      | branch _ _ hne hchildren =>
          simp only [runGate, if_true, Option.bind_eq_bind, Option.bind_eq_some_iff,
            Option.pure_def, Option.some.injEq] at hrun
          obtain ⟨results, hresults, rfl⟩ := hrun
          have hjudged := runGates_forall₂
            (fun child hchild result => ih child hchild (hchildren child hchild)) hresults
          have hsat : foldSatisfied kind (results.map (·.satisfied))
              = some ((IndexedGate.branch kind children).holds (passing answer)) := by
            rw [satisfied_judged hjudged, foldSatisfied_map_some, holds_branch]
          refine ⟨hsat, fun hfalse => ?_⟩
          cases kind with
          | all =>
              rw [gatePenalize, hsat, hfalse, decide_eq_true rfl, Bool.true_and]
              exact judged_all hmono hjudged
          | any =>
              rw [gatePenalize, hsat, hfalse, decide_eq_true rfl, Bool.true_and]
              exact judged_any hne hjudged hfalse

/-- A complete evaluation of a gate, with every leaf answered. -/
def evaluateCompletely (answer : ℕ → RuleResult) (tolerate : Bool) (node : GateNode) :
    Option GateResult :=
  evaluateGate (fun leaf => some (answer leaf)) true tolerate node

/-- The gate refuses when evaluated completely. -/
def Refuses (answer : ℕ → RuleResult) (tolerate : Bool) (node : GateNode) : Prop :=
  ∃ result, evaluateCompletely answer tolerate node = some result
    ∧ result.satisfied = some false

lemma refuses_iff {node : GateNode} :
    Refuses answer tolerate node ↔ gateHolds answer node = false := by
  obtain ⟨result, hresult, hsat⟩ : ∃ result, evaluateCompletely answer tolerate node = some result
      ∧ result.satisfied = some (gateHolds answer node) :=
    evaluateGate_satisfied tolerate (fun _ _ => rfl) true
  constructor
  · rintro ⟨result', hresult', hfalse⟩
    obtain rfl : result = result' := Option.some.inj (hresult.symm.trans hresult')
    exact Option.some.inj (hsat.symm.trans hfalse)
  · intro hfalse
    exact ⟨result, hresult, hsat.trans (congrArg some hfalse)⟩

/-- **A refusal is blamed on the sender exactly if it is attributable on every view**: exactly if
the gate still refuses with the unattributable failures forgiven, and exactly if it refuses for
every verifier that differs on unattributable failures only. -/
theorem gatePenalize_iff {node : GateNode} (hnode : gateNodeSchema node = true)
    {result : GateResult} (hrun : evaluateCompletely answer tolerate node = some result)
    (hrefuse : result.satisfied = some false) :
    (gatePenalize result = true ↔ Refuses (fun leaf => forgive (answer leaf)) tolerate node)
      ∧ (gatePenalize result = true ↔
        ∀ answer', DiffersOnUnattributable answer answer' → Refuses answer' tolerate node) := by
  obtain ⟨hsat, hpenalize⟩ := runGate_judged (branching_indexGate 0 node hnode) hrun
  have hfalse : (indexGate 0 node).1.holds (passing answer) = false :=
    Option.some.inj (hsat.symm.trans hrefuse)
  have hforgiven : gatePenalize result = true ↔
      Refuses (fun leaf => forgive (answer leaf)) tolerate node := by
    rw [hpenalize hfalse, refuses_iff, Bool.not_eq_true']
    rfl
  refine ⟨hforgiven, hforgiven.trans ⟨fun hrefuses answer' hdiffers => ?_, fun hall => ?_⟩⟩
  · rw [refuses_iff] at hrefuses ⊢
    by_contra hholds
    rw [Bool.not_eq_false] at hholds
    have hopen := holds_mono (passes_of_differs hdiffers) _ hholds
    exact absurd hopen (by simpa [gateHolds] using hrefuses)
  · exact hall _ (differs_forgive answer)

/-- An `any` of two rules. -/
def anyOfTwo : GateNode := .branch .any [.rule ⟨[97], []⟩, .rule ⟨[98], []⟩]

/-- Both rules fail, and the second failure is one another verifier may not see. -/
def secondUnattributable (leaf : ℕ) : RuleResult := .failure "no pass" (some (decide (leaf = 0)))

/-- Some verifier that differs on the second rule only admits the wallet. -/
theorem gatePenalize_iff_anyOfTwo :
    ¬ ∀ answer', DiffersOnUnattributable secondUnattributable answer' →
      Refuses answer' false anyOfTwo := by
  intro hall
  have hrun : evaluateCompletely secondUnattributable false anyOfTwo
      = some (.branch .any (some false) [.leaf 0 (some false) 0 (some "no pass") true,
        .leaf 1 (some false) 0 (some "no pass") false]) := rfl
  have hblamed := (gatePenalize_iff (by decide) hrun rfl).2.mpr hall
  exact absurd hblamed (by decide)

end

end PubsubVoting
