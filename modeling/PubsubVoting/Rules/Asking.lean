import PubsubVoting.Rules.Gate

/-!
The gate that stops at the first deciding child against the gate that asks every leaf.

* `askGate`: `runGate` where every rule answers, with the leaves it asks in the order it asks them.
* `GateNode.outline`, `GateResult.outline`: the shape of a document and of a result.
* `GateResult.known`: the leaves a result has an answer for; they are the ones that were asked
  (`known_askGate`).
* `agrees_askGate`: what a lazy result says, an eager one says as well.
* `evaluateGate_lazy_eager`: both modes decide alike, the lazy blame is part of the eager one, and a
  lazy result is blamed on the sender only if the eager one is.
-/

namespace PubsubVoting

/-! ### The evaluator with the leaves it asks -/

/-- An evaluated tree, and the leaves that were asked for it in the order they were asked. -/
structure AskedGate where
  asked : List ℕ
  result : GateResult

section

variable (answer : ℕ → RuleResult) (collectAll : Bool)

mutual

/-- `runGate` where every rule answers. -/
def askGate : IndexedGate → AskedGate
  | .leaf leaf => ⟨[leaf], leafResult leaf (answer leaf)⟩
  | .branch kind children =>
    if collectAll then
      let (asked, children) := askGates children
      ⟨asked, .branch kind (foldSatisfied kind (children.map (·.satisfied))) children⟩
    else
      let (decided, asked, children) := askGatesUntil kind children
      ⟨asked, .branch kind
        (if decided then some kind.decidesAt
          else foldSatisfied kind (children.map (·.satisfied))) children⟩

/-- `runGates` where every rule answers. -/
def askGates : List IndexedGate → List ℕ × List GateResult
  | [] => ([], [])
  | child :: children =>
    let run := askGate child
    let (asked, results) := askGates children
    (run.asked ++ asked, run.result :: results)

/-- `runGatesUntil` where every rule answers. -/
def askGatesUntil (kind : GateKind) : List IndexedGate → Bool × List ℕ × List GateResult
  | [] => (false, [], [])
  | child :: children =>
    let run := askGate child
    if run.result.isSatisfied = kind.decidesAt then
      (true, run.asked, run.result :: skippedAll children)
    else
      let (decided, asked, results) := askGatesUntil kind children
      (decided, run.asked ++ asked, run.result :: results)

end

/-- `evaluateGate` where every rule answers. -/
def evaluateAsking (node : GateNode) : AskedGate := askGate answer collectAll (indexGate 0 node).1

end

/-! ### Shapes -/

/-- The shape of a tree, without its rules and its verdicts. -/
inductive Outline where
  | leaf
  | branch (kind : GateKind) (children : List Outline)

mutual

/-- The shape of a document. -/
def GateNode.outline : GateNode → Outline
  | .rule _ => .leaf
  | .branch kind children => .branch kind (outlines children)

/-- The shapes of a branch's children. -/
def outlines : List GateNode → List Outline
  | [] => []
  | child :: children => child.outline :: outlines children

end

mutual

/-- The shape of a numbered tree. -/
def IndexedGate.outline : IndexedGate → Outline
  | .leaf _ => .leaf
  | .branch kind children => .branch kind (indexedOutlines children)

/-- The shapes of a branch's numbered children. -/
def indexedOutlines : List IndexedGate → List Outline
  | [] => []
  | child :: children => child.outline :: indexedOutlines children

end

mutual

/-- The numbered tree that a result is about. -/
def GateResult.tree : GateResult → IndexedGate
  | .leaf leaf _ _ _ _ => .leaf leaf
  | .branch kind _ children => .branch kind (treesOf children)

/-- The numbered trees that the children's results are about. -/
def treesOf : List GateResult → List IndexedGate
  | [] => []
  | child :: children => child.tree :: treesOf children

end

/-- The shape of a result. -/
def GateResult.outline (result : GateResult) : Outline := result.tree.outline

mutual

/-- The leaves of a result in document order, each with its verdict. -/
def GateResult.verdicts : GateResult → List (ℕ × Option Bool)
  | .leaf leaf satisfied _ _ _ => [(leaf, satisfied)]
  | .branch _ _ children => verdictsOf children

/-- The leaves of the children's results, each with its verdict. -/
def verdictsOf : List GateResult → List (ℕ × Option Bool)
  | [] => []
  | child :: children => child.verdicts ++ verdictsOf children

end

/-- The leaves with a verdict. -/
def knownLeaves (verdicts : List (ℕ × Option Bool)) : List ℕ :=
  (verdicts.filter (·.2.isSome)).map (·.1)

/-! ### What the evaluator asks -/

/-- A tree evaluated in document order: the result is about the tree, and the leaves it knows are
those that were asked. -/
structure AskedGate.Covers (run : AskedGate) (t : IndexedGate) : Prop where
  tree : run.result.tree = t
  asked : run.asked = knownLeaves run.result.verdicts

lemma knownLeaves_append (v v' : List (ℕ × Option Bool)) :
    knownLeaves (v ++ v') = knownLeaves v ++ knownLeaves v' := by
  simp [knownLeaves]

mutual

lemma tree_skipped (t : IndexedGate) :
    (skipped t).tree = t ∧ knownLeaves (skipped t).verdicts = [] := by
  cases t with
  | leaf leaf => exact ⟨rfl, rfl⟩
  | branch kind children =>
      obtain ⟨htrees, hknown⟩ := treesOf_skippedAll children
      exact ⟨congrArg (IndexedGate.branch kind) htrees, hknown⟩

lemma treesOf_skippedAll (children : List IndexedGate) :
    treesOf (skippedAll children) = children
      ∧ knownLeaves (verdictsOf (skippedAll children)) = [] := by
  cases children with
  | nil => exact ⟨rfl, rfl⟩
  | cons child children =>
      obtain ⟨htree, hknown⟩ := tree_skipped child
      obtain ⟨htrees, hknowns⟩ := treesOf_skippedAll children
      refine ⟨?_, ?_⟩
      · rw [skippedAll, treesOf, htree, htrees]
      · rw [skippedAll, verdictsOf, knownLeaves_append, hknown, hknowns, List.append_nil]

end

lemma skipped_satisfied (t : IndexedGate) : (skipped t).satisfied = none := by
  cases t <;> rfl

lemma gateBlame_skipped (t : IndexedGate) : gateBlame (skipped t) = [] := by
  cases t <;> rfl

lemma skippedAll_eq_map (children : List IndexedGate) :
    skippedAll children = children.map skipped := by
  induction children with
  | nil => rfl
  | cons child children ih => rw [skippedAll, ih, List.map_cons]

lemma mem_gateBlames {results : List GateResult} {leaf : BlamedLeaf} :
    leaf ∈ gateBlames results ↔ ∃ result ∈ results, leaf ∈ gateBlame result := by
  induction results with
  | nil => simp [gateBlames]
  | cons result results ih => simp [gateBlames, ih]

lemma mem_failingPenalties {results : List GateResult} {penalty : Bool} :
    penalty ∈ failingPenalties results ↔
      ∃ result ∈ results, result.satisfied = some false ∧ gatePenalize result = penalty := by
  induction results with
  | nil => simp [failingPenalties]
  | cons result results ih =>
      rw [failingPenalties]
      by_cases hfails : result.satisfied = some false
      · simp [hfails, ih, eq_comm]
      · simp [hfails, ih]

section

variable {answer : ℕ → RuleResult} {collectAll tolerate : Bool}

lemma leafResult_covers (leaf : ℕ) (result : RuleResult) :
    AskedGate.Covers ⟨[leaf], leafResult leaf result⟩ (.leaf leaf) := by
  constructor
  · rw [leafResult]
    cases gateFailure result <;> rfl
  · rw [leafResult]
    cases gateFailure result <;> rfl

lemma askGates_covers {children : List IndexedGate}
    (h : ∀ child ∈ children, (askGate answer collectAll child).Covers child) :
    treesOf (askGates answer collectAll children).2 = children
      ∧ (askGates answer collectAll children).1
        = knownLeaves (verdictsOf (askGates answer collectAll children).2) := by
  induction children with
  | nil => exact ⟨rfl, rfl⟩
  | cons child children ih =>
      obtain ⟨hchild, hrest⟩ := List.forall_mem_cons.mp h
      obtain ⟨htrees, hasked⟩ := ih hrest
      refine ⟨?_, ?_⟩
      · rw [askGates, treesOf, hchild.tree, htrees]
      · rw [askGates, verdictsOf, knownLeaves_append, ← hchild.asked, ← hasked]

lemma askGatesUntil_covers (kind : GateKind) {children : List IndexedGate}
    (h : ∀ child ∈ children, (askGate answer collectAll child).Covers child) :
    treesOf (askGatesUntil answer collectAll kind children).2.2 = children
      ∧ (askGatesUntil answer collectAll kind children).2.1
        = knownLeaves (verdictsOf (askGatesUntil answer collectAll kind children).2.2) := by
  induction children with
  | nil => exact ⟨rfl, rfl⟩
  | cons child children ih =>
      obtain ⟨hchild, hrest⟩ := List.forall_mem_cons.mp h
      rw [askGatesUntil]
      by_cases hdecides : (askGate answer collectAll child).result.isSatisfied = kind.decidesAt
      · -- the rest is skipped, and nothing in it is known
        obtain ⟨htrees, hknown⟩ := treesOf_skippedAll children
        rw [if_pos hdecides]
        refine ⟨?_, ?_⟩
        · rw [treesOf, hchild.tree, htrees]
        · rw [verdictsOf, knownLeaves_append, ← hchild.asked, hknown, List.append_nil]
      · obtain ⟨htrees, hasked⟩ := ih hrest
        rw [if_neg hdecides]
        refine ⟨?_, ?_⟩
        · rw [treesOf, hchild.tree, htrees]
        · rw [verdictsOf, knownLeaves_append, ← hchild.asked, ← hasked]

/-- **The leaves with a verdict are the ones that were asked**, in document order. -/
theorem askGate_covers (t : IndexedGate) : (askGate answer collectAll t).Covers t := by
  induction t using IndexedGate.ind with
  | leaf leaf => exact leafResult_covers leaf (answer leaf)
  | branch kind children ih =>
      rw [askGate]
      cases collectAll with
      | true =>
          obtain ⟨htrees, hasked⟩ := askGates_covers ih
          exact ⟨congrArg (IndexedGate.branch kind) htrees, hasked⟩
      | false =>
          obtain ⟨htrees, hasked⟩ := askGatesUntil_covers kind ih
          exact ⟨congrArg (IndexedGate.branch kind) htrees, hasked⟩

/-- It is the evaluator, with a note of what it asks. -/
lemma runGate_eq_askGate (t : IndexedGate) :
    runGate (fun leaf => some (answer leaf)) collectAll tolerate t
      = some (askGate answer collectAll t).result := by
  induction t using IndexedGate.ind with
  | leaf leaf => rfl
  | branch kind children ih =>
      have hall : runGates (fun leaf => some (answer leaf)) collectAll tolerate children
          = some (askGates answer collectAll children).2 := by
        induction children with
        | nil => rfl
        | cons child children ih' =>
            obtain ⟨hchild, hrest⟩ := List.forall_mem_cons.mp ih
            simp [runGates, askGates, hchild, ih' hrest]
      have huntil : runGatesUntil (fun leaf => some (answer leaf)) collectAll tolerate kind children
          = some ((askGatesUntil answer collectAll kind children).1,
            (askGatesUntil answer collectAll kind children).2.2) := by
        clear hall
        induction children with
        | nil => rfl
        | cons child children ih' =>
            obtain ⟨hchild, hrest⟩ := List.forall_mem_cons.mp ih
            rw [runGatesUntil, askGatesUntil]
            by_cases hdecides :
                (askGate answer collectAll child).result.isSatisfied = kind.decidesAt
            · simp [hchild, hdecides]
            · simp [hchild, hdecides, ih' hrest]
      rw [runGate, askGate]
      cases collectAll with
      | true => simp [hall]
      | false => simp [huntil]

/-- Both modes decide as the tree says. -/
lemma askGate_satisfied (t : IndexedGate) :
    (askGate answer collectAll t).result.satisfied = some (t.holds (passing answer)) := by
  have hdecided : Decided (passing answer)
      (runGate (fun leaf => some (answer leaf)) collectAll false) t :=
    runGate_decided (fun _ _ => rfl) collectAll
  obtain ⟨result, hresult, hsatisfied⟩ := hdecided
  rw [runGate_eq_askGate] at hresult
  rw [Option.some.inj hresult]
  exact hsatisfied

lemma askGates_eq_map (children : List IndexedGate) :
    (askGates answer collectAll children).2
      = children.map fun child => (askGate answer collectAll child).result := by
  induction children with
  | nil => rfl
  | cons child children ih =>
      rw [List.map_cons, ← ih]
      rfl

/-- A child is evaluated or skipped. -/
lemma mem_askGatesUntil {kind : GateKind} {children : List IndexedGate} {result : GateResult}
    (h : result ∈ (askGatesUntil answer collectAll kind children).2.2) :
    ∃ child ∈ children, result = (askGate answer collectAll child).result
      ∨ result = skipped child := by
  induction children with
  | nil => cases h
  | cons child children ih =>
      rw [askGatesUntil] at h
      by_cases hdecides : (askGate answer collectAll child).result.isSatisfied = kind.decidesAt
      · rw [if_pos hdecides] at h
        rcases List.mem_cons.mp h with rfl | hskipped
        · exact ⟨child, List.mem_cons_self, .inl rfl⟩
        · rw [skippedAll_eq_map, List.mem_map] at hskipped
          obtain ⟨other, hother, rfl⟩ := hskipped
          exact ⟨other, List.mem_cons_of_mem _ hother, .inr rfl⟩
      · rw [if_neg hdecides] at h
        rcases List.mem_cons.mp h with rfl | hrest
        · exact ⟨child, List.mem_cons_self, .inl rfl⟩
        · obtain ⟨other, hother, hresult⟩ := ih hrest
          exact ⟨other, List.mem_cons_of_mem _ hother, hresult⟩

/-- Where no child decides, every child is evaluated. -/
lemma askGatesUntil_undecided {kind : GateKind} {children : List IndexedGate}
    (h : (askGatesUntil answer collectAll kind children).1 = false) :
    (askGatesUntil answer collectAll kind children).2.2
      = children.map fun child => (askGate answer collectAll child).result := by
  induction children with
  | nil => rfl
  | cons child children ih =>
      rw [askGatesUntil] at h ⊢
      by_cases hdecides : (askGate answer collectAll child).result.isSatisfied = kind.decidesAt
      · rw [if_pos hdecides] at h
        cases h
      · rw [if_neg hdecides] at h ⊢
        rw [List.map_cons, ← ih h]

/-! ### Lazy and eager -/

/-- What a lazy result says, the eager one says as well. -/
structure Agrees (lazy eager : GateResult) : Prop where
  satisfied : lazy.satisfied = eager.satisfied
  blame : gateBlame lazy ⊆ gateBlame eager
  penalize : gatePenalize lazy = true → gatePenalize eager = true

/-- The blame of a branch that asked until a child decided. -/
lemma gateBlames_askGatesUntil {kind : GateKind} {children : List IndexedGate}
    (h : ∀ child ∈ children,
      Agrees (askGate answer false child).result (askGate answer true child).result) :
    gateBlames (askGatesUntil answer false kind children).2.2
      ⊆ gateBlames (askGates answer true children).2 := by
  intro leaf hleaf
  obtain ⟨result, hresult, hblamed⟩ := mem_gateBlames.mp hleaf
  obtain ⟨child, hchild, rfl | rfl⟩ := mem_askGatesUntil hresult
  · rw [askGates_eq_map, mem_gateBlames]
    exact ⟨_, List.mem_map_of_mem hchild, (h child hchild).blame hblamed⟩
  · rw [gateBlame_skipped] at hblamed
    cases hblamed

/-- One attributable failure closes an `all`: the lazy one that decided fails eagerly as well. -/
lemma any_failingPenalties {kind : GateKind} {children : List IndexedGate}
    (h : ∀ child ∈ children,
      Agrees (askGate answer false child).result (askGate answer true child).result)
    (hany : (failingPenalties (askGatesUntil answer false kind children).2.2).any id = true) :
    (failingPenalties (askGates answer true children).2).any id = true := by
  rw [List.any_eq_true] at hany ⊢
  obtain ⟨penalty, hpenalty, rfl⟩ := hany
  obtain ⟨result, hresult, hfails, hpenalize⟩ := mem_failingPenalties.mp hpenalty
  obtain ⟨child, hchild, rfl | rfl⟩ := mem_askGatesUntil hresult
  · refine ⟨true, mem_failingPenalties.mpr ⟨(askGate answer true child).result, ?_, ?_, ?_⟩, rfl⟩
    · rw [askGates_eq_map]
      exact List.mem_map_of_mem hchild
    · rw [← (h child hchild).satisfied, hfails]
    · exact (h child hchild).penalize hpenalize
  · rw [skipped_satisfied] at hfails
    cases hfails

/-- An `any` that fails has asked every child. -/
lemma all_failingPenalties {children : List IndexedGate}
    (h : ∀ child ∈ children,
      Agrees (askGate answer false child).result (askGate answer true child).result)
    (hall : (failingPenalties (children.map fun child =>
      (askGate answer false child).result)).all id = true) :
    (failingPenalties (askGates answer true children).2).all id = true := by
  rw [List.all_eq_true] at hall ⊢
  intro penalty hpenalty
  obtain ⟨result, hresult, hfails, rfl⟩ := mem_failingPenalties.mp hpenalty
  rw [askGates_eq_map, List.mem_map] at hresult
  obtain ⟨child, hchild, rfl⟩ := hresult
  refine (h child hchild).penalize (hall _ (mem_failingPenalties.mpr ⟨_, ?_, ?_, rfl⟩))
  · exact List.mem_map_of_mem hchild
  · rw [(h child hchild).satisfied, hfails]

/-- Two branches with one verdict agree if their children do. -/
lemma Agrees.branch {kind : GateKind} {satisfied satisfied' : Option Bool}
    {results results' : List GateResult} (hsatisfied : satisfied = satisfied')
    (hblame : gateBlames results ⊆ gateBlames results')
    (hany : (failingPenalties results).any id = true → (failingPenalties results').any id = true)
    (hall : kind = .any → satisfied = some false → (failingPenalties results).all id = true →
      (failingPenalties results').all id = true) :
    Agrees (.branch kind satisfied results) (.branch kind satisfied' results') := by
  subst hsatisfied
  refine ⟨rfl, ?_, fun hpenalize => ?_⟩
  · simp only [gateBlame]
    split_ifs
    · exact hblame
    · exact List.Subset.refl _
  · simp only [gatePenalize, Bool.and_eq_true, decide_eq_true_iff] at hpenalize ⊢
    obtain ⟨hfails, hpenalize⟩ := hpenalize
    refine ⟨hfails, ?_⟩
    cases kind with
    | all => exact hany hpenalize
    | any =>
        simp only [Bool.and_eq_true, Bool.not_eq_true', List.isEmpty_eq_false_iff] at hpenalize ⊢
        obtain ⟨hne, hpenalize⟩ := hpenalize
        refine ⟨?_, hall rfl hfails hpenalize⟩
        obtain ⟨penalty, hpenalty⟩ := List.exists_mem_of_ne_nil _ hne
        have htrue := List.all_eq_true.mp hpenalize penalty hpenalty
        obtain ⟨penalty', hpenalty', -⟩ :=
          List.any_eq_true.mp (hany (List.any_eq_true.mpr ⟨penalty, hpenalty, htrue⟩))
        exact List.ne_nil_of_mem hpenalty'

/-- **A lazy result and the eager one agree**, through every level of the tree. -/
theorem agrees_askGate (t : IndexedGate) :
    Agrees (askGate answer false t).result (askGate answer true t).result := by
  induction t using IndexedGate.ind with
  | leaf leaf => exact ⟨rfl, List.Subset.refl _, id⟩
  | branch kind children ih =>
      have hsatisfied : (askGate answer false (.branch kind children)).result.satisfied
          = (askGate answer true (.branch kind children)).result.satisfied := by
        rw [askGate_satisfied, askGate_satisfied]
      rw [askGate, askGate] at hsatisfied ⊢
      refine Agrees.branch hsatisfied (gateBlames_askGatesUntil ih) (any_failingPenalties ih) ?_
      rintro rfl hfails hall
      -- a decided `any` would have admitted
      have hundecided : (askGatesUntil answer false .any children).1 = false := by
        cases hdecided : (askGatesUntil answer false .any children).1 with
        | false => rfl
        | true => simp [hdecided, GateKind.decidesAt] at hfails
      rw [askGatesUntil_undecided hundecided] at hall
      exact all_failingPenalties ih hall

/-- Every leaf is known to an evaluation that collects them all. -/
lemma known_askGate (t : IndexedGate) :
    ∀ verdict ∈ (askGate answer true t).result.verdicts, verdict.2.isSome = true := by
  induction t using IndexedGate.ind with
  | leaf leaf =>
      intro verdict hverdict
      have hsatisfied := leafResult_satisfied leaf (answer leaf)
      rw [askGate] at hverdict
      cases hresult : leafResult leaf (answer leaf) with
      | leaf leaf' satisfied score error penalize =>
          rw [hresult] at hverdict hsatisfied
          obtain rfl := List.mem_singleton.mp hverdict
          exact Option.isSome_iff_exists.mpr ⟨_, hsatisfied⟩
      | branch kind satisfied children =>
          rw [leafResult] at hresult
          split at hresult <;> cases hresult
  | branch kind children ih =>
      rw [askGate]
      simp only [if_true, GateResult.verdicts]
      rw [askGates_eq_map]
      induction children with
      | nil => exact fun _ h => nomatch h
      | cons child children ih' =>
          obtain ⟨hchild, hrest⟩ := List.forall_mem_cons.mp ih
          intro verdict hverdict
          rw [List.map_cons, verdictsOf] at hverdict
          rcases List.mem_append.mp hverdict with hverdict | hverdict
          · exact hchild verdict hverdict
          · exact ih' hrest verdict hverdict

end

/-! ### A whole gate -/

mutual

lemma outline_indexGate (next : ℕ) (node : GateNode) :
    (indexGate next node).1.outline = node.outline := by
  cases node with
  | rule ref => rfl
  | branch kind children =>
      exact congrArg (Outline.branch kind) (outlines_indexGates next children)

lemma outlines_indexGates (next : ℕ) (children : List GateNode) :
    indexedOutlines (indexGates next children).1 = outlines children := by
  cases children with
  | nil => rfl
  | cons child children =>
      exact congrArg₂ List.cons (outline_indexGate next child)
        (outlines_indexGates (indexGate next child).2 children)

end

mutual

lemma leaves_tree (result : GateResult) :
    result.verdicts.map (·.1) = result.tree.leaves := by
  cases result with
  | leaf leaf satisfied score error penalize => rfl
  | branch kind satisfied children => exact leavesOf_treesOf children

lemma leavesOf_treesOf (results : List GateResult) :
    (verdictsOf results).map (·.1) = leavesOf (treesOf results) := by
  cases results with
  | nil => rfl
  | cons result results =>
      rw [verdictsOf, List.map_append, leaves_tree result, leavesOf_treesOf results]
      rfl

end

/-- The result of a whole gate has the shape of the document, its leaves are numbered in document
order, none is asked twice, and it knows those that were asked. -/
structure AskedGate.Mirrors (run : AskedGate) (node : GateNode) : Prop where
  outline : run.result.outline = node.outline
  leaves : run.result.verdicts.map (·.1) = List.range (gateLeaves node).length
  nodup : run.asked.Nodup
  asked_lt : ∀ leaf ∈ run.asked, leaf < (gateLeaves node).length
  unknown_iff : ∀ verdict ∈ run.result.verdicts, verdict.2 = none ↔ verdict.1 ∉ run.asked

lemma AskedGate.Covers.mirrors {run : AskedGate} {node : GateNode}
    (h : run.Covers (indexGate 0 node).1) : run.Mirrors node := by
  have hleaves : run.result.verdicts.map (·.1) = List.range (gateLeaves node).length := by
    rw [leaves_tree, h.tree, (leaves_indexGate 0 node).1, List.range_eq_range']
  have hnodup : (run.result.verdicts.map (·.1)).Nodup := hleaves ▸ List.nodup_range
  have hsub : run.asked.Sublist (run.result.verdicts.map (·.1)) := by
    rw [h.asked]
    exact List.filter_sublist.map _
  refine ⟨?_, hleaves, hnodup.sublist hsub, fun leaf hleaf => ?_, fun verdict hverdict => ?_⟩
  · rw [GateResult.outline, h.tree, outline_indexGate]
  · exact List.mem_range.mp (hleaves ▸ hsub.subset hleaf)
  · rw [h.asked, knownLeaves, List.mem_map]
    constructor
    · rintro hnone ⟨known, hknown, heq⟩
      obtain ⟨hmem, hsome⟩ := List.mem_filter.mp hknown
      obtain rfl := List.inj_on_of_nodup_map hnodup hmem hverdict heq
      rw [hnone] at hsome
      cases hsome
    · intro hunasked
      by_contra hne
      have hsome := Option.isSome_iff_ne_none.mpr hne
      exact hunasked ⟨verdict, List.mem_filter.mpr ⟨hverdict, hsome⟩, rfl⟩

/-- **Lazy and eager evaluation agree**: whatever the rules answer, both modes decide alike, the
lazy blame is part of the eager one, and a refusal that is blamed on the sender lazily is blamed on
the sender eagerly. In both modes the result mirrors the document and knows the leaves that were
asked, each of them once; the eager mode asks them all. -/
theorem evaluateGate_lazy_eager (answer : ℕ → RuleResult) (tolerate : Bool) (node : GateNode) :
    ∃ lazy eager : AskedGate,
      evaluateGate (fun leaf => some (answer leaf)) false tolerate node = some lazy.result
        ∧ evaluateGate (fun leaf => some (answer leaf)) true tolerate node = some eager.result
        ∧ lazy = evaluateAsking answer false node ∧ eager = evaluateAsking answer true node
        ∧ lazy.result.satisfied = eager.result.satisfied
        ∧ gateBlame lazy.result ⊆ gateBlame eager.result
        ∧ (gatePenalize lazy.result = true → gatePenalize eager.result = true)
        ∧ lazy.Mirrors node ∧ eager.Mirrors node
        ∧ eager.asked = List.range (gateLeaves node).length := by
  have hagrees : Agrees (askGate answer false (indexGate 0 node).1).result
      (askGate answer true (indexGate 0 node).1).result := agrees_askGate _
  have heager : (askGate answer true (indexGate 0 node).1).Covers (indexGate 0 node).1 :=
    askGate_covers _
  refine ⟨_, _, runGate_eq_askGate _, runGate_eq_askGate _, rfl, rfl, hagrees.satisfied,
    hagrees.blame, hagrees.penalize, (askGate_covers _).mirrors, heager.mirrors, ?_⟩
  rw [heager.asked, ← heager.mirrors.leaves, knownLeaves,
    List.filter_eq_self.mpr (known_askGate _)]

end PubsubVoting
