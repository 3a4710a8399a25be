import PubsubVoting.Rules.Unread

/-!
A branch directly inside a branch of its own kind carries no meaning: its children may as well stand
in its place.

* `GateNode.Inlines`, `IndexedGate.Inlines`: one such branch, anywhere in a tree, is inlined.
* `GateResult.Same`: two results nobody can tell apart, but for the score of what does not admit.
* `same_branch`, `same_inline`: each of the folds respects `Same`, and each is associative.
* `AskedGate.Alike`: two evaluations that ask the same leaves for the same result.
* `evaluateGate_inline`: inlining is not visible, lazily or collecting every leaf.
-/

namespace PubsubVoting

/-- The children of a branch take its place among the children of a parent of the same kind. -/
inductive GateNode.Inlines : GateNode → GateNode → Prop
  | here (kind : GateKind) (before inner after : List GateNode) (hne : inner ≠ []) :
      Inlines (.branch kind (before ++ .branch kind inner :: after))
        (.branch kind (before ++ inner ++ after))
  | inside (kind : GateKind) (before after : List GateNode) (node node' : GateNode)
      (h : Inlines node node') :
      Inlines (.branch kind (before ++ node :: after)) (.branch kind (before ++ node' :: after))

/-- The same for a numbered tree. -/
inductive IndexedGate.Inlines : IndexedGate → IndexedGate → Prop
  | here (kind : GateKind) (before inner after : List IndexedGate) (hne : inner ≠ []) :
      Inlines (.branch kind (before ++ .branch kind inner :: after))
        (.branch kind (before ++ inner ++ after))
  | inside (kind : GateKind) (before after : List IndexedGate) (t t' : IndexedGate)
      (h : Inlines t t') :
      Inlines (.branch kind (before ++ t :: after)) (.branch kind (before ++ t' :: after))

/-! ### Numbering -/

lemma indexGates_append (next : ℕ) (nodes nodes' : List GateNode) :
    indexGates next (nodes ++ nodes')
      = ((indexGates next nodes).1 ++ (indexGates (indexGates next nodes).2 nodes').1,
        (indexGates (indexGates next nodes).2 nodes').2) := by
  induction nodes generalizing next with
  | nil => rfl
  | cons node nodes ih => simp only [List.cons_append, indexGates, ih]

lemma indexGates_ne_nil (next : ℕ) {nodes : List GateNode} (h : nodes ≠ []) :
    (indexGates next nodes).1 ≠ [] := by
  cases nodes with
  | nil => exact absurd rfl h
  | cons node nodes => exact List.cons_ne_nil _ _

/-- Inlining leaves the numbers of the leaves as they were. -/
lemma indexGate_inlines {node node' : GateNode} (h : node.Inlines node') (next : ℕ) :
    (indexGate next node).1.Inlines (indexGate next node').1
      ∧ (indexGate next node).2 = (indexGate next node').2 := by
  induction h generalizing next with
  | here kind before inner after hne =>
      simp only [indexGate, indexGates, indexGates_append]
      exact ⟨.here kind _ _ _ (indexGates_ne_nil _ hne), trivial⟩
  | inside kind before after node node' _ ih =>
      obtain ⟨hinlines, hnext⟩ := ih (indexGates next before).2
      simp only [indexGate, indexGates, indexGates_append, hnext]
      exact ⟨.inside kind _ _ _ _ hinlines, trivial⟩

/-! ### Results that cannot be told apart -/

/-- Two results with the same verdict, blame and penalty, and the same score where they admit. -/
structure GateResult.Same (result result' : GateResult) : Prop where
  satisfied : result.satisfied = result'.satisfied
  blame : gateBlame result = gateBlame result'
  penalize : gatePenalize result = gatePenalize result'
  score : result.satisfied = some true → gateScore result = gateScore result'

lemma GateResult.Same.refl (result : GateResult) : result.Same result :=
  ⟨rfl, rfl, rfl, fun _ => rfl⟩

/-- A branch with the verdict its children give it. -/
def foldedBranch (kind : GateKind) (results : List GateResult) : GateResult :=
  .branch kind (foldSatisfied kind (results.map (·.satisfied))) results

/-- What a score is combined with across a branch. -/
def GateKind.combine : GateKind → ℤ → ℤ → ℤ
  | .all => min
  | .any => max

/-- The score of a branch from those of its satisfied children. -/
def foldScores (kind : GateKind) : List ℤ → ℤ
  | [] => 0
  | score :: scores => scores.foldl kind.combine score

/-- Whether a refused branch may be blamed on the sender, from its failing children. -/
def foldPenalties : GateKind → List Bool → Bool
  | .all, penalties => penalties.any id
  | .any, penalties => !penalties.isEmpty && penalties.all id

section

variable {kind : GateKind} {results results' before inner after : List GateResult}

lemma gateScore_foldedBranch :
    gateScore (foldedBranch kind results) = foldScores kind (satisfiedScores results) := by
  rw [foldedBranch, gateScore]
  cases satisfiedScores results with
  | nil => rfl
  | cons score scores => cases kind <;> rfl

instance (kind : GateKind) : Std.Associative kind.combine where
  assoc a b c := by
    cases kind with
    | all => exact min_assoc a b c
    | any => exact max_assoc a b c

/-- Combining is associative: a part may be combined first. -/
lemma foldScores_inline {scores : List ℤ} (hne : scores ≠ []) (earlier later : List ℤ) :
    foldScores kind (earlier ++ foldScores kind scores :: later)
      = foldScores kind (earlier ++ scores ++ later) := by
  cases scores with
  | nil => exact absurd rfl hne
  | cons score scores =>
      cases earlier with
      | nil => simp only [foldScores, List.nil_append, List.cons_append, List.foldl_append]
      | cons first earlier =>
          simp only [foldScores, List.cons_append, List.foldl_append, List.foldl_cons,
            List.foldl_assoc]

lemma gatePenalize_foldedBranch :
    gatePenalize (foldedBranch kind results)
      = (decide (foldSatisfied kind (results.map (·.satisfied)) = some false)
        && foldPenalties kind (failingPenalties results)) := by
  cases kind <;> rfl

lemma foldPenalties_inline {penalties : List Bool} (hne : penalties ≠ [])
    (earlier later : List Bool) :
    foldPenalties kind (earlier ++ foldPenalties kind penalties :: later)
      = foldPenalties kind (earlier ++ penalties ++ later) := by
  cases kind with
  | all =>
      simp only [foldPenalties, List.any_append, List.any_cons, id_eq, Bool.or_assoc]
  | any =>
      have hempty : penalties.isEmpty = false := List.isEmpty_eq_false_iff.mpr hne
      have hempty' : (earlier ++ penalties ++ later).isEmpty = false := by simp [hne]
      have hempty'' : (earlier ++ penalties.all id :: later).isEmpty = false := by simp
      simp only [foldPenalties, hempty, hempty', hempty'', List.all_append, List.all_cons, id_eq,
        Bool.not_false, Bool.true_and, Bool.and_assoc]

lemma satisfiedScores_append :
    satisfiedScores (results ++ results')
      = satisfiedScores results ++ satisfiedScores results' := by
  induction results with
  | nil => rfl
  | cons result results ih =>
      rw [List.cons_append, satisfiedScores, satisfiedScores, ih]
      split_ifs <;> rfl

lemma failingPenalties_append :
    failingPenalties (results ++ results')
      = failingPenalties results ++ failingPenalties results' := by
  induction results with
  | nil => rfl
  | cons result results ih =>
      rw [List.cons_append, failingPenalties, failingPenalties, ih]
      split_ifs <;> rfl

lemma gateBlames_append :
    gateBlames (results ++ results') = gateBlames results ++ gateBlames results' := by
  induction results with
  | nil => rfl
  | cons result results ih => rw [List.cons_append, gateBlames, gateBlames, ih, List.append_assoc]

/-! ### Congruence -/

/-- Every fold of a branch reads its children through what `Same` keeps. -/
lemma folds_of_same (h : List.Forall₂ GateResult.Same results results') :
    results.map (·.satisfied) = results'.map (·.satisfied)
      ∧ gateBlames results = gateBlames results'
      ∧ failingPenalties results = failingPenalties results'
      ∧ satisfiedScores results = satisfiedScores results' := by
  induction h with
  | nil => exact ⟨rfl, rfl, rfl, rfl⟩
  | @cons result result' results results' hsame _ ih =>
      obtain ⟨hsatisfied, hblame, hpenalties, hscores⟩ := ih
      refine ⟨?_, ?_, ?_, ?_⟩
      · rw [List.map_cons, List.map_cons, hsame.satisfied, hsatisfied]
      · rw [gateBlames, gateBlames, hsame.blame, hblame]
      · rw [failingPenalties, failingPenalties, hsame.satisfied, hsame.penalize, hpenalties]
      · rw [satisfiedScores, satisfiedScores, hscores, GateResult.isSatisfied,
          GateResult.isSatisfied, ← hsame.satisfied]
        split_ifs with hadmits
        · rw [hsame.score (of_decide_eq_true hadmits)]
        · rfl

/-- **A branch does not tell children apart that are the same.** -/
lemma same_branch (h : List.Forall₂ GateResult.Same results results') :
    (foldedBranch kind results).Same (foldedBranch kind results') := by
  obtain ⟨hsatisfied, hblame, hpenalties, hscores⟩ := folds_of_same h
  refine ⟨?_, ?_, ?_, fun _ => ?_⟩
  · rw [foldedBranch, foldedBranch, hsatisfied]
    rfl
  · rw [foldedBranch, foldedBranch, gateBlame, gateBlame, hsatisfied, hblame]
  · rw [foldedBranch, foldedBranch, hsatisfied]
    simp only [gatePenalize, hpenalties]
  · rw [gateScore_foldedBranch, gateScore_foldedBranch, hscores]

/-! ### Associativity -/

lemma satisfied_foldedBranch :
    (foldedBranch kind results).satisfied = foldSatisfied kind (results.map (·.satisfied)) := rfl

/-- The verdict of a branch does not see the branch inside. -/
lemma foldSatisfied_inline (before inner after : List (Option Bool)) :
    foldSatisfied kind (before ++ foldSatisfied kind inner :: after)
      = foldSatisfied kind (before ++ inner ++ after) := by
  apply verdict_ext
  · rw [foldSatisfied_eq_true, foldSatisfied_eq_true]
    cases kind with
    | all =>
        simp only [List.forall_mem_append, List.forall_mem_cons, foldSatisfied_eq_true, and_assoc]
    | any =>
        simp only [List.mem_append, List.mem_cons, eq_comm (a := some true),
          foldSatisfied_eq_true, or_assoc]
  · rw [foldSatisfied_eq_false, foldSatisfied_eq_false]
    cases kind with
    | all =>
        simp only [List.mem_append, List.mem_cons, eq_comm (a := some false),
          foldSatisfied_eq_false, or_assoc]
    | any =>
        simp only [List.forall_mem_append, List.forall_mem_cons, foldSatisfied_eq_false, and_assoc]

/-- Inside a refused branch a branch of its kind is refused, or none of its children is. -/
lemma inner_refused (h : foldSatisfied kind ((before ++ foldedBranch kind inner :: after).map
      (·.satisfied)) = some false) :
    (foldedBranch kind inner).satisfied = some false
      ∨ ∀ result ∈ inner, result.satisfied ≠ some false := by
  rw [foldSatisfied_eq_false] at h
  cases kind with
  | all =>
      by_cases hinner : some false ∈ inner.map (·.satisfied)
      · exact .inl (foldSatisfied_eq_false.mpr hinner)
      · exact .inr fun result hresult hfails => hinner (List.mem_map.mpr ⟨result, hresult, hfails⟩)
  | any =>
      refine .inl (h _ (List.mem_map_of_mem ?_))
      exact List.mem_append_right _ List.mem_cons_self

/-- Inside a branch that admits a branch of its kind admits, or none of its children does. -/
lemma inner_admits (h : foldSatisfied kind ((before ++ foldedBranch kind inner :: after).map
      (·.satisfied)) = some true) :
    (foldedBranch kind inner).satisfied = some true
      ∨ ∀ result ∈ inner, result.satisfied ≠ some true := by
  rw [foldSatisfied_eq_true] at h
  cases kind with
  | all =>
      refine .inl (h _ (List.mem_map_of_mem ?_))
      exact List.mem_append_right _ List.mem_cons_self
  | any =>
      by_cases hinner : some true ∈ inner.map (·.satisfied)
      · exact .inl (foldSatisfied_eq_true.mpr hinner)
      · exact .inr fun result hresult hadmits =>
          hinner (List.mem_map.mpr ⟨result, hresult, hadmits⟩)

lemma gateBlames_eq_nil (h : ∀ result ∈ results, result.satisfied ≠ some false) :
    gateBlames results = [] := by
  induction results with
  | nil => rfl
  | cons result results ih =>
      obtain ⟨hresult, hrest⟩ := List.forall_mem_cons.mp h
      rw [gateBlames, ih hrest, List.append_nil]
      cases result <;> exact if_neg hresult

lemma failingPenalties_eq_nil (h : ∀ result ∈ results, result.satisfied ≠ some false) :
    failingPenalties results = [] := by
  induction results with
  | nil => rfl
  | cons result results ih =>
      obtain ⟨hresult, hrest⟩ := List.forall_mem_cons.mp h
      rw [failingPenalties, if_neg hresult, ih hrest]

lemma satisfiedScores_eq_nil (h : ∀ result ∈ results, result.satisfied ≠ some true) :
    satisfiedScores results = [] := by
  induction results with
  | nil => rfl
  | cons result results ih =>
      obtain ⟨hresult, hrest⟩ := List.forall_mem_cons.mp h
      rw [satisfiedScores, if_neg (by simpa [GateResult.isSatisfied] using hresult), ih hrest]

lemma failingPenalties_ne_nil (hne : results ≠ [])
    (h : (foldedBranch kind results).satisfied = some false) : failingPenalties results ≠ [] := by
  have hrefused : ∃ result ∈ results, result.satisfied = some false := by
    rw [satisfied_foldedBranch, foldSatisfied_eq_false] at h
    cases kind with
    | all => exact List.mem_map.mp h
    | any =>
        obtain ⟨result, hresult⟩ := List.exists_mem_of_ne_nil _ hne
        exact ⟨result, hresult, h _ (List.mem_map_of_mem hresult)⟩
  obtain ⟨result, hresult, hfails⟩ := hrefused
  exact List.ne_nil_of_mem (mem_failingPenalties.mpr ⟨result, hresult, hfails, rfl⟩)

lemma satisfiedScores_ne_nil (hne : results ≠ [])
    (h : (foldedBranch kind results).satisfied = some true) : satisfiedScores results ≠ [] := by
  have hadmits : ∃ result ∈ results, result.satisfied = some true := by
    rw [satisfied_foldedBranch, foldSatisfied_eq_true] at h
    cases kind with
    | all =>
        obtain ⟨result, hresult⟩ := List.exists_mem_of_ne_nil _ hne
        exact ⟨result, hresult, h _ (List.mem_map_of_mem hresult)⟩
    | any => exact List.mem_map.mp h
  obtain ⟨result, hresult, hsatisfied⟩ := hadmits
  obtain ⟨earlier, later, rfl⟩ := List.append_of_mem hresult
  rw [satisfiedScores_append, satisfiedScores, if_pos (isSatisfied_eq_true.mpr hsatisfied)]
  simp

/-- What a refused branch blames does not see the branch inside. -/
lemma gateBlames_inline (h : foldSatisfied kind ((before ++ foldedBranch kind inner :: after).map
      (·.satisfied)) = some false) :
    gateBlames (before ++ foldedBranch kind inner :: after)
      = gateBlames (before ++ inner ++ after) := by
  have hinner : gateBlame (foldedBranch kind inner) = gateBlames inner := by
    rcases inner_refused h with hrefused | hnone
    · exact if_pos hrefused
    · rw [gateBlames_eq_nil hnone]
      by_cases hrefused : (foldedBranch kind inner).satisfied = some false
      · exact (if_pos hrefused).trans (gateBlames_eq_nil hnone)
      · exact if_neg hrefused
  rw [gateBlames_append, gateBlames, hinner, gateBlames_append, gateBlames_append,
    List.append_assoc]

/-- Nor does the question whether it may be blamed on the sender. -/
lemma foldPenalties_inner (hne : inner ≠ [])
    (h : foldSatisfied kind ((before ++ foldedBranch kind inner :: after).map
      (·.satisfied)) = some false) :
    foldPenalties kind (failingPenalties (before ++ foldedBranch kind inner :: after))
      = foldPenalties kind (failingPenalties (before ++ inner ++ after)) := by
  rw [failingPenalties_append, failingPenalties_append, failingPenalties_append, failingPenalties]
  by_cases hrefused : (foldedBranch kind inner).satisfied = some false
  · have hpenalties := failingPenalties_ne_nil hne hrefused
    rw [if_pos hrefused, gatePenalize_foldedBranch, ← satisfied_foldedBranch, hrefused,
      decide_eq_true rfl, Bool.true_and, foldPenalties_inline hpenalties]
  · rcases inner_refused h with hinner | hnone
    · exact absurd hinner hrefused
    · rw [if_neg hrefused, failingPenalties_eq_nil hnone, List.append_nil]

/-- Nor does the score of a branch that admits. -/
lemma foldScores_inner (hne : inner ≠ [])
    (h : foldSatisfied kind ((before ++ foldedBranch kind inner :: after).map
      (·.satisfied)) = some true) :
    foldScores kind (satisfiedScores (before ++ foldedBranch kind inner :: after))
      = foldScores kind (satisfiedScores (before ++ inner ++ after)) := by
  rw [satisfiedScores_append, satisfiedScores_append, satisfiedScores_append, satisfiedScores]
  by_cases hadmits : (foldedBranch kind inner).satisfied = some true
  · rw [if_pos (isSatisfied_eq_true.mpr hadmits), gateScore_foldedBranch,
      foldScores_inline (satisfiedScores_ne_nil hne hadmits)]
  · have hnot : (foldedBranch kind inner).isSatisfied ≠ true := by
      rw [Ne, isSatisfied_eq_true]
      exact hadmits
    rcases inner_admits h with hinner | hnone
    · exact absurd hinner hadmits
    · rw [if_neg hnot, satisfiedScores_eq_nil hnone, List.append_nil]

/-- **The children of a branch may stand in its place** inside a branch of its kind. -/
lemma same_inline (kind : GateKind) (before after : List GateResult) (hne : inner ≠ []) :
    (foldedBranch kind (before ++ foldedBranch kind inner :: after)).Same
      (foldedBranch kind (before ++ inner ++ after)) := by
  have hverdict : foldSatisfied kind ((before ++ foldedBranch kind inner :: after).map
        (·.satisfied)) = foldSatisfied kind ((before ++ inner ++ after).map (·.satisfied)) := by
    simp only [List.map_append, List.map_cons]
    exact foldSatisfied_inline _ _ _
  refine ⟨hverdict, ?_, ?_, fun hadmits => ?_⟩
  · simp only [foldedBranch, gateBlame, ← hverdict]
    split_ifs with hrefused
    · exact gateBlames_inline hrefused
    · rfl
  · rw [gatePenalize_foldedBranch, gatePenalize_foldedBranch, ← hverdict]
    by_cases hrefused : foldSatisfied kind ((before ++ foldedBranch kind inner :: after).map
        (·.satisfied)) = some false
    · rw [foldPenalties_inner hne hrefused]
    · rw [decide_eq_false hrefused, Bool.false_and, Bool.false_and]
  · rw [gateScore_foldedBranch, gateScore_foldedBranch, foldScores_inner hne hadmits]

end

/-! ### What is asked -/

section

variable (answer : ℕ → RuleResult) (collectAll : Bool) (kind : GateKind)

/-- The children of a branch, all of them or up to the first that decides. -/
def askChildren (children : List IndexedGate) : List ℕ × List GateResult :=
  if collectAll then askGates answer true children else (askGatesUntil answer false kind children).2

end

section

variable {answer : ℕ → RuleResult} {collectAll : Bool} {kind : GateKind}
  {children before inner after : List IndexedGate} {t t' : IndexedGate}

lemma isSatisfied_askGate (t : IndexedGate) {verdict : Bool} :
    (askGate answer collectAll t).result.isSatisfied = verdict ↔
      (askGate answer collectAll t).result.satisfied = some verdict := by
  rw [GateResult.isSatisfied, askGate_satisfied]
  cases t.holds (passing answer) <;> cases verdict <;> simp

/-- A child has decided if a result has the deciding verdict. -/
lemma decided_iff_mem (children : List IndexedGate) :
    (askGatesUntil answer false kind children).1 = true ↔
      some kind.decidesAt ∈ (askGatesUntil answer false kind children).2.2.map (·.satisfied) := by
  induction children with
  | nil => exact ⟨fun h => (nomatch h), fun h => nomatch h⟩
  | cons child children ih =>
      rw [askGatesUntil]
      by_cases hdecides : (askGate answer false child).result.isSatisfied = kind.decidesAt
      · rw [if_pos hdecides, List.map_cons, List.mem_cons]
        exact ⟨fun _ => .inl ((isSatisfied_askGate child).mp hdecides).symm, fun _ => rfl⟩
      · rw [if_neg hdecides, List.map_cons, List.mem_cons, ih]
        refine ⟨.inr, ?_⟩
        rintro (heq | hmem)
        · exact absurd ((isSatisfied_askGate child).mpr heq.symm) hdecides
        · exact hmem

/-- Lazily as well a branch has the verdict that its children give it. -/
lemma askGate_branch (answer : ℕ → RuleResult) (collectAll : Bool) (kind : GateKind)
    (children : List IndexedGate) :
    askGate answer collectAll (.branch kind children)
      = ⟨(askChildren answer collectAll kind children).1,
        foldedBranch kind (askChildren answer collectAll kind children).2⟩ := by
  rw [askGate, askChildren]
  cases collectAll with
  | true => rfl
  | false =>
      simp only [Bool.false_eq_true, if_false, foldedBranch]
      cases hdecided : (askGatesUntil answer false kind children).1 with
      | false => rfl
      | true =>
          have hmem := (decided_iff_mem children).mp hdecided
          rw [foldSatisfied_eq, if_pos hmem]
          rfl

lemma askGates_append (children children' : List IndexedGate) :
    askGates answer true (children ++ children')
      = ((askGates answer true children).1 ++ (askGates answer true children').1,
        (askGates answer true children).2 ++ (askGates answer true children').2) := by
  induction children with
  | nil => rfl
  | cons child children ih =>
      rw [List.cons_append, askGates, askGates, ih]
      simp only [List.append_assoc, List.cons_append]

/-- Where the first part decides, the second is skipped. -/
lemma askGatesUntil_append (children children' : List IndexedGate) :
    askGatesUntil answer false kind (children ++ children')
      = if (askGatesUntil answer false kind children).1 then
          (true, (askGatesUntil answer false kind children).2.1,
            (askGatesUntil answer false kind children).2.2 ++ skippedAll children')
        else ((askGatesUntil answer false kind children').1,
          (askGatesUntil answer false kind children).2.1
            ++ (askGatesUntil answer false kind children').2.1,
          (askGatesUntil answer false kind children).2.2
            ++ (askGatesUntil answer false kind children').2.2) := by
  induction children with
  | nil => rfl
  | cons child children ih =>
      rw [List.cons_append, askGatesUntil, askGatesUntil]
      by_cases hdecides : (askGate answer false child).result.isSatisfied = kind.decidesAt
      · rw [if_pos hdecides, if_pos hdecides, if_pos rfl]
        simp only [skippedAll_eq_map, List.map_append, List.cons_append]
      · rw [if_neg hdecides, if_neg hdecides, ih]
        cases (askGatesUntil answer false kind children).1 <;>
          simp only [if_true, Bool.false_eq_true, if_false, List.append_assoc, List.cons_append]

/-- A branch decides its parent of the same kind as one of its children would. -/
lemma isSatisfied_branch (children : List IndexedGate) :
    (askGate answer false (.branch kind children)).result.isSatisfied = kind.decidesAt ↔
      (askGatesUntil answer false kind children).1 = true := by
  rw [isSatisfied_askGate, askGate_branch, decided_iff_mem]
  show foldSatisfied kind ((askGatesUntil answer false kind children).2.2.map (·.satisfied))
    = some kind.decidesAt ↔ _
  rw [foldSatisfied_eq]
  split_ifs with hmem hall
  · exact ⟨fun _ => hmem, fun _ => rfl⟩
  · refine ⟨fun h => ?_, fun h => absurd h hmem⟩
    cases kind <;> cases h
  · exact ⟨fun h => (nomatch h), fun h => absurd h hmem⟩

lemma askChildren_ne_nil (h : children ≠ []) :
    (askChildren answer collectAll kind children).2 ≠ [] := by
  cases children with
  | nil => exact absurd rfl h
  | cons child children =>
      rw [askChildren]
      cases collectAll with
      | true => exact List.cons_ne_nil _ _
      | false =>
          simp only [Bool.false_eq_true, if_false, askGatesUntil]
          split_ifs <;> exact List.cons_ne_nil _ _

/-- A branch that was skipped looks as its skipped children fold. -/
lemma skipped_branch (h : children ≠ []) :
    skipped (.branch kind children) = foldedBranch kind (skippedAll children) := by
  cases children with
  | nil => exact absurd rfl h
  | cons child children =>
      have hverdict : foldSatisfied kind ((skippedAll (child :: children)).map (·.satisfied))
          = none := by
        have hnone : ∀ verdict ∈ (skippedAll (child :: children)).map (·.satisfied),
            verdict = none := by
          rw [skippedAll_eq_map, List.map_map, List.forall_mem_map]
          exact fun other _ => skipped_satisfied other
        rw [foldSatisfied_eq, if_neg, if_neg]
        · intro hall
          cases (hall _ List.mem_cons_self).symm.trans (hnone _ List.mem_cons_self)
        · intro hmem
          cases hnone _ hmem
      rw [foldedBranch, hverdict, skipped]

/-- Two evaluations that ask the same leaves, in the same order, for the same result. -/
structure AskedGate.Alike (run run' : AskedGate) : Prop where
  asked : run.asked = run'.asked
  same : run.result.Same run'.result

lemma skippedAll_append (children children' : List IndexedGate) :
    skippedAll (children ++ children') = skippedAll children ++ skippedAll children' := by
  simp only [skippedAll_eq_map, List.map_append]

/-- The children of an inner branch are asked, or skipped, as they would be by its parent. -/
lemma askChildren_inline (answer : ℕ → RuleResult) (collectAll : Bool) (kind : GateKind)
    (before after : List IndexedGate) (hne : inner ≠ []) :
    ∃ asked earlier middle later, middle ≠ []
      ∧ askChildren answer collectAll kind (before ++ .branch kind inner :: after)
        = (asked, earlier ++ foldedBranch kind middle :: later)
      ∧ askChildren answer collectAll kind (before ++ inner ++ after)
        = (asked, earlier ++ middle ++ later) := by
  cases collectAll with
  | true =>
      refine ⟨(askGates answer true before).1
          ++ ((askChildren answer true kind inner).1 ++ (askGates answer true after).1),
        (askGates answer true before).2, (askChildren answer true kind inner).2,
        (askGates answer true after).2, askChildren_ne_nil hne, ?_, ?_⟩
      · rw [askChildren, if_pos rfl, askGates_append, askGates, askGate_branch]
      · rw [askChildren, if_pos rfl, askGates_append, askGates_append, askChildren, if_pos rfl,
          List.append_assoc]
  | false =>
      cases hbefore : (askGatesUntil answer false kind before).1 with
      | true =>
          refine ⟨(askGatesUntil answer false kind before).2.1,
            (askGatesUntil answer false kind before).2.2, skippedAll inner, skippedAll after,
            ?_, ?_, ?_⟩
          · rw [skippedAll_eq_map]
            simpa using hne
          · rw [askChildren, if_neg Bool.false_ne_true, askGatesUntil_append, if_pos hbefore,
              skippedAll, skipped_branch hne]
          · rw [askChildren, if_neg Bool.false_ne_true, List.append_assoc, askGatesUntil_append,
              if_pos hbefore, skippedAll_append, List.append_assoc]
      | false =>
          have hundecided : ¬ (askGatesUntil answer false kind before).1 = true := by simp [hbefore]
          cases hinner : (askGatesUntil answer false kind inner).1 with
          | true =>
              refine ⟨(askGatesUntil answer false kind before).2.1
                  ++ (askChildren answer false kind inner).1,
                (askGatesUntil answer false kind before).2.2,
                (askChildren answer false kind inner).2, skippedAll after,
                askChildren_ne_nil hne, ?_, ?_⟩
              · rw [askChildren, if_neg Bool.false_ne_true, askGatesUntil_append,
                  if_neg hundecided, askGatesUntil, if_pos ((isSatisfied_branch inner).mpr hinner),
                  askGate_branch]
              · rw [askChildren, if_neg Bool.false_ne_true, List.append_assoc,
                  askGatesUntil_append, if_neg hundecided, askGatesUntil_append, if_pos hinner,
                  askChildren, if_neg Bool.false_ne_true, List.append_assoc]
          | false =>
              have hopen : ¬ (askGate answer false (.branch kind inner)).result.isSatisfied
                  = kind.decidesAt := by
                rw [isSatisfied_branch, hinner]
                exact Bool.false_ne_true
              refine ⟨(askGatesUntil answer false kind before).2.1
                  ++ ((askChildren answer false kind inner).1
                    ++ (askGatesUntil answer false kind after).2.1),
                (askGatesUntil answer false kind before).2.2,
                (askChildren answer false kind inner).2,
                (askGatesUntil answer false kind after).2.2, askChildren_ne_nil hne, ?_, ?_⟩
              · rw [askChildren, if_neg Bool.false_ne_true, askGatesUntil_append,
                  if_neg hundecided, askGatesUntil, if_neg hopen, askGate_branch]
              · rw [askChildren, if_neg Bool.false_ne_true, List.append_assoc,
                  askGatesUntil_append, if_neg hundecided, askGatesUntil_append,
                  if_neg (by simp [hinner]), askChildren, if_neg Bool.false_ne_true,
                  List.append_assoc]

lemma same_skipped (t t' : IndexedGate) : (skipped t).Same (skipped t') := by
  refine ⟨?_, ?_, ?_, fun h => ?_⟩
  · rw [skipped_satisfied, skipped_satisfied]
  · rw [gateBlame_skipped, gateBlame_skipped]
  · have hpenalize : ∀ u : IndexedGate, gatePenalize (skipped u) = false := fun u => by
      cases u <;> rfl
    rw [hpenalize, hpenalize]
  · rw [skipped_satisfied] at h
    cases h

/-- A child that is alike makes no difference to the children asked around it. -/
lemma askChildren_congr (kind : GateKind) (before after : List IndexedGate)
    (h : (askGate answer collectAll t).Alike (askGate answer collectAll t')) :
    (askChildren answer collectAll kind (before ++ t :: after)).1
        = (askChildren answer collectAll kind (before ++ t' :: after)).1
      ∧ List.Forall₂ GateResult.Same
          (askChildren answer collectAll kind (before ++ t :: after)).2
          (askChildren answer collectAll kind (before ++ t' :: after)).2 := by
  have hrefl : ∀ results : List GateResult, List.Forall₂ GateResult.Same results results :=
    fun results => List.forall₂_same.mpr fun result _ => .refl result
  cases collectAll with
  | true =>
      simp only [askChildren, if_true, askGates_append, askGates, h.asked]
      exact ⟨trivial, List.rel_append (hrefl _) (.cons h.same (hrefl _))⟩
  | false =>
      have hsatisfied : (askGate answer false t).result.isSatisfied
          = (askGate answer false t').result.isSatisfied := by
        rw [GateResult.isSatisfied, GateResult.isSatisfied, h.same.satisfied]
      simp only [askChildren, Bool.false_eq_true, if_false, askGatesUntil_append]
      cases hbefore : (askGatesUntil answer false kind before).1 with
      | true =>
          simp only [if_true, skippedAll]
          exact ⟨trivial, List.rel_append (hrefl _) (.cons (same_skipped t t') (hrefl _))⟩
      | false =>
          simp only [Bool.false_eq_true, if_false, askGatesUntil, hsatisfied, h.asked]
          split_ifs
          · exact ⟨rfl, List.rel_append (hrefl _) (.cons h.same (hrefl _))⟩
          · exact ⟨rfl, List.rel_append (hrefl _) (.cons h.same (hrefl _))⟩

/-- **Inlining a branch inside one of its kind changes neither what is asked nor the result.** -/
theorem alike_inlines (h : t.Inlines t') :
    (askGate answer collectAll t).Alike (askGate answer collectAll t') := by
  induction h with
  | here kind before inner after hne =>
      obtain ⟨asked, earlier, middle, later, hmiddle, hrun, hrun'⟩ :=
        askChildren_inline answer collectAll kind before after hne
      rw [askGate_branch, askGate_branch, hrun, hrun']
      exact ⟨rfl, same_inline kind earlier later hmiddle⟩
  | inside kind before after t t' _ ih =>
      obtain ⟨hasked, hsame⟩ := askChildren_congr kind before after ih
      rw [askGate_branch, askGate_branch]
      exact ⟨hasked, same_branch hsame⟩

end

/-! ### A whole gate -/

section

variable {node node' : GateNode}

/-- **Same-kind nesting carries no meaning.** Inlined anywhere in a gate, lazily or collecting every
leaf, it leaves the leaves asked, the verdict, the blame, the penalty and the score of an admitted
wallet as they were. -/
theorem evaluateGate_inline (h : node.Inlines node') (answer : ℕ → RuleResult)
    (collectAll tolerate : Bool) :
    ∃ run run', run = evaluateAsking answer collectAll node
      ∧ run' = evaluateAsking answer collectAll node'
      ∧ evaluateGate (fun leaf => some (answer leaf)) collectAll tolerate node = some run.result
      ∧ evaluateGate (fun leaf => some (answer leaf)) collectAll tolerate node' = some run'.result
      ∧ run.asked = run'.asked
      ∧ run.result.satisfied = run'.result.satisfied
      ∧ gateBlame run.result = gateBlame run'.result
      ∧ gatePenalize run.result = gatePenalize run'.result
      ∧ (run.result.satisfied = some true → gateScore run.result = gateScore run'.result) := by
  obtain ⟨hasked, hsatisfied, hblame, hpenalize, hscore⟩ :
      (evaluateAsking answer collectAll node).Alike (evaluateAsking answer collectAll node') :=
    alike_inlines (indexGate_inlines h 0).1
  exact ⟨_, _, rfl, rfl, runGate_eq_askGate _, runGate_eq_askGate _, hasked, hsatisfied, hblame,
    hpenalize, hscore⟩

/-- Two of the three rules of an `any` in an `any` of their own. -/
def anyInAny : GateNode := .branch .any ([.rule ⟨[97], []⟩]
  ++ .branch .any [.rule ⟨[98], []⟩, .rule ⟨[99], []⟩] :: [])

/-- The three rules side by side. -/
def anyOfThree : GateNode := .branch .any ([.rule ⟨[97], []⟩]
  ++ [.rule ⟨[98], []⟩, .rule ⟨[99], []⟩] ++ [])

/-- The second rule admits, and the third is not asked in either spelling. -/
theorem evaluateGate_inline_any :
    (evaluateAsking (fun leaf => if leaf = 0 then .failure "no pass" none else .success 7) false
      anyOfThree).asked = [0, 1]
      ∧ (evaluateAsking (fun leaf => if leaf = 0 then .failure "no pass" none else .success 7) false
        anyInAny).asked = [0, 1] := by
  obtain ⟨run, run', rfl, rfl, -, -, hasked, -⟩ :=
    evaluateGate_inline (.here .any [.rule ⟨[97], []⟩] [.rule ⟨[98], []⟩, .rule ⟨[99], []⟩] []
      (List.cons_ne_nil _ _))
      (fun leaf => if leaf = 0 then .failure "no pass" none else .success 7) false false
  have hlast : (evaluateAsking (fun leaf => if leaf = 0 then .failure "no pass" none
      else .success 7) false anyOfThree).asked = [0, 1] := by decide
  exact ⟨hlast, hasked.trans hlast⟩

end

end PubsubVoting
