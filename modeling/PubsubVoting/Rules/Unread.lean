import PubsubVoting.Rules.Asking
import PubsubVoting.Rules.Penalize

/-!
A leaf whose read failed is not a leaf that said no: what `evaluateGate` makes of it when it is told
to tolerate such leaves.

* `Completes`: answers for every leaf that agree with what was read.
* `knownPass`, `mayPass`: the completion in which every unread leaf fails, and the one in which
  every unread leaf passes; between them they bound every other (`holds_completes`).
* `satisfied_collecting`, `satisfied_lazy`: the verdict of either mode, in closed form.
* `gatePenalize_extends`: a refusal blamed on the sender stays so however the unread leaves answer.
* `decides_of_readableVerdict`, `disagree_of_readableVerdict`: collecting every leaf, the verdict is
  what the completions agree on.
-/

namespace PubsubVoting

/-! ### Completions -/

section

variable (evaluate : ℕ → Option RuleResult)

/-- An answer for every leaf, which is the one that was read where one was. -/
def Completes (answer : ℕ → RuleResult) : Prop :=
  ∀ leaf result, evaluate leaf = some result → answer leaf = result

/-- The leaves that are known to pass. -/
def knownPass (leaf : ℕ) : Bool := (evaluate leaf).elim false RuleResult.passes

/-- The leaves that are not known to fail. -/
def mayPass (leaf : ℕ) : Bool := (evaluate leaf).elim true RuleResult.passes

/-- The completion that answers every unread leaf with `result`. -/
def completeWith (result : RuleResult) (leaf : ℕ) : RuleResult := (evaluate leaf).getD result

mutual

/-- An unread leaf is an alternative of the root: no `all` lies between them. -/
def unreadAlternative : IndexedGate → Bool
  | .leaf leaf => (evaluate leaf).isNone
  | .branch .all _ => false
  | .branch .any children => unreadAlternatives children

/-- One of the children has an unread alternative. -/
def unreadAlternatives : List IndexedGate → Bool
  | [] => false
  | child :: children => unreadAlternative child || unreadAlternatives children

end

end

/-- With every leaf answered the gate evaluates to the verdict, lazily or not. -/
def Decides (answer : ℕ → RuleResult) (node : GateNode) (verdict : Bool) : Prop :=
  ∀ collectAll tolerateLeafErrors, ∃ result,
    evaluateGate (fun leaf => some (answer leaf)) collectAll tolerateLeafErrors node = some result
      ∧ result.satisfied = some verdict

lemma decides_iff {answer : ℕ → RuleResult} {node : GateNode} {verdict : Bool} :
    Decides answer node verdict ↔ gateHolds answer node = verdict := by
  constructor
  · intro hdecides
    obtain ⟨result, hresult, hverdict⟩ := hdecides true false
    obtain ⟨result', hresult', hholds⟩ : ∃ result', evaluateGate (fun leaf => some (answer leaf))
        true false node = some result' ∧ result'.satisfied = some (gateHolds answer node) :=
      evaluateGate_satisfied false (fun _ _ => rfl) true
    obtain rfl : result = result' := Option.some.inj (hresult.symm.trans hresult')
    exact Option.some.inj (hholds.symm.trans hverdict)
  · rintro rfl collectAll tolerateLeafErrors
    exact evaluateGate_satisfied tolerateLeafErrors (fun _ _ => rfl) collectAll

section

variable {evaluate : ℕ → Option RuleResult} {answer : ℕ → RuleResult}

lemma completes_completeWith (result : RuleResult) :
    Completes evaluate (completeWith evaluate result) := by
  intro leaf answered h
  rw [completeWith, h, Option.getD_some]

lemma passing_completeWith_failure (error : String) :
    passing (completeWith evaluate (.failure error none)) = knownPass evaluate := by
  funext leaf
  cases h : evaluate leaf <;> simp [passing, completeWith, knownPass, h, RuleResult.passes,
    gateFailure]

lemma passing_completeWith_success :
    passing (completeWith evaluate (.success 1)) = mayPass evaluate := by
  funext leaf
  cases h : evaluate leaf <;> simp [passing, completeWith, mayPass, h, RuleResult.passes,
    gateFailure]

/-- Every completion lies between the two extreme ones. -/
lemma holds_completes (h : Completes evaluate answer) (t : IndexedGate) :
    (t.holds (knownPass evaluate) = true → t.holds (passing answer) = true)
      ∧ (t.holds (passing answer) = true → t.holds (mayPass evaluate) = true) := by
  refine ⟨holds_mono (fun leaf hknown => ?_) t, holds_mono (fun leaf hpasses => ?_) t⟩
  · cases hread : evaluate leaf with
    | none => simp [knownPass, hread] at hknown
    | some result =>
        rw [passing, h leaf result hread]
        simpa [knownPass, hread] using hknown
  · cases hread : evaluate leaf with
    | none => simp [mayPass, hread]
    | some result =>
        rw [passing, h leaf result hread] at hpasses
        simpa [mayPass, hread] using hpasses

lemma unreadAlternatives_eq_any (children : List IndexedGate) :
    unreadAlternatives evaluate children = children.any (unreadAlternative evaluate) := by
  induction children with
  | nil => rfl
  | cons child children ih => rw [unreadAlternatives, ih, List.any_cons]

end

/-! ### The tolerant evaluation, without its options -/

section

variable (evaluate : ℕ → Option RuleResult) (collectAll : Bool)

/-- `runGate` with `tolerateLeafErrors`, which always returns (`runGate_tolerant`). -/
def tolerantGate (t : IndexedGate) : GateResult :=
  (runGate evaluate collectAll true t).getD (unevaluated 0)

/-- The children up to the first that decides the branch, and whether one did. -/
def tolerantUntil (kind : GateKind) (children : List IndexedGate) : Bool × List GateResult :=
  (runGatesUntil evaluate collectAll true kind children).getD (false, [])

lemma runGate_tolerant (t : IndexedGate) :
    runGate evaluate collectAll true t = some (tolerantGate evaluate collectAll t) := by
  suffices h : (runGate evaluate collectAll true t).isSome = true by
    obtain ⟨result, hresult⟩ := Option.isSome_iff_exists.mp h
    rw [tolerantGate, hresult, Option.getD_some]
  induction t using IndexedGate.ind with
  | leaf leaf =>
      rw [runGate]
      cases evaluate leaf <;> rfl
  | branch kind children ih =>
      have hall : (runGates evaluate collectAll true children).isSome = true := by
        induction children with
        | nil => rfl
        | cons child children ih' =>
            obtain ⟨hchild, hrest⟩ := List.forall_mem_cons.mp ih
            obtain ⟨result, hresult⟩ := Option.isSome_iff_exists.mp hchild
            obtain ⟨results, hresults⟩ := Option.isSome_iff_exists.mp (ih' hrest)
            simp [runGates, hresult, hresults]
      have huntil : (runGatesUntil evaluate collectAll true kind children).isSome = true := by
        clear hall
        induction children with
        | nil => rfl
        | cons child children ih' =>
            obtain ⟨hchild, hrest⟩ := List.forall_mem_cons.mp ih
            obtain ⟨result, hresult⟩ := Option.isSome_iff_exists.mp hchild
            obtain ⟨results, hresults⟩ := Option.isSome_iff_exists.mp (ih' hrest)
            by_cases hdecides : result.isSatisfied = kind.decidesAt
            · simp [runGatesUntil, hresult, hdecides]
            · simp [runGatesUntil, hresult, hdecides, hresults]
      obtain ⟨results, hresults⟩ := Option.isSome_iff_exists.mp hall
      obtain ⟨until', huntil'⟩ := Option.isSome_iff_exists.mp huntil
      rw [runGate]
      cases collectAll with
      | true => simp [hresults]
      | false => simp [huntil']

lemma tolerantGate_leaf (leaf : ℕ) :
    tolerantGate evaluate collectAll (.leaf leaf)
      = (evaluate leaf).elim (unevaluated leaf) (leafResult leaf) := by
  rw [tolerantGate, runGate]
  cases evaluate leaf <;> rfl

lemma runGates_tolerant (children : List IndexedGate) :
    runGates evaluate collectAll true children
      = some (children.map (tolerantGate evaluate collectAll)) := by
  induction children with
  | nil => rfl
  | cons child children ih => simp [runGates, runGate_tolerant, ih]

lemma runGatesUntil_tolerant (kind : GateKind) (children : List IndexedGate) :
    runGatesUntil evaluate collectAll true kind children
      = some (tolerantUntil evaluate collectAll kind children) := by
  rw [tolerantUntil]
  induction children with
  | nil => rfl
  | cons child children ih =>
      rw [runGatesUntil, runGate_tolerant, ih]
      simp only [Option.bind_eq_bind, Option.bind_some, Option.pure_def]
      split_ifs <;> rfl

lemma tolerantGate_collecting (kind : GateKind) (children : List IndexedGate) :
    tolerantGate evaluate true (.branch kind children)
      = .branch kind
          (foldSatisfied kind
            (children.map fun child => (tolerantGate evaluate true child).satisfied))
          (children.map (tolerantGate evaluate true)) := by
  rw [tolerantGate, runGate, runGates_tolerant]
  simp [Function.comp_def]

lemma tolerantGate_lazy (kind : GateKind) (children : List IndexedGate) :
    tolerantGate evaluate false (.branch kind children)
      = .branch kind
          (if (tolerantUntil evaluate false kind children).1 then some kind.decidesAt
            else foldSatisfied kind
              ((tolerantUntil evaluate false kind children).2.map (·.satisfied)))
          (tolerantUntil evaluate false kind children).2 := by
  rw [tolerantGate, runGate, runGatesUntil_tolerant]
  simp

end

section

variable {evaluate evaluate' : ℕ → Option RuleResult} {collectAll : Bool} {kind : GateKind}
  {children : List IndexedGate}

lemma isSatisfied_eq_true {result : GateResult} :
    result.isSatisfied = true ↔ result.satisfied = some true := by
  rw [GateResult.isSatisfied, decide_eq_true_iff]

/-- What the lazy loop does: either no child decides and all of them are evaluated, or the first
child that does is the last to be evaluated. -/
lemma tolerantUntil_cases (evaluate : ℕ → Option RuleResult) (collectAll : Bool) (kind : GateKind)
    (children : List IndexedGate) :
    (tolerantUntil evaluate collectAll kind children
        = (false, children.map (tolerantGate evaluate collectAll))
      ∧ ∀ child ∈ children, (tolerantGate evaluate collectAll child).isSatisfied ≠ kind.decidesAt)
    ∨ ∃ before child after, children = before ++ child :: after
      ∧ tolerantUntil evaluate collectAll kind children
        = (true, before.map (tolerantGate evaluate collectAll)
            ++ tolerantGate evaluate collectAll child :: after.map skipped)
      ∧ (∀ other ∈ before, (tolerantGate evaluate collectAll other).isSatisfied ≠ kind.decidesAt)
      ∧ (tolerantGate evaluate collectAll child).isSatisfied = kind.decidesAt := by
  induction children with
  | nil => exact .inl ⟨rfl, fun _ h => nomatch h⟩
  | cons child children ih =>
      have hrun : some (tolerantUntil evaluate collectAll kind (child :: children))
          = some (if (tolerantGate evaluate collectAll child).isSatisfied = kind.decidesAt then
              (true, tolerantGate evaluate collectAll child :: skippedAll children)
            else ((tolerantUntil evaluate collectAll kind children).1,
              tolerantGate evaluate collectAll child
                :: (tolerantUntil evaluate collectAll kind children).2)) := by
        rw [← runGatesUntil_tolerant, runGatesUntil, runGate_tolerant, runGatesUntil_tolerant]
        simp only [Option.bind_eq_bind, Option.bind_some, Option.pure_def]
        split_ifs <;> rfl
      rw [Option.some.inj hrun]
      by_cases hdecides : (tolerantGate evaluate collectAll child).isSatisfied = kind.decidesAt
      · refine .inr ⟨[], child, children, rfl, ?_, fun _ h => (nomatch h), hdecides⟩
        rw [if_pos hdecides, skippedAll_eq_map, List.map_nil, List.nil_append]
      · rw [if_neg hdecides]
        rcases ih with ⟨hrest, hnone⟩ | ⟨before, deciding, after, rfl, hrest, hbefore, hdeciding⟩
        · refine .inl ⟨?_, List.forall_mem_cons.mpr ⟨hdecides, hnone⟩⟩
          rw [hrest, List.map_cons]
        · refine .inr ⟨child :: before, deciding, after, rfl, ?_,
            List.forall_mem_cons.mpr ⟨hdecides, hbefore⟩, hdeciding⟩
          rw [hrest, List.map_cons, List.cons_append]

/-- The lazy loop stops at a child that decides behind children that do not. -/
lemma tolerantUntil_stops {before after : List IndexedGate} {child : IndexedGate}
    (hbefore : ∀ other ∈ before,
      (tolerantGate evaluate collectAll other).isSatisfied ≠ kind.decidesAt)
    (hchild : (tolerantGate evaluate collectAll child).isSatisfied = kind.decidesAt) :
    tolerantUntil evaluate collectAll kind (before ++ child :: after)
      = (true, before.map (tolerantGate evaluate collectAll)
          ++ tolerantGate evaluate collectAll child :: after.map skipped) := by
  have hsome : some (tolerantUntil evaluate collectAll kind (before ++ child :: after))
      = some (true, before.map (tolerantGate evaluate collectAll)
          ++ tolerantGate evaluate collectAll child :: after.map skipped) := by
    rw [← runGatesUntil_tolerant]
    induction before with
    | nil => simp [runGatesUntil, runGate_tolerant, hchild, skippedAll_eq_map]
    | cons other before ih =>
        obtain ⟨hother, hrest⟩ := List.forall_mem_cons.mp hbefore
        rw [List.cons_append, runGatesUntil, runGate_tolerant, ih hrest]
        simp [hother]
  exact Option.some.inj hsome

/-- The lazy loop evaluates every child where none decides. -/
lemma tolerantUntil_undecided
    (h : ∀ child ∈ children,
      (tolerantGate evaluate collectAll child).isSatisfied ≠ kind.decidesAt) :
    tolerantUntil evaluate collectAll kind children
      = (false, children.map (tolerantGate evaluate collectAll)) := by
  rcases tolerantUntil_cases evaluate collectAll kind children with
    ⟨hrun, -⟩ | ⟨before, child, after, rfl, -, -, hdecides⟩
  · exact hrun
  · exact absurd hdecides (h child (by simp))

/-! ### Three values -/

lemma foldSatisfied_eq (verdicts : List (Option Bool)) :
    foldSatisfied kind verdicts =
      if some kind.decidesAt ∈ verdicts then some kind.decidesAt
      else if ∀ verdict ∈ verdicts, verdict = some (!kind.decidesAt) then some (!kind.decidesAt)
      else none := by
  have hany : (verdicts.any (· = some kind.decidesAt)) = true ↔ some kind.decidesAt ∈ verdicts := by
    rw [List.any_eq_true]
    constructor
    · rintro ⟨verdict, hverdict, hdecides⟩
      rwa [← of_decide_eq_true hdecides]
    · intro hmem
      exact ⟨_, hmem, decide_eq_true rfl⟩
  have hall : (verdicts.all (· = some (!kind.decidesAt))) = true ↔
      ∀ verdict ∈ verdicts, verdict = some (!kind.decidesAt) := by
    rw [List.all_eq_true]
    exact forall₂_congr fun _ _ => decide_eq_true_iff
  simp only [foldSatisfied, hany, hall]

lemma foldSatisfied_eq_true {verdicts : List (Option Bool)} :
    foldSatisfied kind verdicts = some true ↔
      match kind with
      | .all => ∀ verdict ∈ verdicts, verdict = some true
      | .any => some true ∈ verdicts := by
  rw [foldSatisfied_eq]
  cases kind with
  | all =>
      simp only [GateKind.decidesAt, Bool.not_false]
      split_ifs with hfails hall
      · exact ⟨fun h => (by cases h), fun h => (by cases h _ hfails)⟩
      · exact ⟨fun _ => hall, fun _ => rfl⟩
      · exact ⟨fun h => (by cases h), fun h => absurd h hall⟩
  | any =>
      simp only [GateKind.decidesAt, Bool.not_true]
      split_ifs with hpasses hall
      · exact ⟨fun _ => hpasses, fun _ => rfl⟩
      · exact ⟨fun h => (by cases h), fun h => absurd h hpasses⟩
      · exact ⟨fun h => (by cases h), fun h => absurd h hpasses⟩

lemma foldSatisfied_eq_false {verdicts : List (Option Bool)} :
    foldSatisfied kind verdicts = some false ↔
      match kind with
      | .all => some false ∈ verdicts
      | .any => ∀ verdict ∈ verdicts, verdict = some false := by
  rw [foldSatisfied_eq]
  cases kind with
  | all =>
      simp only [GateKind.decidesAt, Bool.not_false]
      split_ifs with hfails hall
      · exact ⟨fun _ => hfails, fun _ => rfl⟩
      · exact ⟨fun h => (by cases h), fun h => absurd h hfails⟩
      · exact ⟨fun h => (by cases h), fun h => absurd h hfails⟩
  | any =>
      simp only [GateKind.decidesAt, Bool.not_true]
      split_ifs with hpasses hall
      · exact ⟨fun h => (by cases h), fun h => (by cases h _ hpasses)⟩
      · exact ⟨fun _ => hall, fun _ => rfl⟩
      · exact ⟨fun h => (by cases h), fun h => absurd h hall⟩

lemma holds_branch_iff {pass : ℕ → Bool} :
    (IndexedGate.branch kind children).holds pass = true ↔
      match kind with
      | .all => ∀ child ∈ children, child.holds pass = true
      | .any => ∃ child ∈ children, child.holds pass = true := by
  rw [holds_branch]
  cases kind <;> simp

/-- A three-valued verdict is known by when it admits and when it refuses. -/
lemma verdict_ext {verdict verdict' : Option Bool}
    (htrue : verdict = some true ↔ verdict' = some true)
    (hfalse : verdict = some false ↔ verdict' = some false) : verdict = verdict' := by
  cases verdict with
  | none =>
      cases verdict' with
      | none => rfl
      | some value => cases value <;> simp_all
  | some value => cases value <;> simp_all

/-! ### The verdict -/

/-- The verdict that the readable leaves give a tree, between its two extreme completions. -/
def readableVerdict (evaluate : ℕ → Option RuleResult) (t : IndexedGate) : Option Bool :=
  if t.holds (knownPass evaluate) then some true
  else if t.holds (mayPass evaluate) then none
  else some false

/-- What the lazy mode makes of a tree: an unread leaf counts as one that did not pass, and only
where it is an alternative of the root does the refusal stay open. -/
def lazyVerdict (evaluate : ℕ → Option RuleResult) (t : IndexedGate) : Option Bool :=
  if t.holds (knownPass evaluate) then some true
  else if unreadAlternative evaluate t then none
  else some false

lemma holds_mayPass_of_knownPass {t : IndexedGate} (h : t.holds (knownPass evaluate) = true) :
    t.holds (mayPass evaluate) = true := by
  have hcompletes : Completes evaluate (completeWith evaluate (.success 1)) :=
    completes_completeWith _
  obtain ⟨hlow, hhigh⟩ := holds_completes hcompletes t
  exact hhigh (hlow h)

lemma readableVerdict_eq_true {t : IndexedGate} :
    readableVerdict evaluate t = some true ↔ t.holds (knownPass evaluate) = true := by
  rw [readableVerdict]
  split_ifs with hknown <;> simp_all

lemma readableVerdict_eq_false {t : IndexedGate} :
    readableVerdict evaluate t = some false ↔ t.holds (mayPass evaluate) = false := by
  rw [readableVerdict]
  split_ifs with hknown hmay
  · simp [holds_mayPass_of_knownPass hknown]
  · simp [hmay]
  · simp [hmay]

lemma satisfied_leaf (leaf : ℕ) :
    (tolerantGate evaluate collectAll (.leaf leaf)).satisfied
      = (evaluate leaf).map RuleResult.passes := by
  rw [tolerantGate_leaf]
  cases evaluate leaf with
  | none => rfl
  | some result => exact leafResult_satisfied leaf result

/-- **Collecting every leaf, a tree evaluates to what its readable leaves say of it.** -/
theorem satisfied_collecting (t : IndexedGate) :
    (tolerantGate evaluate true t).satisfied = readableVerdict evaluate t := by
  induction t using IndexedGate.ind with
  | leaf leaf =>
      rw [satisfied_leaf, readableVerdict]
      cases hread : evaluate leaf with
      | none => simp [IndexedGate.holds, knownPass, mayPass, hread]
      | some result =>
          cases hpasses : result.passes <;>
            simp [IndexedGate.holds, knownPass, mayPass, hread, hpasses]
  | branch kind children ih =>
      have hverdicts : (children.map fun child => (tolerantGate evaluate true child).satisfied)
          = children.map (readableVerdict evaluate) := List.map_congr_left ih
      rw [tolerantGate_collecting, hverdicts]
      show foldSatisfied kind (children.map (readableVerdict evaluate)) = _
      apply verdict_ext
      · rw [foldSatisfied_eq_true, readableVerdict_eq_true, holds_branch_iff]
        cases kind <;> simp [readableVerdict_eq_true]
      · rw [foldSatisfied_eq_false, readableVerdict_eq_false, ← Bool.not_eq_true, holds_branch_iff]
        cases kind <;> simp [readableVerdict_eq_false]

lemma lazyVerdict_eq_true {t : IndexedGate} :
    lazyVerdict evaluate t = some true ↔ t.holds (knownPass evaluate) = true := by
  rw [lazyVerdict]
  split_ifs with hknown hunread <;> simp_all

lemma lazyVerdict_eq_false {t : IndexedGate} :
    lazyVerdict evaluate t = some false ↔
      t.holds (knownPass evaluate) = false ∧ unreadAlternative evaluate t = false := by
  rw [lazyVerdict]
  split_ifs with hknown hunread <;> simp_all

/-- A child decides a branch as the lazy verdict says. -/
lemma isSatisfied_eq_holds {t : IndexedGate}
    (h : (tolerantGate evaluate false t).satisfied = lazyVerdict evaluate t) :
    (tolerantGate evaluate false t).isSatisfied = t.holds (knownPass evaluate) := by
  rw [Bool.eq_iff_iff, isSatisfied_eq_true, h, lazyVerdict_eq_true]

/-- **Lazily, a leaf that was not read stops an `all` as a failure does.** -/
theorem satisfied_lazy (t : IndexedGate) :
    (tolerantGate evaluate false t).satisfied = lazyVerdict evaluate t := by
  induction t using IndexedGate.ind with
  | leaf leaf =>
      rw [satisfied_leaf, lazyVerdict]
      cases hread : evaluate leaf with
      | none => simp [IndexedGate.holds, knownPass, unreadAlternative, hread]
      | some result =>
          cases hpasses : result.passes <;>
            simp [IndexedGate.holds, knownPass, unreadAlternative, hread, hpasses]
  | branch kind children ih =>
      rw [tolerantGate_lazy]
      show (if (tolerantUntil evaluate false kind children).1 then some kind.decidesAt
        else foldSatisfied kind ((tolerantUntil evaluate false kind children).2.map (·.satisfied)))
          = _
      rcases tolerantUntil_cases evaluate false kind children with
        ⟨hrun, hnone⟩ | ⟨before, child, after, rfl, hrun, -, hdecides⟩
      · -- no child decides: every child is evaluated, and the fold sees their verdicts
        have hverdicts : (children.map (tolerantGate evaluate false)).map (·.satisfied)
            = children.map (lazyVerdict evaluate) := by
          rw [List.map_map]
          exact List.map_congr_left ih
        rw [hrun, if_neg Bool.false_ne_true, hverdicts]
        have hholds : ∀ child ∈ children, child.holds (knownPass evaluate) ≠ kind.decidesAt :=
          fun child hchild => by
            rw [← isSatisfied_eq_holds (ih child hchild)]
            exact hnone child hchild
        apply verdict_ext
        · rw [foldSatisfied_eq_true, lazyVerdict_eq_true, holds_branch_iff]
          cases kind <;> simp [lazyVerdict_eq_true]
        · rw [foldSatisfied_eq_false, lazyVerdict_eq_false, ← Bool.not_eq_true, holds_branch_iff]
          cases kind with
          | all =>
              simp only [GateKind.decidesAt, ne_eq, Bool.not_eq_false] at hholds
              simp only [List.mem_map, lazyVerdict_eq_false]
              constructor
              · rintro ⟨child, hchild, hfails, -⟩
                rw [hholds child hchild] at hfails
                cases hfails
              · rintro ⟨hnot, -⟩
                exact absurd hholds hnot
          | any =>
              simp only [GateKind.decidesAt, ne_eq, Bool.not_eq_true] at hholds
              simp only [List.forall_mem_map, lazyVerdict_eq_false, unreadAlternative,
                unreadAlternatives_eq_any, List.any_eq_false, Bool.not_eq_true]
              constructor
              · intro hrefused
                refine ⟨?_, fun child hchild => (hrefused child hchild).2⟩
                rintro ⟨child, hchild, hpasses⟩
                rw [hholds child hchild] at hpasses
                cases hpasses
              · rintro ⟨-, hread⟩ child hchild
                exact ⟨hholds child hchild, hread child hchild⟩
      · -- a child decides as its verdict says, and no other verdict matters
        rw [hrun, if_pos rfl]
        have hchild : child.holds (knownPass evaluate) = kind.decidesAt := by
          rw [← isSatisfied_eq_holds (ih child (by simp))]
          exact hdecides
        symm
        cases kind with
        | all =>
            rw [GateKind.decidesAt, lazyVerdict_eq_false, ← Bool.not_eq_true, holds_branch_iff]
            refine ⟨fun hall => ?_, rfl⟩
            rw [hall child (by simp)] at hchild
            cases hchild
        | any =>
            rw [GateKind.decidesAt, lazyVerdict_eq_true, holds_branch_iff]
            exact ⟨child, by simp, hchild⟩

/-! ### Blame -/

/-- A child of an evaluated branch was evaluated or skipped. -/
lemma mem_tolerantUntil {result : GateResult}
    (h : result ∈ (tolerantUntil evaluate collectAll kind children).2) :
    ∃ child ∈ children, result = tolerantGate evaluate collectAll child
      ∨ result = skipped child := by
  rcases tolerantUntil_cases evaluate collectAll kind children with
    ⟨hrun, -⟩ | ⟨before, child, after, rfl, hrun, -, -⟩
  · rw [hrun] at h
    obtain ⟨child, hchild, rfl⟩ := List.mem_map.mp h
    exact ⟨child, hchild, .inl rfl⟩
  · rw [hrun] at h
    rcases List.mem_append.mp h with h | h
    · obtain ⟨other, hother, rfl⟩ := List.mem_map.mp h
      exact ⟨other, List.mem_append_left _ hother, .inl rfl⟩
    · rcases List.mem_cons.mp h with rfl | h
      · exact ⟨child, by simp, .inl rfl⟩
      · obtain ⟨other, hother, rfl⟩ := List.mem_map.mp h
        exact ⟨other, by simp [hother], .inr rfl⟩

lemma mem_of_mem_gateBlame_branch {satisfied : Option Bool} {results : List GateResult}
    {blamed : BlamedLeaf} (h : blamed ∈ gateBlame (.branch kind satisfied results)) :
    ∃ result ∈ results, blamed ∈ gateBlame result := by
  rw [gateBlame] at h
  split_ifs at h
  · exact mem_gateBlames.mp h
  · cases h

/-- **Only a leaf that was read and failed is blamed**, with its own error and penalty. -/
theorem failed_of_mem_gateBlame (t : IndexedGate) :
    ∀ blamed ∈ gateBlame (tolerantGate evaluate collectAll t), ∃ result failed,
      evaluate blamed.leaf = some result ∧ gateFailure result = some failed
        ∧ blamed.error = some failed.error ∧ blamed.penalize = failed.penalize := by
  induction t using IndexedGate.ind with
  | leaf leaf =>
      intro blamed hblamed
      rw [tolerantGate_leaf] at hblamed
      cases hread : evaluate leaf with
      | none =>
          rw [hread] at hblamed
          simp [gateBlame, unevaluated] at hblamed
      | some result =>
          rw [hread, Option.elim_some, leafResult] at hblamed
          cases hfails : gateFailure result with
          | none => simp [hfails, gateBlame] at hblamed
          | some failed =>
              obtain rfl : blamed = ⟨leaf, some failed.error, failed.penalize⟩ := by
                simpa [hfails, gateBlame] using hblamed
              exact ⟨result, failed, hread, hfails, rfl, rfl⟩
  | branch kind children ih =>
      intro blamed hblamed
      have hchild : ∃ child ∈ children,
          blamed ∈ gateBlame (tolerantGate evaluate collectAll child) := by
        cases collectAll with
        | true =>
            rw [tolerantGate_collecting] at hblamed
            obtain ⟨result, hresult, hmem⟩ := mem_of_mem_gateBlame_branch hblamed
            obtain ⟨child, hchild, rfl⟩ := List.mem_map.mp hresult
            exact ⟨child, hchild, hmem⟩
        | false =>
            rw [tolerantGate_lazy] at hblamed
            obtain ⟨result, hresult, hmem⟩ := mem_of_mem_gateBlame_branch hblamed
            obtain ⟨child, hchild, rfl | rfl⟩ := mem_tolerantUntil hresult
            · exact ⟨child, hchild, hmem⟩
            · rw [gateBlame_skipped] at hmem
              cases hmem
      obtain ⟨child, hmem, hblame⟩ := hchild
      exact ih child hmem blamed hblame

/-! ### Whom to blame -/

/-- Whatever was read stays read. -/
def Extends (evaluate evaluate' : ℕ → Option RuleResult) : Prop :=
  ∀ leaf result, evaluate leaf = some result → evaluate' leaf = some result

lemma gatePenalize_satisfied {result : GateResult} (h : gatePenalize result = true) :
    result.satisfied = some false := by
  cases result with
  | leaf leaf satisfied score error penalize =>
      simp only [gatePenalize, Bool.and_eq_true, decide_eq_true_iff] at h
      exact h.1
  | branch kind satisfied children =>
      simp only [gatePenalize, Bool.and_eq_true, decide_eq_true_iff] at h
      exact h.1

/-- An `all` is blamed on the sender for one failing child that is. -/
lemma gatePenalize_all {satisfied : Option Bool} {results : List GateResult} :
    gatePenalize (.branch .all satisfied results) = true ↔
      satisfied = some false ∧ ∃ result ∈ results, gatePenalize result = true := by
  simp only [gatePenalize, Bool.and_eq_true, decide_eq_true_iff, List.any_eq_true, id_eq]
  refine and_congr_right fun _ => ⟨?_, ?_⟩
  · rintro ⟨penalty, hpenalty, rfl⟩
    obtain ⟨result, hresult, -, hpenalize⟩ := mem_failingPenalties.mp hpenalty
    exact ⟨result, hresult, hpenalize⟩
  · rintro ⟨result, hresult, hpenalize⟩
    exact ⟨true, mem_failingPenalties.mpr
      ⟨result, hresult, gatePenalize_satisfied hpenalize, hpenalize⟩, rfl⟩

/-- An `any` whose children all fail is blamed on the sender if every one of them is. -/
lemma gatePenalize_any {satisfied : Option Bool} {results : List GateResult}
    (hfails : ∀ result ∈ results, result.satisfied = some false) :
    gatePenalize (.branch .any satisfied results) = true ↔
      satisfied = some false ∧ results ≠ [] ∧ ∀ result ∈ results, gatePenalize result = true := by
  have hpenalties : failingPenalties results = results.map gatePenalize := by
    induction results with
    | nil => rfl
    | cons result results ih =>
        obtain ⟨hresult, hrest⟩ := List.forall_mem_cons.mp hfails
        rw [failingPenalties, if_pos hresult, ih hrest, List.map_cons]
  simp [gatePenalize, hpenalties]

lemma fails_of_foldSatisfied_any {results : List GateResult}
    (h : foldSatisfied .any (results.map (·.satisfied)) = some false) :
    ∀ result ∈ results, result.satisfied = some false :=
  List.forall_mem_map.mp (foldSatisfied_eq_false.mp h)

/-- In both modes a tree is known to admit if its known passes make it hold. -/
lemma satisfied_eq_true (t : IndexedGate) :
    (tolerantGate evaluate collectAll t).satisfied = some true ↔
      t.holds (knownPass evaluate) = true := by
  cases collectAll with
  | true => rw [satisfied_collecting, readableVerdict_eq_true]
  | false => rw [satisfied_lazy, lazyVerdict_eq_true]

lemma isSatisfied_extends (hextends : Extends evaluate evaluate') {t : IndexedGate}
    (h : (tolerantGate evaluate collectAll t).isSatisfied = true) :
    (tolerantGate evaluate' collectAll t).isSatisfied = true := by
  rw [isSatisfied_eq_true, satisfied_eq_true] at h ⊢
  refine holds_mono (fun leaf hknown => ?_) t h
  cases hread : evaluate leaf with
  | none => simp [knownPass, hread] at hknown
  | some result => simpa [knownPass, hread, hextends leaf result hread] using hknown

lemma isSatisfied_of_gatePenalize {result : GateResult} (h : gatePenalize result = true) :
    result.isSatisfied = false := by
  rw [GateResult.isSatisfied, gatePenalize_satisfied h]
  rfl

/-- The failing child that closes a lazy `all` closes it again. -/
lemma gatePenalize_lazy_all
    (hmono : ∀ child, (tolerantGate evaluate false child).isSatisfied = true →
      (tolerantGate evaluate' false child).isSatisfied = true)
    (ih : ∀ child ∈ children, gatePenalize (tolerantGate evaluate false child) = true →
      gatePenalize (tolerantGate evaluate' false child) = true)
    (h : gatePenalize (tolerantGate evaluate false (.branch .all children)) = true) :
    gatePenalize (tolerantGate evaluate' false (.branch .all children)) = true := by
  rw [tolerantGate_lazy] at h ⊢
  obtain ⟨-, result, hresult, hpenalize⟩ := gatePenalize_all.mp h
  have hfails := isSatisfied_of_gatePenalize hpenalize
  rcases tolerantUntil_cases evaluate false .all children with
    ⟨hrun, hnone⟩ | ⟨before, child, after, rfl, hrun, hbefore, hdecides⟩
  · rw [hrun] at hresult
    obtain ⟨child, hchild, rfl⟩ := List.mem_map.mp hresult
    exact absurd hfails (hnone child hchild)
  · -- the blamed child is the one that decides: those before it admit, those behind are skipped
    have hblamed : gatePenalize (tolerantGate evaluate false child) = true := by
      rw [hrun] at hresult
      rcases List.mem_append.mp hresult with hresult | hresult
      · obtain ⟨other, hother, rfl⟩ := List.mem_map.mp hresult
        exact absurd hfails (hbefore other hother)
      · rcases List.mem_cons.mp hresult with rfl | hresult
        · exact hpenalize
        · obtain ⟨other, -, rfl⟩ := List.mem_map.mp hresult
          have hsatisfied := gatePenalize_satisfied hpenalize
          rw [skipped_satisfied] at hsatisfied
          cases hsatisfied
    have hblamed' := ih child (by simp) hblamed
    have hrun' : tolerantUntil evaluate' false .all (before ++ child :: after)
        = (true, before.map (tolerantGate evaluate' false)
            ++ tolerantGate evaluate' false child :: after.map skipped) := by
      refine tolerantUntil_stops (fun other hother => ?_) (isSatisfied_of_gatePenalize hblamed')
      have hsatisfied : (tolerantGate evaluate false other).isSatisfied = true := by
        simpa [GateKind.decidesAt] using hbefore other hother
      simp [hmono other hsatisfied, GateKind.decidesAt]
    rw [hrun', gatePenalize_all]
    exact ⟨rfl, tolerantGate evaluate' false child, by simp, hblamed'⟩

/-- A lazy `any` that refuses has evaluated every child, and each of them refuses again. -/
lemma gatePenalize_lazy_any
    (ih : ∀ child ∈ children, gatePenalize (tolerantGate evaluate false child) = true →
      gatePenalize (tolerantGate evaluate' false child) = true)
    (h : gatePenalize (tolerantGate evaluate false (.branch .any children)) = true) :
    gatePenalize (tolerantGate evaluate' false (.branch .any children)) = true := by
  have hrefused := gatePenalize_satisfied h
  rw [tolerantGate_lazy] at h hrefused ⊢
  rcases tolerantUntil_cases evaluate false .any children with
    ⟨hrun, -⟩ | ⟨before, child, after, rfl, hrun, -, -⟩
  · simp only [hrun, Bool.false_eq_true, if_false, GateResult.satisfied] at h hrefused
    obtain ⟨-, hne, hall⟩ := (gatePenalize_any (fails_of_foldSatisfied_any hrefused)).mp h
    have hall' : ∀ child ∈ children, gatePenalize (tolerantGate evaluate' false child) = true :=
      fun child hchild => ih child hchild (List.forall_mem_map.mp hall child hchild)
    have hrun' : tolerantUntil evaluate' false .any children
        = (false, children.map (tolerantGate evaluate' false)) :=
      tolerantUntil_undecided fun child hchild => by
        simp [isSatisfied_of_gatePenalize (hall' child hchild), GateKind.decidesAt]
    have hfails' : ∀ result ∈ children.map (tolerantGate evaluate' false),
        result.satisfied = some false :=
      List.forall_mem_map.mpr fun child hchild => gatePenalize_satisfied (hall' child hchild)
    simp only [hrun', Bool.false_eq_true, if_false]
    refine (gatePenalize_any hfails').mpr ⟨?_, by simpa using hne, List.forall_mem_map.mpr hall'⟩
    exact foldSatisfied_eq_false.mpr (List.forall_mem_map.mpr hfails')
  · simp [hrun, GateResult.satisfied, GateKind.decidesAt] at hrefused

lemma gatePenalize_collecting
    (ih : ∀ child ∈ children, gatePenalize (tolerantGate evaluate true child) = true →
      gatePenalize (tolerantGate evaluate' true child) = true)
    (h : gatePenalize (tolerantGate evaluate true (.branch kind children)) = true) :
    gatePenalize (tolerantGate evaluate' true (.branch kind children)) = true := by
  have hrefused := gatePenalize_satisfied h
  rw [tolerantGate_collecting] at h hrefused ⊢
  rw [GateResult.satisfied, ← Function.comp_def, ← List.map_map] at hrefused
  cases kind with
  | all =>
      obtain ⟨-, result, hresult, hpenalize⟩ := gatePenalize_all.mp h
      obtain ⟨child, hchild, rfl⟩ := List.mem_map.mp hresult
      have hpenalize' := ih child hchild hpenalize
      refine gatePenalize_all.mpr ⟨?_, _, List.mem_map_of_mem hchild, hpenalize'⟩
      refine foldSatisfied_eq_false.mpr (List.mem_map.mpr ⟨child, hchild, ?_⟩)
      exact gatePenalize_satisfied hpenalize'
  | any =>
      obtain ⟨-, hne, hall⟩ := (gatePenalize_any (fails_of_foldSatisfied_any hrefused)).mp h
      have hall' : ∀ child ∈ children, gatePenalize (tolerantGate evaluate' true child) = true :=
        fun child hchild => ih child hchild (List.forall_mem_map.mp hall child hchild)
      have hfails' : ∀ child ∈ children,
          (tolerantGate evaluate' true child).satisfied = some false :=
        fun child hchild => gatePenalize_satisfied (hall' child hchild)
      refine (gatePenalize_any (List.forall_mem_map.mpr hfails')).mpr
        ⟨?_, by simpa using hne, List.forall_mem_map.mpr hall'⟩
      exact foldSatisfied_eq_false.mpr (List.forall_mem_map.mpr hfails')

/-- **A refusal that is blamed on the sender stays one when more leaves are read.** -/
theorem gatePenalize_extends (hextends : Extends evaluate evaluate') (t : IndexedGate)
    (h : gatePenalize (tolerantGate evaluate collectAll t) = true) :
    gatePenalize (tolerantGate evaluate' collectAll t) = true := by
  induction t using IndexedGate.ind with
  | leaf leaf =>
      rw [tolerantGate_leaf] at h ⊢
      cases hread : evaluate leaf with
      | none =>
          rw [hread] at h
          cases h
      | some result =>
          rw [hread] at h
          rw [hextends leaf result hread]
          exact h
  | branch kind children ih =>
      cases collectAll with
      | true => exact gatePenalize_collecting ih h
      | false =>
          cases kind with
          | all => exact gatePenalize_lazy_all (fun _ => isSatisfied_extends hextends) ih h
          | any => exact gatePenalize_lazy_any ih h

/-! ### A whole gate -/

lemma extends_completes {answer : ℕ → RuleResult} (h : Completes evaluate answer) :
    Extends evaluate fun leaf => some (answer leaf) :=
  fun leaf result hread => congrArg some (h leaf result hread)

lemma tolerantGate_answered (answer : ℕ → RuleResult) (t : IndexedGate) :
    tolerantGate (fun leaf => some (answer leaf)) collectAll t
      = (askGate answer collectAll t).result := by
  rw [tolerantGate, runGate_eq_askGate, Option.getD_some]

/-- A verdict between the two extreme completions is the verdict of every completion. -/
lemma decides_of_readableVerdict {node : GateNode} {verdict : Bool}
    (h : readableVerdict evaluate (indexGate 0 node).1 = some verdict)
    {answer : ℕ → RuleResult} (hcompletes : Completes evaluate answer) :
    Decides answer node verdict := by
  rw [decides_iff]
  obtain ⟨hlow, hhigh⟩ := holds_completes hcompletes (indexGate 0 node).1
  cases verdict with
  | true => exact hlow (readableVerdict_eq_true.mp h)
  | false =>
      have hmay := readableVerdict_eq_false.mp h
      rw [gateHolds]
      by_contra hholds
      rw [hhigh (by simpa using hholds)] at hmay
      cases hmay

/-- Where the readable leaves leave the verdict open, the two extreme completions disagree. -/
lemma disagree_of_readableVerdict {node : GateNode}
    (h : readableVerdict evaluate (indexGate 0 node).1 = none) (error : String) :
    Decides (completeWith evaluate (.success 1)) node true
      ∧ Decides (completeWith evaluate (.failure error none)) node false := by
  rw [readableVerdict] at h
  split_ifs at h with hknown hmay
  rw [decides_iff, decides_iff, gateHolds, gateHolds, passing_completeWith_success,
    passing_completeWith_failure]
  exact ⟨hmay, by simpa using hknown⟩

/-- Completions that disagree leave no verdict to the readable leaves. -/
lemma readableVerdict_of_disagree {node : GateNode} {answer answer' : ℕ → RuleResult}
    (h : Completes evaluate answer) (h' : Completes evaluate answer')
    (htrue : Decides answer node true) (hfalse : Decides answer' node false) :
    readableVerdict evaluate (indexGate 0 node).1 = none := by
  cases hverdict : readableVerdict evaluate (indexGate 0 node).1 with
  | none => rfl
  | some verdict =>
      have hanswer := decides_iff.mp (decides_of_readableVerdict hverdict h)
      have hanswer' := decides_iff.mp (decides_of_readableVerdict hverdict h')
      have : true = false := calc
        true = gateHolds answer node := (decides_iff.mp htrue).symm
        _ = gateHolds answer' node := hanswer.trans hanswer'.symm
        _ = false := decides_iff.mp hfalse
      cases this

end

end PubsubVoting
