import PubsubVoting.Rules.Blame
import PubsubVoting.Verify.CheckGates

/-!
Whether a wallet's vote published now would count, and what its voter could do about it if not.

* `eligibilityChecks`, `toEligibilityNode`: an evaluated gate in the shape clients see.
* `checkEligibility`: the score of a wallet the gate admits, or the failures that explain why not.
* `gateBlame_explains`: the blame of a complete evaluation explains its refusal, and the failures of
  `checkEligibility` are that blame.
-/

namespace PubsubVoting

/-- One rule's answer about one wallet. -/
structure EligibilityCheck where
  leaf : ℕ
  ruleId : Option JsString
  type : Option JsString
  satisfied : Option Bool
  score : ℤ
  error : Option String

/-- The gate tree with each node's verdict. -/
inductive EligibilityNode where
  | leaf (check : EligibilityCheck)
  | branch (kind : GateKind) (satisfied : Option Bool) (children : List EligibilityNode)

/-- What `checkEligibility` found. -/
inductive EligibilityResult where
  | eligible (score : ℤ) (checks : List EligibilityCheck) (gate : EligibilityNode)
  | ineligible (error : String) (failures : List (Option EligibilityCheck))
      (checks : List EligibilityCheck) (gate : EligibilityNode)

section

variable (ruleIds : List JsString) (gateRefs : List RuleRef)

/-- One evaluated leaf as clients see it. -/
def eligibilityCheck (leaf : ℕ) (satisfied : Option Bool) (score : ℤ) (error : Option String) :
    EligibilityCheck :=
  ⟨leaf, ruleIds[leaf]?, (gateRefs[leaf]?).map (·.type), satisfied, score, error⟩

mutual

/-- `#toEligibilityNode`: one evaluated node as clients see it. -/
def toEligibilityNode : GateResult → EligibilityNode
  | .leaf leaf satisfied score error _ =>
    .leaf (eligibilityCheck ruleIds gateRefs leaf satisfied score error)
  | .branch kind satisfied children => .branch kind satisfied (toEligibilityNodes children)

/-- The children of an evaluated node. -/
def toEligibilityNodes : List GateResult → List EligibilityNode
  | [] => []
  | child :: children => toEligibilityNode child :: toEligibilityNodes children

end

mutual

/-- The leaves that `#toEligibilityNode` collects, in the order it visits them. -/
def eligibilityChecks : GateResult → List EligibilityCheck
  | .leaf leaf satisfied score error _ =>
    [eligibilityCheck ruleIds gateRefs leaf satisfied score error]
  | .branch _ _ children => eligibilityChecksOf children

/-- The leaves of a node's children. -/
def eligibilityChecksOf : List GateResult → List EligibilityCheck
  | [] => []
  | child :: children => eligibilityChecks child ++ eligibilityChecksOf children

end

/-- The collected leaves under their index. -/
def checksByLeaf (gate : GateResult) : JsMap ℕ EligibilityCheck :=
  .ofEntries ((eligibilityChecks ruleIds gateRefs gate).map fun check => (check.leaf, check))

end

/-- `ContestEngine.checkEligibility`, in the bucket of now; `none` where it throws. -/
def checkEligibility (d : VerifierDeps) (ruleIds : List JsString)
    (read : ResolvedGateLeaf → RuleWallet → Option RuleResult) (nowBucket : ℕ)
    (address : JsString) : Option EligibilityResult := do
  let sampleBlock := d.bucketMath.sampleBlockForBucket nowBucket
  let gate ← checkGates d read ⟨address, sampleBlock⟩
  let gateRefs := gateLeaves d.criteria.gate
  let checks := checksByLeaf ruleIds gateRefs gate
  let node := toEligibilityNode ruleIds gateRefs gate
  -- document order, not evaluation order
  let ordered := (checks.entries.mergeSort fun a b => a.1 ≤ b.1).map (·.2)
  let failures := (gateBlame gate).map fun leaf => checks.get? leaf.leaf
  if gate.satisfied = some true then return .eligible (gateScore gate) ordered node
  else return .ineligible (gateReason gate) failures ordered node

/-! ### The failures are the blame -/

section

variable (ruleIds : List JsString) (gateRefs : List RuleRef)

mutual

lemma leaf_eligibilityChecks (result : GateResult) :
    (eligibilityChecks ruleIds gateRefs result).map (·.leaf) = result.tree.leaves := by
  cases result with
  | leaf leaf satisfied score error penalize => rfl
  | branch kind satisfied children => exact leaf_eligibilityChecksOf children

lemma leaf_eligibilityChecksOf (children : List GateResult) :
    (eligibilityChecksOf ruleIds gateRefs children).map (·.leaf) = leavesOf (treesOf children) := by
  cases children with
  | nil => rfl
  | cons child children =>
      rw [eligibilityChecksOf, List.map_append, leaf_eligibilityChecks child,
        leaf_eligibilityChecksOf children]
      rfl

end

mutual

/-- A blamed leaf was collected as a failure, with the error it is blamed with. -/
lemma check_of_mem_gateBlame (result : GateResult) (blamed : BlamedLeaf)
    (h : blamed ∈ gateBlame result) :
    ∃ check ∈ eligibilityChecks ruleIds gateRefs result, check.leaf = blamed.leaf
      ∧ check.satisfied = some false ∧ check.error = blamed.error := by
  cases result with
  | leaf leaf satisfied score error penalize =>
      rw [gateBlame] at h
      split_ifs at h with hfails
      · obtain rfl := List.mem_singleton.mp h
        exact ⟨_, List.mem_singleton_self _, rfl, hfails, rfl⟩
      · cases h
  | branch kind satisfied children =>
      rw [gateBlame] at h
      split_ifs at h
      · exact check_of_mem_gateBlames children blamed h
      · cases h

lemma check_of_mem_gateBlames (children : List GateResult) (blamed : BlamedLeaf)
    (h : blamed ∈ gateBlames children) :
    ∃ check ∈ eligibilityChecksOf ruleIds gateRefs children, check.leaf = blamed.leaf
      ∧ check.satisfied = some false ∧ check.error = blamed.error := by
  cases children with
  | nil => cases h
  | cons child children =>
      rw [gateBlames] at h
      rw [eligibilityChecksOf]
      rcases List.mem_append.mp h with h | h
      · obtain ⟨check, hmem, hcheck⟩ := check_of_mem_gateBlame child blamed h
        exact ⟨check, List.mem_append_left _ hmem, hcheck⟩
      · obtain ⟨check, hmem, hcheck⟩ := check_of_mem_gateBlames children blamed h
        exact ⟨check, List.mem_append_right _ hmem, hcheck⟩

end

/-- A failure names a blamed leaf and says why it failed. -/
def NamesBlamed (failure : Option EligibilityCheck) (blamed : BlamedLeaf) : Prop :=
  ∃ check, failure = some check ∧ check.leaf = blamed.leaf ∧ check.satisfied = some false
    ∧ check.error = blamed.error

/-- Looking the blame up among the collected leaves finds every blamed leaf. -/
lemma namesBlamed_checksByLeaf {result : GateResult} (hnodup : result.tree.leaves.Nodup) :
    List.Forall₂ NamesBlamed
      ((gateBlame result).map fun leaf => (checksByLeaf ruleIds gateRefs result).get? leaf.leaf)
      (gateBlame result) := by
  rw [List.forall₂_map_left_iff, List.forall₂_same]
  intro blamed hblamed
  obtain ⟨check, hmem, hleaf, hfails, herror⟩ :=
    check_of_mem_gateBlame ruleIds gateRefs result blamed hblamed
  refine ⟨check, ?_, hleaf, hfails, herror⟩
  rw [checksByLeaf, JsMap.get?_ofEntries]
  · exact List.mem_map.mpr ⟨check, hmem, by rw [hleaf]⟩
  · rw [List.map_map]
    exact (leaf_eligibilityChecks ruleIds gateRefs result) ▸ hnodup

/-- A refused wallet is told what the evaluated gate blames. -/
lemma checkEligibility_ineligible {d : VerifierDeps}
    {read : ResolvedGateLeaf → RuleWallet → Option RuleResult} {nowBucket : ℕ} {address : JsString}
    {error : String} {failures : List (Option EligibilityCheck)} {checks : List EligibilityCheck}
    {gate : EligibilityNode}
    (h : checkEligibility d ruleIds read nowBucket address
      = some (.ineligible error failures checks gate)) :
    ∃ result, checkGates d read ⟨address, d.bucketMath.sampleBlockForBucket nowBucket⟩ = some result
      ∧ result.satisfied = some false ∧ error = gateReason result
      ∧ failures = (gateBlame result).map fun leaf =>
          (checksByLeaf ruleIds (gateLeaves d.criteria.gate) result).get? leaf.leaf := by
  simp only [checkEligibility, Option.bind_eq_bind, Option.bind_eq_some_iff, Option.pure_def] at h
  obtain ⟨result, hresult, h⟩ := h
  split_ifs at h with hadmits
  · cases Option.some.inj h
  obtain ⟨rfl, rfl, -, -⟩ := EligibilityResult.ineligible.inj (Option.some.inj h)
  refine ⟨result, hresult, ?_, rfl, rfl⟩
  simp only [checkGates, Option.bind_eq_bind, Option.bind_eq_some_iff, Option.pure_def] at hresult
  obtain ⟨result', -, hknown⟩ := hresult
  split_ifs at hknown with hunknown
  obtain rfl := Option.some.inj hknown
  cases hsatisfied : result'.satisfied with
  | none => exact absurd hsatisfied hunknown
  | some verdict =>
      cases verdict with
      | true => exact absurd hsatisfied hadmits
      | false => rfl

end

section

variable {node : GateNode}

/-- **The blame explains the refusal**: of every complete evaluation, and with it the failures that
`checkEligibility` returns, which are the blame of what could be read. -/
theorem gateBlame_explains (hnode : gateNodeSchema node = true) :
    (∀ answer tolerate, ∃ result, evaluateCompletely answer tolerate node = some result
      ∧ (result.satisfied = some true ∧ gateBlame result = []
        ∨ result.satisfied = some false ∧ Explains (fun leaf => some (answer leaf)) node result))
    ∧ ∀ d ruleIds read nowBucket address, d.criteria.gate = node →
      ∀ error failures checks gate,
        checkEligibility d ruleIds read nowBucket address
            = some (.ineligible error failures checks gate) →
          ∃ result, checkGates d read ⟨address, d.bucketMath.sampleBlockForBucket nowBucket⟩
              = some result
            ∧ Explains (askLeaf d read ⟨address, d.bucketMath.sampleBlockForBucket nowBucket⟩) node
              result
            ∧ List.Forall₂ NamesBlamed failures (gateBlame result) := by
  constructor
  · intro answer tolerate
    refine ⟨_, runGate_eq_askGate _, ?_⟩
    have hverdict : (askGate answer true (indexGate 0 node).1).result.satisfied
        = some ((indexGate 0 node).1.holds (passing answer)) := askGate_satisfied _
    cases hholds : (indexGate 0 node).1.holds (passing answer) with
    | true =>
        rw [hholds] at hverdict
        exact .inl ⟨hverdict, gateBlame_of_satisfied (by simp [hverdict])⟩
    | false =>
        rw [hholds] at hverdict
        refine .inr ⟨hverdict, ?_⟩
        rw [← tolerantGate_answered] at hverdict ⊢
        exact explains_of_refused hnode hverdict
  · rintro d ruleIds read nowBucket address rfl error failures checks gate h
    obtain ⟨result, hresult, hrefused, -, rfl⟩ := checkEligibility_ineligible ruleIds h
    rw [checkGates_eq] at hresult
    split_ifs at hresult with hopen
    obtain rfl := Option.some.inj hresult
    refine ⟨_, ?_, explains_of_refused hnode hrefused, namesBlamed_checksByLeaf ruleIds _ ?_⟩
    · rw [checkGates_eq, if_neg hopen]
    · rw [tree_tolerantGate, (leaves_indexGate 0 d.criteria.gate).1]
      exact List.nodup_range'

/-- Both rules fail, and each failure is named: passing them both is what the wallet needs. -/
theorem gateBlame_explains_allOfTwo :
    ∃ result, evaluateCompletely secondUnattributable false allOfTwo = some result
      ∧ Explains (fun leaf => some (secondUnattributable leaf)) allOfTwo result
      ∧ blamedLeaves result = [0, 1] := by
  have hschema : gateNodeSchema allOfTwo = true := by decide
  obtain ⟨result, hresult, hverdict⟩ :=
    (gateBlame_explains hschema).1 secondUnattributable false
  obtain rfl : GateResult.branch .all (some false) [.leaf 0 (some false) 0 (some "no pass") true,
      .leaf 1 (some false) 0 (some "no pass") false] = result := Option.some.inj hresult
  rcases hverdict with ⟨hadmits, -⟩ | ⟨-, hexplains⟩
  · cases hadmits
  · exact ⟨_, hresult, hexplains, rfl⟩

end

end PubsubVoting
