import PubsubVoting.Lib.Dedupe
import PubsubVoting.Lib.MapM
import PubsubVoting.Schema.Criteria

/-!
The gate tree: how the answers of the rules fold into one admission decision for one wallet.

* `RuleResult`, `gateFailure`, `scoreOrZero`: what a rule answers and how the pipeline reads it.
* `resolveGate`, `dedupeLeaves`: the leaves of a gate, and which of them ask the same question.
* `evaluateGate`: the one evaluator, lazy or collecting every leaf.
* `IndexedGate.holds`: what a tree says once every leaf has an answer. Both ways to evaluate agree
  with it (`evaluateGate_satisfied`).
-/

namespace PubsubVoting

open Cbor

/-! ### What a rule answers -/

/-- A wallet qualifies with a score, or the rule says why it does not. -/
inductive RuleResult where
  | success (score : ℤ)
  | failure (error : String) (penalize : Option Bool)
  deriving DecidableEq

/-- `NON_POSITIVE_SUCCESS` -/
def nonPositiveSuccess : String :=
  "the contest's rule reported success without a score, which is a bug in that rule"

/-- Why a wallet was not admitted, and whether the sender may be blamed. -/
structure GateFailure where
  error : String
  penalize : Bool
  deriving DecidableEq

/-- `none` when the wallet is admitted. A success without a score is a failure. -/
def gateFailure : RuleResult → Option GateFailure
  | .failure error penalize => some ⟨error, decide (penalize ≠ some false)⟩
  | .success score => if score ≤ 0 then some ⟨nonPositiveSuccess, true⟩ else none

/-- The weight slot's reading: a failure contributes nothing. -/
def scoreOrZero : RuleResult → ℤ
  | .success score => if 0 < score then score else 0
  | .failure _ _ => 0

/-- The answer admits the wallet. -/
def RuleResult.passes (result : RuleResult) : Bool := (gateFailure result).isNone

/-- One wallet to score, and the block its bundle names. -/
structure RuleWallet where
  address : JsString
  sampleBlock : ℕ
  deriving DecidableEq

/-- A wallet spelled in lower case: addresses are hex, so the case says nothing about the
account. -/
def RuleWallet.lower (wallet : RuleWallet) : RuleWallet :=
  { wallet with address := wallet.address.toLowerCase }

/-- A rule bound to its options and its context, seen through a chain that does not move: its
answers are fixed, the batched form answers as the single one does, and the spelling of an address
does not matter. -/
structure BoundRule where
  evaluate : RuleWallet → RuleResult
  evaluateMany : Option (List RuleWallet → List RuleResult)
  evaluateMany_eq : ∀ f ∈ evaluateMany, ∀ wallets, f wallets = wallets.map evaluate
  evaluate_lower : ∀ wallet, evaluate wallet.lower = evaluate wallet

/-! ### The leaves of a gate -/

mutual

/-- Leaf references in depth-first order. -/
def gateLeaves : GateNode → List RuleRef
  | .rule ref => [ref]
  | .branch _ children => gateLeavesOf children

/-- The leaves of a branch's children. -/
def gateLeavesOf : List GateNode → List RuleRef
  | [] => []
  | child :: children => gateLeaves child ++ gateLeavesOf children

end

/-- The registry with the schemas of the rules and the contest's chain. The entries of a reference
are the properties of an object, so their order is not visible. -/
structure RuleRegistry where
  /-- `none` where the rule is unknown or refuses the options. -/
  resolve : RuleRef → Option BoundRule
  resolve_canon : ∀ ref ref', ref.toValue.canon = ref'.toValue.canon → resolve ref = resolve ref'

/-- One gate leaf, ready to score wallets; the key is the question it asks. -/
structure ResolvedGateLeaf where
  ref : RuleRef
  rule : BoundRule
  key : Bytes

/-- Resolve every leaf once; `none` where the source throws. -/
def resolveGate (C : Codecs) (registry : RuleRegistry) (criteria : Criteria) :
    Option (List ResolvedGateLeaf) :=
  (gateLeaves criteria.gate).mapM fun ref => do
    let rule ← registry.resolve ref
    let key ← C.encodeCanonical ref.toValue
    return ⟨ref, rule, key⟩

/-- One representative leaf for each distinct question, and the question of each leaf. -/
structure DistinctLeaves where
  representatives : List ResolvedGateLeaf
  ofLeaf : List (Option ℕ)

/-- Which leaves ask the same question. -/
def dedupeLeaves (leaves : List ResolvedGateLeaf) : DistinctLeaves :=
  let questions := dedupe (·.key) leaves
  ⟨questions.kept, leaves.map fun leaf => questions.position.get? leaf.key⟩

/-- Two leaves that ask the same question have the same rule. -/
lemma rule_eq_of_key_eq {C : Codecs} {registry : RuleRegistry} {criteria : Criteria}
    {leaves : List ResolvedGateLeaf} (h : resolveGate C registry criteria = some leaves)
    {a b : ResolvedGateLeaf} (ha : a ∈ leaves) (hb : b ∈ leaves) (hkey : a.key = b.key) :
    a.rule = b.rule := by
  have hleaf : ∀ leaf ∈ leaves, registry.resolve leaf.ref = some leaf.rule
      ∧ C.encodeCanonical leaf.ref.toValue = some leaf.key := by
    refine List.forall_mem_of_mapM h fun ref _ leaf hleaf => ?_
    simp only [Option.bind_eq_bind, Option.bind_eq_some_iff, Option.pure_def, Option.some.injEq]
      at hleaf
    obtain ⟨rule, hrule, key, hk, rfl⟩ := hleaf
    exact ⟨hrule, hk⟩
  obtain ⟨hra, hka⟩ := hleaf a ha
  obtain ⟨hrb, hkb⟩ := hleaf b hb
  have hcanon := Codecs.encodeCanonical_inj hka (hkey ▸ hkb)
  have := registry.resolve_canon _ _ hcanon
  rw [hra, hrb] at this
  exact Option.some.inj this

/-! ### The evaluator -/

/-- The tree with its leaves numbered. -/
inductive IndexedGate where
  | leaf (leaf : ℕ)
  | branch (kind : GateKind) (children : List IndexedGate)

mutual

/-- Number the leaves from `next` on; the second component is the number after the last. -/
def indexGate (next : ℕ) : GateNode → IndexedGate × ℕ
  | .rule _ => (.leaf next, next + 1)
  | .branch kind children =>
    let (children, next) := indexGates next children
    (.branch kind children, next)

/-- Number the leaves of a branch's children. -/
def indexGates (next : ℕ) : List GateNode → List IndexedGate × ℕ
  | [] => ([], next)
  | child :: children =>
    let (child, next) := indexGate next child
    let (children, next) := indexGates next children
    (child :: children, next)

end

/-- The evaluated tree; `satisfied` is `none` where the evaluation never got. -/
inductive GateResult where
  | leaf (leaf : ℕ) (satisfied : Option Bool) (score : ℤ) (error : Option String) (penalize : Bool)
  | branch (kind : GateKind) (satisfied : Option Bool) (children : List GateResult)

/-- The verdict at the root of an evaluated tree. -/
def GateResult.satisfied : GateResult → Option Bool
  | .leaf _ satisfied _ _ _ => satisfied
  | .branch _ satisfied _ => satisfied

/-- The node is known to admit. -/
def GateResult.isSatisfied (result : GateResult) : Bool := decide (result.satisfied = some true)

/-- `UNEVALUATED` -/
def unevaluated (leaf : ℕ) : GateResult := .leaf leaf none 0 none false

/-- The value of one child that decides a branch. -/
def GateKind.decidesAt : GateKind → Bool
  | .all => false
  | .any => true

/-- A branch's verdict from its children's, where only a known answer decides. -/
def foldSatisfied (kind : GateKind) (children : List (Option Bool)) : Option Bool :=
  if children.any (· = some kind.decidesAt) then some kind.decidesAt
  else if children.all (· = some (!kind.decidesAt)) then some (!kind.decidesAt)
  else none

/-- One scored leaf. -/
def leafResult (leaf : ℕ) (result : RuleResult) : GateResult :=
  match gateFailure result with
  | some failed => .leaf leaf (some false) 0 (some failed.error) failed.penalize
  | none => .leaf leaf (some true) (scoreOrZero result) none false

mutual

/-- A node the evaluation never reached. -/
def skipped : IndexedGate → GateResult
  | .leaf leaf => unevaluated leaf
  | .branch kind children => .branch kind none (skippedAll children)

/-- The children the evaluation never reached. -/
def skippedAll : List IndexedGate → List GateResult
  | [] => []
  | child :: children => skipped child :: skippedAll children

end

section

variable (evaluate : ℕ → Option RuleResult) (collectAll tolerateLeafErrors : Bool)

mutual

/-- Score the leaves of a numbered tree and fold; `none` where a leaf's evaluation threw and that is
not tolerated. -/
def runGate : IndexedGate → Option GateResult
  | .leaf leaf =>
    match evaluate leaf with
    | some result => some (leafResult leaf result)
    | none => if tolerateLeafErrors then some (unevaluated leaf) else none
  | .branch kind children =>
    if collectAll then do
      let children ← runGates children
      return .branch kind (foldSatisfied kind (children.map (·.satisfied))) children
    else do
      let (decided, children) ← runGatesUntil kind children
      return .branch kind
        (if decided then some kind.decidesAt
          else foldSatisfied kind (children.map (·.satisfied))) children

/-- Every child. -/
def runGates : List IndexedGate → Option (List GateResult)
  | [] => some []
  | child :: children => do
    let result ← runGate child
    let results ← runGates children
    return result :: results

/-- The children up to the first that decides the branch, and whether one did. -/
def runGatesUntil (kind : GateKind) : List IndexedGate → Option (Bool × List GateResult)
  | [] => some (false, [])
  | child :: children => do
    let result ← runGate child
    if result.isSatisfied = kind.decidesAt then return (true, result :: skippedAll children)
    else
      let (decided, results) ← runGatesUntil kind children
      return (decided, result :: results)

end

/-- Number every leaf of `node`, then score and fold. -/
def evaluateGate (node : GateNode) : Option GateResult :=
  runGate evaluate collectAll tolerateLeafErrors (indexGate 0 node).1

end

/-! ### Reading a result -/

mutual

/-- The score of a wallet the gate admitted: the least across an `all`, the greatest across the
satisfied children of an `any`. -/
def gateScore : GateResult → ℤ
  | .leaf _ _ score _ _ => score
  | .branch kind _ children =>
    match satisfiedScores children with
    | [] => 0
    | score :: scores =>
      match kind with
      | .all => scores.foldl min score
      | .any => scores.foldl max score

/-- The scores of the satisfied children. -/
def satisfiedScores : List GateResult → List ℤ
  | [] => []
  | child :: children =>
    if child.isSatisfied then gateScore child :: satisfiedScores children
    else satisfiedScores children

end

/-- A failing leaf as the blame lists it. -/
structure BlamedLeaf where
  leaf : ℕ
  error : Option String
  penalize : Bool
  deriving DecidableEq

mutual

/-- The failing leaves that explain a refusal. -/
def gateBlame : GateResult → List BlamedLeaf
  | .leaf leaf satisfied _ error penalize =>
    if satisfied = some false then [⟨leaf, error, penalize⟩] else []
  | .branch _ satisfied children => if satisfied = some false then gateBlames children else []

/-- The blame of a branch's children. -/
def gateBlames : List GateResult → List BlamedLeaf
  | [] => []
  | child :: children => gateBlame child ++ gateBlames children

end

mutual

/-- May the refusal be blamed on the sender: one attributable failure closes an `all`, an `any`
needs every one of its failures to be attributable. -/
def gatePenalize : GateResult → Bool
  | .leaf _ satisfied _ _ penalize => decide (satisfied = some false) && penalize
  | .branch kind satisfied children =>
    decide (satisfied = some false) &&
      match kind with
      | .all => (failingPenalties children).any id
      | .any => !(failingPenalties children).isEmpty && (failingPenalties children).all id

/-- For each failing child, whether it may be blamed on the sender. -/
def failingPenalties : List GateResult → List Bool
  | [] => []
  | child :: children =>
    if child.satisfied = some false then gatePenalize child :: failingPenalties children
    else failingPenalties children

end

/-- The reasons of the blame set as one sentence. -/
def gateReason (result : GateResult) : String :=
  let reasons := (gateBlame result).map fun leaf =>
    leaf.error.getD "this wallet does not qualify"
  "; ".intercalate (dedupe id reasons).kept

/-! ### What a tree says -/

mutual

/-- The decision of a tree, from the leaves that pass. -/
def IndexedGate.holds (pass : ℕ → Bool) : IndexedGate → Bool
  | .leaf leaf => pass leaf
  | .branch .all children => holdsAll pass children
  | .branch .any children => holdsAny pass children

/-- Every child holds. -/
def holdsAll (pass : ℕ → Bool) : List IndexedGate → Bool
  | [] => true
  | child :: children => child.holds pass && holdsAll pass children

/-- Some child holds. -/
def holdsAny (pass : ℕ → Bool) : List IndexedGate → Bool
  | [] => false
  | child :: children => child.holds pass || holdsAny pass children

end

mutual

/-- The leaves of a numbered tree, in document order. -/
def IndexedGate.leaves : IndexedGate → List ℕ
  | .leaf leaf => [leaf]
  | .branch _ children => leavesOf children

/-- The leaves of a branch's children. -/
def leavesOf : List IndexedGate → List ℕ
  | [] => []
  | child :: children => child.leaves ++ leavesOf children

end

lemma mem_leavesOf {leaf : ℕ} {children : List IndexedGate} :
    leaf ∈ leavesOf children ↔ ∃ child ∈ children, leaf ∈ child.leaves := by
  induction children with
  | nil => simp [leavesOf]
  | cons child children ih => simp [leavesOf, ih]

mutual

/-- The leaves are numbered as `gateLeaves` lists them. -/
lemma leaves_indexGate (next : ℕ) (node : GateNode) :
    (indexGate next node).1.leaves = List.range' next (gateLeaves node).length
      ∧ (indexGate next node).2 = next + (gateLeaves node).length := by
  cases node with
  | rule ref => exact ⟨rfl, rfl⟩
  | branch kind children =>
      obtain ⟨hl, hn⟩ := leaves_indexGates next children
      exact ⟨by simp only [indexGate, IndexedGate.leaves, gateLeaves, hl],
        by simp only [indexGate, gateLeaves, hn]⟩

lemma leaves_indexGates (next : ℕ) (children : List GateNode) :
    leavesOf (indexGates next children).1 = List.range' next (gateLeavesOf children).length
      ∧ (indexGates next children).2 = next + (gateLeavesOf children).length := by
  cases children with
  | nil => exact ⟨rfl, rfl⟩
  | cons child children =>
      obtain ⟨hl, hn⟩ := leaves_indexGate next child
      obtain ⟨hls, hns⟩ := leaves_indexGates (indexGate next child).2 children
      rw [hn] at hls hns
      simp only [indexGates, leavesOf, gateLeavesOf, List.length_append, hl, hn, hls, hns]
      exact ⟨List.range'_append_1, by omega⟩

end

/-- The induction principle of the nested inductive. -/
@[elab_as_elim]
theorem IndexedGate.ind {P : IndexedGate → Prop} (leaf : ∀ i, P (.leaf i))
    (branch : ∀ kind children, (∀ child ∈ children, P child) → P (.branch kind children))
    (t : IndexedGate) : P t :=
  @IndexedGate.rec P (fun children => ∀ child ∈ children, P child)
    leaf branch (fun _ h => absurd h List.not_mem_nil)
    (fun _ _ hchild hchildren => List.forall_mem_cons.mpr ⟨hchild, hchildren⟩) t

section

variable {evaluate : ℕ → Option RuleResult} {answer : ℕ → RuleResult} {tolerate : Bool}

/-- The leaves that pass, where every leaf is answered. -/
abbrev passing (answer : ℕ → RuleResult) (leaf : ℕ) : Bool := (answer leaf).passes

lemma leafResult_satisfied (leaf : ℕ) (result : RuleResult) :
    (leafResult leaf result).satisfied = some result.passes := by
  unfold leafResult RuleResult.passes
  cases gateFailure result <;> rfl

/-- Known verdicts fold to the known verdict. -/
lemma foldSatisfied_map_some (kind : GateKind) (verdicts : List Bool) :
    foldSatisfied kind (verdicts.map some) =
      some (match kind with
        | .all => verdicts.all id
        | .any => verdicts.any id) := by
  cases kind with
  | all =>
      cases h : verdicts.all id with
      | true =>
          have hall : ∀ v ∈ verdicts, v = true := by simpa using h
          have hno : false ∉ verdicts := fun hf => by cases hall false hf
          simp [foldSatisfied, GateKind.decidesAt, hno]
      | false =>
          have hmem : false ∈ verdicts := by simpa using h
          simp [foldSatisfied, GateKind.decidesAt, hmem]
  | any =>
      cases h : verdicts.any id with
      | true =>
          have hmem : true ∈ verdicts := by simpa using h
          simp [foldSatisfied, GateKind.decidesAt, hmem]
      | false =>
          have hno : true ∉ verdicts := by simpa using h
          have hall : ∀ v ∈ verdicts, v = false := fun v hv => by
            cases v with
            | true => exact absurd hv hno
            | false => rfl
          simp [foldSatisfied, GateKind.decidesAt, hno]

lemma holds_branch (pass : ℕ → Bool) (kind : GateKind) (children : List IndexedGate) :
    (IndexedGate.branch kind children).holds pass =
      match kind with
      | .all => (children.map (·.holds pass)).all id
      | .any => (children.map (·.holds pass)).any id := by
  cases kind with
  | all =>
      rw [IndexedGate.holds]
      induction children with
      | nil => rfl
      | cons child children ih => simp [holdsAll, ih]
  | any =>
      rw [IndexedGate.holds]
      induction children with
      | nil => rfl
      | cons child children ih => simp [holdsAny, ih]

/-- A tree with the verdict its leaves give it. -/
def Decided (pass : ℕ → Bool) (run : IndexedGate → Option GateResult) (t : IndexedGate) : Prop :=
  ∃ result, run t = some result ∧ result.satisfied = some (t.holds pass)

lemma runGates_decided {children : List IndexedGate} {pass : ℕ → Bool}
    (h : ∀ child ∈ children, Decided pass (runGate evaluate true tolerate) child) :
    ∃ results, runGates evaluate true tolerate children = some results
      ∧ results.map (·.satisfied) = (children.map (·.holds pass)).map some := by
  induction children with
  | nil => exact ⟨[], rfl, rfl⟩
  | cons child children ih =>
      obtain ⟨⟨result, hresult, hs⟩, hrest⟩ := List.forall_mem_cons.mp h
      obtain ⟨results, hresults, hss⟩ := ih hrest
      exact ⟨result :: results, by simp [runGates, hresult, hresults], by simp [hs, hss]⟩

/-- The children up to the deciding one, if there is one. -/
lemma runGatesUntil_decided (kind : GateKind) {children : List IndexedGate} {pass : ℕ → Bool}
    (h : ∀ child ∈ children, Decided pass (runGate evaluate false tolerate) child) :
    ∃ decided results, runGatesUntil evaluate false tolerate kind children = some (decided, results)
      ∧ (decided = true ↔ kind.decidesAt ∈ children.map (·.holds pass))
      ∧ (decided = false → results.map (·.satisfied) = (children.map (·.holds pass)).map some) := by
  induction children with
  | nil => exact ⟨false, [], rfl, by simp, fun _ => rfl⟩
  | cons child children ih =>
      obtain ⟨⟨result, hresult, hs⟩, hrest⟩ := List.forall_mem_cons.mp h
      have hsat : result.isSatisfied = child.holds pass := by
        rw [GateResult.isSatisfied, hs]
        simp
      by_cases hd : result.isSatisfied = kind.decidesAt
      · refine ⟨true, result :: skippedAll children, by simp [runGatesUntil, hresult, hd], ?_, ?_⟩
        · simp [← hd, hsat]
        · intro hfalse
          cases hfalse
      · obtain ⟨decided, results, hresults, hiff, hss⟩ := ih hrest
        refine ⟨decided, result :: results, by simp [runGatesUntil, hresult, hd, hresults], ?_, ?_⟩
        · rw [hiff, List.map_cons, List.mem_cons, or_iff_right]
          intro heq
          exact hd (hsat.trans heq.symm)
        · intro hfalse
          simp [hs, hss hfalse]

/-- **Lazy or not, a tree whose leaves are all answered evaluates to what it says.** -/
theorem runGate_decided {t : IndexedGate}
    (h : ∀ leaf ∈ t.leaves, evaluate leaf = some (answer leaf))
    (collectAll : Bool) : Decided (passing answer) (runGate evaluate collectAll tolerate) t := by
  induction t using IndexedGate.ind with
  | leaf i => exact ⟨_, by simp [runGate, h i (by simp [IndexedGate.leaves])],
      leafResult_satisfied i (answer i)⟩
  | branch kind children ih =>
      replace ih := fun child hchild => ih child hchild fun leaf hleaf =>
        h leaf (mem_leavesOf.mpr ⟨child, hchild, hleaf⟩)
      cases collectAll with
      | true =>
          obtain ⟨results, hresults, hss⟩ := runGates_decided ih
          refine ⟨_, by simp [runGate, hresults]; rfl, ?_⟩
          rw [holds_branch, ← foldSatisfied_map_some, ← hss]
          rfl
      | false =>
          obtain ⟨decided, results, hresults, hiff, hss⟩ := runGatesUntil_decided kind ih
          refine ⟨_, by simp [runGate, hresults]; rfl, ?_⟩
          rw [holds_branch, ← foldSatisfied_map_some]
          cases decided with
          | true =>
              have hmem := hiff.mp rfl
              simp only [if_true, GateResult.satisfied, foldSatisfied]
              rw [if_pos]
              simpa using hmem
          | false =>
              rw [← hss rfl]
              rfl

/-- The decision of a whole gate, from the answers of its leaves. -/
def gateHolds (answer : ℕ → RuleResult) (node : GateNode) : Bool :=
  (indexGate 0 node).1.holds (passing answer)

theorem evaluateGate_satisfied (tolerate : Bool) {node : GateNode}
    (h : ∀ leaf < (gateLeaves node).length, evaluate leaf = some (answer leaf))
    (collectAll : Bool) :
    ∃ result, evaluateGate evaluate collectAll tolerate node = some result
      ∧ result.satisfied = some (gateHolds answer node) := by
  refine runGate_decided (fun leaf hleaf => h leaf ?_) collectAll
  rw [(leaves_indexGate 0 node).1] at hleaf
  simpa using hleaf

end

end PubsubVoting
