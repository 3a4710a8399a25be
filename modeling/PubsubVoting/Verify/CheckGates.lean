import PubsubVoting.Rules.Unread
import PubsubVoting.Verify.Bundle

/-!
The gate step on its own, for a caller that asks whether a wallet's vote would count.

* `askLeaf`: one leaf, with one answer for all the leaves that ask its question; the read may throw.
* `checkGates`: every leaf is scored, and a read that failed is folded as unknown.
* `UnreadIsNoVerdict`: an unread leaf is neither a verdict nor a reason.
* `unread_leaf_iff`: when a tolerant evaluation keeps to that. Collecting every leaf it always does,
  so `checkGates` throws exactly where the readable leaves leave the outcome open.
-/

namespace PubsubVoting

/-! ### The gate step -/

section

variable (d : VerifierDeps) (read : ResolvedGateLeaf → RuleWallet → Option RuleResult)

/-- Score one leaf for one wallet: the first leaf that asks the question is read, and `none` is a
read that throws. -/
def askLeaf (wallet : RuleWallet) (leaf : ℕ) : Option RuleResult := do
  let question ← ((dedupeLeaves d.leaves).ofLeaf[leaf]?).join
  let asked ← (dedupeLeaves d.leaves).representatives[question]?
  read asked wallet

/-- `makeBundleVerifier.checkGates`; `none` where it throws the first error of a read. -/
def checkGates (wallet : RuleWallet) : Option GateResult := do
  let gate ← evaluateGate (askLeaf d read wallet) true true d.criteria.gate
  if gate.satisfied = none then none else return gate

/-- Leaves that ask one question have one answer. -/
def OneAnswer (answer : ℕ → RuleResult) : Prop :=
  ∀ leaf leaf', (dedupeLeaves d.leaves).ofLeaf[leaf]? = (dedupeLeaves d.leaves).ofLeaf[leaf']? →
    answer leaf = answer leaf'

end

/-! ### An unread leaf is not a verdict -/

/-- What an evaluation that tolerates unread leaves may say: a verdict all completions share, an
open one where they differ, the blame of leaves that were read, and a penalty that every completion
would pay. -/
structure UnreadIsNoVerdict (evaluate : ℕ → Option RuleResult) (collectAll : Bool) (node : GateNode)
    (result : GateResult) : Prop where
  decides : ∀ verdict, result.satisfied = some verdict →
    ∀ answer, Completes evaluate answer → Decides answer node verdict
  unknown : collectAll = true → result.satisfied = none →
    ∃ answer answer', Completes evaluate answer ∧ Completes evaluate answer'
      ∧ Decides answer node true ∧ Decides answer' node false
  blame : ∀ blamed ∈ gateBlame result, (evaluate blamed.leaf).isSome = true
  penalize : gatePenalize result = true → ∀ answer, Completes evaluate answer →
    ∀ mode completed, (collectAll = true → mode = true) →
      evaluateGate (fun leaf => some (answer leaf)) mode true node = some completed →
      completed.satisfied = some false → gatePenalize completed = true

/-- The readable leaves settle the gate: it holds though every unread leaf fails, or fails though
every unread leaf passes. -/
def Settled (evaluate : ℕ → Option RuleResult) (node : GateNode) : Prop :=
  (indexGate 0 node).1.holds (knownPass evaluate) = true
    ∨ (indexGate 0 node).1.holds (mayPass evaluate) = false

section

variable {evaluate : ℕ → Option RuleResult} {collectAll : Bool} {node : GateNode}

lemma satisfied_eq_readableVerdict
    (h : collectAll = true ∨ Settled evaluate node
      ∨ unreadAlternative evaluate (indexGate 0 node).1 = true) {verdict : Bool}
    (hverdict : (tolerantGate evaluate collectAll (indexGate 0 node).1).satisfied = some verdict) :
    readableVerdict evaluate (indexGate 0 node).1 = some verdict := by
  cases collectAll with
  | true => rwa [satisfied_collecting] at hverdict
  | false =>
      rw [satisfied_lazy] at hverdict
      cases verdict with
      | true => exact readableVerdict_eq_true.mpr (lazyVerdict_eq_true.mp hverdict)
      | false =>
          obtain ⟨hknown, hread⟩ := lazyVerdict_eq_false.mp hverdict
          rcases h with h | (hholds | hfails) | hunread
          · cases h
          · rw [hholds] at hknown
            cases hknown
          · exact readableVerdict_eq_false.mpr hfails
          · rw [hunread] at hread
            cases hread

/-- Blame and penalty never rest on an unread leaf, and the verdict does not if it is the one the
readable leaves give. -/
lemma unreadIsNoVerdict_of_satisfied
    (h : ∀ verdict,
      (tolerantGate evaluate collectAll (indexGate 0 node).1).satisfied = some verdict →
        readableVerdict evaluate (indexGate 0 node).1 = some verdict) :
    UnreadIsNoVerdict evaluate collectAll node
      (tolerantGate evaluate collectAll (indexGate 0 node).1) := by
  refine ⟨?_, ?_, fun blamed hblamed => ?_, ?_⟩
  · intro verdict hverdict answer hcompletes
    exact decides_of_readableVerdict (h verdict hverdict) hcompletes
  · rintro rfl hunknown
    rw [satisfied_collecting] at hunknown
    obtain ⟨htrue, hfalse⟩ := disagree_of_readableVerdict hunknown ""
    exact ⟨_, _, completes_completeWith _, completes_completeWith _, htrue, hfalse⟩
  · obtain ⟨result, failed, hread, -⟩ := failed_of_mem_gateBlame _ blamed hblamed
    rw [hread, Option.isSome_some]
  · intro hpenalize answer hcompletes mode completed hmode hcompleted _
    have hsame := gatePenalize_extends (extends_completes hcompletes) _ hpenalize
    obtain rfl : tolerantGate (fun leaf => some (answer leaf)) mode (indexGate 0 node).1
        = completed := Option.some.inj ((runGate_tolerant _ _ _).symm.trans hcompleted)
    cases mode with
    | false =>
        cases collectAll with
        | false => exact hsame
        | true => cases hmode rfl
    | true =>
        cases collectAll with
        | true => exact hsame
        | false =>
            rw [tolerantGate_answered] at hsame ⊢
            exact (agrees_askGate _).penalize hsame

end

/-! ### Exactly when -/

section

variable {d : VerifierDeps} {read : ResolvedGateLeaf → RuleWallet → Option RuleResult}
  {wallet : RuleWallet}

lemma oneAnswer_completeWith (result : RuleResult) :
    OneAnswer d (completeWith (askLeaf d read wallet) result) := by
  intro leaf leaf' hquestion
  rw [completeWith, completeWith, askLeaf, askLeaf, hquestion]

lemma checkGates_eq (d : VerifierDeps) (read : ResolvedGateLeaf → RuleWallet → Option RuleResult)
    (wallet : RuleWallet) :
    checkGates d read wallet =
      if readableVerdict (askLeaf d read wallet) (indexGate 0 d.criteria.gate).1 = none then none
      else some (tolerantGate (askLeaf d read wallet) true (indexGate 0 d.criteria.gate).1) := by
  rw [checkGates, evaluateGate, runGate_tolerant, Option.bind_eq_bind, Option.bind_some,
    satisfied_collecting]
  rfl

/-- **A tolerant evaluation makes no verdict of an unread leaf exactly if** it collects every leaf,
or the readable leaves settle the gate, or an unread leaf is an alternative of its root; and
`checkGates`, which collects, throws exactly if two completions disagree. -/
theorem unread_leaf_iff (evaluate : ℕ → Option RuleResult) (collectAll : Bool) (node : GateNode)
    (d : VerifierDeps) (read : ResolvedGateLeaf → RuleWallet → Option RuleResult)
    (wallet : RuleWallet) :
    (∃ result, evaluateGate evaluate collectAll true node = some result
      ∧ (UnreadIsNoVerdict evaluate collectAll node result ↔
          collectAll = true ∨ Settled evaluate node
            ∨ unreadAlternative evaluate (indexGate 0 node).1 = true))
    ∧ (checkGates d read wallet = none ↔ ∃ answer answer',
      Completes (askLeaf d read wallet) answer ∧ Completes (askLeaf d read wallet) answer'
        ∧ Decides answer d.criteria.gate true ∧ Decides answer' d.criteria.gate false)
    ∧ (checkGates d read wallet = none ↔ ∃ answer answer',
      Completes (askLeaf d read wallet) answer ∧ Completes (askLeaf d read wallet) answer'
        ∧ OneAnswer d answer ∧ OneAnswer d answer'
        ∧ Decides answer d.criteria.gate true ∧ Decides answer' d.criteria.gate false) := by
  constructor
  · refine ⟨_, runGate_tolerant evaluate collectAll _, ⟨fun hno => ?_, fun hwhen => ?_⟩⟩
    · -- otherwise the lazy mode refuses what the completion that passes everything admits
      by_contra hwhen
      simp only [Settled, not_or, Bool.not_eq_true, Bool.not_eq_false] at hwhen
      obtain ⟨rfl, ⟨hknown, hmay⟩, hread⟩ := hwhen
      have hrefused : (tolerantGate evaluate false (indexGate 0 node).1).satisfied
          = some false := by
        rw [satisfied_lazy, lazyVerdict_eq_false]
        exact ⟨hknown, hread⟩
      have hdecides := decides_iff.mp (hno.decides false hrefused _
        (completes_completeWith (.success 1)))
      rw [gateHolds, passing_completeWith_success, hmay] at hdecides
      cases hdecides
    · exact unreadIsNoVerdict_of_satisfied fun _ => satisfied_eq_readableVerdict hwhen
  · have hthrows : checkGates d read wallet = none ↔
        readableVerdict (askLeaf d read wallet) (indexGate 0 d.criteria.gate).1 = none := by
      rw [checkGates_eq]
      split_ifs with hverdict <;> simp [hverdict]
    rw [hthrows]
    constructor
    · constructor
      · intro hopen
        obtain ⟨htrue, hfalse⟩ := disagree_of_readableVerdict hopen ""
        exact ⟨_, _, completes_completeWith _, completes_completeWith _, htrue, hfalse⟩
      · rintro ⟨answer, answer', h, h', htrue, hfalse⟩
        exact readableVerdict_of_disagree h h' htrue hfalse
    · constructor
      · intro hopen
        obtain ⟨htrue, hfalse⟩ := disagree_of_readableVerdict hopen ""
        exact ⟨_, _, completes_completeWith _, completes_completeWith _,
          oneAnswer_completeWith _, oneAnswer_completeWith _, htrue, hfalse⟩
      · rintro ⟨answer, answer', h, h', -, -, htrue, hfalse⟩
        exact readableVerdict_of_disagree h h' htrue hfalse

/-- A gate of two rules that both have to pass. -/
def allOfTwo : GateNode := .branch .all [.rule ⟨[97], []⟩, .rule ⟨[98], []⟩]

/-- The first rule's read throws and the second rule passes. -/
def firstUnread (leaf : ℕ) : Option RuleResult := if leaf = 0 then none else some (.success 1)

/-- Stopping early, an unread leaf refuses a wallet that it would admit by passing. -/
theorem unread_leaf_refuses :
    ¬ ∀ evaluate collectAll node, ∃ result,
      evaluateGate evaluate collectAll true node = some result
        ∧ UnreadIsNoVerdict evaluate collectAll node result := by
  intro hall
  obtain ⟨result, hresult, hno⟩ := hall firstUnread false allOfTwo
  obtain rfl : GateResult.branch .all (some false)
      [.leaf 0 none 0 none false, .leaf 1 none 0 none false] = result := Option.some.inj hresult
  have hcompletes : Completes firstUnread fun _ => .success 1 := by
    intro leaf result hread
    rw [firstUnread] at hread
    split_ifs at hread
    exact Option.some.inj hread
  have hdecides := decides_iff.mp (hno.decides false rfl _ hcompletes)
  exact absurd hdecides (by decide)

end

end PubsubVoting
