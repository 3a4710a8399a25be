import PubsubVoting.Chain.Bucket
import PubsubVoting.Rules.Gate
import PubsubVoting.Verify.Cache

/-!
The full validity pipeline of one bundle, as the forward-gate runs it: signature, constraints, gate,
names, with early exit.

* `verifyOffline`, `verify`: the local stage and the whole pipeline, over a chain and a name
  registry that do not move.
* `NameClaim`: a vote's name resolves to the key the vote names.
* `verifyOnline_valid_iff`: past the offline stage a bundle is valid exactly if its gate holds and
  every name claim does.
-/

namespace PubsubVoting

/-- A name resolver, through the resolution cache. -/
structure NameResolver where
  canResolve : JsString → Bool
  /-- `none` when the name has no record. -/
  resolve : JsString → Option JsString

/-- What a verifier is built from, resolved once per contest. -/
structure VerifierDeps where
  criteria : Criteria
  leaves : List ResolvedGateLeaf
  bucketMath : BucketMath
  nameResolvers : List NameResolver
  verifyBundleSignature : VotesBundle → VerifyResult

/-- The name a vote carries; the empty name is none. -/
def carriedName (v : Vote) : Option JsString := v.community.name.filter fun name => !name.isEmpty

/-- Nobody resolves the name. -/
def noResolver (name : JsString) : VerifyFail :=
  ⟨.ignore, "no resolver handles community name \"" ++ name.toWellFormed ++ "\"", none⟩

/-- The name has no record. -/
def doesNotResolve (name : JsString) : VerifyFail :=
  ⟨.ignore, "community name \"" ++ name.toWellFormed ++ "\" does not resolve", none⟩

/-- The name belongs to another key. -/
def resolvesElsewhere (name record publicKey : JsString) : VerifyFail :=
  ⟨.ignore, "community name \"" ++ name.toWellFormed ++ "\" resolves to " ++ record.toWellFormed
    ++ ", not the claimed " ++ publicKey.toWellFormed, none⟩

/-- What the resolvers say of a name: the first that handles it answers. -/
def resolveName (resolvers : List NameResolver) (name : JsString) : Option JsString :=
  (resolvers.find? (·.canResolve name)).bind (·.resolve name)

/-- A vote's name, if it carries one, resolves to the key the vote names. -/
def NameClaim (resolvers : List NameResolver) (v : Vote) : Prop :=
  ∀ name ∈ carriedName v, resolveName resolvers name = some v.community.publicKey

instance (resolvers : List NameResolver) (v : Vote) : Decidable (NameClaim resolvers v) :=
  inferInstanceAs (Decidable (∀ name ∈ carriedName v, _))

/-- The wallet of a bundle, with the boundary block of its bucket. -/
def ruleWallet (bucketMath : BucketMath) (bundle : VotesBundle) : RuleWallet :=
  ⟨bundle.address, bucketMath.sampleBlockForBucket (bucketMath.bucketForBlock bundle.blockNumber)⟩

/-- The rule failures that explain a refusal. -/
def ruleFailures (leaves : List ResolvedGateLeaf) (gate : GateResult) : List RuleFailure :=
  (gateBlame gate).map fun blamed =>
    ⟨(leaves[blamed.leaf]?).elim [] (·.ref.type), blamed.error.getD ""⟩

section

variable (d : VerifierDeps)

/-- Score one leaf for one wallet. Leaves that ask one question share one answer, which they would
also give each by itself (`rule_eq_of_key_eq`). -/
def scoreLeaf (wallet : RuleWallet) (leaf : ℕ) : Option RuleResult :=
  (d.leaves[leaf]?).map (·.rule.evaluate wallet)

/-- Stage 1: signature and constraints. -/
def verifyOffline (bundle : VotesBundle) : VerifyResult :=
  match d.verifyBundleSignature bundle with
  | .error fail => .error fail
  | .ok () => checkBundleConstraints bundle d.criteria

/-- The loop over the votes that checks their names. -/
def resolveNames (resolved : ResolvedNames) : List Vote → BundleVerdict
  | [] => .ok resolved
  | v :: votes =>
    match carriedName v with
    | none => resolveNames resolved votes
    | some name =>
      match d.nameResolvers.find? (·.canResolve name) with
      | none => .error (noResolver name)
      | some resolver =>
        match resolver.resolve name with
        | none => .error (doesNotResolve name)
        | some record =>
          if record ≠ v.community.publicKey then
            .error (resolvesElsewhere name record v.community.publicKey)
          else resolveNames (resolved.set name record) votes

/-- The stages behind the offline one: the gate, lazily, then the names; `none` where a read
throws. -/
def verifyOnline (bundle : VotesBundle) : Option BundleVerdict := do
  let gate ← evaluateGate (scoreLeaf d (ruleWallet d.bucketMath bundle)) false false d.criteria.gate
  if gate.satisfied ≠ some true then
    return .error
      { disposition := if gatePenalize gate then .reject else .ignore
        reason := "not admitted: " ++ gateReason gate
        failures := some (ruleFailures d.leaves gate) }
  else return resolveNames d ∅ bundle.votes

/-- `makeBundleVerifier.verify` -/
def verify (bundle : VotesBundle) : Option BundleVerdict :=
  match verifyOffline d bundle with
  | .error fail => some (.error fail)
  | .ok () => verifyOnline d bundle

/-- The wallet of a bundle passes the contest's gate. -/
def gateAdmits (bundle : VotesBundle) : Prop :=
  gateHolds (fun leaf => (scoreLeaf d (ruleWallet d.bucketMath bundle) leaf).getD (.success 0))
    d.criteria.gate = true

instance (bundle : VotesBundle) : Decidable (gateAdmits d bundle) :=
  inferInstanceAs (Decidable (_ = true))

/-- The leaves are those of the criteria, resolved through one registry. -/
def VerifierDeps.Resolved (C : Codecs) : Prop :=
  ∃ registry, resolveGate C registry d.criteria = some d.leaves

end

/-! ### What the pipeline accepts -/

section

variable {C : Codecs} {d : VerifierDeps}

lemma VerifierDeps.Resolved.length (h : d.Resolved C) :
    d.leaves.length = (gateLeaves d.criteria.gate).length := by
  obtain ⟨registry, h⟩ := h
  exact List.length_of_mapM h

lemma VerifierDeps.Resolved.rule_eq (h : d.Resolved C) {a b : ResolvedGateLeaf}
    (ha : a ∈ d.leaves) (hb : b ∈ d.leaves) (hkey : a.key = b.key) : a.rule = b.rule := by
  obtain ⟨registry, h⟩ := h
  exact rule_eq_of_key_eq h ha hb hkey

/-- Every leaf of the gate has an answer. -/
lemma scoreLeaf_eq_some (h : d.Resolved C) (wallet : RuleWallet) :
    ∀ leaf < (gateLeaves d.criteria.gate).length,
      scoreLeaf d wallet leaf = some ((scoreLeaf d wallet leaf).getD (.success 0)) := by
  intro leaf hlt
  rw [← h.length] at hlt
  simp [scoreLeaf, List.getElem?_eq_getElem hlt]

/-- The loop over the votes passes exactly if every name claim holds. -/
lemma resolveNames_valid_iff (resolved : ResolvedNames) (votes : List Vote) :
    (resolveNames d resolved votes).valid = true ↔ ∀ v ∈ votes, NameClaim d.nameResolvers v := by
  induction votes generalizing resolved with
  | nil => simp [resolveNames, BundleVerdict.valid]
  | cons v votes ih =>
      rw [resolveNames, List.forall_mem_cons]
      cases hname : carriedName v with
      | none =>
          have hclaim : NameClaim d.nameResolvers v := by
            intro name h
            rw [hname] at h
            cases h
          simp [hclaim, ih]
      | some name =>
          have hclaim : NameClaim d.nameResolvers v ↔
              resolveName d.nameResolvers name = some v.community.publicKey := by
            simp [NameClaim, hname]
          rw [hclaim]
          cases hfind : d.nameResolvers.find? (·.canResolve name) with
          | none => simp [resolveName, hfind, BundleVerdict.valid]
          | some resolver =>
              cases hrec : resolver.resolve name with
              | none => simp [resolveName, hfind, hrec, BundleVerdict.valid]
              | some record =>
                  by_cases hkey : record = v.community.publicKey
                  · simp [resolveName, hfind, hrec, hkey, ih]
                  · simp [resolveName, hfind, hrec, hkey, BundleVerdict.valid]

/-- **Past the offline stage a bundle is valid exactly if its gate holds and every name claim
does.** -/
theorem verifyOnline_valid_iff (h : d.Resolved C) (bundle : VotesBundle) :
    (∃ verdict, verifyOnline d bundle = some verdict ∧ verdict.valid = true) ↔
      gateAdmits d bundle ∧ ∀ v ∈ bundle.votes, NameClaim d.nameResolvers v := by
  obtain ⟨gate, hgate, hs⟩ := evaluateGate_satisfied false
    (scoreLeaf_eq_some h (ruleWallet d.bucketMath bundle)) false
  rw [← resolveNames_valid_iff ∅, gateAdmits]
  cases hholds : gateHolds _ d.criteria.gate with
  | true =>
      rw [hholds] at hs
      simp [verifyOnline, hgate, hs]
  | false =>
      rw [hholds] at hs
      simp [verifyOnline, hgate, hs, BundleVerdict.valid]

end

end PubsubVoting
