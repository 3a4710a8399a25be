import PubsubVoting.Schema.Criteria

/-!
The criteria-bound checks of a bundle, which the wire schema leaves to verify time, and the
verdict every check of the repository answers with.

* `VerifyFail`, `VerifyResult`: a failing verdict says whether the sender may be blamed.
* `checkBundleConstraints`: the cap on votes and the range of each; a withdrawal is always legal.
-/

namespace PubsubVoting

/-- Whether a failure is the sender's (`reject`) or a matter of view (`ignore`). -/
inductive VerdictDisposition where
  | reject
  | ignore
  deriving DecidableEq

/-- A rule whose failure explains a refusal by the gate. -/
structure RuleFailure where
  type : JsString
  error : String
  deriving DecidableEq

/-- A failing verdict; `failures` is there when the gate refused. -/
structure VerifyFail where
  disposition : VerdictDisposition
  reason : String
  failures : Option (List RuleFailure)
  deriving DecidableEq

/-- The outcome of an offline check. -/
abbrev VerifyResult := Except VerifyFail Unit

/-- A number as a message shows it. -/
def showInt (n : ℤ) : String := if 0 ≤ n then toString n.toNat else "-" ++ toString n.natAbs

/-- The first vote outside the range fails the bundle. -/
def checkRange (range : VoteRange) : List Vote → VerifyResult
  | [] => .ok ()
  | v :: votes =>
    if v.vote < range.min ∨ range.max < v.vote then
      .error
        { disposition := .reject
          reason := "vote " ++ showInt v.vote ++ " for community "
            ++ v.community.publicKey.toWellFormed ++ " is outside voteSchema ["
            ++ showInt range.min ++ ", " ++ showInt range.max ++ "]"
          failures := none }
    else checkRange range votes

/-- Offline verify stage 1, constraints half. -/
def checkBundleConstraints (bundle : VotesBundle) (criteria : Criteria) : VerifyResult :=
  if bundle.votes.length = 0 then .ok ()
  else if bundle.votes.length > criteria.maxVotesPerAddress then
    .error
      { disposition := .reject
        reason := "votes.length " ++ toString bundle.votes.length ++ " exceeds maxVotesPerAddress "
          ++ toString criteria.maxVotesPerAddress
        failures := none }
  else checkRange criteria.voteSchema bundle.votes

lemma checkRange_ok_iff {range : VoteRange} {votes : List Vote} :
    checkRange range votes = .ok () ↔ ∀ v ∈ votes, range.min ≤ v.vote ∧ v.vote ≤ range.max := by
  induction votes with
  | nil => simp [checkRange]
  | cons v votes ih =>
      rw [checkRange, List.forall_mem_cons, ← ih]
      split_ifs with h
      · simp
        omega
      · simp
        omega

/-- A bundle passes exactly if it is a withdrawal or keeps to the cap and the range. -/
lemma checkBundleConstraints_ok_iff {bundle : VotesBundle} {criteria : Criteria} :
    checkBundleConstraints bundle criteria = .ok () ↔
      bundle.votes = [] ∨ bundle.votes.length ≤ criteria.maxVotesPerAddress
        ∧ ∀ v ∈ bundle.votes,
          criteria.voteSchema.min ≤ v.vote ∧ v.vote ≤ criteria.voteSchema.max := by
  rw [checkBundleConstraints]
  split_ifs with hnil hcap
  · simp [List.length_eq_zero_iff.mp hnil]
  · have hne : bundle.votes ≠ [] := fun h => hnil (by rw [h]; rfl)
    simp [hne]
    omega
  · have hne : bundle.votes ≠ [] := fun h => hnil (by rw [h]; rfl)
    rw [checkRange_ok_iff]
    simp [hne]
    omega

end PubsubVoting
