import PubsubVoting.Encoding.Canonical

/-!
The votes wire format: the bundle one wallet signs per bucket, and the schema every bundle is
parsed with.

* `Community`, `Vote`, `Signature`, `VotesBundle`: the data.
* `communitySchema`, `voteSchema`, `votesBundleSchema`: what parses. The schemas are the
  stripping kind, so on typed data they only accept or refuse.
-/

namespace PubsubVoting

/-- A community: the key the tally aggregates on, and an optional claimed name. -/
structure Community where
  name : Option JsString
  publicKey : JsString
  deriving DecidableEq

/-- A single vote inside a bundle. -/
structure Vote where
  community : Community
  vote : ℤ
  deriving DecidableEq

/-- A detached signature with its scheme tag. -/
structure Signature where
  signature : JsString
  type : JsString
  deriving DecidableEq

/-- One wallet's ballot. No votes is the withdrawal form. -/
structure VotesBundle where
  address : JsString
  votes : List Vote
  blockNumber : ℕ
  signature : Signature
  deriving DecidableEq

namespace VotesBundle

/-- The community keys of the votes, in order. -/
def publicKeys (b : VotesBundle) : List JsString := b.votes.map (·.community.publicKey)

end VotesBundle

/-- The largest integer a number schema with `int()` accepts. -/
def maxSafeInteger : ℕ := 2 ^ 53 - 1

/-- `z.number().int()` -/
def isInt (n : ℤ) : Bool := decide (n.natAbs ≤ maxSafeInteger)

/-- `z.number().int().nonnegative()` -/
def isNonnegativeInt (n : ℤ) : Bool := isInt n && decide (0 ≤ n)

/-- At least two labels, none of them empty or with whitespace in it. -/
def isDottedDomain (x : JsString) : Bool :=
  let labels := x.split 46
  decide (2 ≤ labels.length)
    && labels.all fun label => decide (0 < label.length) && !label.any JsString.isWhitespace

/-- The text is base58 for a multihash. -/
def isB58IpnsKey (C : Codecs) (x : JsString) : Bool :=
  match C.base58Decode x with
  | some digest => C.isDigest digest
  | none => false

/-- The DNS hostname ceiling, in UTF-16 units. -/
def maxNameLength : ℕ := 253

/-- `name` of the community schema, where one is given. -/
def nameSchema (name : JsString) : Bool :=
  decide (1 ≤ name.length) && decide (name.length ≤ maxNameLength) && isDottedDomain name

/-- `CommunitySchema` -/
def communitySchema (C : Codecs) (c : Community) : Bool :=
  c.name.all nameSchema && decide (1 ≤ c.publicKey.length) && isB58IpnsKey C c.publicKey

/-- `VoteSchema` -/
def voteSchema (C : Codecs) (v : Vote) : Bool := communitySchema C v.community && isInt v.vote

/-- `SignatureSchema` -/
def signatureSchema (s : Signature) : Bool :=
  decide (1 ≤ s.signature.length) && decide (1 ≤ s.type.length)

/-- `VotesBundleSchema`: the fields, and pairwise-distinct communities. -/
def votesBundleSchema (C : Codecs) (b : VotesBundle) : Bool :=
  decide (1 ≤ b.address.length) && b.votes.all (voteSchema C) && isNonnegativeInt b.blockNumber
    && signatureSchema b.signature && decide b.publicKeys.Nodup

/-- `VotesBundleSchema.parse`; `none` where it throws. -/
def VotesBundle.parse (C : Codecs) (b : VotesBundle) : Option VotesBundle :=
  if votesBundleSchema C b then some b else none

/-- A bundle the schema accepts. -/
abbrev ValidBundle (C : Codecs) := {b : VotesBundle // votesBundleSchema C b = true}

section

variable {C : Codecs}

lemma VotesBundle.parse_eq_some {b b' : VotesBundle} :
    b.parse C = some b' ↔ votesBundleSchema C b = true ∧ b = b' := by
  simp [parse]

lemma votesBundleSchema_iff {b : VotesBundle} :
    votesBundleSchema C b = true ↔
      1 ≤ b.address.length ∧ (∀ v ∈ b.votes, voteSchema C v = true)
        ∧ b.blockNumber ≤ maxSafeInteger ∧ signatureSchema b.signature = true
        ∧ b.publicKeys.Nodup := by
  simp [votesBundleSchema, isNonnegativeInt, isInt, and_assoc]

lemma voteSchema_iff {v : Vote} :
    voteSchema C v = true ↔
      (∀ name ∈ v.community.name, nameSchema name = true) ∧ 1 ≤ v.community.publicKey.length
        ∧ isB58IpnsKey C v.community.publicKey = true ∧ v.vote.natAbs ≤ maxSafeInteger := by
  simp [voteSchema, communitySchema, isInt, Option.all_eq_true, and_assoc]

lemma isB58IpnsKey_iff {x : JsString} :
    isB58IpnsKey C x = true ↔
      ∃ digest, C.base58Decode x = some digest ∧ C.isDigest digest = true := by
  rw [isB58IpnsKey]
  cases C.base58Decode x <;> simp

end

end PubsubVoting
