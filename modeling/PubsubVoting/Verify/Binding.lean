import PubsubVoting.Schema.Topic
import PubsubVoting.Verify.Malleability

/-!
What a wallet's signature is bound to: one ballot of one contest.

* `bytesToHex_injective`, `votes_eq_of_ballotVotes`: the typed data says which contest, and which
  votes.
* `signature_binds_ballot`: a signature that passes for bundles of one wallet in two contests passes
  for one bundle in one contest, so that a ballot cannot be replayed for other votes, at another
  block, on another chain or in another topic.
-/

namespace PubsubVoting

open Cbor

/-! ### What the typed data says -/

lemma bytesToHex_injective : Function.Injective bytesToHex := by
  intro x x' h
  have hlength : x.length = x'.length := by
    have hdigits := congrArg List.length h
    simp only [bytesToHex, List.length_cons, length_flatMap_byteToHex] at hdigits
    omega
  have hback := hexToBytes_bytesToHex x
  rw [h, hlength, hexToBytes_bytesToHex] at hback
  exact (Option.some.inj hback).symm

/-- The votes as the typed data has them. -/
def ballotVotes (votes : List Vote) : List BallotVote :=
  votes.map fun v => ⟨v.community.name.getD [], v.community.publicKey, v.vote⟩

/-- A name that the schema accepts is told from its absence, which is signed as the empty name. -/
lemma name_eq_of_getD {name name' : Option JsString} (h : ∀ s ∈ name, 1 ≤ s.length)
    (h' : ∀ s ∈ name', 1 ≤ s.length) (heq : name.getD [] = name'.getD []) : name = name' := by
  cases name with
  | none =>
      cases name' with
      | none => rfl
      | some s' =>
          have hpos := h' s' rfl
          rw [← show [] = s' from heq] at hpos
          exact absurd hpos (by decide)
  | some s =>
      cases name' with
      | none =>
          have hpos := h s rfl
          rw [show s = [] from heq] at hpos
          exact absurd hpos (by decide)
      | some s' => rw [show s = s' from heq]

/-- Votes that the schema accepts are told apart by what is signed. -/
lemma votes_eq_of_ballotVotes {C : Codecs} {votes votes' : List Vote}
    (h : ∀ v ∈ votes, voteSchema C v = true) (h' : ∀ v ∈ votes', voteSchema C v = true)
    (heq : ballotVotes votes = ballotVotes votes') : votes = votes' := by
  induction votes generalizing votes' with
  | nil =>
      cases votes' with
      | nil => rfl
      | cons v' votes' => cases heq
  | cons v votes ih =>
      cases votes' with
      | nil => cases heq
      | cons v' votes' =>
          obtain ⟨hv, hvotes⟩ := List.cons.inj heq
          obtain ⟨hname, hkey, hvalue⟩ := BallotVote.mk.inj hv
          have hpos : ∀ v : Vote, voteSchema C v = true →
              ∀ s ∈ v.community.name, 1 ≤ s.length := by
            intro v hv s hs
            have hschema := (voteSchema_iff.mp hv).1 s hs
            rw [nameSchema, Bool.and_eq_true, Bool.and_eq_true] at hschema
            exact of_decide_eq_true hschema.1.1
          have hsame := name_eq_of_getD (hpos v (h v List.mem_cons_self))
            (hpos v' (h' v' List.mem_cons_self)) hname
          rw [ih (fun w hw => h w (List.mem_cons_of_mem _ hw))
            (fun w hw => h' w (List.mem_cons_of_mem _ hw)) hvotes]
          obtain ⟨⟨name, publicKey⟩, vote⟩ := v
          obtain ⟨⟨name', publicKey'⟩, vote'⟩ := v'
          obtain rfl : name = name' := hsame
          obtain rfl : publicKey = publicKey' := hkey
          obtain rfl : vote = vote' := hvalue
          rfl

/-! ### One signature, one ballot -/

/-- One key behind a signature over two digests makes them one, up to the order. -/
lemma digest_modEq_of_signerKey {E : Type} [AddCommGroup E] [DecidableEq E]
    {curve : RecoveryGroup secp256k1Order E} (hbase : addOrderOf curve.base = secp256k1Order)
    {digest digest' : ℕ} {x : Bytes} {Q : E} (h : signerKey curve digest x = some Q)
    (h' : signerKey curve digest' x = some Q) : digest ≡ digest' [MOD secp256k1Order] := by
  obtain ⟨odd, hodd, hkey⟩ := signerKey_eq_some_iff.mp h
  obtain ⟨odd', hodd', hkey'⟩ := signerKey_eq_some_iff.mp h'
  obtain rfl := Option.some.inj (hodd.symm.trans hodd')
  exact RecoveryGroup.recoverKey_digest_inj hbase hkey hkey'

/-- What one signature says of two contests is one thing. -/
lemma binds_of_ballotTypedData {C : Codecs} {cid cid' : Cid} {chainId chainId' : ℕ}
    {b b' : VotesBundle} (hschema : votesBundleSchema C b = true)
    (hschema' : votesBundleSchema C b' = true)
    (heq : ballotTypedData cid chainId b.votes b.blockNumber =
      ballotTypedData cid' chainId' b'.votes b'.blockNumber) :
    cid = cid' ∧ chainId = chainId' ∧ b.votes = b'.votes ∧ b.blockNumber = b'.blockNumber := by
  obtain ⟨-, hchain, hcriteria, hvotes, hblock⟩ := BallotTypedData.mk.inj heq
  have hsame := votes_eq_of_ballotVotes (votesBundleSchema_iff.mp hschema).2.1
    (votesBundleSchema_iff.mp hschema').2.1 hvotes
  exact ⟨bytesToHex_injective hcriteria, hchain, hsame, hblock⟩

/-- A signature that passes for bundles of one wallet in two contests passes for one bundle, in one
topic and on one chain, where digests do not collide and the two keys have one address only if they
are one. -/
theorem signature_binds_ballot {C : Codecs} {S : CidStrings} {E : Type} [AddCommGroup E]
    [DecidableEq E] {recover : RecoverTypedDataAddress} {curve : RecoveryGroup secp256k1Order E}
    {hashTypedData : BallotTypedData → ℕ} {publicKeyToAddress : E → JsString}
    (hrecover : RecoversWith recover curve hashTypedData publicKeyToAddress)
    (hbase : addOrderOf curve.base = secp256k1Order) {c c' : Criteria} {cid cid' : Cid}
    (hcid : criteriaCid C c = some cid) (hcid' : criteriaCid C c' = some cid')
    {b b' : VotesBundle} (hschema : votesBundleSchema C b = true)
    (hschema' : votesBundleSchema C b' = true)
    (haddress : b.address.toLowerCase = b'.address.toLowerCase) {x : Bytes}
    (hx : hexToBytes b.signature.signature signatureBytes = some x)
    (hx' : hexToBytes b'.signature.signature signatureBytes = some x)
    (hvalid : verifyBundleSignature recover cid c.bucketChainId b = .ok ())
    (hvalid' : verifyBundleSignature recover cid' c'.bucketChainId b' = .ok ())
    (hfree : ∀ Q Q', signerKey curve (ballotDigest hashTypedData cid c.bucketChainId b) x = some Q →
      signerKey curve (ballotDigest hashTypedData cid' c'.bucketChainId b') x = some Q' →
      (publicKeyToAddress Q).toLowerCase = (publicKeyToAddress Q').toLowerCase → Q = Q')
    (hcollide : ballotDigest hashTypedData cid c.bucketChainId b ≡
        ballotDigest hashTypedData cid' c'.bucketChainId b' [MOD secp256k1Order] →
      ballotTypedData cid c.bucketChainId b.votes b.blockNumber =
        ballotTypedData cid' c'.bucketChainId b'.votes b'.blockNumber) :
    lowerHex b = lowerHex b' ∧ c.bucketChainId = c'.bucketChainId ∧
      topicFor C S c = topicFor C S c' := by
  obtain ⟨htype, Q, hQ, hsigner⟩ := (verifyBundleSignature_ok_iff hrecover hx).mp hvalid
  obtain ⟨htype', Q', hQ', hsigner'⟩ := (verifyBundleSignature_ok_iff hrecover hx').mp hvalid'
  obtain rfl := hfree Q Q' hQ hQ' (hsigner.trans (haddress.trans hsigner'.symm))
  have htypedData := hcollide (digest_modEq_of_signerKey hbase hQ hQ')
  obtain ⟨hcriteria, hchain, hvotes, hblock⟩ := binds_of_ballotTypedData hschema hschema' htypedData
  have hsignature : b.signature.signature.toLowerCase = b'.signature.signature.toLowerCase := by
    rw [← bytesToHex_of_hexToBytes hx, bytesToHex_of_hexToBytes hx']
  refine ⟨?_, hchain, ?_⟩
  · rw [lowerHex, lowerHex, haddress, hvotes, hblock, hsignature, htype, htype']
  · rw [topicFor, topicFor, hcid, hcid', hcriteria]

/-! ### A signature of one board's ballot -/

/-- The CID of the board's document. -/
def passCriteria : Bytes :=
  [0x01, 0x71, 0x12, 0x20, 0x45, 0x1d, 0x69, 0xee, 0x51, 0x9b, 0x6d, 0x30, 0x22, 0xd1, 0xbe, 0x01,
    0x39, 0xaf, 0x88, 0x1a, 0x11, 0xe0, 0x46, 0x48, 0x1d, 0xac, 0x8a, 0xa0, 0xbd, 0x6e, 0x79, 0x14,
    0x85, 0x60, 0x5d, 0xea]

/-- The vote of `ballotSigner` on the board, signed with the nonce 1. -/
def passBallot : VotesBundle where
  address := ballotSigner
  votes := ballotBundle.votes
  blockNumber := 1000
  signature := ⟨JsString.ofString
    ("0x79be667ef9dcbbac55a06295ce870b07029bfcdb2dce28d959f2815b16f81798"
      ++ "5d7e1196c698fcaef71796afdad877abfe5744a04c3b85e6a94e1b35fa2d459e1b"), eip712SignatureType⟩

/-- The digest of what it signs. -/
def passDigest : ℕ := 0x3f6a6d5105439ccd87645579b6c947bc752d4364096a15c09f4d5f7af4685a9e

/-- The key of `ballotSigner`. -/
def passKey : ℕ := 0x59c6995e998f97a5a0044966f0945389dc9e86dae88c7a8412f4603b6b78690d

/-- The digest of typed data, on that ballot. -/
def hashPassBallot (typedData : BallotTypedData) : ℕ :=
  if typedData = ballotTypedData passCriteria 8453 passBallot.votes passBallot.blockNumber then
    passDigest
  else 0

/-- The address of a key, on that of `ballotSigner`. -/
def passAddress (Q : ZMod secp256k1Order) : JsString :=
  if Q = passKey then ballotSigner else bytesToHex (List.replicate 20 0)

/-- Recovery over the multiples of the base, with the digest of the typed data. -/
def recoverPassBallot : RecoverTypedDataAddress := fun typedData signature =>
  match (hexToBytes signature signatureBytes).bind
      (signerKey scalarCurve (hashPassBallot typedData)) with
  | some Q => .ok (passAddress Q)
  | none => .error "invalid signature"

lemma recoversWith_recoverPassBallot :
    RecoversWith recoverPassBallot scalarCurve hashPassBallot passAddress := by
  intro typedData signature x hx
  rw [recoverPassBallot]
  rw [hx, Option.bind_some]
  cases signerKey scalarCurve (hashPassBallot typedData) x <;> rfl

lemma criteriaCid_passBoard :
    criteriaCid .reference (passBoard passOptions) = some passCriteria := by
  decide +kernel

/-- The key that signed with the nonce 1, whose first scalar stands for the base. -/
lemma recoverKey_scalarCurve {z r s key : ℕ} (hrange : RecoveryGroup.InRange secp256k1Order r s)
    (hsigned : s ≡ z + r * key [MOD secp256k1Order]) (hkey : ¬ secp256k1Order ∣ key) :
    scalarCurve.recoverKey z r s false = some (key : ZMod secp256k1Order) := by
  have hlift : scalarCurve.lift r false = some 1 := congrArg some (if_neg Bool.false_ne_true)
  have hbase : scalarCurve.base = 1 := rfl
  have hscalar : s • (1 : ZMod secp256k1Order) - z • scalarCurve.base
      = r • (key : ZMod secp256k1Order) := by
    have hcast := (ZMod.natCast_eq_natCast_iff _ _ _).mpr hsigned
    rw [Nat.cast_add, Nat.cast_mul] at hcast
    rw [hbase, nsmul_one, nsmul_one, nsmul_eq_mul, hcast, add_sub_cancel_left]
  refine RecoveryGroup.recoverKey_eq_some_iff.mpr ⟨hrange, 1, hlift, ?_, fun hzero => ?_⟩
  · rw [hscalar, smul_comm]
    exact scalarCurve.nsmul_inverse hrange.1.2.2 (by decide) _
  · exact hkey ((ZMod.natCast_eq_zero_iff _ _).mp hzero)

/-- The key behind the signature is that of `ballotSigner`. -/
lemma signerKey_passBallot : signerKey scalarCurve passDigest (signatureOf passBallot)
    = some (passKey : ZMod secp256k1Order) := by
  have hodd : recoveryBit (signatureOf passBallot) = some false := by decide +kernel
  exact signerKey_eq_some_iff.mpr ⟨false, hodd, recoverKey_scalarCurve (by decide +kernel)
    (by decide +kernel) (by decide +kernel)⟩

/-- The vote passes on the board, however its hex is spelled. -/
lemma verifyBundleSignature_passBallot {b : VotesBundle}
    (hx : hexToBytes b.signature.signature signatureBytes = some (signatureOf passBallot))
    (htype : b.signature.type = eip712SignatureType) (hvotes : b.votes = passBallot.votes)
    (hblock : b.blockNumber = passBallot.blockNumber)
    (haddress : ballotSigner.toLowerCase = b.address.toLowerCase) :
    verifyBundleSignature recoverPassBallot passCriteria 8453 b = .ok () := by
  refine (verifyBundleSignature_ok_iff recoversWith_recoverPassBallot hx).mpr
    ⟨htype, (passKey : ZMod secp256k1Order), ?_, ?_⟩
  · rw [ballotDigest, hvotes, hblock, hashPassBallot, if_pos rfl]
    exact signerKey_passBallot
  · rw [passAddress, if_pos rfl]
    exact haddress

/-- The vote, and the vote with its hex in lower case, in two spellings of one contest. -/
theorem signature_binds_ballot_lowerHex :
    lowerHex passBallot = lowerHex (lowerHex passBallot) ∧
      topicFor .reference .base32 (passBoard passOptions) =
        topicFor .reference .base32 (passBoard passOptions.reverse) := by
  obtain ⟨y, hy, hy'⟩ := encodeCriteria_passBoard
  have hcid : criteriaCid .reference (passBoard passOptions.reverse) = some passCriteria :=
    (criteriaCid_eq_some hy').trans ((criteriaCid_eq_some hy).symm.trans criteriaCid_passBoard)
  have hx : hexToBytes passBallot.signature.signature signatureBytes =
      some (signatureOf passBallot) := by decide +kernel
  have hx' : hexToBytes (lowerHex passBallot).signature.signature signatureBytes =
      some (signatureOf passBallot) := by decide +kernel
  have haddress : passBallot.address.toLowerCase = (lowerHex passBallot).address.toLowerCase :=
    (JsString.toLowerCase_toLowerCase _).symm
  have hschema : votesBundleSchema .reference passBallot = true := by decide +kernel
  have hschema' : votesBundleSchema .reference (lowerHex passBallot) = true := by decide +kernel
  have hbound := signature_binds_ballot (S := .base32) recoversWith_recoverPassBallot
    (ZMod.addOrderOf_one _) criteriaCid_passBoard hcid hschema hschema' haddress hx hx'
    (verifyBundleSignature_passBallot hx rfl rfl rfl rfl)
    (verifyBundleSignature_passBallot hx' rfl rfl rfl haddress)
    (fun Q Q' hQ hQ' _ => Option.some.inj (hQ.symm.trans hQ')) fun _ => rfl
  exact ⟨hbound.1, hbound.2.2⟩

end PubsubVoting
