import PubsubVoting.Crdt.RoundTrip
import PubsubVoting.Verify.Constraints

/-!
Offline stage 1, signature half: the recovered ballot signer is the bundle's address.

* `RecoverTypedDataAddress`, `HexCaseInsensitive`: viem's recovery, as a parameter.
* `verifyBundleSignature`: the check and the reasons it refuses with.
* `verifyBundleSignature_lowerHex`: the spelling of the hex is not checked, but quoted.
* `verifyBundleSignature_roundTrip`: what a round trip through the wire does to a bundle, its typed
  data and its verdict.
-/

namespace PubsubVoting

open Cbor

/-- `recoverTypedDataAddress`: the signer of a ballot, or the message of the error it throws. -/
abbrev RecoverTypedDataAddress := BallotTypedData → JsString → Except String JsString

/-- Recovery does not see how the `0x` hex of a signature is spelled. -/
def HexCaseInsensitive (recover : RecoverTypedDataAddress) : Prop :=
  ∀ typedData signature x, hexToBytes signature signatureBytes = some x →
    recover typedData signature.toLowerCase = recover typedData signature

/-- The text starts like hex. -/
def isHex : JsString → Bool
  | 48 :: 120 :: _ => true
  | _ => false

/-- The signature scheme is not the ballot's. -/
def unsupportedType (type : JsString) : VerifyFail :=
  ⟨.reject, "unsupported signature type \"" ++ type.toWellFormed ++ "\" (expected \""
    ++ eip712SignatureType.toWellFormed ++ "\")", none⟩

/-- The signature is not hex. -/
def notHex : VerifyFail := ⟨.reject, "signature is not 0x-hex", none⟩

/-- Nobody can be recovered from the signature. -/
def doesNotRecover (message : String) : VerifyFail :=
  ⟨.reject, "signature does not recover: " ++ message, none⟩

/-- Somebody else signed. -/
def signerMismatch (recovered address : JsString) : VerifyFail :=
  ⟨.reject, "recovered signer " ++ recovered.toWellFormed ++ " does not match bundle.address "
    ++ address.toWellFormed, none⟩

section

variable (recover : RecoverTypedDataAddress) (criteriaCid : Bytes) (chainId : ℕ)

/-- Recover the ballot signer and check that it is the bundle's address. -/
def verifyBundleSignature (bundle : VotesBundle) : VerifyResult :=
  if bundle.signature.type ≠ eip712SignatureType then .error (unsupportedType bundle.signature.type)
  else if !isHex bundle.signature.signature then .error notHex
  else
    match recover (ballotTypedData criteriaCid chainId bundle.votes bundle.blockNumber)
      bundle.signature.signature with
    | .error message => .error (doesNotRecover message)
    | .ok recovered =>
      if recovered.toLowerCase ≠ bundle.address.toLowerCase then
        .error (signerMismatch recovered bundle.address)
      else .ok ()

/-- The same verdict, but for the spelling of the address that the reason of a mismatch quotes. -/
def SameVerdict (bundle bundle' : VotesBundle) : Prop :=
  verifyBundleSignature recover criteriaCid chainId bundle'
      = verifyBundleSignature recover criteriaCid chainId bundle
    ∨ ∃ recovered, verifyBundleSignature recover criteriaCid chainId bundle
          = .error (signerMismatch recovered bundle.address)
        ∧ verifyBundleSignature recover criteriaCid chainId bundle'
          = .error (signerMismatch recovered bundle'.address)

variable {recover criteriaCid chainId}

lemma isHex_of_hexToBytes {hex : JsString} {n : ℕ} {bytes : Bytes}
    (h : hexToBytes hex n = some bytes) : isHex hex = true ∧ isHex hex.toLowerCase = true := by
  unfold hexToBytes at h
  split at h
  · exact ⟨rfl, rfl⟩
  · cases h

/-- **The spelling of the hex is not checked, but quoted.** -/
lemma verifyBundleSignature_lowerHex (hcase : HexCaseInsensitive recover) {b : VotesBundle}
    {signature : Bytes} (hx : hexToBytes b.signature.signature signatureBytes = some signature) :
    SameVerdict recover criteriaCid chainId b (lowerHex b) := by
  have hhex := isHex_of_hexToBytes hx
  have hrecover : recover (ballotTypedData criteriaCid chainId b.votes b.blockNumber)
      b.signature.signature.toLowerCase
        = recover (ballotTypedData criteriaCid chainId b.votes b.blockNumber)
          b.signature.signature := hcase _ _ _ hx
  unfold SameVerdict verifyBundleSignature
  simp only [lowerHex, hhex, hrecover, JsString.toLowerCase_toLowerCase]
  by_cases htype : b.signature.type = eip712SignatureType
  · simp only [htype, ne_eq, not_true_eq_false, if_false, Bool.not_true, Bool.false_eq_true]
    cases recover (ballotTypedData criteriaCid chainId b.votes b.blockNumber)
        b.signature.signature with
    | error message => exact Or.inl rfl
    | ok recovered =>
        by_cases hsigner : recovered.toLowerCase = b.address.toLowerCase
        · simp [hsigner]
        · exact Or.inr ⟨recovered, if_pos hsigner, if_pos hsigner⟩
  · simp [htype]

variable {C : Codecs}

/-- **The wire keeps the vote and its signature.** A bundle with well-formed texts comes back with
its hex in lower case, so that the wallet signed the same typed data and the verdict is the same;
bundles with one encoding differ in the spelling of their hex only. -/
theorem verifyBundleSignature_roundTrip (hB : Base58Canonical C)
    (hcase : HexCaseInsensitive recover) {b : VotesBundle} (hwf : b.WellFormed) {x : Bytes}
    (h : encodeBundle C b = some x) :
    decodeBundle C x = some (lowerHex b)
      ∧ ballotTypedData criteriaCid chainId (lowerHex b).votes (lowerHex b).blockNumber
          = ballotTypedData criteriaCid chainId b.votes b.blockNumber
      ∧ SameVerdict recover criteriaCid chainId b (lowerHex b)
      ∧ ∀ b' x', b'.WellFormed → encodeBundle C b' = some x' →
          (x = x' ↔ lowerHex b = lowerHex b') := by
  refine ⟨?_, rfl, ?_, fun b' x' hwf' h' => ?_⟩
  · rw [decodeBundle_encodeBundle hB h, canonicalBundle_of_wellFormed hwf]
  · obtain ⟨wire, hwire, -⟩ := encodeBundle_eq_some_iff.mp h
    obtain ⟨-, -, hsignature, -⟩ := toWireBundle_eq_some_iff.mp hwire
    exact verifyBundleSignature_lowerHex hcase hsignature
  · rw [encodeBundle_eq_iff_canonicalBundle hB h h', canonicalBundle_of_wellFormed hwf,
      canonicalBundle_of_wellFormed hwf']

end

/-! ### What is not kept -/

/-- A vote for one community, signed by the wallet `ballotSigner`. -/
def signedBundle (address type : JsString) : VotesBundle where
  address := address
  votes := [⟨⟨none, JsString.ofString "12D3KooWEyoppNCUx8Yx66oV9fVnrJmG92pTuY6zbLDaz8T5XCiL"⟩, 1⟩]
  blockNumber := 1000
  signature := ⟨JsString.ofString
    ("0x67813a39ba6e600b0370934a6cc8958c5d54b2f1bdbaa5c64457262133d41e16"
      ++ "3d045c635cc1ce1648421452b7a6075c4c3329205b79988c472a2e28a0bc7b5b1c"), type⟩

/-- The wallet behind the signature. -/
def ballotSigner : JsString := JsString.ofString "0x70997970C51812dc3A010C7d01b50e0d17dc79C8"

/-- The contest the ballot names. -/
def ballotCriteria : Bytes :=
  [0x01, 0x71, 0x12, 0x20, 0x69, 0xed, 0x19, 0x3e, 0xdc, 0x1a, 0xd0, 0xd9, 0x31, 0xd7, 0xc6, 0xce,
    0xaf, 0xeb, 0x8b, 0xa4, 0x0f, 0xf1, 0xca, 0x1a, 0x65, 0xcb, 0x0a, 0x64, 0x93, 0xe0, 0x4c, 0x96,
    0x48, 0x33, 0x20, 0xc1]

/-- The address nobody signed for, in capitals. -/
def capitalAddress : JsString := 48 :: 120 :: List.replicate 40 65

/-- Recovery of that one signature. -/
def recoverSigner : RecoverTypedDataAddress := fun _ _ => .ok ballotSigner

lemma wellFormed_signedBundle (address : JsString) :
    (signedBundle address eip712SignatureType).WellFormed where
  names v hv name hname := by
    rw [signedBundle, List.mem_singleton] at hv
    rw [hv] at hname
    cases hname
  type := JsString.wellFormed_ofString _

theorem verifyBundleSignature_roundTrip_capital :
    (encodeBundle .reference (signedBundle capitalAddress eip712SignatureType)).bind
        (decodeBundle .reference)
        = some (lowerHex (signedBundle capitalAddress eip712SignatureType))
      ∧ SameVerdict recoverSigner ballotCriteria 8453
          (signedBundle capitalAddress eip712SignatureType)
          (lowerHex (signedBundle capitalAddress eip712SignatureType)) := by
  have hsome :
      (encodeBundle .reference (signedBundle capitalAddress eip712SignatureType)).isSome := by
    decide +kernel
  obtain ⟨x, hx⟩ := Option.isSome_iff_exists.mp hsome
  have hcase : HexCaseInsensitive recoverSigner := fun _ _ _ _ => rfl
  obtain ⟨hdecode, -, hverdict, -⟩ :=
    verifyBundleSignature_roundTrip base58Canonical_reference hcase
    (wellFormed_signedBundle capitalAddress) hx
  rw [hx]
  exact ⟨hdecode, hverdict⟩

/-- A lone surrogate in the signature type does not come back, and the reason of a mismatch quotes
the address as the bundle spells it. -/
theorem roundTrip_signatureType_ne :
    ((encodeBundle .reference (signedBundle ballotSigner [0xD800])).isSome
      ∧ (encodeBundle .reference (signedBundle ballotSigner [0xD800])).bind
          (decodeBundle .reference) ≠ some (lowerHex (signedBundle ballotSigner [0xD800])))
    ∧ HexCaseInsensitive recoverSigner
    ∧ (encodeBundle .reference (signedBundle capitalAddress eip712SignatureType)).bind
        (decodeBundle .reference)
        = some (lowerHex (signedBundle capitalAddress eip712SignatureType))
    ∧ verifyBundleSignature recoverSigner ballotCriteria 8453
          (lowerHex (signedBundle capitalAddress eip712SignatureType))
        ≠ verifyBundleSignature recoverSigner ballotCriteria 8453
          (signedBundle capitalAddress eip712SignatureType) := by
  refine ⟨?_, fun _ _ _ _ => rfl, ?_, ?_⟩
  · decide +kernel
  · decide +kernel
  · decide +kernel

end PubsubVoting
