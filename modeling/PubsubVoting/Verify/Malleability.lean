import PubsubVoting.Lib.Ecdsa
import PubsubVoting.Verify.Signature

/-!
The signatures of one ballot that every verifier accepts for one wallet.

* `RecoversWith`: viem's recovery of a signature of 65 bytes.
* `verifyBundleSignature_variants`: besides a signature that passes, those with its `r` that pass
  are the negated one, and the other spellings of the recovery ids.
* `verifyBundleSignature_malleable`: a relayer negates a wallet's signature; both blocks pass.
-/

namespace PubsubVoting

open Cbor

/-! ### What recovery reads -/

/-- The order of secp256k1. -/
def secp256k1Order : ℕ := 0xFFFFFFFFFFFFFFFFFFFFFFFFFFFFFFFEBAAEDCE6AF48A03BBFD25E8CD0364141

/-- Bytes 0 to 31 of a signature. -/
def signatureR (x : Bytes) : ℕ := ofBigEndian (x.take 32)

/-- Bytes 32 to 63. -/
def signatureS (x : Bytes) : ℕ := ofBigEndian ((x.drop 32).take 32)

/-- The recovery id that the last byte stands for, if it stands for one: the parity of the point. -/
def recoveryBit (x : Bytes) : Option Bool :=
  match (x.drop 64).head? with
  | some 0 => some false
  | some 1 => some true
  | some 27 => some false
  | some 28 => some true
  | _ => none

section

variable {E : Type} [AddCommGroup E] [DecidableEq E]

/-- The key behind a signature of 65 bytes over a digest. -/
def signerKey (curve : RecoveryGroup secp256k1Order E) (digest : ℕ) (x : Bytes) : Option E :=
  (recoveryBit x).bind (curve.recoverKey digest (signatureR x) (signatureS x))

/-- Recovery, on signatures of 65 bytes: the address of the key behind them, over the digest of the
typed data; it throws where there is none. -/
def RecoversWith (recover : RecoverTypedDataAddress) (curve : RecoveryGroup secp256k1Order E)
    (hashTypedData : BallotTypedData → ℕ) (publicKeyToAddress : E → JsString) : Prop :=
  ∀ typedData signature x, hexToBytes signature signatureBytes = some x →
    (recover typedData signature).toOption
      = (signerKey curve (hashTypedData typedData) x).map publicKeyToAddress

variable {curve : RecoveryGroup secp256k1Order E} {digest : ℕ} {x x' : Bytes} {Q : E}

/-- A signature with the same `s` and recovery id, or with both negated. -/
def SignatureVariant (x x' : Bytes) : Prop :=
  signatureS x' = signatureS x ∧ recoveryBit x' = recoveryBit x ∨
    signatureS x' = secp256k1Order - signatureS x ∧
      recoveryBit x' = (recoveryBit x).map fun odd => !odd

lemma signerKey_eq_some_iff : signerKey curve digest x = some Q ↔
    ∃ odd, recoveryBit x = some odd ∧
      curve.recoverKey digest (signatureR x) (signatureS x) odd = some Q := by
  rw [signerKey]
  exact Option.bind_eq_some_iff

/-- **The variants of a signature have its key, and no other signature with its `r` does.** -/
lemma signerKey_variant_iff (h : signerKey curve digest x = some Q)
    (hr : signatureR x' = signatureR x) :
    signerKey curve digest x' = some Q ↔ SignatureVariant x x' := by
  obtain ⟨odd, hodd, hkey⟩ := signerKey_eq_some_iff.mp h
  rw [SignatureVariant]
  rw [hodd, Option.map_some]
  constructor
  · intro h'
    obtain ⟨odd', hodd', hkey'⟩ := signerKey_eq_some_iff.mp h'
    rw [hr] at hkey'
    rw [hodd']
    rcases RecoveryGroup.recoverKey_inj hkey hkey' with ⟨hs, rfl⟩ | ⟨hs, rfl⟩
    · exact .inl ⟨hs, rfl⟩
    · exact .inr ⟨hs, rfl⟩
  · rintro (⟨hs, hodd'⟩ | ⟨hs, hodd'⟩)
    · refine signerKey_eq_some_iff.mpr ⟨odd, hodd', ?_⟩
      rw [hr, hs]
      exact hkey
    · refine signerKey_eq_some_iff.mpr ⟨!odd, hodd', ?_⟩
      rw [hr, hs]
      exact RecoveryGroup.recoverKey_neg hkey

variable {recover : RecoverTypedDataAddress} {hashTypedData : BallotTypedData → ℕ}
  {publicKeyToAddress : E → JsString} {criteriaCid : Bytes} {chainId : ℕ}

/-- The digest of a bundle's ballot. -/
def ballotDigest (hashTypedData : BallotTypedData → ℕ) (criteriaCid : Bytes) (chainId : ℕ)
    (b : VotesBundle) : ℕ :=
  hashTypedData (ballotTypedData criteriaCid chainId b.votes b.blockNumber)

lemma verifyBundleSignature_ok_iff_recover {b : VotesBundle} :
    verifyBundleSignature recover criteriaCid chainId b = .ok () ↔
      b.signature.type = eip712SignatureType ∧ isHex b.signature.signature = true ∧
        ∃ recovered, recover (ballotTypedData criteriaCid chainId b.votes b.blockNumber)
            b.signature.signature = .ok recovered ∧
          recovered.toLowerCase = b.address.toLowerCase := by
  rw [verifyBundleSignature]
  by_cases htype : b.signature.type = eip712SignatureType
  · rw [if_neg (not_not.mpr htype)]
    cases hhex : isHex b.signature.signature with
    | false => simp
    | true =>
        simp only [Bool.not_true, Bool.false_eq_true, if_false, htype, true_and]
        cases recover (ballotTypedData criteriaCid chainId b.votes b.blockNumber)
          b.signature.signature with
        | error message => simp
        | ok recovered =>
            by_cases hsigner : recovered.toLowerCase = b.address.toLowerCase
            · simp [hsigner]
            · simp [hsigner]
  · rw [if_pos htype]
    simp [htype]

/-- A bundle passes exactly if its address is that of the key behind its signature. -/
lemma verifyBundleSignature_ok_iff
    (hrecover : RecoversWith recover curve hashTypedData publicKeyToAddress) {b : VotesBundle}
    (hx : hexToBytes b.signature.signature signatureBytes = some x) :
    verifyBundleSignature recover criteriaCid chainId b = .ok () ↔
      b.signature.type = eip712SignatureType ∧
        ∃ Q, signerKey curve (ballotDigest hashTypedData criteriaCid chainId b) x = some Q ∧
          (publicKeyToAddress Q).toLowerCase = b.address.toLowerCase := by
  have hhex := (isHex_of_hexToBytes hx).1
  rw [verifyBundleSignature_ok_iff_recover, hhex]
  refine and_congr Iff.rfl ?_
  have hspec := hrecover (ballotTypedData criteriaCid chainId b.votes b.blockNumber) _ x hx
  constructor
  · rintro ⟨-, recovered, hok, haddress⟩
    rw [hok] at hspec
    obtain ⟨Q, hQ, rfl⟩ := Option.map_eq_some_iff.mp hspec.symm
    exact ⟨Q, hQ, haddress⟩
  · rintro ⟨Q, hQ, haddress⟩
    rw [ballotDigest] at hQ
    rw [hQ, Option.map_some] at hspec
    cases hcall : recover (ballotTypedData criteriaCid chainId b.votes b.blockNumber)
        b.signature.signature with
    | error message =>
        rw [hcall] at hspec
        cases hspec
    | ok recovered =>
        rw [hcall] at hspec
        obtain rfl := Option.some.inj hspec
        exact ⟨rfl, _, rfl, haddress⟩

/-! ### Two signatures of one ballot -/

/-- Signatures of 65 bytes are spelled alike, up to case, if their parts are. -/
lemma toLowerCase_eq_iff {signature signature' : JsString}
    (hx : hexToBytes signature signatureBytes = some x)
    (hx' : hexToBytes signature' signatureBytes = some x') (hr : signatureR x' = signatureR x) :
    signature'.toLowerCase = signature.toLowerCase ↔
      signatureS x' = signatureS x ∧ x'.drop 64 = x.drop 64 := by
  have hlength := length_hexToBytes hx
  have hlength' := length_hexToBytes hx'
  have hbytes : signature'.toLowerCase = signature.toLowerCase ↔ x' = x := by
    rw [← bytesToHex_of_hexToBytes hx, ← bytesToHex_of_hexToBytes hx']
    refine ⟨fun heq => ?_, fun heq => heq ▸ rfl⟩
    have hback := hexToBytes_bytesToHex x'
    rw [heq, hlength', ← hlength, hexToBytes_bytesToHex] at hback
    exact (Option.some.inj hback).symm
  have hfirst : x'.take 32 = x.take 32 := (ofBigEndian_inj (by
    rw [List.length_take, List.length_take, hlength, hlength'])).mp hr
  have hsecond : signatureS x' = signatureS x ↔ (x'.drop 32).take 32 = (x.drop 32).take 32 := by
    refine ofBigEndian_inj ?_
    rw [List.length_take, List.length_take, List.length_drop, List.length_drop, hlength, hlength']
  rw [hbytes, hsecond]
  constructor
  · rintro rfl
    exact ⟨rfl, rfl⟩
  · rintro ⟨hmiddle, hlast⟩
    have hsplit : ∀ y : List UInt8, y = y.take 32 ++ ((y.drop 32).take 32 ++ y.drop 64) := by
      intro y
      have hrest : y.drop 64 = (y.drop 32).drop 32 := by rw [List.drop_drop]
      rw [hrest, List.take_append_drop, List.take_append_drop]
    rw [hsplit x', hsplit x, hfirst, hmiddle, hlast]

/-- **The signatures that pass for one ballot and one `r`.** Beside a bundle that passes, a bundle
of the same wallet, votes and block number whose signature has the same `r` passes exactly if `s`
and the recovery id are the same, or both are negated. The two signatures are spelled alike, up to
case, only if `s` and the last byte are the same, and the two blocks are the same only then. -/
theorem verifyBundleSignature_variants {C : Codecs} (hB : Base58Canonical C)
    (hrecover : RecoversWith recover curve hashTypedData publicKeyToAddress)
    {b b' : VotesBundle} (haddress : b'.address = b.address) (hvotes : b'.votes = b.votes)
    (hblock : b'.blockNumber = b.blockNumber)
    (hx : hexToBytes b.signature.signature signatureBytes = some x)
    (hx' : hexToBytes b'.signature.signature signatureBytes = some x')
    (hr : signatureR x' = signatureR x)
    (hvalid : verifyBundleSignature recover criteriaCid chainId b = .ok ())
    (hfree : ∀ Q Q', signerKey curve (ballotDigest hashTypedData criteriaCid chainId b) x = some Q →
      signerKey curve (ballotDigest hashTypedData criteriaCid chainId b) x' = some Q' →
      (publicKeyToAddress Q').toLowerCase = (publicKeyToAddress Q).toLowerCase → Q' = Q) :
    (verifyBundleSignature recover criteriaCid chainId b' = .ok () ↔
      b'.signature.type = eip712SignatureType ∧ SignatureVariant x x') ∧
    (b'.signature.signature.toLowerCase = b.signature.signature.toLowerCase ↔
      signatureS x' = signatureS x ∧ x'.drop 64 = x.drop 64) ∧
    ∀ y y', encodeBundle C b = some y → encodeBundle C b' = some y' → y' = y →
      b'.signature.signature.toLowerCase = b.signature.signature.toLowerCase := by
  have hdigest : ballotDigest hashTypedData criteriaCid chainId b'
      = ballotDigest hashTypedData criteriaCid chainId b := by
    unfold ballotDigest
    rw [hvotes, hblock]
  obtain ⟨-, Q, hQ, hsigner⟩ := (verifyBundleSignature_ok_iff hrecover hx).mp hvalid
  refine ⟨?_, toLowerCase_eq_iff hx hx' hr, fun y y' hy hy' heq => ?_⟩
  · rw [verifyBundleSignature_ok_iff hrecover hx', hdigest, haddress]
    refine and_congr Iff.rfl ?_
    rw [← signerKey_variant_iff hQ hr]
    constructor
    · rintro ⟨Q', hQ', hsigner'⟩
      rwa [hfree Q Q' hQ hQ' (hsigner'.trans hsigner.symm)] at hQ'
    · exact fun hQ' => ⟨Q, hQ', hsigner⟩
  · have hcanonical := (encodeBundle_eq_iff_canonicalBundle hB hy' hy).mp heq
    exact congrArg (fun bundle => bundle.signature.signature) hcanonical

end

/-! ### A relayer negates a signature -/

/-- Points as multiples of the base, the one behind every `r` being the base or its negative. -/
def scalarCurve : RecoveryGroup secp256k1Order (ZMod secp256k1Order) where
  base := 1
  lift _ odd := some (if odd then -1 else 1)
  nsmul_eq_zero X := by rw [nsmul_eq_mul, ZMod.natCast_self, zero_mul]
  lift_not r odd := by cases odd <;> simp
  order r odd R hR := by
    obtain rfl := Option.some.inj hR
    cases odd with
    | false => exact ZMod.addOrderOf_one _
    | true => exact (addOrderOf_neg _).trans (ZMod.addOrderOf_one _)

/-- Recovery over these points: whoever has a key is the wallet `ballotSigner`. -/
def recoverScalar : RecoverTypedDataAddress := fun _ signature =>
  match (hexToBytes signature signatureBytes).bind (signerKey scalarCurve 0) with
  | some _ => .ok ballotSigner
  | none => .error "invalid signature"

lemma recoversWith_recoverScalar :
    RecoversWith recoverScalar scalarCurve (fun _ => 0) fun _ => ballotSigner := by
  intro typedData signature x hx
  rw [recoverScalar]
  rw [hx, Option.bind_some]
  cases signerKey scalarCurve 0 x <;> rfl

/-- The bytes of a signature whose scalars are in range have a key. -/
lemma exists_signerKey_scalarCurve {x : Bytes} {odd : Bool} (hodd : recoveryBit x = some odd)
    (hrange : RecoveryGroup.InRange secp256k1Order (signatureR x) (signatureS x)) :
    ∃ Q, signerKey scalarCurve 0 x = some Q := by
  have hne : signatureS x • (if odd then -1 else 1 : ZMod secp256k1Order)
      ≠ 0 • scalarCurve.base := by
    rw [zero_nsmul]
    intro hzero
    have hdvd := addOrderOf_dvd_of_nsmul_eq_zero hzero
    rw [scalarCurve.order 0 odd _ rfl] at hdvd
    exact absurd (Nat.le_of_dvd hrange.2.1 hdvd) (not_le.mpr hrange.2.2)
  obtain ⟨Q, hQ⟩ := RecoveryGroup.exists_recoverKey (c := scalarCurve) hrange rfl hne
  exact ⟨Q, signerKey_eq_some_iff.mpr ⟨odd, hodd, hQ⟩⟩

/-- A vote of the wallet `ballotSigner`. -/
def ballotBundle : VotesBundle := signedBundle ballotSigner eip712SignatureType

/-- The same vote, with its signature negated: `s` is taken off the order, and the recovery id is
the other one. -/
def negatedBundle : VotesBundle where
  address := ballotSigner
  votes := ballotBundle.votes
  blockNumber := ballotBundle.blockNumber
  signature := ⟨JsString.ofString
    ("0x67813a39ba6e600b0370934a6cc8958c5d54b2f1bdbaa5c64457262133d41e16"
      ++ "c2fba39ca33e31e9b7bdebad4859f8a26e7bb3c653cf07af78a830642f79c5e61b"), eip712SignatureType⟩

/-- The bytes of a bundle's signature. -/
def signatureOf (b : VotesBundle) : Bytes :=
  (hexToBytes b.signature.signature signatureBytes).getD []

lemma hexToBytes_ballotBundle :
    hexToBytes ballotBundle.signature.signature signatureBytes
      = some (signatureOf ballotBundle) := by decide +kernel

lemma hexToBytes_negatedBundle :
    hexToBytes negatedBundle.signature.signature signatureBytes
      = some (signatureOf negatedBundle) := by decide +kernel

/-- The key behind the signature of the vote, and the one behind its negation. -/
lemma exists_signerKey_ballotBundle :
    ∃ Q, signerKey scalarCurve 0 (signatureOf ballotBundle) = some Q := by
  have hodd : recoveryBit (signatureOf ballotBundle) = some true := by decide +kernel
  exact exists_signerKey_scalarCurve hodd (by decide +kernel)

@[inherit_doc exists_signerKey_ballotBundle]
lemma exists_signerKey_negatedBundle :
    ∃ Q, signerKey scalarCurve 0 (signatureOf negatedBundle) = some Q := by
  have hodd : recoveryBit (signatureOf negatedBundle) = some false := by decide +kernel
  exact exists_signerKey_scalarCurve hodd (by decide +kernel)

lemma verifyBundleSignature_ballotBundle :
    verifyBundleSignature recoverScalar ballotCriteria 8453 ballotBundle = .ok () := by
  obtain ⟨Q, hQ⟩ := exists_signerKey_ballotBundle
  exact (verifyBundleSignature_ok_iff recoversWith_recoverScalar hexToBytes_ballotBundle).mpr
    ⟨rfl, Q, hQ, rfl⟩

lemma signatureR_negatedBundle :
    signatureR (signatureOf negatedBundle) = signatureR (signatureOf ballotBundle) := by
  decide +kernel

lemma signatureVariant_negatedBundle :
    SignatureVariant (signatureOf ballotBundle) (signatureOf negatedBundle) :=
  .inr ⟨by decide +kernel, by decide +kernel⟩

/-- The negated signature passes. -/
theorem verifyBundleSignature_variants_negated :
    verifyBundleSignature recoverScalar ballotCriteria 8453 negatedBundle = .ok () := by
  have haddress : negatedBundle.address = ballotBundle.address := rfl
  have hvotes : negatedBundle.votes = ballotBundle.votes := rfl
  have hblock : negatedBundle.blockNumber = ballotBundle.blockNumber := rfl
  have hfree : ∀ Q Q' : ZMod secp256k1Order,
      signerKey scalarCurve 0 (signatureOf ballotBundle) = some Q →
      signerKey scalarCurve 0 (signatureOf negatedBundle) = some Q' →
      ballotSigner.toLowerCase = ballotSigner.toLowerCase → Q' = Q := by
    intro Q Q' hQ hQ' _
    have hvariant := (signerKey_variant_iff hQ signatureR_negatedBundle).mpr
      signatureVariant_negatedBundle
    exact Option.some.inj (hQ'.symm.trans hvariant)
  exact (verifyBundleSignature_variants base58Canonical_reference recoversWith_recoverScalar
    haddress hvotes hblock hexToBytes_ballotBundle hexToBytes_negatedBundle
    signatureR_negatedBundle verifyBundleSignature_ballotBundle hfree).1.mpr
    ⟨rfl, signatureVariant_negatedBundle⟩

/-- **A relayer can derive a second block**: it negates the signature of a wallet's vote. Both
bundles are well formed and pass, their signatures have one `r`, and their blocks differ. -/
theorem verifyBundleSignature_malleable :
    ∃ (recover : RecoverTypedDataAddress) (b b' : VotesBundle),
    RecoversWith recover scalarCurve (fun _ => 0) (fun _ => ballotSigner) ∧
      votesBundleSchema .reference b = true ∧ votesBundleSchema .reference b' = true ∧
      b'.address = b.address ∧ b'.votes = b.votes ∧ b'.blockNumber = b.blockNumber ∧
      signatureR (signatureOf b') = signatureR (signatureOf b) ∧
      verifyBundleSignature recover ballotCriteria 8453 b = .ok () ∧
      verifyBundleSignature recover ballotCriteria 8453 b' = .ok () ∧
      b'.signature.signature.toLowerCase ≠ b.signature.signature.toLowerCase ∧
      (encodeBundle .reference b).isSome = true ∧ (encodeBundle .reference b').isSome = true ∧
      encodeBundle .reference b' ≠ encodeBundle .reference b := by
  refine ⟨recoverScalar, ballotBundle, negatedBundle, recoversWith_recoverScalar,
    by decide +kernel, by decide +kernel, rfl, rfl, rfl, signatureR_negatedBundle,
    verifyBundleSignature_ballotBundle, ?_, by decide +kernel, by decide +kernel,
    by decide +kernel, by decide +kernel⟩
  obtain ⟨Q, hQ⟩ := exists_signerKey_negatedBundle
  exact (verifyBundleSignature_ok_iff recoversWith_recoverScalar hexToBytes_negatedBundle).mpr
    ⟨rfl, Q, hQ, rfl⟩

end PubsubVoting
