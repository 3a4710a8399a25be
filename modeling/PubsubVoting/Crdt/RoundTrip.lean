import PubsubVoting.Crdt.Codec
import PubsubVoting.Signer.Eip712

/-!
What encoding a bundle keeps of it: everything but the case of its hex, and the lone surrogates of
its texts.

* `Base58Canonical`, `CollisionFreeOn`: base58btc decoding is injective, and so is the digest on the
  blocks at hand.
* `canonicalBundle`: the address and the signature in lower-case hex, the texts as UTF-8 leaves
  them.
* `decodeBundle_encodeBundle`: decoding an encoded bundle gives its canonical form.
* `encodeBundle_eq_iff_canonicalBundle`: two bundles have one encoding exactly if they have one
  canonical form.
-/

namespace PubsubVoting

open Cbor

/-- base58btc decoding is injective: a text is the encoding of what it decodes to. -/
def Base58Canonical (C : Codecs) : Prop :=
  ∀ s b, C.base58Decode s = some b → C.base58Encode b = s

lemma base58Canonical_reference : Base58Canonical .reference := fun _ _ => Base58.encode_decode

/-- No two of the blocks have one digest. -/
def CollisionFreeOn (C : Codecs) (blocks : Set Bytes) : Prop := Set.InjOn C.sha256 blocks

/-- Two blocks with one address are one block. -/
lemma CollisionFreeOn.eq_of_cid_eq {C : Codecs} {blocks : Set Bytes}
    (hfree : CollisionFreeOn C blocks)
    {x y : Bytes} (hx : x ∈ blocks) (hy : y ∈ blocks)
    (h : bundleCidForBytes C x = bundleCidForBytes C y) : x = y := by
  refine hfree hx hy ?_
  simpa [bundleCidForBytes] using h

/-! ### Hex in lower case -/

/-- The unit in lower case. -/
def lowerUnit (u : UInt16) : UInt16 := if 65 ≤ u.toNat ∧ u.toNat ≤ 90 then u + 32 else u

lemma hexDigit_of_hexDigit? {u : UInt16} {d : ℕ} (h : hexDigit? u = some d) :
    d < 16 ∧ hexDigit d = lowerUnit u := by
  have hu := u.toNat_lt
  have hadd : 65 ≤ u.toNat ∧ u.toNat ≤ 70 → (u + 32).toNat = u.toNat + 32 := by
    intro hupper
    rw [UInt16.toNat_add]
    exact Nat.mod_eq_of_lt (by simp; omega)
  have hof : ∀ n < 128, (UInt16.ofNat n).toNat = n := fun n hn =>
    UInt16.toNat_ofNat_of_lt' (by norm_num; omega)
  rw [hexDigit?] at h
  split_ifs at h with hdigit hupper hlower
  · obtain rfl := Option.some.inj h
    refine ⟨by omega, UInt16.toNat_inj.mp ?_⟩
    rw [hexDigit, if_pos (by omega), lowerUnit, if_neg (by omega), hof _ (by omega)]
    omega
  · obtain rfl := Option.some.inj h
    refine ⟨by omega, UInt16.toNat_inj.mp ?_⟩
    rw [hexDigit, if_neg (by omega), lowerUnit, if_pos (by omega), hof _ (by omega), hadd hupper]
    omega
  · obtain rfl := Option.some.inj h
    refine ⟨by omega, UInt16.toNat_inj.mp ?_⟩
    rw [hexDigit, if_neg (by omega), lowerUnit, if_neg (by omega), hof _ (by omega)]
    omega

lemma flatMap_byteToHex_of_hexPairs {digits : JsString} {bytes : Bytes}
    (h : hexPairs digits = some bytes) : bytes.flatMap byteToHex = digits.toLowerCase := by
  induction digits using hexPairs.induct generalizing bytes with
  | case1 =>
      obtain rfl := Option.some.inj h
      rfl
  | case2 u => cases h
  | case3 a b rest ih =>
      simp only [hexPairs, Option.bind_eq_bind, Option.bind_eq_some_iff] at h
      obtain ⟨hi, hhi, lo, hlo, bytes, hrest, h⟩ := h
      obtain rfl := Option.some.inj h
      obtain ⟨hhi', hhi⟩ := hexDigit_of_hexDigit? hhi
      obtain ⟨hlo', hlo⟩ := hexDigit_of_hexDigit? hlo
      have hbyte : (UInt8.ofNat (16 * hi + lo)).toNat = 16 * hi + lo :=
        UInt8.toNat_ofNat_of_lt' (by norm_num; omega)
      have hdiv : (16 * hi + lo) / 16 = hi := by omega
      have hmod : (16 * hi + lo) % 16 = lo := by omega
      rw [List.flatMap_cons, ih hrest, byteToHex, hbyte, hdiv, hmod, hhi, hlo]
      rfl

/-- **Hex that was read is written back in lower case.** -/
lemma bytesToHex_of_hexToBytes {hex : JsString} {n : ℕ} {bytes : Bytes}
    (h : hexToBytes hex n = some bytes) : bytesToHex bytes = hex.toLowerCase := by
  unfold hexToBytes at h
  split at h
  · split_ifs at h
    rw [bytesToHex, flatMap_byteToHex_of_hexPairs h]
    rfl
  · cases h

/-! ### The canonical form -/

/-- The name as UTF-8 leaves it. -/
def canonicalVote (v : Vote) : Vote :=
  ⟨⟨v.community.name.map JsString.repair, v.community.publicKey⟩, v.vote⟩

/-- The bundle an encoding stands for. -/
def canonicalBundle (b : VotesBundle) : VotesBundle where
  address := b.address.toLowerCase
  votes := b.votes.map canonicalVote
  blockNumber := b.blockNumber
  signature := ⟨b.signature.signature.toLowerCase, b.signature.type.repair⟩

/-- Only the hex of the bundle is spelled in lower case. -/
def lowerHex (b : VotesBundle) : VotesBundle where
  address := b.address.toLowerCase
  votes := b.votes
  blockNumber := b.blockNumber
  signature := ⟨b.signature.signature.toLowerCase, b.signature.type⟩

/-- The names of a bundle and its signature type are well-formed Unicode. -/
structure VotesBundle.WellFormed (b : VotesBundle) : Prop where
  names : ∀ v ∈ b.votes, ∀ name ∈ v.community.name, name.WellFormed
  type : b.signature.type.WellFormed

lemma canonicalBundle_of_wellFormed {b : VotesBundle} (h : b.WellFormed) :
    canonicalBundle b = lowerHex b := by
  have hvotes : b.votes.map canonicalVote = b.votes.map id := by
    refine List.map_congr_left fun v hv => ?_
    obtain ⟨⟨name, publicKey⟩, vote⟩ := v
    cases name with
    | none => rfl
    | some name =>
        have hname : name.repair = name := h.names _ hv name rfl
        simp [canonicalVote, hname]
  have htype : b.signature.type.repair = b.signature.type := h.type
  rw [canonicalBundle, lowerHex, hvotes, htype, List.map_id]

lemma wallet_canonicalBundle (b : VotesBundle) :
    (canonicalBundle b).address.toLowerCase = b.address.toLowerCase :=
  JsString.toLowerCase_toLowerCase _

lemma canonicalBundle_canonicalBundle (b : VotesBundle) :
    canonicalBundle (canonicalBundle b) = canonicalBundle b := by
  have hvotes : (b.votes.map canonicalVote).map canonicalVote = b.votes.map canonicalVote := by
    rw [List.map_map]
    refine List.map_congr_left fun v _ => ?_
    simp [canonicalVote, Function.comp_def, JsString.repair_repair]
  simp [canonicalBundle, hvotes, JsString.toLowerCase_toLowerCase, JsString.repair_repair]

lemma isDottedDomain_repair (x : JsString) : isDottedDomain x.repair = isDottedDomain x := by
  have h : List.Forall₂ (List.Forall₂ JsString.Repairs) (JsString.split 46 x)
      (JsString.split 46 x.repair) :=
    JsString.split_forall₂ (fun u v huv => huv.eq_iff (by decide)) (JsString.repair_forall₂ x)
  have hlabels : ∀ {ls ls' : List JsString}, List.Forall₂ (List.Forall₂ JsString.Repairs) ls ls' →
      (ls'.all fun label => decide (0 < label.length) && !label.any JsString.isWhitespace)
        = ls.all fun label => decide (0 < label.length) && !label.any JsString.isWhitespace := by
    intro ls ls' h
    induction h with
    | nil => rfl
    | @cons l l' ls ls' hl _ ih =>
        have hany : l'.any JsString.isWhitespace = l.any JsString.isWhitespace := by
          induction hl with
          | nil => rfl
          | cons huv _ ih => rw [List.any_cons, List.any_cons, huv.isWhitespace_eq, ih]
        rw [List.all_cons, List.all_cons, ih, hany, hl.length_eq]
  rw [isDottedDomain, isDottedDomain, hlabels h, h.length_eq]

lemma nameSchema_repair (x : JsString) : nameSchema x.repair = nameSchema x := by
  rw [nameSchema, nameSchema, JsString.length_repair, isDottedDomain_repair]

section

variable {C : Codecs}

lemma voteSchema_canonicalVote (v : Vote) : voteSchema C (canonicalVote v) = voteSchema C v := by
  obtain ⟨⟨name, publicKey⟩, vote⟩ := v
  cases name with
  | none => rfl
  | some name =>
      simp only [voteSchema, communitySchema, canonicalVote, Option.map_some, Option.all_some,
        nameSchema_repair]
      rfl

/-- The schema does not see the difference. -/
lemma votesBundleSchema_canonicalBundle (b : VotesBundle) :
    votesBundleSchema C (canonicalBundle b) = votesBundleSchema C b := by
  have hvotes : (b.votes.map canonicalVote).all (voteSchema C) = b.votes.all (voteSchema C) := by
    rw [List.all_map]
    exact congrArg b.votes.all (funext voteSchema_canonicalVote)
  have hkeys : (canonicalBundle b).publicKeys = b.publicKeys := by
    simp [VotesBundle.publicKeys, canonicalBundle, canonicalVote, Function.comp_def]
  have hsignature :
      signatureSchema (canonicalBundle b).signature = signatureSchema b.signature := by
    simp [signatureSchema, canonicalBundle]
  rw [votesBundleSchema, votesBundleSchema, hkeys, hsignature]
  simp only [canonicalBundle, hvotes, JsString.length_toLowerCase]

/-! ### Reading back what was written -/

/-- The wire form as the decoder hands it back. -/
def WireVote.repair (v : WireVote) : WireVote := { v with name := v.name.map JsString.repair }

lemma WireVote.parse_canon_toValue {v : WireVote} (henc : v.toValue.encodable = true)
    (hvote : isInt v.vote = true) : WireVote.parse v.toValue.canon = some v.repair := by
  have hcommunity : v.community.encodable = true := encodable_get? henc (k := "community") rfl
  have hget : v.toValue.canon.get? "community" = some v.community.canon := by
    rw [get?_canon henc]
    rfl
  have hgetVote : v.toValue.canon.get? "vote" = some (.int v.vote) := by
    rw [get?_canon henc]
    rfl
  have hkey : v.community.canon.get? "publicKey" = some (.bytes v.publicKey) := by
    rw [get?_canon hcommunity]
    cases hname : v.name <;>
      simp [WireVote.community, hname, Value.get?, List.lookup_cons, Value.canon]
  have hname : v.community.canon.get? "name"
      = v.name.map fun name => .text name.toWellFormed := by
    rw [get?_canon hcommunity]
    cases hname : v.name <;>
      simp [WireVote.community, hname, Value.get?, List.lookup_cons, Value.canon]
  have htext : optionalText (v.name.map fun name => .text name.toWellFormed)
      = some (v.name.map JsString.repair) := by
    cases v.name <;> rfl
  simp [WireVote.parse, hget, hgetVote, hkey, hname, htext, hvote, WireVote.repair, Value.bytes?,
    Value.int?]

/-- The wire form of a bundle as the decoder hands it back. -/
def WireBundle.repair (b : WireBundle) : WireBundle :=
  { b with type := b.type.repair, votes := b.votes.map WireVote.repair }

/-- **The wire schema reads back what was written**, with the texts as UTF-8 leaves them. -/
lemma WireBundle.parse_canon_toValue {b : WireBundle} (henc : b.toValue.encodable = true)
    (hblock : b.blockNumber ≤ maxSafeInteger) (htype : 1 ≤ b.type.length)
    (hvotes : ∀ v ∈ b.votes, isInt v.vote = true) :
    WireBundle.parse b.toValue.canon = some b.repair := by
  have hget : ∀ k, b.toValue.canon.get? k = (b.toValue.get? k).map Value.canon := get?_canon henc
  have hsignature : (Value.map [("signature", .bytes b.signature),
      ("type", .text b.type.toWellFormed)]).encodable = true :=
    encodable_get? henc (k := "signature") rfl
  have hlist := encodable_get? henc (k := "votes") rfl
  have haddress : b.toValue.canon.get? "address" = some (.bytes b.address) := by
    rw [hget]
    rfl
  have hblockNumber : b.toValue.canon.get? "blockNumber" = some (.int b.blockNumber) := by
    rw [hget]
    rfl
  have hgetSignature : b.toValue.canon.get? "signature" = some (Value.map
      [("signature", .bytes b.signature), ("type", .text b.type.toWellFormed)]).canon := by
    rw [hget]
    rfl
  have hbytes : (Value.map [("signature", .bytes b.signature),
      ("type", .text b.type.toWellFormed)]).canon.get? "signature" = some (.bytes b.signature) := by
    rw [get?_canon hsignature]
    rfl
  have htext : (Value.map [("signature", .bytes b.signature),
      ("type", .text b.type.toWellFormed)]).canon.get? "type"
        = some (.text b.type.toWellFormed) := by
    rw [get?_canon hsignature]
    rfl
  have hgetVotes : b.toValue.canon.get? "votes"
      = some (.list ((b.votes.map WireVote.toValue).map Value.canon)) := by
    rw [hget, ← canon_list]
    rfl
  have hparse : ((b.votes.map WireVote.toValue).map Value.canon).mapM WireVote.parse
      = some (b.votes.map WireVote.repair) := by
    rw [List.map_map, List.mapM_map]
    refine List.mapM_eq_some_of_forall fun v hv => ?_
    exact WireVote.parse_canon_toValue (encodable_of_mem hlist (List.mem_map_of_mem hv))
      (hvotes v hv)
  have hcheck : isNonnegativeInt (b.blockNumber : ℤ) = true := by
    simpa [isNonnegativeInt, isInt] using hblock
  have hlength : 1 ≤ (JsString.ofString b.type.toWellFormed).length :=
    htype.trans_eq (JsString.length_repair _).symm
  simp only [WireBundle.parse, haddress, hblockNumber, hgetSignature, hbytes, htext, hgetVotes,
    Option.bind_eq_bind, Option.bind_some, Value.bytes?, Value.int?, Value.text?, Value.list?,
    hparse, hcheck, hlength, decide_true, Bool.and_self, if_true, Int.toNat_natCast]
  rfl

lemma mapM_toWireVote {votes : List Vote} {wires : List WireVote} (hB : Base58Canonical C)
    (h : votes.mapM (toWireVote C) = some wires) :
    (wires.map WireVote.repair).map (fromWireVote C) = votes.map canonicalVote := by
  rw [List.map_map]
  refine List.map_eq_map_of_mapM h fun v _ wire hwire => ?_
  obtain ⟨key, hkey, rfl⟩ := toWireVote_eq_some_iff.mp hwire
  simp [WireVote.repair, fromWireVote, canonicalVote, publicKeyFromBytes, hB _ _ hkey]

/-- The value a bundle is written as is read back as the canonical bundle. -/
theorem fromWireBundle_toWireBundle (hB : Base58Canonical C) {b : VotesBundle} {wire : WireBundle}
    (hwire : toWireBundle C b = some wire) (henc : wire.toValue.encodable = true) :
    fromWireBundle C wire.toValue.canon = some (canonicalBundle b) := by
  obtain ⟨hschema, haddress, hsignature, hvotes, hblock, htype⟩ := toWireBundle_eq_some_iff.mp hwire
  have hvalid := votesBundleSchema_iff.mp hschema
  obtain ⟨-, hvotesSchema, hblockMax, hsig, -⟩ := hvalid
  rw [signatureSchema, Bool.and_eq_true, decide_eq_true_iff, decide_eq_true_iff] at hsig
  have hints : ∀ v ∈ wire.votes, isInt v.vote = true := by
    refine List.forall_mem_of_mapM hvotes fun v hv w hw => ?_
    obtain ⟨key, -, rfl⟩ := toWireVote_eq_some_iff.mp hw
    simpa [isInt] using (voteSchema_iff.mp (hvotesSchema v hv)).2.2.2
  have hparse := WireBundle.parse_canon_toValue henc (hblock.trans_le hblockMax)
    (htype ▸ hsig.2) hints
  have hcanonical :
      (⟨bytesToHex wire.address, (wire.votes.map WireVote.repair).map (fromWireVote C),
      wire.blockNumber, ⟨bytesToHex wire.signature, wire.type.repair⟩⟩ : VotesBundle)
        = canonicalBundle b := by
    rw [bytesToHex_of_hexToBytes haddress, bytesToHex_of_hexToBytes hsignature,
      mapM_toWireVote hB hvotes, hblock, htype]
    rfl
  have hschema' := (votesBundleSchema_canonicalBundle (C := C) b).trans hschema
  rw [fromWireBundle, hparse]
  simp only [WireBundle.repair, Option.bind_eq_bind, Option.bind_some,
    length_hexToBytes haddress, length_hexToBytes hsignature, ne_eq, not_true_eq_false, if_false]
  rw [hcanonical, VotesBundle.parse, if_pos hschema']

lemma encodable_of_encodeBundle {b : VotesBundle} {x : Bytes} (h : encodeBundle C b = some x) :
    ∃ wire, toWireBundle C b = some wire ∧ wire.toValue.encodable = true
      ∧ C.dagCborDecode x = some wire.toValue.canon := by
  obtain ⟨wire, hwire, hx⟩ := encodeBundle_eq_some_iff.mp h
  have hdecode := C.decode_encode _ _ hx
  have henc := C.decode_encodable _ _ hdecode
  rw [encodable_canon] at henc
  exact ⟨wire, hwire, henc, hdecode⟩

/-- **The round trip**: an encoded bundle decodes to its canonical form. -/
theorem decodeBundle_encodeBundle (hB : Base58Canonical C) {b : VotesBundle} {x : Bytes}
    (h : encodeBundle C b = some x) : decodeBundle C x = some (canonicalBundle b) := by
  obtain ⟨wire, hwire, henc, hdecode⟩ := encodable_of_encodeBundle h
  rw [decodeBundle, hdecode, Option.bind_eq_bind, Option.bind_some]
  exact fromWireBundle_toWireBundle hB hwire henc

/-- The canonical form has the same encoding. -/
lemma encodeBundle_canonicalBundle (hB : Base58Canonical C) {b : VotesBundle} {x : Bytes}
    (h : encodeBundle C b = some x) : encodeBundle C (canonicalBundle b) = some x := by
  obtain ⟨wire, hwire, hx⟩ := encodeBundle_eq_some_iff.mp h
  obtain ⟨wire', hwire', henc, hdecode⟩ := encodable_of_encodeBundle h
  obtain rfl : wire = wire' := Option.some.inj (hwire.symm.trans hwire')
  rw [encodeBundle_eq_iff (decodeBundle_encodeBundle hB h)]
  refine ⟨_, hdecode, (C.encode_canon _).trans hx, ?_⟩
  rw [WireBundle.exactKeys_canon henc, WireBundle.exactKeys_toValue]

/-- **One encoding, one canonical form.** -/
theorem encodeBundle_eq_iff_canonicalBundle (hB : Base58Canonical C) {b b' : VotesBundle}
    {x x' : Bytes} (h : encodeBundle C b = some x) (h' : encodeBundle C b' = some x') :
    x = x' ↔ canonicalBundle b = canonicalBundle b' := by
  constructor
  · rintro rfl
    exact Option.some.inj
      ((decodeBundle_encodeBundle hB h).symm.trans (decodeBundle_encodeBundle hB h'))
  · intro heq
    have hx := encodeBundle_canonicalBundle hB h
    rw [heq, encodeBundle_canonicalBundle hB h'] at hx
    exact (Option.some.inj hx).symm

end

end PubsubVoting
