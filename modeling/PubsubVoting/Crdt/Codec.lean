import PubsubVoting.Lib.CborFields
import PubsubVoting.Lib.MapM
import PubsubVoting.Schema.Votes

/-!
The bundle codec: a votes bundle as a binary dag-cbor block, and its content address.

* `toWireBundle`, `fromWireBundle`, `encodeBundle`, `decodeBundle`: the two directions.
* `bundleCidForBytes`, `bundleCid`: the address of the raw bytes, and of a re-encoding.
* `toWireBundle_of_fromWireBundle`: what was read from the wire is written back as it was read;
  what the wire schema strips is lost before that.
* `encodeBundle_decodeBundle_iff`: decoding and encoding again gives the same block exactly for
  canonical blocks without foreign keys.
-/

namespace PubsubVoting

open Cbor

/-- A content address in binary form. -/
abbrev Cid := Bytes

/-! ### The wire shape -/

/-- One vote on the wire, the key as the raw multihash. -/
structure WireVote where
  name : Option JsString
  publicKey : Bytes
  vote : ℤ
  deriving DecidableEq

/-- The binary wire shape of one bundle block. -/
structure WireBundle where
  address : Bytes
  blockNumber : ℕ
  signature : Bytes
  type : JsString
  votes : List WireVote
  deriving DecidableEq

/-- The community of a vote as a map; an absent name omits the key. -/
def WireVote.community (v : WireVote) : Value :=
  .map ((v.name.map fun name => ("name", Value.text name.toWellFormed)).toList
    ++ [("publicKey", .bytes v.publicKey)])

/-- A vote as a map. -/
def WireVote.toValue (v : WireVote) : Value :=
  .map [("community", v.community), ("vote", .int v.vote)]

/-- A bundle as a map. -/
def WireBundle.toValue (b : WireBundle) : Value :=
  .map [("address", .bytes b.address), ("blockNumber", .int b.blockNumber),
    ("signature", .map [("signature", .bytes b.signature), ("type", .text b.type.toWellFormed)]),
    ("votes", .list (b.votes.map WireVote.toValue))]

/-- `z.string().optional()` on what a map holds under a key. -/
def optionalText : Option Value → Option (Option JsString)
  | none => some none
  | some w => w.text?.map fun s => some (JsString.ofString s)

/-- The vote schema of the wire: keys it does not name are stripped. -/
def WireVote.parse (w : Value) : Option WireVote := do
  let community ← w.get? "community"
  let name ← optionalText (community.get? "name")
  let publicKey ← community.get? "publicKey" >>= Value.bytes?
  let vote ← w.get? "vote" >>= Value.int?
  if isInt vote then some ⟨name, publicKey, vote⟩ else none

/-- `WireBundleSchema.parse`: keys it does not name are stripped, at every level. -/
def WireBundle.parse (w : Value) : Option WireBundle := do
  let address ← w.get? "address" >>= Value.bytes?
  let blockNumber ← w.get? "blockNumber" >>= Value.int?
  let signature ← w.get? "signature"
  let signatureBytes ← signature.get? "signature" >>= Value.bytes?
  let type ← signature.get? "type" >>= Value.text?
  let votes ← w.get? "votes" >>= Value.list?
  let votes ← votes.mapM WireVote.parse
  if isNonnegativeInt blockNumber && decide (1 ≤ (JsString.ofString type).length) then
    some ⟨address, blockNumber.toNat, signatureBytes, JsString.ofString type, votes⟩
  else none

/-! ### Hex -/

/-- `ADDRESS_BYTES` -/
def addressBytes : ℕ := 20

/-- `SIGNATURE_BYTES` -/
def signatureBytes : ℕ := 65

/-- The value of a hex digit, either case. -/
def hexDigit? (u : UInt16) : Option ℕ :=
  if 48 ≤ u.toNat ∧ u.toNat ≤ 57 then some (u.toNat - 48)
  else if 65 ≤ u.toNat ∧ u.toNat ≤ 70 then some (u.toNat - 55)
  else if 97 ≤ u.toNat ∧ u.toNat ≤ 102 then some (u.toNat - 87)
  else none

/-- A digit below 16 in lower case. -/
def hexDigit (d : ℕ) : UInt16 := if d < 10 then UInt16.ofNat (48 + d) else UInt16.ofNat (87 + d)

/-- The bytes pairs of hex digits stand for. -/
def hexPairs : JsString → Option Bytes
  | [] => some []
  | [_] => none
  | a :: b :: rest => do
    let hi ← hexDigit? a
    let lo ← hexDigit? b
    let bytes ← hexPairs rest
    return UInt8.ofNat (16 * hi + lo) :: bytes

/-- `0x`-hex of exactly as many bytes as expected; `none` where the source throws. -/
def hexToBytes (hex : JsString) (expectedBytes : ℕ) : Option Bytes :=
  match hex with
  | 48 :: 120 :: digits => if digits.length = 2 * expectedBytes then hexPairs digits else none
  | _ => none

/-- The two digits of a byte. -/
def byteToHex (x : UInt8) : JsString := [hexDigit (x.toNat / 16), hexDigit (x.toNat % 16)]

/-- `0x` and two lower-case digits for every byte. -/
def bytesToHex (bytes : Bytes) : JsString := 48 :: 120 :: bytes.flatMap byteToHex

lemma hexDigit?_hexDigit : ∀ d < 16, hexDigit? (hexDigit d) = some d := by decide

lemma hexPairs_flatMap (bytes : Bytes) : hexPairs (bytes.flatMap byteToHex) = some bytes := by
  induction bytes with
  | nil => rfl
  | cons x bytes ih =>
      have hx := x.toNat_lt
      have hsum : 16 * (x.toNat / 16) + x.toNat % 16 = x.toNat := by omega
      simp only [List.flatMap_cons, byteToHex, List.cons_append, List.nil_append, hexPairs, ih,
        hexDigit?_hexDigit (x.toNat / 16) (by omega), hexDigit?_hexDigit (x.toNat % 16) (by omega),
        Option.bind_eq_bind, Option.bind_some, hsum, UInt8.ofNat_toNat]
      rfl

lemma length_flatMap_byteToHex (bytes : Bytes) :
    (bytes.flatMap byteToHex).length = 2 * bytes.length := by
  induction bytes with
  | nil => rfl
  | cons x bytes ih => simp [byteToHex, ih]; omega

/-- Hex that was written is read back. -/
lemma hexToBytes_bytesToHex (bytes : Bytes) :
    hexToBytes (bytesToHex bytes) bytes.length = some bytes := by
  simp only [hexToBytes, bytesToHex, length_flatMap_byteToHex, if_true, hexPairs_flatMap]

lemma length_hexPairs {digits : JsString} {bytes : Bytes} (h : hexPairs digits = some bytes) :
    2 * bytes.length = digits.length := by
  induction digits using hexPairs.induct generalizing bytes with
  | case1 =>
      obtain rfl := Option.some.inj h
      rfl
  | case2 u => cases h
  | case3 a b rest ih =>
      simp only [hexPairs, Option.bind_eq_bind, Option.bind_eq_some_iff] at h
      obtain ⟨hi, -, lo, -, bytes, hrest, h⟩ := h
      obtain rfl := Option.some.inj h
      have hlen := ih hrest
      simp only [List.length_cons]
      omega

lemma length_hexToBytes {hex : JsString} {n : ℕ} {bytes : Bytes}
    (h : hexToBytes hex n = some bytes) : bytes.length = n := by
  unfold hexToBytes at h
  split at h
  · split_ifs at h with hlen
    have := length_hexPairs h
    omega
  · cases h

/-! ### Bundles -/

section

variable (C : Codecs)

/-- B58 IPNS name to raw multihash bytes. -/
def publicKeyToBytes (publicKey : JsString) : Option Bytes := C.base58Decode publicKey

/-- Raw multihash bytes to the B58 IPNS name. -/
def publicKeyFromBytes (bytes : Bytes) : JsString := C.base58Encode bytes

/-- The wire form of one vote. -/
def toWireVote (v : Vote) : Option WireVote := do
  let publicKey ← publicKeyToBytes C v.community.publicKey
  return ⟨v.community.name, publicKey, v.vote⟩

/-- The bundle form of one wire vote. -/
def fromWireVote (v : WireVote) : Vote :=
  ⟨⟨v.name, publicKeyFromBytes C v.publicKey⟩, v.vote⟩

/-- Map a bundle to its wire shape; `none` where the source throws. -/
def toWireBundle (bundle : VotesBundle) : Option WireBundle := do
  let parsed ← bundle.parse C
  let address ← hexToBytes parsed.address addressBytes
  let signature ← hexToBytes parsed.signature.signature signatureBytes
  let votes ← parsed.votes.mapM (toWireVote C)
  return ⟨address, parsed.blockNumber, signature, parsed.signature.type, votes⟩

/-- Map a decoded wire value back to a bundle, checking the wire shape, the two lengths and the
bundle schema; `none` where the source throws. -/
def fromWireBundle (wire : Value) : Option VotesBundle := do
  let parsed ← WireBundle.parse wire
  if parsed.address.length ≠ addressBytes then none
  else if parsed.signature.length ≠ signatureBytes then none
  else
    VotesBundle.parse C
      { address := bytesToHex parsed.address
        votes := parsed.votes.map (fromWireVote C)
        blockNumber := parsed.blockNumber
        signature := ⟨bytesToHex parsed.signature, parsed.type⟩ }

/-- Canonically encode a bundle to its block bytes. -/
def encodeBundle (bundle : VotesBundle) : Option Bytes := do
  let wire ← toWireBundle C bundle
  C.encodeCanonical wire.toValue

/-- Decode block bytes back to a bundle. -/
def decodeBundle (bytes : Bytes) : Option VotesBundle := do
  let wire ← C.dagCborDecode bytes
  fromWireBundle C wire

/-- The CIDv1 (dag-cbor, sha2-256) of block bytes. -/
def bundleCidForBytes (bytes : Bytes) : Cid :=
  0x01 :: Codecs.dagCborCode :: 0x12 :: 0x20 :: C.sha256 bytes

/-- The CID of a bundle: that of the bytes it encodes to. -/
def bundleCid (bundle : VotesBundle) : Option Cid :=
  (encodeBundle C bundle).map (bundleCidForBytes C)

end

section

variable {C : Codecs}

lemma encodeBundle_eq_some_iff {bundle : VotesBundle} {x : Bytes} :
    encodeBundle C bundle = some x ↔
      ∃ wire, toWireBundle C bundle = some wire ∧ C.encodeCanonical wire.toValue = some x := by
  rw [encodeBundle, Option.bind_eq_bind, Option.bind_eq_some_iff]

lemma toWireVote_eq_some_iff {v : Vote} {wire : WireVote} :
    toWireVote C v = some wire ↔
      ∃ key, C.base58Decode v.community.publicKey = some key
        ∧ wire = ⟨v.community.name, key, v.vote⟩ := by
  simp only [toWireVote, publicKeyToBytes, Option.bind_eq_bind, Option.bind_eq_some_iff,
    Option.pure_def, Option.some.injEq]
  refine exists_congr fun key => and_congr_right fun _ => eq_comm

/-- What a bundle that can be mapped to the wire looks like there. -/
lemma toWireBundle_eq_some_iff {bundle : VotesBundle} {wire : WireBundle} :
    toWireBundle C bundle = some wire ↔
      votesBundleSchema C bundle = true
        ∧ hexToBytes bundle.address addressBytes = some wire.address
        ∧ hexToBytes bundle.signature.signature signatureBytes = some wire.signature
        ∧ bundle.votes.mapM (toWireVote C) = some wire.votes
        ∧ wire.blockNumber = bundle.blockNumber ∧ wire.type = bundle.signature.type := by
  simp only [toWireBundle, Option.bind_eq_bind, Option.bind_eq_some_iff, VotesBundle.parse_eq_some,
    Option.pure_def, Option.some.injEq]
  constructor
  · rintro ⟨parsed, ⟨hschema, rfl⟩, address, haddress, signature, hsignature, votes, hvotes, rfl⟩
    exact ⟨hschema, haddress, hsignature, hvotes, rfl, rfl⟩
  · rintro ⟨hschema, haddress, hsignature, hvotes, hblock, htype⟩
    refine ⟨bundle, ⟨hschema, rfl⟩, _, haddress, _, hsignature, _, hvotes, ?_⟩
    rw [← hblock, ← htype]

end

/-! ### What the wire schema reads -/

section

variable {C : Codecs}

lemma optionalText_eq_some {w : Option Value} {name : Option JsString}
    (h : optionalText w = some name) : w = name.map fun s => .text s.toWellFormed := by
  cases w with
  | none =>
      obtain rfl := Option.some.inj h
      rfl
  | some w =>
      obtain ⟨s, hs, rfl⟩ := Option.map_eq_some_iff.mp h
      rw [Value.text?_eq_some] at hs
      rw [hs, Option.map_some, JsString.toWellFormed_ofString]

/-- What the vote schema read stood under the keys it names. -/
lemma WireVote.get?_of_parse {w : Value} {v : WireVote} (h : WireVote.parse w = some v) :
    ∃ community, w.get? "community" = some community
      ∧ community.get? "name" = v.name.map (fun name => .text name.toWellFormed)
      ∧ community.get? "publicKey" = some (.bytes v.publicKey)
      ∧ w.get? "vote" = some (.int v.vote) := by
  simp only [WireVote.parse, Option.bind_eq_bind, Option.bind_eq_some_iff, Value.bytes?_eq_some,
    Value.int?_eq_some] at h
  obtain ⟨community, hcommunity, name, hname, publicKey, ⟨-, hkey, rfl⟩, vote,
    ⟨-, hvote, rfl⟩, h⟩ := h
  split_ifs at h
  obtain rfl := Option.some.inj h
  exact ⟨community, hcommunity, optionalText_eq_some hname, hkey, hvote⟩

/-- What the bundle schema read stood under the keys it names. -/
lemma WireBundle.get?_of_parse {w : Value} {b : WireBundle} (h : WireBundle.parse w = some b) :
    ∃ signature votes, w.get? "address" = some (.bytes b.address)
      ∧ w.get? "blockNumber" = some (.int b.blockNumber) ∧ w.get? "signature" = some signature
      ∧ signature.get? "signature" = some (.bytes b.signature)
      ∧ signature.get? "type" = some (.text b.type.toWellFormed)
      ∧ w.get? "votes" = some (.list votes) ∧ votes.mapM WireVote.parse = some b.votes := by
  simp only [WireBundle.parse, Option.bind_eq_bind, Option.bind_eq_some_iff, Value.bytes?_eq_some,
    Value.int?_eq_some, Value.text?_eq_some, Value.list?_eq_some] at h
  obtain ⟨address, ⟨-, haddress, rfl⟩, blockNumber, ⟨-, hblock, rfl⟩, signature, hsignature, bytes,
    ⟨-, hbytes, rfl⟩, type, ⟨-, htype, rfl⟩, votes, ⟨-, hvotes, rfl⟩, parsed, hparsed, h⟩ := h
  split_ifs at h with hcheck
  obtain rfl := Option.some.inj h
  have hnonneg : 0 ≤ blockNumber := by
    simp only [isNonnegativeInt, Bool.and_eq_true, decide_eq_true_eq] at hcheck
    exact hcheck.1.2
  refine ⟨signature, votes, haddress, ?_, hsignature, hbytes, ?_, hvotes, hparsed⟩
  · rw [hblock, Int.toNat_of_nonneg hnonneg]
  · rw [htype, JsString.toWellFormed_ofString]

/-- A name that was read is well-formed Unicode. -/
lemma WireVote.wellFormed_of_parse {w : Value} {v : WireVote} (h : WireVote.parse w = some v) :
    ∀ name ∈ v.name, name.WellFormed := by
  simp only [WireVote.parse, Option.bind_eq_bind, Option.bind_eq_some_iff] at h
  obtain ⟨community, -, name, hname, _, -, _, -, h⟩ := h
  split_ifs at h
  obtain rfl := Option.some.inj h
  cases hget : community.get? "name" with
  | none =>
      rw [hget] at hname
      obtain rfl := Option.some.inj hname
      simp
  | some value =>
      rw [hget] at hname
      obtain ⟨s, -, rfl⟩ := Option.map_eq_some_iff.mp hname
      simpa using JsString.wellFormed_ofString s

/-! ### Foreign keys -/

/-- No key of a vote is stripped. -/
def WireVote.exactKeys (w : Value) : Bool :=
  w.onlyKeys ["community", "vote"]
    && (w.get? "community").all (Value.onlyKeys ["name", "publicKey"])

/-- No key of a bundle is stripped, at any level. -/
def WireBundle.exactKeys (w : Value) : Bool :=
  w.onlyKeys ["address", "blockNumber", "signature", "votes"]
    && (w.get? "signature").all (Value.onlyKeys ["signature", "type"])
    && (w.get? "votes" >>= Value.list?).all fun votes => votes.all WireVote.exactKeys

lemma WireVote.exactKeys_canon {w : Value} (h : w.encodable = true) :
    WireVote.exactKeys w.canon = WireVote.exactKeys w := by
  rw [WireVote.exactKeys, WireVote.exactKeys, onlyKeys_canon, get?_canon h]
  cases w.get? "community" with
  | none => rfl
  | some community => simp [onlyKeys_canon]

lemma WireBundle.exactKeys_canon {w : Value} (h : w.encodable = true) :
    WireBundle.exactKeys w.canon = WireBundle.exactKeys w := by
  have hsignature : (w.canon.get? "signature").all (Value.onlyKeys ["signature", "type"])
      = (w.get? "signature").all (Value.onlyKeys ["signature", "type"]) := by
    rw [get?_canon h]
    cases w.get? "signature" <;> simp [onlyKeys_canon]
  have hvotes :
      (w.canon.get? "votes" >>= Value.list?).all (fun votes => votes.all WireVote.exactKeys)
      = (w.get? "votes" >>= Value.list?).all fun votes => votes.all WireVote.exactKeys := by
    rw [get?_canon h]
    cases hget : w.get? "votes" with
    | none => rfl
    | some votes =>
        cases votes with
        | list xs =>
            have hxs := encodable_get? h hget
            have hall :
                (xs.map Value.canon).all WireVote.exactKeys = xs.all WireVote.exactKeys := by
              rw [List.all_map, Bool.eq_iff_iff, List.all_eq_true, List.all_eq_true]
              refine forall₂_congr fun x hx => ?_
              rw [Function.comp_apply, WireVote.exactKeys_canon (encodable_of_mem hxs hx)]
            simp [canon_list, Value.list?, hall]
        | null | bool _ | int _ | float _ | bytes _ | text _ | map _ | link _ => rfl
  rw [WireBundle.exactKeys, WireBundle.exactKeys, onlyKeys_canon, hsignature, hvotes]

lemma WireVote.exactKeys_toValue (v : WireVote) : WireVote.exactKeys v.toValue = true := by
  cases hname : v.name <;> simp [WireVote.exactKeys, WireVote.toValue, WireVote.community,
    Value.onlyKeys, Value.get?, hname]

lemma WireBundle.exactKeys_toValue (b : WireBundle) : WireBundle.exactKeys b.toValue = true := by
  simp [WireBundle.exactKeys, WireBundle.toValue, Value.onlyKeys, Value.get?, List.lookup_cons,
    Value.list?, WireVote.exactKeys_toValue]

/-! ### Writing back what was read -/

/-- The texts, keys and integers of a vote are inside the ranges of the format. -/
structure WireVote.InRange (v : WireVote) : Prop where
  name : ∀ name ∈ v.name, (Value.text name.toWellFormed).encodable = true
  publicKey : (Value.bytes v.publicKey).encodable = true
  vote : (Value.int v.vote).encodable = true

/-- The fields of a bundle are inside the ranges of the format. -/
structure WireBundle.InRange (b : WireBundle) : Prop where
  address : (Value.bytes b.address).encodable = true
  blockNumber : (Value.int b.blockNumber).encodable = true
  signature : (Value.bytes b.signature).encodable = true
  type : (Value.text b.type.toWellFormed).encodable = true
  length : b.votes.length < 2 ^ 64
  votes : ∀ v ∈ b.votes, v.InRange

lemma WireVote.InRange.encodable {v : WireVote} (h : v.InRange) : v.toValue.encodable = true := by
  have hcommunity : v.community.encodable = true := by
    cases hn : v.name with
    | none =>
        rw [WireVote.community, hn]
        exact encodable_record ["publicKey"] (by decide) rfl (by simpa using h.publicKey)
    | some name =>
        rw [WireVote.community, hn]
        refine encodable_record ["name", "publicKey"] (by decide) rfl ?_
        simpa using ⟨h.name name hn, h.publicKey⟩
  refine encodable_record ["community", "vote"] (by decide) rfl ?_
  simpa using ⟨hcommunity, h.vote⟩

lemma WireBundle.InRange.encodable {b : WireBundle} (h : b.InRange) :
    b.toValue.encodable = true := by
  have hsig : (Value.map [("signature", .bytes b.signature),
      ("type", .text b.type.toWellFormed)]).encodable = true := by
    refine encodable_record ["signature", "type"] (by decide) rfl ?_
    simpa using ⟨h.signature, h.type⟩
  have hlist : (Value.list (b.votes.map WireVote.toValue)).encodable = true := by
    rw [encodable_list_iff, List.length_map, List.forall_mem_map]
    exact ⟨h.length, fun v hv => (h.votes v hv).encodable⟩
  refine encodable_record ["address", "blockNumber", "signature", "votes"] (by decide) rfl ?_
  simpa using ⟨h.address, h.blockNumber, hsig, hlist⟩

lemma WireVote.inRange_of_parse {w : Value} {v : WireVote} (hw : w.encodable = true)
    (h : WireVote.parse w = some v) : v.InRange := by
  obtain ⟨community, hcommunity, hname, hkey, hvote⟩ := WireVote.get?_of_parse h
  have hcommunity' := encodable_get? hw hcommunity
  refine ⟨fun name hn => ?_, encodable_get? hcommunity' hkey, encodable_get? hw hvote⟩
  rw [Option.mem_def.mp hn] at hname
  exact encodable_get? hcommunity' hname

/-- What the wire schema read can be encoded. -/
lemma WireBundle.inRange_of_parse {w : Value} {b : WireBundle} (hw : w.encodable = true)
    (h : WireBundle.parse w = some b) : b.InRange := by
  obtain ⟨signature, votes, haddress, hblock, hsignature, hbytes, htype, hvotes, hparsed⟩ :=
    WireBundle.get?_of_parse h
  have hsignature' := encodable_get? hw hsignature
  have hvotes' := encodable_get? hw hvotes
  exact
    { address := encodable_get? hw haddress
      blockNumber := encodable_get? hw hblock
      signature := encodable_get? hsignature' hbytes
      type := encodable_get? hsignature' htype
      length := by
        rw [List.length_of_mapM hparsed]
        exact (encodable_list_iff.mp hvotes').1
      votes := List.forall_mem_of_mapM hparsed fun x hx v hv =>
        WireVote.inRange_of_parse (encodable_of_mem hvotes' hx) hv }

/-- **A vote without foreign keys** is the map of its wire form. -/
lemma WireVote.canon_toValue {w : Value} {v : WireVote} (hw : w.encodable = true)
    (h : WireVote.parse w = some v) (hexact : WireVote.exactKeys w = true) :
    v.toValue.canon = w.canon := by
  obtain ⟨community, hcommunity, hname, hkey, hvote⟩ := WireVote.get?_of_parse h
  simp only [WireVote.exactKeys, hcommunity, Option.all_some, Bool.and_eq_true] at hexact
  have hcom : v.community.canon = community.canon := by
    rw [canon_eq_of_onlyKeys (by decide) (encodable_get? hw hcommunity) hkey hexact.2]
    cases hn : v.name <;> simp [WireVote.community, hname, hkey, hn]
  rw [canon_eq_of_onlyKeys (by decide) hw hcommunity hexact.1]
  refine canon_map_congr ?_
  simp [hcommunity, hvote, hcom]

/-- **A bundle without foreign keys** is the map of its wire form. -/
lemma WireBundle.canon_toValue {w : Value} {b : WireBundle} (hw : w.encodable = true)
    (h : WireBundle.parse w = some b) (hexact : WireBundle.exactKeys w = true) :
    b.toValue.canon = w.canon := by
  obtain ⟨signature, votes, haddress, hblock, hsignature, hbytes, htype, hvotes, hparsed⟩ :=
    WireBundle.get?_of_parse h
  simp only [WireBundle.exactKeys, hsignature, hvotes, Option.all_some, Bool.and_eq_true,
    Option.bind_eq_bind, Option.bind_some, Value.list?, List.all_eq_true] at hexact
  obtain ⟨⟨honly, honlySig⟩, hexactVotes⟩ := hexact
  have hsig : signature.canon = (Value.map [("signature", .bytes b.signature),
      ("type", .text b.type.toWellFormed)]).canon := by
    rw [canon_eq_of_onlyKeys (by decide) (encodable_get? hw hsignature) hbytes honlySig]
    simp [hbytes, htype]
  have hlist : (Value.list votes).canon = (Value.list (b.votes.map WireVote.toValue)).canon := by
    rw [canon_list, canon_list, List.map_map]
    congr 1
    exact (List.map_eq_map_of_mapM hparsed fun x hx v hv =>
      WireVote.canon_toValue (encodable_of_mem (encodable_get? hw hvotes) hx) hv
        (hexactVotes x hx)).symm
  rw [canon_eq_of_onlyKeys (by decide) hw haddress honly]
  refine canon_map_congr ?_
  simp [haddress, hblock, hsignature, hvotes, hsig, hlist]

/-- Encoding what the wire schema read gives the block it was read from exactly if the schema
stripped nothing and the block was canonical. -/
lemma encodeCanonical_toValue_iff {w : Value} {b : WireBundle} {x : Bytes}
    (hx : C.dagCborDecode x = some w) (h : WireBundle.parse w = some b) :
    C.encodeCanonical b.toValue = some x ↔
      C.encodeCanonical w = some x ∧ WireBundle.exactKeys w = true := by
  have hw := C.decode_encodable x w hx
  constructor
  · intro hb
    have hcanon : w = b.toValue.canon := Option.some.inj (hx.symm.trans (C.decode_encode _ x hb))
    have hb' := (WireBundle.inRange_of_parse hw h).encodable
    refine ⟨?_, ?_⟩
    · rw [hcanon, Codecs.encodeCanonical, C.encode_canon]
      exact hb
    · rw [hcanon, WireBundle.exactKeys_canon hb', WireBundle.exactKeys_toValue]
  · rintro ⟨hcanon, hexact⟩
    rw [Codecs.encodeCanonical_eq_iff hcanon]
    exact WireBundle.canon_toValue hw h hexact

/-! ### Decoding and encoding again -/

lemma toWireVote_fromWireVote (v : WireVote) : toWireVote C (fromWireVote C v) = some v := by
  simp [toWireVote, fromWireVote, publicKeyToBytes, publicKeyFromBytes, C.base58_decode_encode]

/-- **What was read from the wire is written back as the wire schema read it.** -/
theorem toWireBundle_of_fromWireBundle {w : Value} {b : VotesBundle}
    (h : fromWireBundle C w = some b) :
    ∃ wire, WireBundle.parse w = some wire ∧ toWireBundle C b = some wire := by
  simp only [fromWireBundle, Option.bind_eq_bind, Option.bind_eq_some_iff] at h
  obtain ⟨wire, hwire, h⟩ := h
  split_ifs at h with haddress hsignature
  rw [VotesBundle.parse_eq_some] at h
  obtain ⟨hschema, rfl⟩ := h
  refine ⟨wire, hwire, ?_⟩
  have hparse := VotesBundle.parse_eq_some.mpr ⟨hschema, rfl⟩
  have haddress' := hexToBytes_bytesToHex wire.address
  have hsignature' := hexToBytes_bytesToHex wire.signature
  rw [not_not.mp haddress] at haddress'
  rw [not_not.mp hsignature] at hsignature'
  have hvotes : (wire.votes.map (fromWireVote C)).mapM (toWireVote C) = some wire.votes := by
    rw [List.mapM_map]
    have hid : ∀ v ∈ wire.votes, (toWireVote C ∘ fromWireVote C) v = some (id v) :=
      fun v _ => toWireVote_fromWireVote v
    simpa using List.mapM_eq_some_of_forall hid
  simp [toWireBundle, hparse, haddress', hsignature', hvotes]

/-- A bundle that was read from the wire can be encoded again. -/
lemma encodeBundle_isSome_of_fromWireBundle {w : Value} {b : VotesBundle} (hw : w.encodable = true)
    (h : fromWireBundle C w = some b) : (encodeBundle C b).isSome := by
  obtain ⟨wire, hparse, hwire⟩ := toWireBundle_of_fromWireBundle h
  rw [encodeBundle, hwire]
  exact C.encode_isSome _ (WireBundle.inRange_of_parse hw hparse).encodable

/-- The texts of a vote are well-formed Unicode. -/
structure Vote.WellFormed (v : Vote) : Prop where
  name : ∀ name ∈ v.community.name, name.WellFormed
  publicKey : v.community.publicKey.WellFormed

/-- What was decoded holds well-formed texts only. -/
lemma wellFormed_of_decodeBundle {x : Bytes} {b : VotesBundle} (h : decodeBundle C x = some b) :
    ∀ v ∈ b.votes, v.WellFormed := by
  simp only [decodeBundle, fromWireBundle, Option.bind_eq_bind, Option.bind_eq_some_iff] at h
  obtain ⟨w, -, wire, hwire, h⟩ := h
  obtain ⟨-, votes, -, -, -, -, -, -, hvotes⟩ := WireBundle.get?_of_parse hwire
  split_ifs at h
  obtain ⟨-, rfl⟩ := VotesBundle.parse_eq_some.mp h
  simp only [List.forall_mem_map]
  refine List.forall_mem_of_mapM hvotes fun w _ v hv => ?_
  exact ⟨WireVote.wellFormed_of_parse hv, JsString.wellFormed_of_ascii (C.base58_ascii v.publicKey)⟩

/-- The block is the canonical encoding of what it decodes to, and no map in it holds a key the wire
schema does not name. -/
def CanonicalBlock (C : Codecs) (x : Bytes) : Prop :=
  ∃ w, C.dagCborDecode x = some w ∧ C.encodeCanonical w = some x ∧ WireBundle.exactKeys w = true

lemma encodeBundle_eq_iff {x : Bytes} {b : VotesBundle} (h : decodeBundle C x = some b) :
    encodeBundle C b = some x ↔ CanonicalBlock C x := by
  simp only [decodeBundle, Option.bind_eq_bind, Option.bind_eq_some_iff] at h
  obtain ⟨w, hx, h⟩ := h
  obtain ⟨wire, hparse, hwire⟩ := toWireBundle_of_fromWireBundle h
  have hencode : encodeBundle C b = C.encodeCanonical wire.toValue := by
    rw [encodeBundle, hwire]
    rfl
  rw [hencode, encodeCanonical_toValue_iff hx hparse]
  constructor
  · rintro ⟨hcanon, hexact⟩
    exact ⟨w, hx, hcanon, hexact⟩
  · rintro ⟨w', hx', hcanon, hexact⟩
    obtain rfl := Option.some.inj (hx.symm.trans hx')
    exact ⟨hcanon, hexact⟩

/-- **One block, one address.** A block is what its bundle encodes to, so that the address of the
raw bytes is the address of the re-encoding and no other canonical block, of which the wire schema
strips nothing either, is accepted as the same bundle, exactly if it is canonical and the schema
strips nothing from it. -/
theorem encodeBundle_decodeBundle_iff {x : Bytes} {b : VotesBundle}
    (h : decodeBundle C x = some b) :
    (encodeBundle C b = some x ∧ bundleCid C b = some (bundleCidForBytes C x)
        ∧ ∀ x', decodeBundle C x' = some b → CanonicalBlock C x' → x' = x)
      ↔ CanonicalBlock C x := by
  rw [← encodeBundle_eq_iff h]
  constructor
  · rintro ⟨hx, -, -⟩
    exact hx
  · intro hx
    refine ⟨hx, ?_, ?_⟩
    · rw [bundleCid, hx, Option.map_some]
    · intro x' h' hcanon
      have hx' := (encodeBundle_eq_iff h').mpr hcanon
      exact Option.some.inj (hx'.symm.trans hx)

end

/-! ### A block with two addresses -/

/-- A withdrawal block of the zero address, with further entries. -/
def withdrawalWire (extra : List (String × Value)) : Value :=
  .map ([("address", .bytes (List.replicate 20 0)), ("blockNumber", .int 0),
    ("signature", .map [("signature", .bytes (List.replicate 65 0)), ("type", .text "eip712")]),
    ("votes", .list [])] ++ extra)

/-- The bytes of the withdrawal. -/
def withdrawalBlock : Bytes := encodeRaw (withdrawalWire []).canon

/-- The bytes of the withdrawal with a `note` nobody reads. -/
def paddedBlock : Bytes := encodeRaw (withdrawalWire [("note", .null)]).canon

/-- The withdrawal both blocks decode to. -/
def withdrawal : VotesBundle where
  address := bytesToHex (List.replicate 20 0)
  votes := []
  blockNumber := 0
  signature := ⟨bytesToHex (List.replicate 65 0), JsString.ofString "eip712"⟩

lemma decodeBundle_withdrawalBlock :
    decodeBundle .reference withdrawalBlock = some withdrawal := by decide +kernel

lemma encodeBundle_withdrawal :
    encodeBundle .reference withdrawal = some withdrawalBlock := by decide +kernel

/-- The padded block is accepted, and its address is not that of the re-encoding. -/
theorem bundleCid_decodeBundle_ne :
    decodeBundle .reference paddedBlock = some withdrawal
      ∧ encodeBundle .reference withdrawal ≠ some paddedBlock
      ∧ bundleCid .reference withdrawal ≠ some (bundleCidForBytes .reference paddedBlock) := by
  decide +kernel

theorem encodeBundle_decodeBundle_iff_withdrawal :
    CanonicalBlock .reference withdrawalBlock
      ∧ bundleCid .reference withdrawal = some (bundleCidForBytes .reference withdrawalBlock) := by
  have hiff := encodeBundle_decodeBundle_iff decodeBundle_withdrawalBlock
  have hcanon := (encodeBundle_eq_iff decodeBundle_withdrawalBlock).mp encodeBundle_withdrawal
  exact ⟨hcanon, (hiff.mpr hcanon).2.1⟩

end PubsubVoting
