import PubsubVoting.Checkpoint.Codec
import PubsubVoting.Crdt.Codec
import PubsubVoting.Verify.Constraints

/-!
The pubsub messages: a bundle inlined as a live delta, or the root record of a checkpoint; and
the cap on the size of a bundle message.

* `encodeBundleMessage`, `decodeVoteMessage`: the payload codec.
* `encodeRootRecord`, `decodeRootRecord`: the record the fetch protocol serves.
* `WireBundle.size`: the length of a bundle block, field by field.
* `length_encodeBundleMessage_le_iff`: a bundle fits the cap derived from the criteria exactly if
  the fields whose bytes the cap does not bound (`bundleMessageSize`) stay within it.
* `bundleMessageSize_le`: names of at most 253 bytes and keys of at most 64 bytes suffice.
-/

namespace PubsubVoting

open Cbor

/-! ### The payload -/

/-- `MESSAGE_VERSION` -/
def messageVersion : ℕ := 1

/-- A checkpoint advertisement: a hint, never trusted. -/
structure RootRecord where
  version : ℕ
  root : Cid
  count : ℕ
  sizeBytes : ℕ
  deriving DecidableEq

/-- A decoded payload. -/
inductive VoteMessage where
  | bundle (bundle : Bytes)
  | root (record : RootRecord)
  deriving DecidableEq

/-- The envelope of a bundle message. -/
def bundleMessageValue (blockBytes : Bytes) : Value :=
  .map [("v", .int messageVersion), ("kind", .text "bundle"), ("bundle", .bytes blockBytes)]

/-- Encode one bundle's block bytes as a live-delta message. -/
def encodeBundleMessage (C : Codecs) (blockBytes : Bytes) : Option Bytes :=
  C.encodeCanonical (bundleMessageValue blockBytes)

/-- `RootRecordSchema`, a strict schema. -/
def RootRecord.parse (w : Value) : Option RootRecord := do
  let version ← w.get? "version" >>= Value.int?
  let root ← match w.get? "root" with
    | some (.link cid) => some cid
    | _ => none
  let count ← w.get? "count" >>= Value.int?
  let sizeBytes ← w.get? "sizeBytes" >>= Value.int?
  if isNonnegativeInt version && decide (1 ≤ version) && isNonnegativeInt count
      && isNonnegativeInt sizeBytes && w.onlyKeys ["version", "root", "count", "sizeBytes"] then
    some ⟨version.toNat, root, count.toNat, sizeBytes.toNat⟩
  else none

/-- `MessageSchema`, strict in both kinds. -/
def VoteMessage.parse (w : Value) : Option VoteMessage := do
  let kind ← w.get? "kind" >>= Value.text?
  let version ← w.get? "v" >>= Value.int?
  if version ≠ messageVersion then none
  else if kind = "bundle" then
    let bytes ← w.get? "bundle" >>= Value.bytes?
    if w.onlyKeys ["v", "kind", "bundle"] then some (.bundle bytes) else none
  else if kind = "root" then
    let record ← w.get? "record" >>= RootRecord.parse
    if w.onlyKeys ["v", "kind", "record"] then some (.root record) else none
  else none

/-- Decode a payload to its kind; `none` where the source throws. -/
def decodeVoteMessage (C : Codecs) (data : Bytes) : Option VoteMessage := do
  let w ← C.dagCborDecode data
  VoteMessage.parse w

/-- What was sent as a bundle message is read as one. -/
lemma decodeVoteMessage_encodeBundleMessage {C : Codecs} {block data : Bytes}
    (h : encodeBundleMessage C block = some data) :
    decodeVoteMessage C data = some (.bundle block) := by
  have hx := C.decode_encode _ _ h
  have hparse : VoteMessage.parse (bundleMessageValue block).canon = some (.bundle block) := by
    have henc := C.decode_encodable _ _ hx
    rw [encodable_canon] at henc
    have hkind : (bundleMessageValue block).canon.get? "kind" = some (.text "bundle") := by
      rw [get?_canon henc]
      rfl
    have hversion : (bundleMessageValue block).canon.get? "v" = some (.int messageVersion) := by
      rw [get?_canon henc]
      rfl
    have hbundle : (bundleMessageValue block).canon.get? "bundle" = some (.bytes block) := by
      rw [get?_canon henc]
      rfl
    have honly : (bundleMessageValue block).canon.onlyKeys ["v", "kind", "bundle"] = true := by
      rw [onlyKeys_canon]
      rfl
    simp [VoteMessage.parse, hkind, hversion, hbundle, honly, Value.text?, Value.int?, Value.bytes?]
  simp [decodeVoteMessage, hx, hparse]

/-! ### The root record of the fetch protocol -/

/-- The fetch-protocol root response: the advertisement and the chunk index. -/
structure FetchRootRecord extends RootRecord where
  chunks : List Cid
  deriving DecidableEq

/-- The record as a map. -/
def FetchRootRecord.toValue (record : FetchRootRecord) : Value :=
  .map [("version", .int record.version), ("root", .link record.root),
    ("chunks", .list (record.chunks.map .link)), ("count", .int record.count),
    ("sizeBytes", .int record.sizeBytes)]

/-- `FetchRootRecordSchema` on typed data. -/
def fetchRootRecordSchema (record : FetchRootRecord) : Bool :=
  isPositiveInt record.version && isNonnegativeInt record.count && isNonnegativeInt record.sizeBytes

/-- `FetchRootRecordSchema.parse` on a decoded value, a strict schema. -/
def FetchRootRecord.parse (w : Value) : Option FetchRootRecord := do
  let version ← w.get? "version" >>= Value.int?
  let root ← w.get? "root" >>= linkOf
  let links ← w.get? "chunks" >>= Value.list?
  let chunks ← links.mapM linkOf
  let count ← w.get? "count" >>= Value.int?
  let sizeBytes ← w.get? "sizeBytes" >>= Value.int?
  if isNonnegativeInt version && decide (1 ≤ version) && isNonnegativeInt count
      && isNonnegativeInt sizeBytes
      && w.onlyKeys ["version", "root", "chunks", "count", "sizeBytes"] then
    some ⟨⟨version.toNat, root, count.toNat, sizeBytes.toNat⟩, chunks⟩
  else none

/-- Encode a root record; `none` where the source throws. -/
def encodeRootRecord (C : Codecs) (record : FetchRootRecord) : Option Bytes :=
  if fetchRootRecordSchema record then C.encodeCanonical record.toValue else none

/-- Decode a root record; `none` where the source throws. -/
def decodeRootRecord (C : Codecs) (bytes : Bytes) : Option FetchRootRecord := do
  let w ← C.dagCborDecode bytes
  FetchRootRecord.parse w

/-- A map that holds the fields of a record, and no others, is read as the record. -/
lemma FetchRootRecord.parse_of_get? {record : FetchRootRecord} {w : Value}
    (hget : ∀ k ∈ ["version", "root", "chunks", "count", "sizeBytes"],
      w.get? k = (record.toValue.get? k).map Value.canon)
    (honly : w.onlyKeys ["version", "root", "chunks", "count", "sizeBytes"] = true)
    (hschema : fetchRootRecordSchema record = true) : FetchRootRecord.parse w = some record := by
  simp only [List.forall_mem_cons] at hget
  obtain ⟨hversion, hroot, hchunks, hcount, hsize, -⟩ := hget
  have hchunks' : w.get? "chunks"
      = some (.list ((record.chunks.map Value.link).map Value.canon)) := by
    rw [hchunks, ← canon_list]
    rfl
  have hlinks : ((record.chunks.map Value.link).map Value.canon).mapM linkOf
      = some (record.chunks.map id) := by
    rw [List.map_map, List.mapM_map]
    exact List.mapM_eq_some_of_forall fun cid _ => rfl
  rw [List.map_id] at hlinks
  change w.get? "version" = some (.int record.version) at hversion
  change w.get? "root" = some (.link record.root) at hroot
  change w.get? "count" = some (.int record.count) at hcount
  change w.get? "sizeBytes" = some (.int record.sizeBytes) at hsize
  simp only [fetchRootRecordSchema, isPositiveInt, Bool.and_eq_true, decide_eq_true_eq] at hschema
  obtain ⟨⟨⟨hint, hpos⟩, hcountInt⟩, hsizeInt⟩ := hschema
  have hnonneg : isNonnegativeInt (record.version : ℤ) = true := by
    simp [isNonnegativeInt, hint]
  have hpos' : (1 : ℤ) ≤ record.version := by exact_mod_cast hpos
  simp only [FetchRootRecord.parse, hversion, hroot, hchunks', hcount, hsize,
    Option.bind_eq_bind, Option.bind_some, Value.int?, Value.list?, linkOf, hlinks, hnonneg, hpos',
    hcountInt, hsizeInt, honly, decide_true, Bool.and_self, if_true, Int.toNat_natCast]

/-- A record that was encoded is read back. -/
lemma decodeRootRecord_encodeRootRecord {C : Codecs} {record : FetchRootRecord} {bytes : Bytes}
    (h : encodeRootRecord C record = some bytes) : decodeRootRecord C bytes = some record := by
  rw [encodeRootRecord] at h
  split_ifs at h with hschema
  have hx := C.decode_encode _ _ h
  have henc := C.decode_encodable _ _ hx
  rw [encodable_canon] at henc
  rw [decodeRootRecord, hx, Option.bind_eq_bind, Option.bind_some]
  refine FetchRootRecord.parse_of_get? (fun k _ => get?_canon henc k) ?_ hschema
  rw [onlyKeys_canon]
  rfl

/-! ### The size cap -/

/-- `MAX_ROOT_MESSAGE_BYTES` -/
def maxRootMessageBytes : ℕ := 256

/-- `BUNDLE_MESSAGE_OVERHEAD_BYTES` -/
def bundleMessageOverheadBytes : ℕ := 256

/-- `MAX_VOTE_ENTRY_BYTES` -/
def maxVoteEntryBytes : ℕ := 512

/-- The per-message cap for a bundle-kind message. -/
def maxBundleMessageBytes (criteria : Criteria) : ℕ :=
  bundleMessageOverheadBytes + maxVoteEntryBytes * criteria.maxVotesPerAddress

/-- The encoded length of an integer. -/
def intSize (n : ℤ) : ℕ := (Value.int n).size

/-- The encoded length of a name as a map entry: its key, a head, its UTF-8 bytes. -/
def nameSize (name : JsString) : ℕ :=
  5 + headSize (utf8 name.toWellFormed).length + (utf8 name.toWellFormed).length

/-- The encoded length of one vote. -/
def WireVote.size (v : WireVote) : ℕ :=
  27 + (v.name.map nameSize).getD 0 + (headSize v.publicKey.length + v.publicKey.length)
    + intSize v.vote

/-- The encoded length of a bundle block. -/
def WireBundle.size (b : WireBundle) : ℕ :=
  53 + (headSize b.address.length + b.address.length) + intSize b.blockNumber
    + (headSize b.signature.length + b.signature.length)
    + (headSize (utf8 b.type.toWellFormed).length + (utf8 b.type.toWellFormed).length)
    + headSize b.votes.length + (b.votes.map WireVote.size).sum

lemma WireVote.size_toValue (v : WireVote) : v.toValue.size = v.size := by
  have hcommunity : (utf8 "community").length = 9 := by decide
  have hname : (utf8 "name").length = 4 := by decide
  have hkey : (utf8 "publicKey").length = 9 := by decide
  have hvote : (utf8 "vote").length = 4 := by decide
  cases hn : v.name with
  | none =>
      simp only [WireVote.toValue, WireVote.community, WireVote.size, hn, Value.size, sizeEntries,
        hcommunity, hkey, hvote, intSize, Option.map_none, Option.toList_none, List.nil_append,
        Option.getD_none, List.length_cons, List.length_nil]
      norm_num [headSize]
      omega
  | some name =>
      simp only [WireVote.toValue, WireVote.community, WireVote.size, hn, Value.size, sizeEntries,
        hcommunity, hname, hkey, hvote, intSize, nameSize, Option.map_some, Option.toList_some,
        List.cons_append, List.nil_append, Option.getD_some, List.length_cons, List.length_nil]
      norm_num [headSize]
      omega

lemma WireBundle.size_toValue (b : WireBundle) : b.toValue.size = b.size := by
  have haddress : (utf8 "address").length = 7 := by decide
  have hblock : (utf8 "blockNumber").length = 11 := by decide
  have hsignature : (utf8 "signature").length = 9 := by decide
  have htype : (utf8 "type").length = 4 := by decide
  have hvotes : (utf8 "votes").length = 5 := by decide
  have hsum : sizeList (b.votes.map WireVote.toValue) = (b.votes.map WireVote.size).sum := by
    rw [sizeList_eq_sum, List.map_map]
    congr 1
    exact List.map_congr_left fun v _ => WireVote.size_toValue v
  simp only [WireBundle.toValue, WireBundle.size, Value.size, sizeEntries, haddress, hblock,
    hsignature, htype, hvotes, hsum, intSize, List.length_cons, List.length_nil, List.length_map]
  norm_num [headSize]
  omega

section

variable (C : Codecs)

/-- The number of bytes behind a base58 key. -/
def keyLength (publicKey : JsString) : ℕ := ((C.base58Decode publicKey).map List.length).getD 0

/-- What one vote takes up in a block, from its name in UTF-8, its key in raw bytes and its
value. -/
def voteEntrySize (v : Vote) : ℕ :=
  27 + (v.community.name.map nameSize).getD 0
    + (headSize (keyLength C v.community.publicKey) + keyLength C v.community.publicKey)
    + intSize v.vote

/-- What an `eip712` bundle takes up as a block: its fixed fields, its block number, its votes. -/
def bundleBlockSize (b : VotesBundle) : ℕ :=
  148 + intSize b.blockNumber + headSize b.votes.length + (b.votes.map (voteEntrySize C)).sum

/-- What it takes up as a message. -/
def bundleMessageSize (b : VotesBundle) : ℕ :=
  23 + headSize (bundleBlockSize C b) + bundleBlockSize C b

variable {C}

lemma size_toWireVote {v : Vote} {wire : WireVote} (h : toWireVote C v = some wire) :
    wire.size = voteEntrySize C v := by
  obtain ⟨key, hkey, rfl⟩ := toWireVote_eq_some_iff.mp h
  simp [WireVote.size, voteEntrySize, keyLength, hkey]

lemma length_encodeBundle {b : VotesBundle} {block : Bytes}
    (htype : b.signature.type = JsString.ofString "eip712") (h : encodeBundle C b = some block) :
    block.length = bundleBlockSize C b := by
  obtain ⟨wire, hwire, hblock⟩ := encodeBundle_eq_some_iff.mp h
  obtain ⟨-, haddress, hsignature, hvotes, hnumber, htype'⟩ := toWireBundle_eq_some_iff.mp hwire
  have hsum : (wire.votes.map WireVote.size).sum = (b.votes.map (voteEntrySize C)).sum := by
    congr 1
    exact List.map_eq_map_of_mapM hvotes fun v _ wire' h' => size_toWireVote h'
  have htext : (utf8 wire.type.toWellFormed).length = 6 := by
    rw [htype', htype, JsString.toWellFormed_ofString]
    decide
  rw [C.length_encode _ _ hblock, WireBundle.size_toValue, WireBundle.size, bundleBlockSize, hsum,
    hnumber, htext, length_hexToBytes haddress, length_hexToBytes hsignature,
    List.length_of_mapM hvotes]
  norm_num [headSize, addressBytes, signatureBytes]
  omega

lemma length_encodeBundleMessage {block data : Bytes}
    (h : encodeBundleMessage C block = some data) :
    data.length = 23 + headSize block.length + block.length := by
  have hv : (utf8 "v").length = 1 := by decide
  have hkind : (utf8 "kind").length = 4 := by decide
  have hbundle : (utf8 "bundle").length = 6 := by decide
  rw [C.length_encode _ _ h]
  simp only [bundleMessageValue, Value.size, sizeEntries, hv, hkind, hbundle, messageVersion,
    List.length_cons, List.length_nil]
  norm_num [headSize]
  omega

/-- **The derived cap**: the message of a bundle stays within it exactly if the bytes of its fields
do, names counted in UTF-8 and keys as raw multihashes. -/
theorem length_encodeBundleMessage_le_iff {criteria : Criteria} {b : VotesBundle}
    {block data : Bytes} (htype : b.signature.type = JsString.ofString "eip712")
    (hblock : encodeBundle C b = some block) (hdata : encodeBundleMessage C block = some data) :
    data.length ≤ maxBundleMessageBytes criteria ↔
      bundleMessageSize C b ≤ 256 + 512 * criteria.maxVotesPerAddress := by
  rw [length_encodeBundleMessage hdata, length_encodeBundle htype hblock, bundleMessageSize,
    maxBundleMessageBytes, bundleMessageOverheadBytes, maxVoteEntryBytes]

lemma intSize_le_nine (n : ℤ) : intSize n ≤ 9 := by
  simp only [intSize, Value.size]
  split_ifs <;> exact headSize_le_nine _

/-- The entry the cap budgets for: a name of at most 253 bytes and a key of at most 64. -/
lemma voteEntrySize_le {v : Vote}
    (hname : ∀ name ∈ v.community.name, (utf8 name.toWellFormed).length ≤ 253)
    (hkey : keyLength C v.community.publicKey ≤ 64) : voteEntrySize C v ≤ 362 := by
  have hint := intSize_le_nine v.vote
  have hkeyHead : headSize (keyLength C v.community.publicKey) ≤ 2 :=
    headSize_mono (show keyLength C v.community.publicKey ≤ 255 by omega)
  have hnameSize : (v.community.name.map nameSize).getD 0 ≤ 260 := by
    cases hn : v.community.name with
    | none => simp
    | some name =>
        have hlen := hname name hn
        have hhead : headSize (utf8 name.toWellFormed).length ≤ 2 :=
          headSize_mono (show (utf8 name.toWellFormed).length ≤ 255 by omega)
        simp only [Option.map_some, Option.getD_some, nameSize]
        omega
  rw [voteEntrySize]
  omega

/-- Under the entry bounds the cap was derived from, every bundle fits. -/
lemma bundleMessageSize_le {b : VotesBundle} {n : ℕ} (hvotes : b.votes.length ≤ n)
    (hentry : ∀ v ∈ b.votes, (∀ name ∈ v.community.name, (utf8 name.toWellFormed).length ≤ 253)
      ∧ keyLength C v.community.publicKey ≤ 64) :
    bundleMessageSize C b ≤ 256 + 512 * n := by
  have hsum : (b.votes.map (voteEntrySize C)).sum ≤ b.votes.length * 362 := by
    rw [← List.length_map (f := voteEntrySize C), ← smul_eq_mul]
    refine List.sum_le_card_nsmul _ 362 ?_
    rw [List.forall_mem_map]
    exact fun v hv => voteEntrySize_le (hentry v hv).1 (hentry v hv).2
  have hint := intSize_le_nine b.blockNumber
  have hhead := headSize_le_nine b.votes.length
  have hhead' := headSize_le_nine (bundleBlockSize C b)
  have hblock : bundleBlockSize C b ≤ 166 + b.votes.length * 362 := by
    rw [bundleBlockSize]
    omega
  rw [bundleMessageSize]
  omega

end

/-! ### A bundle over the cap -/

/-- A name of 253 units, most of them three bytes in UTF-8. -/
def longName : JsString := List.replicate 251 0x4e00 ++ JsString.ofString ".b"

/-- A bundle with one vote, for a community of the given name. -/
def namedBundle (name : JsString) : VotesBundle where
  address := bytesToHex (List.replicate 20 0)
  votes := [⟨⟨some name, JsString.ofString "11"⟩, 1⟩]
  blockNumber := 0
  signature := ⟨bytesToHex (List.replicate 65 0), JsString.ofString "eip712"⟩

/-- A contest of one vote per wallet. -/
def oneVoteCriteria : Criteria where
  name := JsString.ofString "c"
  contestId := JsString.ofString "c"
  voteSchema := ⟨1, 1⟩
  maxVotesPerAddress := 1
  bucketChainId := 1
  blocksPerBucket := 1
  voteExpiryBuckets := 1
  gate := .rule ⟨JsString.ofString "r", []⟩
  weight := ⟨JsString.ofString "r", []⟩
  requires := [JsString.ofString "r"]

/-- The UTF-8 length of a string, from its scalar values. -/
lemma length_utf8_toWellFormed (s : JsString) :
    (utf8 s.toWellFormed).length = (s.scalars.map Char.utf8Size).sum := by
  rw [length_utf8, JsString.toWellFormed, String.toList_ofList]

/-- Its wire form. -/
def namedWire (name : JsString) : WireBundle where
  address := List.replicate 20 0
  blockNumber := 0
  signature := List.replicate 65 0
  type := JsString.ofString "eip712"
  votes := [⟨some name, [0, 0], 1⟩]

lemma base58Decode_identity : Base58.decode (JsString.ofString "11") = some [0, 0] := by
  decide +kernel

lemma votesBundleSchema_namedBundle {name : JsString} (hname : nameSchema name = true) :
    votesBundleSchema .reference (namedBundle name) = true := by
  have hkey : isB58IpnsKey .reference (JsString.ofString "11") = true :=
    isB58IpnsKey_iff.mpr ⟨[0, 0], base58Decode_identity, by decide⟩
  have hsignature : signatureSchema
      ⟨bytesToHex (List.replicate 65 0), JsString.ofString "eip712"⟩ = true := by decide +kernel
  rw [votesBundleSchema_iff]
  refine ⟨by simp [namedBundle, bytesToHex], ?_, by simp [namedBundle], hsignature,
    by simp [namedBundle, VotesBundle.publicKeys]⟩
  simp only [namedBundle, List.mem_singleton, forall_eq, voteSchema_iff]
  exact ⟨by simpa using hname, by decide, hkey, by decide⟩

lemma toWireBundle_namedBundle {name : JsString} (hname : nameSchema name = true) :
    toWireBundle .reference (namedBundle name) = some (namedWire name) := by
  rw [toWireBundle_eq_some_iff]
  refine ⟨votesBundleSchema_namedBundle hname, hexToBytes_bytesToHex _, hexToBytes_bytesToHex _, ?_,
    rfl, rfl⟩
  rw [List.mapM_eq_some_iff]
  exact List.Forall₂.cons (toWireVote_eq_some_iff.mpr ⟨[0, 0], base58Decode_identity, rfl⟩)
    List.Forall₂.nil

lemma inRange_namedWire {name : JsString} (hlen : (utf8 name.toWellFormed).length < 2 ^ 64) :
    (namedWire name).InRange where
  address := by simp [namedWire, Value.encodable]
  blockNumber := by simp [namedWire, Value.encodable]
  signature := by simp [namedWire, Value.encodable]
  type := by
    have h : (utf8 (JsString.ofString "eip712").toWellFormed).length = 6 := by decide +kernel
    simp [namedWire, Value.encodable, h]
  length := by simp [namedWire]
  votes := by
    simp only [namedWire, List.mem_singleton, forall_eq]
    exact ⟨by simpa [Value.encodable] using hlen, by simp [Value.encodable],
      by simp [Value.encodable]⟩

lemma bundleBlockSize_namedBundle (name : JsString) :
    bundleBlockSize .reference (namedBundle name) = 181 + nameSize name := by
  have hkey : keyLength .reference (JsString.ofString "11") = 2 := by
    simp [keyLength, Codecs.reference, base58Decode_identity]
  simp only [bundleBlockSize, namedBundle, voteEntrySize, hkey, List.map_cons, List.map_nil,
    List.sum_cons, List.sum_nil, Option.map_some, Option.getD_some, List.length_singleton,
    show headSize 1 = 1 from rfl, show headSize 2 = 1 from rfl, show intSize 1 = 1 from rfl,
    show intSize ((0 : ℕ) : ℤ) = 1 from rfl]
  omega

/-- A bundle of that form goes out as a message whenever its name is valid. -/
lemma exists_encodeBundleMessage {name : JsString} (hname : nameSchema name = true)
    (hlen : (utf8 name.toWellFormed).length < 2 ^ 32) :
    ∃ block data, encodeBundle .reference (namedBundle name) = some block
      ∧ encodeBundleMessage .reference block = some data := by
  have hrange := inRange_namedWire (hlen.trans (by norm_num))
  obtain ⟨block, hblock⟩ := Option.isSome_iff_exists.mp
    (Codecs.reference.encode_isSome _ hrange.encodable)
  have hencode := encodeBundle_eq_some_iff.mpr ⟨_, toWireBundle_namedBundle hname, hblock⟩
  have hlength : block.length < 2 ^ 64 := by
    rw [length_encodeBundle rfl hencode, bundleBlockSize_namedBundle, nameSize]
    have hhead := headSize_le_nine (utf8 name.toWellFormed).length
    omega
  have henc : (bundleMessageValue block).encodable = true := by
    refine encodable_record ["v", "kind", "bundle"] (by decide) rfl ?_
    simp only [List.mem_cons, List.not_mem_nil, or_false, forall_eq_or_imp, forall_eq]
    refine ⟨by decide, by decide +kernel, ?_⟩
    simpa only [Value.encodable, decide_eq_true_eq] using hlength
  obtain ⟨data, hdata⟩ := Option.isSome_iff_exists.mp (Codecs.reference.encode_isSome _ henc)
  exact ⟨block, data, hencode, hdata⟩

lemma length_utf8_longName : (utf8 longName.toWellFormed).length = 755 := by
  rw [length_utf8_toWellFormed]
  decide +kernel

/-- A bundle the schema and the constraints accept, whose message is over the cap. -/
theorem maxBundleMessageBytes_lt_longName :
    criteriaSchema .reference oneVoteCriteria = true
      ∧ votesBundleSchema .reference (namedBundle longName) = true
      ∧ checkBundleConstraints (namedBundle longName) oneVoteCriteria = .ok ()
      ∧ ∃ block data, encodeBundle .reference (namedBundle longName) = some block
          ∧ encodeBundleMessage .reference block = some data
          ∧ maxBundleMessageBytes oneVoteCriteria < data.length := by
  have hname : nameSchema longName = true := by decide +kernel
  have hconstraints : checkBundleConstraints (namedBundle longName) oneVoteCriteria = .ok () :=
    checkBundleConstraints_ok_iff.mpr (by simp [namedBundle, oneVoteCriteria])
  obtain ⟨block, data, hblock, hdata⟩ :=
    exists_encodeBundleMessage hname (by rw [length_utf8_longName]; norm_num)
  refine ⟨by decide +kernel, votesBundleSchema_namedBundle hname, hconstraints, block, data, hblock,
    hdata, ?_⟩
  rw [length_encodeBundleMessage hdata, length_encodeBundle rfl hblock, bundleBlockSize_namedBundle,
    nameSize, length_utf8_longName]
  decide

theorem length_encodeBundleMessage_le_iff_short :
    ∃ block data, encodeBundle .reference (namedBundle (JsString.ofString "a.b")) = some block
      ∧ encodeBundleMessage .reference block = some data
      ∧ data.length ≤ maxBundleMessageBytes oneVoteCriteria := by
  have hutf8 : (utf8 (JsString.ofString "a.b").toWellFormed).length = 3 := by
    rw [JsString.toWellFormed_ofString]
    decide
  obtain ⟨block, data, hblock, hdata⟩ := exists_encodeBundleMessage
    (show nameSchema (JsString.ofString "a.b") = true by decide +kernel) (by rw [hutf8]; norm_num)
  refine ⟨block, data, hblock, hdata, (length_encodeBundleMessage_le_iff rfl hblock hdata).mpr ?_⟩
  rw [bundleMessageSize, bundleBlockSize_namedBundle, nameSize, hutf8]
  decide

end PubsubVoting
