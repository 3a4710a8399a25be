import PubsubVoting.Transport.Messages

/-!
The keys of the fetch protocol, and the bulk answer: the root records of all contests of a peer in
one map, each with its chunk blocks inlined while there is room.

* `rootFetchKey`, `bulkRootsFetchKey`, `topicOfRootKey?`: the keys; `topicOfRootKey?_rootFetchKey`:
  a per-topic key names its topic, and is not the bulk key.
* `encodeBulkRootRecords`, `decodeBulkRootRecords`: the codec of the answer.
* `decodeBulkRootRecords_encode`: a decoded answer holds the records that were encoded.
* `encodeRootRecord_of_bulk`: a record that went into an answer can be encoded alone.
-/

namespace PubsubVoting

open Cbor

/-! ### Keys -/

/-- `TOPIC_PREFIX` -/
def topicPrefix : String := "bitsocial-votes/"

/-- `ROOT_FETCH_KEY_SUFFIX` -/
def rootFetchKeySuffix : String := "/root"

/-- The fetch-protocol key of one contest's root record. -/
def rootFetchKey (topic : String) : String := topic ++ rootFetchKeySuffix

/-- `BULK_ROOTS_FETCH_KEY` -/
def bulkRootsFetchKey : String := topicPrefix ++ "roots"

/-- The topic of a per-topic key; `none` for a key of another shape. -/
def topicOfRootKey? (key : String) : Option String :=
  if rootFetchKeySuffix.toList.isSuffixOf key.toList then
    some (String.ofList (key.toList.take (key.toList.length - rootFetchKeySuffix.toList.length)))
  else none

lemma topicOfRootKey?_rootFetchKey (topic : String) :
    topicOfRootKey? (rootFetchKey topic) = some topic := by
  have hlist : (rootFetchKey topic).toList = topic.toList ++ rootFetchKeySuffix.toList :=
    String.toList_append
  rw [topicOfRootKey?, hlist, if_pos (List.isSuffixOf_iff_suffix.mpr (List.suffix_append _ _)),
    List.length_append, Nat.add_sub_cancel, List.take_left, String.ofList_toList]

lemma rootFetchKey_ne_bulk (topic : String) : rootFetchKey topic ≠ bulkRootsFetchKey := by
  intro h
  have hbulk : topicOfRootKey? bulkRootsFetchKey = none := by decide
  have htopic := topicOfRootKey?_rootFetchKey topic
  rw [h, hbulk] at htopic
  cases htopic

/-! ### The bulk answer -/

/-- `BULK_ROOTS_MAX_RECORDS` -/
def bulkRootsMaxRecords : ℕ := 512

/-- `BULK_ROOTS_MAX_INLINE_BYTES` -/
def bulkRootsMaxInlineBytes : ℕ := 512 * 1024

/-- One entry of the answer: the record, with its chunk blocks inlined or without them. -/
structure BulkFetchRootRecord extends FetchRootRecord where
  chunkBlocks : Option (List Bytes)
  deriving DecidableEq

/-- The answer: the records by topic. -/
abbrev BulkRootRecords := JsMap String BulkFetchRootRecord

/-- The keys of a root record. -/
def fetchRootRecordKeys : List String := ["version", "root", "chunks", "count", "sizeBytes"]

/-- An entry as a map. -/
def BulkFetchRootRecord.toValue (entry : BulkFetchRootRecord) : Value :=
  .map ((entry.chunkBlocks.map fun blocks => ("chunkBlocks", Value.list (blocks.map .bytes))).toList
    ++ [("version", .int entry.version), ("root", .link entry.root),
      ("chunks", .list (entry.chunks.map .link)), ("count", .int entry.count),
      ("sizeBytes", .int entry.sizeBytes)])

/-- `BulkFetchRootRecordSchema.parse`: the schema of the record, with the inlined blocks beside it.
-/
def BulkFetchRootRecord.parse (w : Value) : Option BulkFetchRootRecord := do
  let record ← FetchRootRecord.parse (w.without "chunkBlocks")
  match w.get? "chunkBlocks" with
  | none => some ⟨record, none⟩
  | some v => do
      let blocks ← v.list?
      let chunkBlocks ← blocks.mapM Value.bytes?
      some ⟨record, some chunkBlocks⟩

/-- Encode a bulk answer; `none` where the source throws. -/
def encodeBulkRootRecords (C : Codecs) (records : BulkRootRecords) : Option Bytes :=
  if records.entries.all fun e => fetchRootRecordSchema e.2.toFetchRootRecord then
    C.encodeCanonical (.map (records.entries.map fun e => (e.1, e.2.toValue)))
  else none

/-- Decode a bulk answer; `none` where the source throws. -/
def decodeBulkRootRecords (C : Codecs) (bytes : Bytes) : Option BulkRootRecords := do
  let w ← C.dagCborDecode bytes
  let entries ← w.entries?
  let records ← entries.mapM fun e => (BulkFetchRootRecord.parse e.2).map (e.1, ·)
  some (.ofEntries records)

/-! ### The round trip -/

lemma get?_toValue_of_ne (entry : BulkFetchRootRecord) {k : String} (hk : k ≠ "chunkBlocks") :
    entry.toValue.get? k = entry.toFetchRootRecord.toValue.get? k := by
  have hne : (k == "chunkBlocks") = false := beq_false_of_ne hk
  rw [BulkFetchRootRecord.toValue]
  cases entry.chunkBlocks with
  | none => rfl
  | some blocks =>
      show List.lookup k (("chunkBlocks", _) :: _) = _
      rw [List.lookup_cons, hne]
      rfl

lemma get?_toValue_chunkBlocks (entry : BulkFetchRootRecord) :
    entry.toValue.get? "chunkBlocks"
      = entry.chunkBlocks.map fun blocks => Value.list (blocks.map .bytes) := by
  rw [BulkFetchRootRecord.toValue]
  cases entry.chunkBlocks with
  | none => rfl
  | some blocks => rfl

lemma onlyKeys_toValue (entry : BulkFetchRootRecord) :
    entry.toValue.onlyKeys ("chunkBlocks" :: fetchRootRecordKeys) = true := by
  rw [BulkFetchRootRecord.toValue]
  cases entry.chunkBlocks with
  | none => rfl
  | some blocks => rfl

/-- A map that holds the fields of an entry, and no others, is read as the entry. -/
lemma parse_bulk_canon {entry : BulkFetchRootRecord} (henc : entry.toValue.encodable = true)
    (hschema : fetchRootRecordSchema entry.toFetchRootRecord = true) :
    BulkFetchRootRecord.parse entry.toValue.canon = some entry := by
  have hne : ∀ k ∈ fetchRootRecordKeys, k ≠ "chunkBlocks" := by decide
  have hrecord : FetchRootRecord.parse (entry.toValue.canon.without "chunkBlocks")
      = some entry.toFetchRootRecord := by
    refine FetchRootRecord.parse_of_get? (fun k hk => ?_) (Value.onlyKeys_without ?_) hschema
    · rw [Value.get?_without (hne k hk), get?_canon henc, get?_toValue_of_ne entry (hne k hk)]
    · rw [onlyKeys_canon]
      exact onlyKeys_toValue entry
  have hblocks : entry.toValue.canon.get? "chunkBlocks"
      = entry.chunkBlocks.map fun blocks =>
          Value.list ((blocks.map Value.bytes).map Value.canon) := by
    rw [get?_canon henc, get?_toValue_chunkBlocks]
    cases entry.chunkBlocks with
    | none => rfl
    | some blocks => exact congrArg some (canon_list _)
  rw [BulkFetchRootRecord.parse, hrecord, hblocks, Option.bind_eq_bind, Option.bind_some]
  obtain ⟨record, chunkBlocks⟩ := entry
  cases chunkBlocks with
  | none => rfl
  | some blocks =>
      have hbytes : ((blocks.map Value.bytes).map Value.canon).mapM Value.bytes?
          = some (blocks.map id) := by
        rw [List.map_map, List.mapM_map]
        exact List.mapM_eq_some_of_forall fun block _ => rfl
      rw [List.map_id] at hbytes
      show (Value.list? _).bind _ = _
      rw [Value.list?, Option.bind_some, hbytes]
      rfl

lemma encodable_of_encodeCanonical {C : Codecs} {v : Value} {bytes : Bytes}
    (h : C.encodeCanonical v = some bytes) : v.encodable = true := by
  have henc := C.decode_encodable _ _ (C.decode_encode _ _ h)
  rwa [encodable_canon] at henc

/-- What is known of an answer that was encoded. -/
lemma encodeBulkRootRecords_eq_some {C : Codecs} {records : BulkRootRecords} {bytes : Bytes}
    (h : encodeBulkRootRecords C records = some bytes) :
    (∀ e ∈ records.entries, fetchRootRecordSchema e.2.toFetchRootRecord = true) ∧
      C.encodeCanonical (.map (records.entries.map fun e => (e.1, e.2.toValue))) = some bytes := by
  rw [encodeBulkRootRecords] at h
  split_ifs at h with hschema
  exact ⟨List.all_eq_true.mp hschema, h⟩

/-- **A decoded answer** holds the records that were encoded. -/
theorem decodeBulkRootRecords_encode {C : Codecs} {records : BulkRootRecords} {bytes : Bytes}
    (h : encodeBulkRootRecords C records = some bytes) :
    ∃ decoded, decodeBulkRootRecords C bytes = some decoded ∧
      ∀ topic, decoded.get? topic = records.get? topic := by
  obtain ⟨hschema, hbytes⟩ := encodeBulkRootRecords_eq_some h
  have henc := encodable_of_encodeCanonical hbytes
  have hvalue : ∀ e ∈ records.entries, e.2.toValue.encodable = true := fun e he =>
    ((encodable_map_iff.mp henc).2.2 _ (List.mem_map_of_mem he)).2
  -- the entries come back sorted by key, each in canonical form
  let image : String × BulkFetchRootRecord → String × Value := fun e => (e.1, e.2.toValue.canon)
  obtain ⟨sorted, hsorted, hcanon⟩ : ∃ sorted, sorted.Perm (records.entries.map image) ∧
      (Value.map (records.entries.map fun e => (e.1, e.2.toValue))).canon = .map sorted := by
    refine ⟨_, ?_, Value.canon.eq_def _⟩
    rw [canonEntries_eq_map, List.map_map]
    exact List.perm_insertionSort _ _
  obtain ⟨decoded, hdecoded, hrel⟩ : ∃ decoded,
      sorted.mapM (fun e => (BulkFetchRootRecord.parse e.2).map (e.1, ·)) = some decoded ∧
        List.Forall₂ (fun x y => x = image y ∧ y ∈ records.entries) sorted decoded := by
    refine List.exists_mapM_of_forall fun x hx => ?_
    obtain ⟨e, he, rfl⟩ := List.mem_map.mp (hsorted.mem_iff.mp hx)
    refine ⟨e, ?_, rfl, he⟩
    show (BulkFetchRootRecord.parse e.2.toValue.canon).map (e.1, ·) = some e
    rw [parse_bulk_canon (hvalue e he) (hschema e he)]
    rfl
  have himage : sorted = decoded.map image := by
    have hall : List.Forall₂ (fun x y => x = image y) sorted decoded := hrel.imp fun _ _ h => h.1
    rwa [← List.forall₂_map_right_iff, List.forall₂_eq_eq_eq] at hall
  have hkeys : (decoded.map Prod.fst).Perm (records.entries.map Prod.fst) := by
    have himages : ((decoded.map image).map Prod.fst).Perm
        ((records.entries.map image).map Prod.fst) := by
      rw [← himage]
      exact hsorted.map Prod.fst
    rwa [List.map_map, List.map_map] at himages
  have hnodup : (decoded.map Prod.fst).Nodup := hkeys.nodup_iff.mpr records.nodup
  have hmem : ∀ e ∈ decoded, e ∈ records.entries := by
    have hflip : List.Forall₂ (fun y x => y ∈ records.entries ∧ x = image y) decoded sorted :=
      hrel.flip.imp fun _ _ h => h.symm
    exact ((List.forall₂_and_left _ _).mp hflip).1
  have hperm : decoded.Perm records.entries := by
    refine (List.perm_ext_iff_of_nodup (.of_map _ hnodup) (.of_map _ records.nodup)).mpr fun e =>
      ⟨hmem e, fun he => ?_⟩
    have himg : image e ∈ decoded.map image :=
      himage ▸ hsorted.mem_iff.mpr (List.mem_map_of_mem he)
    obtain ⟨e', he', heq⟩ := List.mem_map.mp himg
    have hkey : (image e').1 = (image e).1 := congrArg Prod.fst heq
    exact List.inj_on_of_nodup_map records.nodup (hmem e' he') he hkey ▸ he'
  refine ⟨.ofEntries decoded, ?_, fun topic => ?_⟩
  · rw [decodeBulkRootRecords, C.decode_encode _ _ hbytes, hcanon]
    show (Option.bind (sorted.mapM _) fun records => some (JsMap.ofEntries records)) = _
    rw [hdecoded]
    rfl
  · refine Option.ext fun entry => ?_
    rw [JsMap.get?_ofEntries hnodup, hperm.mem_iff, JsMap.get?_eq_some_iff]

/-- A record that went into an answer can be encoded alone. -/
lemma encodeRootRecord_of_bulk {C : Codecs} {records : BulkRootRecords} {bytes : Bytes}
    (h : encodeBulkRootRecords C records = some bytes) {topic : String}
    {entry : BulkFetchRootRecord} (hentry : records.get? topic = some entry) :
    (encodeRootRecord C entry.toFetchRootRecord).isSome = true := by
  obtain ⟨hschema, hbytes⟩ := encodeBulkRootRecords_eq_some h
  have hmem := JsMap.get?_eq_some_iff.mp hentry
  have hmap : entry.toValue.encodable = true :=
    ((encodable_map_iff.mp (encodable_of_encodeCanonical hbytes)).2.2 _
      (List.mem_map_of_mem hmem)).2
  have henc : entry.toFetchRootRecord.toValue.encodable = true := by
    obtain ⟨hlength, hnodup, hvalues⟩ := encodable_map_iff.mp hmap
    refine encodable_map_iff.mpr ⟨lt_of_le_of_lt ?_ hlength, ?_, fun e he => hvalues e ?_⟩
    · exact (List.sublist_append_right _ _).length_le
    · exact ((List.sublist_append_right _ _).map Prod.fst).nodup hnodup
    · exact List.mem_append_right _ he
  rw [encodeRootRecord, if_pos (hschema _ hmem)]
  exact C.encode_isSome _ henc

end PubsubVoting
