import PubsubVoting.Checkpoint.Encode
import PubsubVoting.Transport.Messages

/-!
What a checkpoint root binds, and the snapshot a voter keeps of its own checkpoint.

* `checkpointChunks_binds`: no source and no claimed index leads from a root to other chunks.
* `decodeCheckpoint_binds`: decoding a root fails or gives the winners it was made of.
* `encodeSnapshot`, `decodeSnapshot`, `decodeSnapshot_encodeSnapshot`: the persisted blob.
* `restoreWinners_snapshotBlob`: what a written blob restores.
* `restoreWinners_binds`: a blob that decodes to a root restores the winners of that root.
-/

namespace PubsubVoting

open Cbor

/-! ### What a root binds -/

/-- The blocks that take part in decoding a checkpoint: its own, those the source serves, and the
manifest of the claimed index. -/
def decodedBytes (C : Codecs) (result : EncodedCheckpoint) (getBlock : Cid → Option Bytes)
    (index : Option (List Cid)) : Set Bytes :=
  {x | (∃ block ∈ result.blocks, block.bytes = x) ∨ (∃ cid, getBlock cid = some x)
    ∨ ∃ chunks ∈ index, C.encodeCanonical (checkpointRootValue chunks) = some x}

section

variable {C : Codecs} {maxChunkBytes : JsNumber} {winners : List VotesBundle}
  {result : EncodedCheckpoint} {getBlock : Cid → Option Bytes} {index : Option (List Cid)}

/-- A block of the checkpoint that is served is served as it was written. -/
lemma getBlock_eq_of_mem (h : encodeCheckpoint C winners maxChunkBytes = some result)
    (haddr : ContentAddressed C getBlock)
    (hfree : CollisionFreeOn C (decodedBytes C result getBlock index)) {block : CheckpointBlock}
    (hmem : block ∈ result.blocks) {bytes : Bytes} (hget : getBlock block.cid = some bytes) :
    bytes = block.bytes := by
  have hcid := haddr _ _ hget
  rw [cid_of_mem_blocks h block hmem] at hcid
  exact hfree.eq_of_cid_eq (Or.inr (Or.inl ⟨_, hget⟩)) (Or.inl ⟨block, hmem, rfl⟩) hcid

/-- The root manifest is one of the blocks. -/
lemma exists_rootBlock (h : encodeCheckpoint C winners maxChunkBytes = some result) :
    ∃ block ∈ result.blocks, block.cid = result.root
      ∧ C.encodeCanonical (checkpointRootValue result.chunks) = some block.bytes := by
  obtain ⟨chunks, blocks, rootBytes, -, -, hroot, rfl⟩ := encodeCheckpoint_eq_some_iff.mp h
  exact ⟨blockForBytes C rootBytes, by simp, rfl, hroot⟩

/-- The fetched manifest lists the chunks of the checkpoint. -/
lemma checkpointChunks_none_of_served (h : encodeCheckpoint C winners maxChunkBytes = some result)
    (haddr : ContentAddressed C getBlock)
    (hfree : CollisionFreeOn C (decodedBytes C result getBlock index)) {bytes : Bytes}
    (hget : getBlock result.root = some bytes) :
    checkpointChunks C result.root getBlock none = some result.chunks := by
  obtain ⟨block, hmem, hcid, hroot⟩ := exists_rootBlock h
  rw [← hcid] at hget ⊢
  rw [getBlock_eq_of_mem h haddr hfree hmem hget] at hget
  exact checkpointChunks_of_manifest hroot hget

/-- A claimed index that derives the root is the index of the checkpoint. -/
lemma chunks_eq_of_index (h : encodeCheckpoint C winners maxChunkBytes = some result)
    {chunks : List Cid}
    (hfree : CollisionFreeOn C (decodedBytes C result getBlock (some chunks)))
    (hderives : checkpointRootBlock C chunks = some result.root) : chunks = result.chunks := by
  obtain ⟨block, hmem, hcid, hroot⟩ := exists_rootBlock h
  obtain ⟨bytes, hbytes, hbytesCid⟩ := Option.map_eq_some_iff.mp hderives
  rw [← hcid, cid_of_mem_blocks h block hmem] at hbytesCid
  have heq : bytes = block.bytes := hfree.eq_of_cid_eq
    (Or.inr (Or.inr ⟨chunks, rfl, hbytes⟩)) (Or.inl ⟨block, hmem, rfl⟩) hbytesCid
  exact chunks_eq_of_manifest (heq ▸ hbytes) hroot

/-- The index only ever spares the fetch of the manifest. -/
lemma checkpointChunks_eq (h : encodeCheckpoint C winners maxChunkBytes = some result)
    (hfree : CollisionFreeOn C (decodedBytes C result getBlock index)) :
    checkpointChunks C result.root getBlock index = some result.chunks
      ∨ checkpointChunks C result.root getBlock index
          = checkpointChunks C result.root getBlock none := by
  cases index with
  | none => exact Or.inr rfl
  | some chunks =>
      by_cases hderives : checkpointRootBlock C chunks = some result.root
      · refine Or.inl ?_
        rw [← chunks_eq_of_index h hfree hderives]
        exact if_pos hderives
      · exact Or.inr (if_neg hderives)

/-- **No source and no index leads from a root to other chunks.** -/
lemma checkpointChunks_binds (h : encodeCheckpoint C winners maxChunkBytes = some result)
    (haddr : ContentAddressed C getBlock)
    (hfree : CollisionFreeOn C (decodedBytes C result getBlock index)) {chunks : List Cid}
    (hchunks : checkpointChunks C result.root getBlock index = some chunks) :
    chunks = result.chunks := by
  rcases checkpointChunks_eq h hfree with hown | hnone
  · exact Option.some.inj (hchunks.symm.trans hown)
  · rw [hnone] at hchunks
    cases hget : getBlock result.root with
    | none => simp [checkpointChunks, hget] at hchunks
    | some bytes =>
        rw [checkpointChunks_none_of_served h haddr hfree hget] at hchunks
        exact (Option.some.inj hchunks).symm

/-- **The root binds the winner set**: whatever a content-addressed source withholds and whatever
index is claimed, decoding a root fails or gives the winners it was made of; and where the source
serves the manifest, the index makes no difference. -/
theorem decodeCheckpoint_binds (hB : Base58Canonical C)
    (h : encodeCheckpoint C winners maxChunkBytes = some result)
    (haddr : ContentAddressed C getBlock)
    (hfree : CollisionFreeOn C (decodedBytes C result getBlock index)) :
    (decodeCheckpoint C result.root getBlock index = none
        ∨ decodeCheckpoint C result.root getBlock index
          = some ((sortWinners winners).map canonicalBundle))
      ∧ ((getBlock result.root).isSome →
        decodeCheckpoint C result.root getBlock index
          = decodeCheckpoint C result.root getBlock none) := by
  constructor
  · cases hdecode : decodeCheckpoint C result.root getBlock index with
    | none => exact Or.inl rfl
    | some decoded =>
        simp only [decodeCheckpoint, Option.bind_eq_bind, Option.bind_eq_some_iff, Option.pure_def,
          Option.some.injEq] at hdecode
        obtain ⟨cids, hcids, perChunk, hperChunk, rfl⟩ := hdecode
        obtain rfl := checkpointChunks_binds h haddr hfree hcids
        have hmem : ∀ block ∈ result.blocks, ∀ bytes, getBlock block.cid = some bytes →
            bytes = block.bytes := fun block hblock bytes => getBlock_eq_of_mem h haddr hfree hblock
        obtain ⟨chunks, blocks, rootBytes, hpack, hblocks, hroot, rfl⟩ :=
          encodeCheckpoint_eq_some_iff.mp h
        rw [List.mapM_map] at hperChunk
        have hchunks := List.eq_map_of_mapM_mapM hblocks hperChunk
          (k := fun chunk => chunk.map canonicalBundle) fun chunk _ block hblock hencode bundles
          hbundles => by
            cases hget : getBlock block.cid with
            | none => simp [decodeChunk, hget] at hbundles
            | some bytes =>
                rw [hmem block (List.mem_append_left _ hblock) bytes hget] at hget
                exact Option.some.inj
                  (hbundles.symm.trans (decodeChunk_encodeChunk hB hencode hget))
        rw [hchunks, flatten_map_packChunks hpack]
        exact Or.inr rfl
  · intro hserved
    obtain ⟨bytes, hget⟩ := Option.isSome_iff_exists.mp hserved
    have hnone := checkpointChunks_none_of_served h haddr hfree hget
    rcases checkpointChunks_eq h hfree with hown | hown
    · rw [decodeCheckpoint, decodeCheckpoint, hown, hnone]
    · rw [decodeCheckpoint, decodeCheckpoint, hown]

end

/-! ### The snapshot of a checkpoint -/

/-- `SNAPSHOT_VERSION` -/
def snapshotVersion : ℤ := 1

/-- The decoded container: the bytes of a root record and of the blocks it addresses. -/
structure CheckpointSnapshot where
  record : Bytes
  blocks : List Bytes
  deriving DecidableEq

/-- The container as a map. -/
def CheckpointSnapshot.toValue (snapshot : CheckpointSnapshot) : Value :=
  .map [("v", .int snapshotVersion), ("record", .bytes snapshot.record),
    ("blocks", .list (snapshot.blocks.map .bytes))]

section

variable (C : Codecs)

/-- Encode a snapshot blob. -/
def encodeSnapshot (snapshot : CheckpointSnapshot) : Option Bytes :=
  C.encodeCanonical snapshot.toValue

/-- Decode and shape-check a snapshot blob; `none` where the source throws. -/
def decodeSnapshot (bytes : Bytes) : Option CheckpointSnapshot := do
  let decoded ← C.dagCborDecode bytes
  let v ← decoded.get? "v" >>= Value.int?
  if v ≠ snapshotVersion then none
  else
    let record ← decoded.get? "record" >>= Value.bytes?
    let blocks ← decoded.get? "blocks" >>= Value.list?
    let blocks ← blocks.mapM Value.bytes?
    return ⟨record, blocks⟩

/-- The source a restore decodes from: the persisted blocks under the addresses of their bytes. -/
def snapshotSource (snapshot : CheckpointSnapshot) : Cid → Option Bytes :=
  blocksByCid (snapshot.blocks.map (blockForBytes C))

/-- The decode of `#restoreSnapshot`: the winners a persisted blob holds; `none` where the blob is
discarded. -/
def restoreWinners (blob : Bytes) : Option (List VotesBundle) := do
  let snapshot ← decodeSnapshot C blob
  let record ← decodeRootRecord C snapshot.record
  decodeCheckpoint C record.root (snapshotSource C snapshot) (some record.chunks)

variable {C}

/-- The addresses of the persisted blocks are derived, so the source is content-addressed. -/
lemma contentAddressed_snapshotSource (snapshot : CheckpointSnapshot) :
    ContentAddressed C (snapshotSource C snapshot) :=
  contentAddressed_blocksByCid (by simp [blockForBytes])

/-- **A snapshot restores the winners of its root.** A blob, corrupted in any way, that decodes to
the root of a checkpoint restores the winners of that checkpoint or is discarded. -/
theorem restoreWinners_binds (hB : Base58Canonical C) {maxChunkBytes : JsNumber}
    {winners : List VotesBundle} {result : EncodedCheckpoint}
    (h : encodeCheckpoint C winners maxChunkBytes = some result) {blob : Bytes}
    {snapshot : CheckpointSnapshot} (hsnapshot : decodeSnapshot C blob = some snapshot)
    {record : FetchRootRecord} (hrecord : decodeRootRecord C snapshot.record = some record)
    (hroot : record.root = result.root)
    (hfree : CollisionFreeOn C
      (decodedBytes C result (snapshotSource C snapshot) (some record.chunks))) :
    ∀ restored, restoreWinners C blob = some restored →
      restored = (sortWinners winners).map canonicalBundle := by
  intro restored hrestored
  simp only [restoreWinners, hsnapshot, hrecord, hroot, Option.bind_eq_bind, Option.bind_some]
    at hrestored
  rcases (decodeCheckpoint_binds hB h (contentAddressed_snapshotSource snapshot) hfree).1 with
    hnone | hsome
  · rw [hnone] at hrestored
    cases hrestored
  · exact Option.some.inj (hrestored.symm.trans hsome)

/-- **What a checkpoint root binds**, over any content-addressed source and through any persisted
blob. -/
theorem checkpointRoot_binds (hB : Base58Canonical C) {maxChunkBytes : JsNumber}
    {winners : List VotesBundle} {result : EncodedCheckpoint}
    (h : encodeCheckpoint C winners maxChunkBytes = some result) :
    (∀ getBlock index, ContentAddressed C getBlock →
      CollisionFreeOn C (decodedBytes C result getBlock index) →
        (decodeCheckpoint C result.root getBlock index = none
          ∨ decodeCheckpoint C result.root getBlock index
            = some ((sortWinners winners).map canonicalBundle))
        ∧ ((getBlock result.root).isSome →
          decodeCheckpoint C result.root getBlock index
            = decodeCheckpoint C result.root getBlock none))
      ∧ ∀ blob snapshot record, decodeSnapshot C blob = some snapshot →
        decodeRootRecord C snapshot.record = some record → record.root = result.root →
        CollisionFreeOn C
          (decodedBytes C result (snapshotSource C snapshot) (some record.chunks)) →
        ∀ restored, restoreWinners C blob = some restored →
          restored = (sortWinners winners).map canonicalBundle :=
  ⟨fun _ _ haddr hfree => decodeCheckpoint_binds hB h haddr hfree,
    fun _ _ _ hsnapshot hrecord hroot hfree =>
      restoreWinners_binds hB h hsnapshot hrecord hroot hfree⟩

/-! ### What a written blob restores -/

/-- The blob of a checkpoint: its record and all its blocks. -/
def snapshotBlob (C : Codecs) (record : FetchRootRecord) (result : EncodedCheckpoint) :
    Option Bytes := do
  let recordBytes ← encodeRootRecord C record
  encodeSnapshot C ⟨recordBytes, result.blocks.map CheckpointBlock.bytes⟩

/-- A container that was encoded is read back. -/
lemma decodeSnapshot_encodeSnapshot {snapshot : CheckpointSnapshot} {bytes : Bytes}
    (h : encodeSnapshot C snapshot = some bytes) : decodeSnapshot C bytes = some snapshot := by
  have hx := C.decode_encode _ _ h
  have henc := C.decode_encodable _ _ hx
  rw [encodable_canon] at henc
  have hget : ∀ k, snapshot.toValue.canon.get? k = (snapshot.toValue.get? k).map Value.canon :=
    get?_canon henc
  have hv : snapshot.toValue.canon.get? "v" = some (.int snapshotVersion) := by
    rw [hget]
    rfl
  have hrecord : snapshot.toValue.canon.get? "record" = some (.bytes snapshot.record) := by
    rw [hget]
    rfl
  have hblocks : snapshot.toValue.canon.get? "blocks"
      = some (.list ((snapshot.blocks.map Value.bytes).map Value.canon)) := by
    rw [hget, ← canon_list]
    rfl
  have hbytes : ((snapshot.blocks.map Value.bytes).map Value.canon).mapM Value.bytes?
      = some (snapshot.blocks.map id) := by
    rw [List.map_map, List.mapM_map]
    exact List.mapM_eq_some_of_forall fun x _ => rfl
  rw [List.map_id] at hbytes
  simp only [decodeSnapshot, hx, hv, hrecord, hblocks, hbytes, Option.bind_eq_bind,
    Option.bind_some, Value.int?, Value.bytes?, Value.list?, ne_eq, not_true_eq_false, if_false]
  rfl

/-- **A written blob restores every winner of its checkpoint.** -/
theorem restoreWinners_snapshotBlob (hB : Base58Canonical C) {maxChunkBytes : JsNumber}
    {winners : List VotesBundle} {result : EncodedCheckpoint}
    (h : encodeCheckpoint C winners maxChunkBytes = some result) {record : FetchRootRecord}
    (hrecord : record.root = result.root ∧ record.chunks = result.chunks) {blob : Bytes}
    (hblob : snapshotBlob C record result = some blob)
    (hfree : CollisionFreeOn C {x | ∃ block ∈ result.blocks, block.bytes = x}) :
    restoreWinners C blob = some ((sortWinners winners).map canonicalBundle) := by
  simp only [snapshotBlob, Option.bind_eq_bind, Option.bind_eq_some_iff] at hblob
  obtain ⟨recordBytes, hrecordBytes, hblob⟩ := hblob
  have hblocks :
      (result.blocks.map CheckpointBlock.bytes).map (blockForBytes C) = result.blocks := by
    rw [List.map_map]
    conv_rhs => rw [← List.map_id result.blocks]
    refine List.map_congr_left fun block hmem => ?_
    rw [Function.comp_apply, blockForBytes, ← cid_of_mem_blocks h block hmem]
    rfl
  have hserved : ∀ block ∈ result.blocks, snapshotSource C
      ⟨recordBytes, result.blocks.map CheckpointBlock.bytes⟩ block.cid = some block.bytes := by
    intro block hmem
    rw [snapshotSource, hblocks]
    exact blocksByCid_of_mem (cid_of_mem_blocks h) hfree hmem
  simp only [restoreWinners, decodeSnapshot_encodeSnapshot hblob,
    decodeRootRecord_encodeRootRecord hrecordBytes, hrecord.1, hrecord.2, Option.bind_eq_bind,
    Option.bind_some]
  exact decodeCheckpoint_of_served hB h hserved (Or.inr rfl)

end

/-! ### A lie about the index -/

/-- The checkpoint of two winners, one chunk each. -/
def twoCheckpoint : EncodedCheckpoint :=
  (encodeCheckpoint .reference [winnerOf 2 none, winnerOf 1 none] (JsNumber.ofNat 1)).getD
    ⟨[], [], []⟩

/-- The blocks that take part where a checkpoint's own blocks are served. -/
lemma decodedBytes_subset {C : Codecs} {result : EncodedCheckpoint} {chunks : List Cid} {y : Bytes}
    (h : C.encodeCanonical (checkpointRootValue chunks) = some y) :
    decodedBytes C result (blocksByCid result.blocks) (some chunks)
      ⊆ {x | ∃ block ∈ result.blocks ++ [blockForBytes C y], block.bytes = x} := by
  rintro x (⟨block, hmem, rfl⟩ | ⟨cid, hget⟩ | ⟨chunks', hchunks, hx⟩)
  · exact ⟨block, List.mem_append_left _ hmem, rfl⟩
  · obtain ⟨block, hfind, rfl⟩ := Option.map_eq_some_iff.mp hget
    have hmem := List.mem_reverse.mp (List.mem_of_find?_eq_some hfind)
    exact ⟨block, List.mem_append_left _ hmem, rfl⟩
  · obtain rfl := Option.some.inj hchunks
    rw [h] at hx
    exact ⟨blockForBytes C y, by simp, Option.some.inj hx⟩

/-- An index that lists no chunk is caught, and the manifest says what there is. -/
theorem checkpointRoot_binds_two :
    decodeCheckpoint .reference twoCheckpoint.root (blocksByCid twoCheckpoint.blocks) (some [])
        = some [winnerOf 1 none, winnerOf 2 none] := by
  have h : encodeCheckpoint .reference [winnerOf 2 none, winnerOf 1 none] (JsNumber.ofNat 1)
      = some twoCheckpoint := by decide +kernel
  obtain ⟨y, hy⟩ := Option.isSome_iff_exists.mp
    (show (Codecs.reference.encodeCanonical (checkpointRootValue [])).isSome by decide +kernel)
  have hdigests : (Codecs.reference.encodeCanonical (checkpointRootValue [])).map (fun y =>
      decide ((twoCheckpoint.blocks ++ [blockForBytes .reference y]).map fun block =>
        Codecs.reference.sha256 block.bytes).Nodup) = some true := by decide +kernel
  rw [hy, Option.map_some, Option.some.injEq, decide_eq_true_iff] at hdigests
  have hfree := (collisionFreeOn_of_nodup hdigests).mono (decodedBytes_subset hy)
  have haddr := contentAddressed_blocksByCid (cid_of_mem_blocks h)
  have hbinds := (checkpointRoot_binds base58Canonical_reference h).1 _ _ haddr hfree
  have hsorted : (sortWinners [winnerOf 2 none, winnerOf 1 none]).map canonicalBundle
      = [winnerOf 1 none, winnerOf 2 none] := by decide +kernel
  have hsome : (decodeCheckpoint .reference twoCheckpoint.root (blocksByCid twoCheckpoint.blocks)
      none).isSome := by decide +kernel
  rw [← hbinds.2 (by decide +kernel)] at hsome
  rcases hbinds.1 with hnone | hwinners
  · rw [hnone] at hsome
    cases hsome
  · rw [hwinners, hsorted]

end PubsubVoting
