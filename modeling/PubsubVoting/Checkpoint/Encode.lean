import Mathlib.Data.List.Lex
import PubsubVoting.Checkpoint.Codec
import PubsubVoting.Crdt.RoundTrip
import PubsubVoting.Lib.Packing

/-!
The checkpoint codec, writing side: a winner set as content-addressed chunks and a root manifest.

* `sortWinners`, `packChunks`, `encodeChunk`, `encodeCheckpoint`: sort by address, fill chunks up to
  a size, address every block.
* `sortWinners_perm`: with distinct wallets the order of the winners does not matter.
* `packChunks_eq`: the loop is the greedy packing of `Lib.Packing`.
* `decodeChunk_of_served`, `decodeManifest_of_served`: a block that is served under an address of
  the checkpoint is the block that was written, unless two blocks collide.
* `encodeCheckpoint_spec`: the codec keeps every winner, whatever the sizes.
-/

namespace PubsubVoting

open Cbor

/-! ### The encoder -/

/-- A number that is not NaN: the rationals and the two infinities. -/
abbrev JsNumber := WithBot (WithTop ℚ)

/-- A length as a number. -/
def JsNumber.ofNat (n : ℕ) : JsNumber := (((n : ℚ) : WithTop ℚ) : WithBot (WithTop ℚ))

/-- `DEFAULT_MAX_CHUNK_BYTES` -/
def defaultMaxChunkBytes : JsNumber := JsNumber.ofNat (2 ^ 20)

/-- The sort key of a winner: the code units of its address in lower case. -/
def addressKey (b : VotesBundle) : List ℕ := b.address.toLowerCase.map UInt16.toNat

/-- The order of the winners. -/
def addressLe (a b : VotesBundle) : Prop := addressKey a ≤ addressKey b

instance : DecidableRel addressLe := fun a b =>
  inferInstanceAs (Decidable (addressKey a ≤ addressKey b))
instance : Std.Total addressLe := ⟨fun a b => le_total (addressKey a) (addressKey b)⟩
instance : IsTrans VotesBundle addressLe := ⟨fun _ _ _ h h' => le_trans h h'⟩

/-- The winners, ascending by address. -/
def sortWinners (winners : List VotesBundle) : List VotesBundle := winners.insertionSort addressLe

/-- The inlined bytes stay within the ceiling. -/
def fitsChunk (maxChunkBytes : JsNumber) (n : ℕ) : Bool :=
  !decide (maxChunkBytes < JsNumber.ofNat n)

/-- One checkpoint block: a chunk, or the root manifest. -/
structure CheckpointBlock where
  cid : Cid
  bytes : Bytes
  deriving DecidableEq

/-- The root, the chunk index and every block to store. -/
structure EncodedCheckpoint where
  root : Cid
  chunks : List Cid
  blocks : List CheckpointBlock
  deriving DecidableEq

section

variable (C : Codecs)

/-- `blockForBytes` -/
def blockForBytes (bytes : Bytes) : CheckpointBlock := ⟨blockCid C bytes, bytes⟩

/-- One step of the size-cap fill; `none` where the bundle cannot be encoded. -/
def packBundle (maxChunkBytes : JsNumber) (p : Packing VotesBundle) (bundle : VotesBundle) :
    Option (Packing VotesBundle) :=
  (encodeBundle C bundle).map fun block => p.add (fitsChunk maxChunkBytes) bundle block.length

/-- The size-cap fill over the sorted winners. -/
def packChunks (maxChunkBytes : JsNumber) (sorted : List VotesBundle) :
    Option (List (List VotesBundle)) :=
  (sorted.foldlM (packBundle C maxChunkBytes) Packing.start).map Packing.groups

/-- The block of one chunk, its bundles inlined. -/
def encodeChunk (chunk : List VotesBundle) : Option CheckpointBlock := do
  let wires ← chunk.mapM (toWireBundle C)
  let bytes ← C.encodeCanonical (.list (wires.map WireBundle.toValue))
  return blockForBytes C bytes

/-- Encode a winner set into checkpoint blocks. -/
def encodeCheckpoint (winners : List VotesBundle) (maxChunkBytes : JsNumber) :
    Option EncodedCheckpoint := do
  let chunks ← packChunks C maxChunkBytes (sortWinners winners)
  let blocks ← chunks.mapM (encodeChunk C)
  let chunkCids := blocks.map CheckpointBlock.cid
  let rootBytes ← C.encodeCanonical (checkpointRootValue chunkCids)
  return ⟨blockCid C rootBytes, chunkCids, blocks ++ [blockForBytes C rootBytes]⟩

/-- `byCid.get`: the blocks by address, where the last one set under an address counts. -/
def blocksByCid (blocks : List CheckpointBlock) (cid : Cid) : Option Bytes :=
  (blocks.reverse.find? fun block => decide (block.cid = cid)).map CheckpointBlock.bytes

/-- The bytes a bundle adds to its chunk. -/
def bundleSize (bundle : VotesBundle) : ℕ := ((encodeBundle C bundle).map List.length).getD 0

/-- The source serves a block under the address of its bytes only. -/
def ContentAddressed (getBlock : Cid → Option Bytes) : Prop :=
  ∀ cid bytes, getBlock cid = some bytes → blockCid C bytes = cid

end

/-! ### The order of the winners -/

lemma addressKey_injOn {winners : List VotesBundle}
    (h : (winners.map fun b => b.address.toLowerCase).Nodup) {a b : VotesBundle} (ha : a ∈ winners)
    (hb : b ∈ winners) (hab : addressKey a = addressKey b) : a = b := by
  refine List.inj_on_of_nodup_map h ha hb ?_
  exact List.map_injective_iff.mpr (fun x y => UInt16.toNat_inj.mp) hab

/-- **With distinct wallets the order of the winners does not matter.** -/
lemma sortWinners_perm {winners winners' : List VotesBundle}
    (h : (winners.map fun b => b.address.toLowerCase).Nodup) (hperm : winners'.Perm winners) :
    sortWinners winners' = sortWinners winners := by
  refine List.Perm.eq_of_pairwise ?_ (List.pairwise_insertionSort addressLe _)
    (List.pairwise_insertionSort addressLe _)
    ((List.perm_insertionSort _ _).trans (hperm.trans (List.perm_insertionSort _ _).symm))
  intro a b ha hb hab hba
  have ha' := hperm.mem_iff.mp ((List.mem_insertionSort addressLe).mp ha)
  have hb' := (List.mem_insertionSort addressLe).mp hb
  exact addressKey_injOn h ha' hb' (le_antisymm hab hba)

/-- The winners come out strictly ascending. -/
lemma sortWinners_pairwise {winners : List VotesBundle}
    (h : (winners.map fun b => b.address.toLowerCase).Nodup) :
    (sortWinners winners).Pairwise fun a b => addressKey a < addressKey b := by
  have hperm := List.perm_insertionSort addressLe winners
  have hnodup : ((sortWinners winners).map fun b => b.address.toLowerCase).Nodup :=
    (hperm.map _).nodup_iff.mpr h
  have hne : (sortWinners winners).Pairwise fun a b => addressKey a ≠ addressKey b := by
    rw [List.Nodup, List.pairwise_map] at hnodup
    refine hnodup.imp fun hab heq => hab ?_
    exact List.map_injective_iff.mpr (fun x y => UInt16.toNat_inj.mp) heq
  exact (List.pairwise_insertionSort addressLe winners).imp₂
    (fun _ _ hle hne => lt_of_le_of_ne hle hne)
    hne

/-! ### The fill -/

section

variable {C : Codecs} {maxChunkBytes : JsNumber}

lemma foldlM_packBundle {bundles : List VotesBundle} (h : ∀ b ∈ bundles, (encodeBundle C b).isSome)
    (p : Packing VotesBundle) :
    bundles.foldlM (packBundle C maxChunkBytes) p =
      some (bundles.foldl (fun p b => p.add (fitsChunk maxChunkBytes) b (bundleSize C b)) p) := by
  induction bundles generalizing p with
  | nil => rfl
  | cons b bundles ih =>
      rw [List.forall_mem_cons] at h
      obtain ⟨block, hblock⟩ := Option.isSome_iff_exists.mp h.1
      have hstep : packBundle C maxChunkBytes p b
          = some (p.add (fitsChunk maxChunkBytes) b (bundleSize C b)) := by
        simp [packBundle, bundleSize, hblock]
      rw [List.foldlM_cons, hstep, Option.bind_eq_bind, Option.bind_some, ih h.2, List.foldl_cons]

/-- **The fill is the greedy packing** by the size of the encoded bundles. -/
lemma packChunks_eq {bundles : List VotesBundle} (h : ∀ b ∈ bundles, (encodeBundle C b).isSome) :
    packChunks C maxChunkBytes bundles
      = some (Packing.pack (fitsChunk maxChunkBytes) (bundleSize C) bundles) := by
  rw [packChunks, foldlM_packBundle h]
  rfl

/-- The fill encodes every winner. -/
lemma isSome_of_packChunks {bundles : List VotesBundle} {chunks : List (List VotesBundle)}
    (h : packChunks C maxChunkBytes bundles = some chunks) :
    ∀ b ∈ bundles, (encodeBundle C b).isSome := by
  obtain ⟨p, hp, -⟩ := Option.map_eq_some_iff.mp h
  clear h
  generalize Packing.start = start at hp
  induction bundles generalizing start with
  | nil => exact fun _ hmem => absurd hmem List.not_mem_nil
  | cons b bundles ih =>
      rw [List.foldlM_cons, Option.bind_eq_bind, Option.bind_eq_some_iff] at hp
      obtain ⟨next, hnext, hp⟩ := hp
      obtain ⟨block, hblock, -⟩ := Option.map_eq_some_iff.mp hnext
      exact List.forall_mem_cons.mpr ⟨by rw [hblock]; rfl, ih next hp⟩

/-! ### Reading the blocks back -/

lemma encodeChunk_eq_some_iff {chunk : List VotesBundle} {block : CheckpointBlock} :
    encodeChunk C chunk = some block ↔
      ∃ wires, chunk.mapM (toWireBundle C) = some wires
        ∧ C.encodeCanonical (.list (wires.map WireBundle.toValue)) = some block.bytes
        ∧ block.cid = blockCid C block.bytes := by
  simp only [encodeChunk, Option.bind_eq_bind, Option.bind_eq_some_iff, Option.pure_def,
    Option.some.injEq]
  constructor
  · rintro ⟨wires, hwires, bytes, hbytes, rfl⟩
    exact ⟨wires, hwires, hbytes, rfl⟩
  · rintro ⟨wires, hwires, hbytes, hcid⟩
    refine ⟨wires, hwires, _, hbytes, ?_⟩
    rw [blockForBytes, ← hcid]

/-- **A chunk block decodes to its bundles.** -/
lemma decodeChunk_encodeChunk (hB : Base58Canonical C) {chunk : List VotesBundle}
    {block : CheckpointBlock} (h : encodeChunk C chunk = some block) {getBlock : Cid → Option Bytes}
    {cid : Cid} (hget : getBlock cid = some block.bytes) :
    decodeChunk C getBlock cid = some (chunk.map canonicalBundle) := by
  obtain ⟨wires, hwires, hbytes, -⟩ := encodeChunk_eq_some_iff.mp h
  have hdecode := C.decode_encode _ _ hbytes
  have henc := C.decode_encodable _ _ hdecode
  rw [encodable_canon] at henc
  have hbundles : ((wires.map WireBundle.toValue).map Value.canon).mapM (fromWireBundle C)
      = some (chunk.map canonicalBundle) := by
    rw [List.map_map, List.mapM_map]
    refine List.mapM_of_mapM hwires fun b _ wire hmem hwire => ?_
    exact fromWireBundle_toWireBundle hB hwire (encodable_of_mem henc (List.mem_map_of_mem hmem))
  rw [decodeChunk, hget]
  simp only [Option.bind_eq_bind, Option.bind_some, hdecode, canon_list, Value.list?]
  exact hbundles

lemma encodeCheckpoint_eq_some_iff {winners : List VotesBundle} {result : EncodedCheckpoint} :
    encodeCheckpoint C winners maxChunkBytes = some result ↔
      ∃ chunks blocks rootBytes, packChunks C maxChunkBytes (sortWinners winners) = some chunks
        ∧ chunks.mapM (encodeChunk C) = some blocks
        ∧ C.encodeCanonical (checkpointRootValue (blocks.map CheckpointBlock.cid)) = some rootBytes
        ∧ result = ⟨blockCid C rootBytes, blocks.map CheckpointBlock.cid,
            blocks ++ [blockForBytes C rootBytes]⟩ := by
  simp only [encodeCheckpoint, Option.bind_eq_bind, Option.bind_eq_some_iff, Option.pure_def,
    Option.some.injEq]
  constructor
  · rintro ⟨chunks, hchunks, blocks, hblocks, rootBytes, hroot, rfl⟩
    exact ⟨chunks, blocks, rootBytes, hchunks, hblocks, hroot, rfl⟩
  · rintro ⟨chunks, blocks, rootBytes, hchunks, hblocks, hroot, rfl⟩
    exact ⟨chunks, hchunks, blocks, hblocks, rootBytes, hroot, rfl⟩

/-- Every block of a checkpoint carries its own address. -/
lemma cid_of_mem_blocks {winners : List VotesBundle} {result : EncodedCheckpoint}
    (h : encodeCheckpoint C winners maxChunkBytes = some result) :
    ∀ block ∈ result.blocks, block.cid = blockCid C block.bytes := by
  obtain ⟨chunks, blocks, rootBytes, -, hblocks, -, rfl⟩ := encodeCheckpoint_eq_some_iff.mp h
  rw [List.forall_mem_append, List.forall_mem_singleton]
  refine ⟨List.forall_mem_of_mapM hblocks fun chunk _ block hblock => ?_, rfl⟩
  obtain ⟨-, -, -, hcid⟩ := encodeChunk_eq_some_iff.mp hblock
  exact hcid

/-- **The manifest is read back.** -/
lemma checkpointChunks_of_manifest {chunks : List Cid} {rootBytes : Bytes} {root : Cid}
    {getBlock : Cid → Option Bytes}
    (h : C.encodeCanonical (checkpointRootValue chunks) = some rootBytes)
    (hget : getBlock root = some rootBytes) :
    checkpointChunks C root getBlock none = some chunks := by
  have hdecode := C.decode_encode _ _ h
  have henc := C.decode_encodable _ _ hdecode
  rw [encodable_canon] at henc
  have hchunks : (checkpointRootValue chunks).canon.get? "chunks"
      = some (.list ((chunks.map Value.link).map Value.canon)) := by
    rw [get?_canon henc, ← canon_list]
    rfl
  have hlinks : ((chunks.map Value.link).map Value.canon).mapM linkOf = some (chunks.map id) := by
    rw [List.map_map, List.mapM_map]
    exact List.mapM_eq_some_of_forall fun cid _ => rfl
  simp only [checkpointChunks, hget, Option.bind_eq_bind, Option.bind_some, hdecode, hchunks,
    Value.list?]
  rw [hlinks, List.map_id]

/-- One manifest, one list of chunks. -/
lemma chunks_eq_of_manifest {chunks chunks' : List Cid} {rootBytes : Bytes}
    (h : C.encodeCanonical (checkpointRootValue chunks) = some rootBytes)
    (h' : C.encodeCanonical (checkpointRootValue chunks') = some rootBytes) : chunks = chunks' := by
  have hread : checkpointChunks C [] (fun _ => some rootBytes) none = some chunks :=
    checkpointChunks_of_manifest h rfl
  have hread' : checkpointChunks C [] (fun _ => some rootBytes) none = some chunks' :=
    checkpointChunks_of_manifest h' rfl
  exact Option.some.inj (hread.symm.trans hread')

lemma flatten_map_packChunks {winners : List VotesBundle} {chunks : List (List VotesBundle)}
    (h : packChunks C maxChunkBytes (sortWinners winners) = some chunks) :
    (chunks.map fun chunk => chunk.map canonicalBundle).flatten
      = (sortWinners winners).map canonicalBundle := by
  rw [packChunks_eq (isSome_of_packChunks h)] at h
  rw [← Option.some.inj h, ← List.map_flatten, Packing.pack_flatten]

/-- The index a checkpoint comes with derives its root. -/
lemma checkpointRootBlock_chunks {winners : List VotesBundle} {result : EncodedCheckpoint}
    (h : encodeCheckpoint C winners maxChunkBytes = some result) :
    checkpointRootBlock C result.chunks = some result.root := by
  obtain ⟨chunks, blocks, rootBytes, -, -, hroot, rfl⟩ := encodeCheckpoint_eq_some_iff.mp h
  rw [checkpointRootBlock, hroot, Option.map_some]

/-- A source that serves every block of a checkpoint gives all its winners back, with or without the
index the checkpoint comes with. -/
lemma decodeCheckpoint_of_served (hB : Base58Canonical C) {winners : List VotesBundle}
    {result : EncodedCheckpoint} (h : encodeCheckpoint C winners maxChunkBytes = some result)
    {getBlock : Cid → Option Bytes}
    (hserved : ∀ block ∈ result.blocks, getBlock block.cid = some block.bytes)
    {index : Option (List Cid)} (hindex : index = none ∨ index = some result.chunks) :
    decodeCheckpoint C result.root getBlock index
      = some ((sortWinners winners).map canonicalBundle) := by
  have hown := checkpointRootBlock_chunks h
  obtain ⟨chunks, blocks, rootBytes, hpack, hblocks, hroot, rfl⟩ :=
    encodeCheckpoint_eq_some_iff.mp h
  rw [List.forall_mem_append, List.forall_mem_singleton] at hserved
  have hlist : checkpointChunks C (blockCid C rootBytes) getBlock index
      = some (blocks.map CheckpointBlock.cid) := by
    rcases hindex with rfl | rfl
    · exact checkpointChunks_of_manifest hroot hserved.2
    · exact if_pos hown
  have hchunks : (blocks.map CheckpointBlock.cid).mapM (decodeChunk C getBlock)
      = some (chunks.map fun chunk => chunk.map canonicalBundle) := by
    rw [List.mapM_map]
    refine List.mapM_of_mapM hblocks fun chunk _ block hmem hblock => ?_
    exact decodeChunk_encodeChunk hB hblock (hserved.1 block hmem)
  simp only [decodeCheckpoint, hlist, hchunks, Option.bind_eq_bind, Option.bind_some,
    Option.pure_def, flatten_map_packChunks hpack]

/-- Blocks that carry their own address are a content-addressed source. -/
lemma contentAddressed_blocksByCid {blocks : List CheckpointBlock}
    (hcid : ∀ block ∈ blocks, block.cid = blockCid C block.bytes) :
    ContentAddressed C (blocksByCid blocks) := by
  intro cid bytes hget
  obtain ⟨block, hfind, rfl⟩ := Option.map_eq_some_iff.mp hget
  have hmem := List.mem_reverse.mp (List.mem_of_find?_eq_some hfind)
  rw [← hcid block hmem]
  simpa using List.find?_some hfind

/-- The blocks of a checkpoint by address serve every one of them. -/
lemma blocksByCid_of_mem {blocks : List CheckpointBlock}
    (hcid : ∀ block ∈ blocks, block.cid = blockCid C block.bytes)
    (hfree : CollisionFreeOn C {x | ∃ block ∈ blocks, block.bytes = x}) {block : CheckpointBlock}
    (hmem : block ∈ blocks) : blocksByCid blocks block.cid = some block.bytes := by
  cases hfind : blocks.reverse.find? fun other => decide (other.cid = block.cid) with
  | none =>
      have hnone := List.find?_eq_none.mp hfind block (List.mem_reverse.mpr hmem)
      exact absurd hnone (by simp)
  | some other =>
      have hother := List.mem_reverse.mp (List.mem_of_find?_eq_some hfind)
      have heq : other.cid = block.cid := by simpa using List.find?_some hfind
      rw [hcid other hother, hcid block hmem] at heq
      rw [blocksByCid, hfind, Option.map_some,
        hfree.eq_of_cid_eq ⟨other, hother, rfl⟩ ⟨block, hmem, rfl⟩ heq]

/-! ### How the bundles are spelled -/

/-- How the winners, in order, lie in the chunks of a checkpoint. -/
structure ChunksOf (C : Codecs) (maxChunkBytes : JsNumber) (result : EncodedCheckpoint)
    (sorted : List VotesBundle) (chunks : List (List VotesBundle)) : Prop where
  flatten : chunks.flatten = sorted
  inlined : List.Forall₂ (fun chunk cid => ∃ block ∈ result.blocks, block.cid = cid
    ∧ encodeChunk C chunk = some block) chunks result.chunks
  ne_nil : ∀ chunk ∈ chunks, chunk ≠ []
  fits : ∀ chunk ∈ chunks,
    JsNumber.ofNat (Packing.total (bundleSize C) chunk) ≤ maxChunkBytes ∨ chunk.length = 1
  full : chunks.IsChain fun chunk next => ∀ b ∈ next.head?,
    maxChunkBytes < JsNumber.ofNat (Packing.total (bundleSize C) chunk + bundleSize C b)

lemma fitsChunk_iff {n : ℕ} :
    fitsChunk maxChunkBytes n = true ↔ JsNumber.ofNat n ≤ maxChunkBytes := by
  rw [fitsChunk, Bool.not_eq_true', decide_eq_false_iff_not, not_lt]

lemma encodeChunk_isSome {chunk : List VotesBundle} (hlen : chunk.length < 2 ^ 64)
    (h : ∀ b ∈ chunk, (encodeBundle C b).isSome) : ∃ block, encodeChunk C chunk = some block := by
  have hwire : ∀ b ∈ chunk, ∃ wire, toWireBundle C b = some wire ∧ True := by
    intro b hb
    obtain ⟨x, hx⟩ := Option.isSome_iff_exists.mp (h b hb)
    obtain ⟨wire, hwire, -⟩ := encodable_of_encodeBundle hx
    exact ⟨wire, hwire, trivial⟩
  obtain ⟨wires, hwires, -⟩ := List.exists_mapM_of_forall hwire
  have henc : ∀ wire ∈ wires, wire.toValue.encodable = true := by
    refine List.forall_mem_of_mapM hwires fun b hb wire hwire => ?_
    obtain ⟨x, hx⟩ := Option.isSome_iff_exists.mp (h b hb)
    obtain ⟨wire', hwire', henc, -⟩ := encodable_of_encodeBundle hx
    rw [Option.some.inj (hwire.symm.trans hwire')]
    exact henc
  have hlist : (Value.list (wires.map WireBundle.toValue)).encodable = true := by
    rw [encodable_list_iff, List.length_map, List.length_of_mapM hwires, List.forall_mem_map]
    exact ⟨hlen, henc⟩
  obtain ⟨bytes, hbytes⟩ := Option.isSome_iff_exists.mp (C.encode_isSome _ hlist)
  exact ⟨⟨blockCid C bytes, bytes⟩, encodeChunk_eq_some_iff.mpr ⟨wires, hwires, hbytes, rfl⟩⟩

/-- A digest has 32 bytes. -/
def Sha256Length (C : Codecs) : Prop := ∀ x, (C.sha256 x).length = 32

lemma manifest_isSome {chunks : List Cid} (hlen : chunks.length < 2 ^ 64)
    (h : ∀ cid ∈ chunks, cid.length = 36) :
    ∃ rootBytes, C.encodeCanonical (checkpointRootValue chunks) = some rootBytes := by
  refine Option.isSome_iff_exists.mp (C.encode_isSome _ ?_)
  refine encodable_record ["chunks"] (by decide) rfl ?_
  rw [List.forall_mem_singleton, encodable_list_iff, List.length_map, List.forall_mem_map]
  refine ⟨hlen, fun cid hcid => ?_⟩
  rw [Value.encodable, decide_eq_true_iff, h cid hcid]
  norm_num

lemma length_le_flatten {chunks : List (List VotesBundle)} (h : ∀ chunk ∈ chunks, chunk ≠ []) :
    chunks.length ≤ chunks.flatten.length := by
  induction chunks with
  | nil => rfl
  | cons chunk chunks ih =>
      rw [List.forall_mem_cons] at h
      have hpos := List.length_pos_iff.mpr h.1
      have hrest := ih h.2
      simp only [List.length_cons, List.flatten_cons, List.length_append]
      omega

/-- **Every encodable winner set has a checkpoint**, and its chunks are filled greedily. -/
theorem exists_encodeCheckpoint (hsha : Sha256Length C) {winners : List VotesBundle}
    (hlen : winners.length < 2 ^ 32) (henc : ∀ b ∈ winners, (encodeBundle C b).isSome)
    (maxChunkBytes : JsNumber) :
    ∃ result chunks, encodeCheckpoint C winners maxChunkBytes = some result
      ∧ ChunksOf C maxChunkBytes result (sortWinners winners) chunks := by
  have hperm := List.perm_insertionSort addressLe winners
  have henc' : ∀ b ∈ sortWinners winners, (encodeBundle C b).isSome :=
    fun b hb => henc b (hperm.mem_iff.mp hb)
  have hpack : packChunks C maxChunkBytes (sortWinners winners)
      = some (Packing.pack (fitsChunk maxChunkBytes) (bundleSize C) (sortWinners winners)) :=
    packChunks_eq henc'
  have hfits : ∀ chunk ∈
      Packing.pack (fitsChunk maxChunkBytes) (bundleSize C) (sortWinners winners),
      JsNumber.ofNat (Packing.total (bundleSize C) chunk) ≤ maxChunkBytes ∨ chunk.length = 1 :=
    fun chunk hchunk => (Packing.pack_fits _ chunk hchunk).imp_left fitsChunk_iff.mp
  have hfull : (Packing.pack (fitsChunk maxChunkBytes) (bundleSize C) (sortWinners winners)).IsChain
      fun chunk next => ∀ b ∈ next.head?,
        maxChunkBytes < JsNumber.ofNat (Packing.total (bundleSize C) chunk + bundleSize C b) := by
    refine (Packing.pack_maximal _).imp fun chunk next hfull b hb => ?_
    simpa [fitsChunk] using hfull b hb
  have hflatten : (Packing.pack (fitsChunk maxChunkBytes) (bundleSize C)
      (sortWinners winners)).flatten = sortWinners winners := Packing.pack_flatten _
  have hne : ∀ chunk ∈ Packing.pack (fitsChunk maxChunkBytes) (bundleSize C) (sortWinners winners),
      chunk ≠ [] := Packing.pack_ne_nil _
  generalize Packing.pack (fitsChunk maxChunkBytes) (bundleSize C) (sortWinners winners) = chunks
    at hpack hfits hfull hflatten hne
  have hsorted : chunks.flatten.length < 2 ^ 32 := by
    rw [hflatten, sortWinners, hperm.length_eq]
    exact hlen
  have hblock : ∀ chunk ∈ chunks, ∃ block, encodeChunk C chunk = some block
      ∧ encodeChunk C chunk = some block := by
    intro chunk hchunk
    have hsub : chunk.Sublist chunks.flatten := List.sublist_flatten_of_mem hchunk
    have hle := hsub.length_le
    rw [hflatten] at hsub
    have hshort : chunk.length < 2 ^ 64 := by omega
    obtain ⟨block, hblock⟩ := encodeChunk_isSome hshort fun b hb => henc' b (hsub.subset hb)
    exact ⟨block, hblock, hblock⟩
  obtain ⟨blocks, hblocks, hinlined⟩ := List.exists_mapM_of_forall hblock
  have hcid : ∀ block ∈ blocks, block.cid = blockCid C block.bytes :=
    List.forall_mem_of_mapM hblocks fun chunk _ block hblock =>
      (encodeChunk_eq_some_iff.mp hblock).elim fun _ h => h.2.2
  have hcount : (blocks.map CheckpointBlock.cid).length < 2 ^ 64 := by
    have hle := length_le_flatten hne
    rw [List.length_map, List.length_of_mapM hblocks]
    omega
  have hcids : ∀ cid ∈ blocks.map CheckpointBlock.cid, cid.length = 36 := by
    rw [List.forall_mem_map]
    intro block hmem
    rw [hcid block hmem, blockCid, bundleCidForBytes]
    simp [hsha block.bytes]
  obtain ⟨rootBytes, hroot⟩ := manifest_isSome (C := C) hcount hcids
  refine ⟨_, chunks, encodeCheckpoint_eq_some_iff.mpr
    ⟨chunks, blocks, rootBytes, hpack, hblocks, hroot, rfl⟩, hflatten, ?_, hne, hfits, hfull⟩
  rw [List.forall₂_map_right_iff]
  refine List.forall₂_iff_zip.mpr ⟨hinlined.length_eq, fun hzip => ?_⟩
  exact ⟨_, List.mem_append_left _ (List.of_mem_zip hzip).2, rfl, List.forall₂_zip hinlined hzip⟩

/-- **A checkpoint is a function of the winner set**: it exists, the order of the winners does not
matter, reading its blocks gives every winner back in order of address, and the chunks are filled
greedily. An array holds fewer than `2 ^ 32` winners. -/
theorem encodeCheckpoint_spec (hB : Base58Canonical C) (hsha : Sha256Length C)
    {winners : List VotesBundle} (hlen : winners.length < 2 ^ 32)
    (henc : ∀ b ∈ winners, (encodeBundle C b).isSome)
    (hdistinct : (winners.map fun b => b.address.toLowerCase).Nodup) (maxChunkBytes : JsNumber) :
    ∃ result chunks, encodeCheckpoint C winners maxChunkBytes = some result
      ∧ (∀ winners', winners'.Perm winners →
          encodeCheckpoint C winners' maxChunkBytes = some result)
      ∧ (CollisionFreeOn C {x | ∃ block ∈ result.blocks, block.bytes = x} →
          ∀ index, index = none ∨ index = some result.chunks →
            decodeCheckpoint C result.root (blocksByCid result.blocks) index
              = some ((sortWinners winners).map canonicalBundle))
      ∧ (sortWinners winners).Perm winners
      ∧ (sortWinners winners).Pairwise (fun a b => addressKey a < addressKey b)
      ∧ ChunksOf C maxChunkBytes result (sortWinners winners) chunks := by
  obtain ⟨result, chunks, hresult, hchunks⟩ := exists_encodeCheckpoint hsha hlen henc maxChunkBytes
  refine ⟨result, chunks, hresult, fun winners' hperm => ?_, fun hfree index hindex => ?_,
    List.perm_insertionSort addressLe winners, sortWinners_pairwise hdistinct, hchunks⟩
  · rw [encodeCheckpoint, sortWinners_perm hdistinct hperm, ← encodeCheckpoint]
    exact hresult
  · have hserved : ∀ block ∈ result.blocks,
        blocksByCid result.blocks block.cid = some block.bytes :=
      fun _ hmem => blocksByCid_of_mem (cid_of_mem_blocks hresult) hfree hmem
    exact decodeCheckpoint_of_served hB hresult hserved hindex

end

/-! ### Two winners, and a name that does not come back -/

/-- The winner of an account, for one community. -/
def winnerOf (account : UInt8) (name : Option JsString) : VotesBundle where
  address := bytesToHex (List.replicate 19 0 ++ [account])
  votes := [⟨⟨name, JsString.ofString "11"⟩, 1⟩]
  blockNumber := 10
  signature := ⟨bytesToHex (List.replicate 65 0x11), JsString.ofString "eip712"⟩

/-- Blocks whose digests are pairwise distinct do not collide. -/
lemma collisionFreeOn_of_nodup {C : Codecs} {blocks : List CheckpointBlock}
    (h : (blocks.map fun block => C.sha256 block.bytes).Nodup) :
    CollisionFreeOn C {x | ∃ block ∈ blocks, block.bytes = x} := by
  rintro x ⟨block, hblock, rfl⟩ y ⟨block', hblock', rfl⟩ hdigest
  rw [List.inj_on_of_nodup_map h hblock hblock' hdigest]

/-- Under a ceiling of one byte each winner gets its own chunk. -/
theorem encodeCheckpoint_spec_two :
    (encodeCheckpoint .reference [winnerOf 2 none, winnerOf 1 none] (JsNumber.ofNat 1)).bind
        (fun result => decodeCheckpoint .reference result.root (blocksByCid result.blocks) none)
      = some [winnerOf 1 none, winnerOf 2 none] := by
  have hdigests : (encodeCheckpoint .reference [winnerOf 2 none, winnerOf 1 none]
      (JsNumber.ofNat 1)).map (fun result => decide
        (result.blocks.map fun block => Codecs.reference.sha256 block.bytes).Nodup)
        = some true := by decide +kernel
  have hsorted : (sortWinners [winnerOf 2 none, winnerOf 1 none]).map canonicalBundle
      = [winnerOf 1 none, winnerOf 2 none] := by decide +kernel
  have hlen : [winnerOf 2 none, winnerOf 1 none].length < 2 ^ 32 := by decide
  obtain ⟨result, chunks, hresult, -, hdecode, -⟩ := encodeCheckpoint_spec base58Canonical_reference
    Sha256.length_sha256 hlen (by decide +kernel) (by decide +kernel) (JsNumber.ofNat 1)
  rw [hresult, Option.map_some, Option.some.injEq, decide_eq_true_iff] at hdigests
  rw [hresult, Option.bind_some, hdecode (collisionFreeOn_of_nodup hdigests) none (Or.inl rfl),
    hsorted]

/-- A lone surrogate in a name comes back as U+FFFD. -/
theorem decodeCheckpoint_loneSurrogate :
    (encodeBundle .reference (winnerOf 1 (some [0xD800, 46, 98]))).isSome
      ∧ (encodeCheckpoint .reference [winnerOf 1 (some [0xD800, 46, 98])] defaultMaxChunkBytes).bind
          (fun result => decodeCheckpoint .reference result.root (blocksByCid result.blocks) none)
        = some [winnerOf 1 (some [0xFFFD, 46, 98])]
      ∧ winnerOf 1 (some [0xFFFD, 46, 98]) ≠ lowerHex (winnerOf 1 (some [0xD800, 46, 98])) := by
  refine ⟨?_, ?_, ?_⟩
  · decide +kernel
  · decide +kernel
  · decide +kernel

end PubsubVoting
