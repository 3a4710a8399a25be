import PubsubVoting.Crdt.Codec

/-!
The checkpoint codec, reading side: the winners inlined behind an advertised root.

* `checkpointRootBlock`: the root manifest of a list of chunk addresses.
* `decodeCheckpoint`: the manifest (or a chunk index that re-derives the root), then every chunk.
* `encodeBundle_isSome_of_decodeCheckpoint`: every bundle that comes out can be encoded again.
-/

namespace PubsubVoting

open Cbor

/-- The address of one checkpoint block. -/
def blockCid (C : Codecs) (bytes : Bytes) : Cid := bundleCidForBytes C bytes

/-- The root manifest of a list of chunks. -/
def checkpointRootValue (chunks : List Cid) : Value := .map [("chunks", .list (chunks.map .link))]

/-- The address of the root manifest of a list of chunks. -/
def checkpointRootBlock (C : Codecs) (chunks : List Cid) : Option Cid :=
  (C.encodeCanonical (checkpointRootValue chunks)).map (blockCid C)

/-- A chunk reference of a manifest. -/
def linkOf : Value → Option Cid
  | .link cid => some cid
  | _ => none

/-- The chunks an index or the fetched manifest lists. -/
def checkpointChunks (C : Codecs) (root : Cid) (getBlock : Cid → Option Bytes)
    (knownChunks : Option (List Cid)) : Option (List Cid) :=
  let manifest : Option (List Cid) := do
    let rootBytes ← getBlock root
    let w ← C.dagCborDecode rootBytes
    let chunks ← w.get? "chunks" >>= Value.list?
    chunks.mapM linkOf
  match knownChunks with
  | some chunks => if checkpointRootBlock C chunks = some root then some chunks else manifest
  | none => manifest

/-- The bundles of one chunk block. -/
def decodeChunk (C : Codecs) (getBlock : Cid → Option Bytes) (chunkCid : Cid) :
    Option (List VotesBundle) := do
  let chunkBytes ← getBlock chunkCid
  let w ← C.dagCborDecode chunkBytes
  let wires ← w.list?
  wires.mapM (fromWireBundle C)

/-- The winners behind a root, in root order; `none` where the source throws. -/
def decodeCheckpoint (C : Codecs) (root : Cid) (getBlock : Cid → Option Bytes)
    (knownChunks : Option (List Cid)) : Option (List VotesBundle) := do
  let chunks ← checkpointChunks C root getBlock knownChunks
  let perChunk ← chunks.mapM (decodeChunk C getBlock)
  return perChunk.flatten

section

variable {C : Codecs} {root : Cid} {getBlock : Cid → Option Bytes} {knownChunks : Option (List Cid)}

lemma encodeBundle_isSome_of_decodeChunk {cid : Cid} {bundles : List VotesBundle}
    (h : decodeChunk C getBlock cid = some bundles) : ∀ b ∈ bundles, (encodeBundle C b).isSome := by
  simp only [decodeChunk, Option.bind_eq_bind, Option.bind_eq_some_iff, Value.list?_eq_some] at h
  obtain ⟨bytes, -, w, hw, wires, rfl, h⟩ := h
  have henc := C.decode_encodable _ _ hw
  refine List.forall_mem_of_mapM h fun w hmem b hb => ?_
  exact encodeBundle_isSome_of_fromWireBundle (encodable_of_mem henc hmem) hb

/-- **Every winner of a decoded checkpoint can be encoded again.** -/
theorem encodeBundle_isSome_of_decodeCheckpoint {winners : List VotesBundle}
    (h : decodeCheckpoint C root getBlock knownChunks = some winners) :
    ∀ b ∈ winners, (encodeBundle C b).isSome := by
  simp only [decodeCheckpoint, Option.bind_eq_bind, Option.bind_eq_some_iff, Option.pure_def,
    Option.some.injEq] at h
  obtain ⟨chunks, -, perChunk, hchunks, rfl⟩ := h
  have hall := List.forall_mem_of_mapM hchunks fun cid _ bundles hb =>
    encodeBundle_isSome_of_decodeChunk hb
  intro b hb
  obtain ⟨bundles, hbundles, hmem⟩ := List.mem_flatten.mp hb
  exact hall bundles hbundles b hmem

end

end PubsubVoting
