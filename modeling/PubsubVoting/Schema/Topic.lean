import PubsubVoting.Crdt.Codec
import PubsubVoting.Lib.Base32
import PubsubVoting.Rules.Gate
import PubsubVoting.Transport.BulkRoots

/-!
The topic of a contest: the content address of its criteria document (`topic.ts`).

* `Criteria.toValue`, `encodeCriteria`, `criteriaCid`, `topicFor`: the document, its bytes, their
  CID and the topic.
* `GateNode.Agrees`, `Criteria.Agrees`: two documents that say the same, where the order of an
  object's properties says nothing.
* `canon_toValue_eq_iff`: they are the documents with one canonical form.
* `topicFor_eq_iff`: they are the documents with one topic.
-/

namespace PubsubVoting

open Cbor

/-! ### The document and its address -/

/-- `CID.toString()` for CIDs of version 1; no two have one text. -/
structure CidStrings where
  toString : Cid → String
  injective : Function.Injective toString

/-- Multibase base32: a `b` in front of the digits. -/
def CidStrings.base32 : CidStrings where
  toString cid := "b" ++ Base32.encode cid
  injective _ _ h := Base32.encode_injective (String.append_right_inj _ |>.mp h)

/-- The document form of a range. -/
def VoteRange.toValue (range : VoteRange) : Value :=
  .map [("min", .int range.min), ("max", .int range.max)]

/-- The document form of the criteria. -/
def Criteria.toValue (c : Criteria) : Value :=
  .map [("name", .text c.name.toWellFormed), ("contestId", .text c.contestId.toWellFormed),
    ("voteSchema", c.voteSchema.toValue),
    ("maxVotesPerAddress", .int c.maxVotesPerAddress), ("bucketChainId", .int c.bucketChainId),
    ("blocksPerBucket", .int c.blocksPerBucket), ("voteExpiryBuckets", .int c.voteExpiryBuckets),
    ("gate", c.gate.toValue), ("weight", c.weight.toValue),
    ("requires", .map [("rules", .list (c.requires.map fun rule => .text rule.toWellFormed))])]

/-- Canonically encode a criteria document. -/
def encodeCriteria (C : Codecs) (c : Criteria) : Option Bytes := C.dagCborEncode c.toValue

/-- The CIDv1 (dag-cbor, sha2-256) of a criteria document's canonical encoding. -/
def criteriaCid (C : Codecs) (c : Criteria) : Option Cid := do
  let bytes ← encodeCriteria C c
  return 0x01 :: Codecs.dagCborCode :: 0x12 :: 0x20 :: C.sha256 bytes

/-- The gossipsub topic a criteria document maps to. -/
def topicFor (C : Codecs) (S : CidStrings) (c : Criteria) : Option String := do
  let cid ← criteriaCid C c
  return topicPrefix ++ S.toString cid

/-! ### Documents that say the same -/

mutual

/-- The same tree over the same references. -/
def GateNode.Agrees : GateNode → GateNode → Prop
  | .rule ref, .rule ref' => ref.toValue.canon = ref'.toValue.canon
  | .branch kind children, .branch kind' children' =>
      kind = kind' ∧ gatesAgree children children'
  | .rule _, .branch _ _ => False
  | .branch _ _, .rule _ => False

/-- The same trees, one by one. -/
def gatesAgree : List GateNode → List GateNode → Prop
  | [], [] => True
  | child :: children, child' :: children' => child.Agrees child' ∧ gatesAgree children children'
  | [], _ :: _ => False
  | _ :: _, [] => False

end

/-- Two documents that say the same; texts are compared as they are written. -/
structure Criteria.Agrees (c c' : Criteria) : Prop where
  name : c.name.toWellFormed = c'.name.toWellFormed
  contestId : c.contestId.toWellFormed = c'.contestId.toWellFormed
  voteSchema : c.voteSchema = c'.voteSchema
  maxVotesPerAddress : c.maxVotesPerAddress = c'.maxVotesPerAddress
  bucketChainId : c.bucketChainId = c'.bucketChainId
  blocksPerBucket : c.blocksPerBucket = c'.blocksPerBucket
  voteExpiryBuckets : c.voteExpiryBuckets = c'.voteExpiryBuckets
  gate : c.gate.Agrees c'.gate
  weight : c.weight.toValue.canon = c'.weight.toValue.canon
  requires : c.requires.map JsString.toWellFormed = c'.requires.map JsString.toWellFormed

lemma GateKind.key_injective : Function.Injective GateKind.key := by
  intro kind kind' h
  cases kind <;> cases kind' <;> first | rfl | exact absurd h (by decide)

lemma GateKind.key_ne_rule (kind : GateKind) : kind.key ≠ "rule" := by
  cases kind <;> decide

/-- A map with one entry is in canonical order. -/
lemma canon_singleton (key : String) (v : Value) :
    (Value.map [(key, v)]).canon = .map [(key, v.canon)] := rfl

mutual

/-- Trees agree exactly if they have one canonical form. -/
lemma canon_gate_eq_iff (node node' : GateNode) :
    node.toValue.canon = node'.toValue.canon ↔ node.Agrees node' := by
  cases node with
  | rule ref =>
      cases node' with
      | rule ref' => simp [GateNode.toValue, GateNode.Agrees, canon_singleton]
      | branch kind' children' =>
          simp [GateNode.toValue, GateNode.Agrees, canon_singleton, kind'.key_ne_rule.symm]
  | branch kind children =>
      cases node' with
      | rule ref' => simp [GateNode.toValue, GateNode.Agrees, canon_singleton, kind.key_ne_rule]
      | branch kind' children' =>
          have hchildren := canon_gates_eq_iff children children'
          simp [GateNode.toValue, GateNode.Agrees, canon_singleton, canon_list,
            GateKind.key_injective.eq_iff, hchildren]

lemma canon_gates_eq_iff (children children' : List GateNode) :
    (gateValues children).map Value.canon = (gateValues children').map Value.canon ↔
      gatesAgree children children' := by
  cases children with
  | nil => cases children' <;> simp [gateValues, gatesAgree]
  | cons child children =>
      cases children' with
      | nil => simp [gateValues, gatesAgree]
      | cons child' children' =>
          have hchild := canon_gate_eq_iff child child'
          have hchildren := canon_gates_eq_iff children children'
          simp [gateValues, gatesAgree, hchild, hchildren]

end

lemma map_text_eq_iff {texts texts' : List JsString} :
    texts.map (fun text => Value.text text.toWellFormed) =
        texts'.map (fun text => Value.text text.toWellFormed) ↔
      texts.map JsString.toWellFormed = texts'.map JsString.toWellFormed := by
  have hinj : Function.Injective (List.map Value.text) :=
    List.map_injective_iff.mpr fun _ _ h => Value.text.inj h
  rw [← hinj.eq_iff, List.map_map, List.map_map]
  rfl

/-- A text in canonical form is the text. -/
lemma canon_texts (texts : List JsString) :
    (Value.map [("rules", .list (texts.map fun text => .text text.toWellFormed))]).canon =
      .map [("rules", .list (texts.map fun text => .text text.toWellFormed))] := by
  rw [canon_singleton, canon_list, List.map_map]
  rfl

/-- What two documents hold under a key has one canonical form if they have. -/
lemma canon_get? {v v' : Value} (h : v.encodable = true) (h' : v'.encodable = true)
    (hcanon : v.canon = v'.canon) (key : String) :
    (v.get? key).map Value.canon = (v'.get? key).map Value.canon := by
  rw [← get?_canon h, ← get?_canon h', hcanon]

lemma VoteRange.eq_of_canon {range range' : VoteRange} (h : range.toValue.encodable = true)
    (h' : range'.toValue.encodable = true) (hcanon : range.toValue.canon = range'.toValue.canon) :
    range = range' := by
  have hmin := Option.some.inj (canon_get? h h' hcanon "min")
  have hmax := Option.some.inj (canon_get? h h' hcanon "max")
  cases range
  cases range'
  rw [VoteRange.mk.injEq]
  exact ⟨Value.int.inj hmin, Value.int.inj hmax⟩

/-- **Documents agree exactly if they have one canonical form.** -/
lemma canon_toValue_eq_iff {c c' : Criteria} (h : c.toValue.encodable = true)
    (h' : c'.toValue.encodable = true) : c.toValue.canon = c'.toValue.canon ↔ c.Agrees c' := by
  constructor
  · intro hcanon
    have hfield := canon_get? h h' hcanon
    have hcount : ∀ m n : ℕ, Value.int m = Value.int n → m = n := fun m n hmn =>
      Int.ofNat.inj (Value.int.inj hmn)
    have hrules := Option.some.inj (hfield "requires")
    rw [canon_texts, canon_texts] at hrules
    constructor
    · exact Value.text.inj (Option.some.inj (hfield "name"))
    · exact Value.text.inj (Option.some.inj (hfield "contestId"))
    · exact VoteRange.eq_of_canon (encodable_get? h (k := "voteSchema") rfl)
        (encodable_get? h' (k := "voteSchema") rfl) (Option.some.inj (hfield "voteSchema"))
    · exact hcount _ _ (Option.some.inj (hfield "maxVotesPerAddress"))
    · exact hcount _ _ (Option.some.inj (hfield "bucketChainId"))
    · exact hcount _ _ (Option.some.inj (hfield "blocksPerBucket"))
    · exact hcount _ _ (Option.some.inj (hfield "voteExpiryBuckets"))
    · exact (canon_gate_eq_iff _ _).mp (Option.some.inj (hfield "gate"))
    · exact Option.some.inj (hfield "weight")
    · have hlists := (Prod.mk.inj (List.cons.inj (Value.map.inj hrules)).1).2
      exact map_text_eq_iff.mp (Value.list.inj hlists)
  · intro hagrees
    have hgate := (canon_gate_eq_iff _ _).mpr hagrees.gate
    have hrules := map_text_eq_iff.mpr hagrees.requires
    refine canon_map_congr ?_
    simp only [List.map_cons, List.map_nil, hagrees.name, hagrees.contestId, hagrees.voteSchema,
      hagrees.maxVotesPerAddress, hagrees.bucketChainId, hagrees.blocksPerBucket,
      hagrees.voteExpiryBuckets, hagrees.weight, hgate, hrules]

/-! ### One topic, one document -/

section

variable {C : Codecs} {S : CidStrings} {c c' : Criteria} {x x' : Bytes}

/-- What encodes at all is in the ranges of the format. -/
lemma encodable_of_encodeCriteria (h : encodeCriteria C c = some x) :
    c.toValue.encodable = true := by
  rw [← encodable_canon]
  exact C.decode_encodable x _ (C.decode_encode _ x h)

lemma criteriaCid_eq_some (h : encodeCriteria C c = some x) :
    criteriaCid C c = some (0x01 :: Codecs.dagCborCode :: 0x12 :: 0x20 :: C.sha256 x) := by
  rw [criteriaCid, h]
  rfl

lemma topicFor_eq_some (h : encodeCriteria C c = some x) :
    topicFor C S c = some (topicPrefix ++
      S.toString (0x01 :: Codecs.dagCborCode :: 0x12 :: 0x20 :: C.sha256 x)) := by
  rw [topicFor, criteriaCid_eq_some h]
  rfl

/-- Two documents have one topic exactly if they have one digest. -/
lemma topicFor_eq_iff_sha256 (h : encodeCriteria C c = some x)
    (h' : encodeCriteria C c' = some x') :
    topicFor C S c = topicFor C S c' ↔ C.sha256 x = C.sha256 x' := by
  rw [topicFor_eq_some h, topicFor_eq_some h', Option.some_inj, String.append_right_inj,
    S.injective.eq_iff]
  simp only [List.cons.injEq, true_and]

end

/-- Two documents whose bytes do not collide have one topic exactly if they say the same: another
contest, gate, range, cap, chain, bucket, expiry, weight, requirement or label forks the topic, and
the order of an object's properties does not. -/
theorem topicFor_eq_iff {C : Codecs} {S : CidStrings} {c c' : Criteria} {x x' : Bytes}
    (h : encodeCriteria C c = some x) (h' : encodeCriteria C c' = some x')
    (hcollide : C.sha256 x = C.sha256 x' → x = x') :
    topicFor C S c = topicFor C S c' ↔ c.Agrees c' := by
  have hencodable := encodable_of_encodeCriteria h
  have hencodable' := encodable_of_encodeCriteria h'
  rw [topicFor_eq_iff_sha256 h h', ← canon_toValue_eq_iff hencodable hencodable']
  constructor
  · intro hdigest
    obtain rfl := hcollide hdigest
    exact Codecs.encodeCanonical_inj h h'
  · intro hcanon
    have hsame : encodeCriteria C c = encodeCriteria C c' := Codecs.encodeCanonical_congr hcanon
    rw [Option.some.inj (h.symm.trans (hsame.trans h'))]

/-- A board whose gate asks for one pass, the options of its rule in a given order. -/
def passBoard (options : List (String × Value)) : Criteria where
  name := JsString.ofString "Business"
  contestId := JsString.ofString "biz"
  voteSchema := ⟨1, 1⟩
  maxVotesPerAddress := 1
  bucketChainId := 8453
  blocksPerBucket := 43200
  voteExpiryBuckets := 30
  gate := .rule ⟨JsString.ofString "erc5192-min-balance", options⟩
  weight := ⟨JsString.ofString "constant", [("value", .int 1)]⟩
  requires := [JsString.ofString "erc5192-min-balance", JsString.ofString "constant"]

/-- The contract and the least balance. -/
def passOptions : List (String × Value) := [("contract", .text "0x01"), ("min", .int 1)]

lemma agrees_passBoard : (passBoard passOptions).Agrees (passBoard passOptions.reverse) := by
  refine ⟨rfl, rfl, rfl, rfl, rfl, rfl, rfl, ?_, rfl, rfl⟩
  exact canon_map_perm (List.Perm.cons _ (List.Perm.swap _ _ [])) (by decide)

/-- Both orders are encoded, to the same bytes. -/
lemma encodeCriteria_passBoard : ∃ x,
    encodeCriteria .reference (passBoard passOptions) = some x ∧
      encodeCriteria .reference (passBoard passOptions.reverse) = some x := by
  obtain ⟨x, hx⟩ := Option.isSome_iff_exists.mp
    (Codecs.reference.encode_isSome (passBoard passOptions).toValue (by decide +kernel))
  obtain ⟨x', hx'⟩ := Option.isSome_iff_exists.mp
    (Codecs.reference.encode_isSome (passBoard passOptions.reverse).toValue (by decide +kernel))
  have hcanon := (canon_toValue_eq_iff (encodable_of_encodeCriteria hx)
    (encodable_of_encodeCriteria hx')).mpr agrees_passBoard
  exact ⟨x, hx, (Codecs.encodeCanonical_congr hcanon).symm.trans hx⟩

/-- The order of the options does not fork the topic. -/
theorem topicFor_eq_iff_reordered : topicFor .reference .base32 (passBoard passOptions) =
    topicFor .reference .base32 (passBoard passOptions.reverse) := by
  obtain ⟨x, hx, hx'⟩ := encodeCriteria_passBoard
  exact (topicFor_eq_iff hx hx' fun _ => rfl).mpr agrees_passBoard

end PubsubVoting
