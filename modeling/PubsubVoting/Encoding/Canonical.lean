import PubsubVoting.Lib.Base58
import PubsubVoting.Lib.CborDecode
import PubsubVoting.Lib.Sha256

/-!
The encoders the repository imports, as one parameter of everything built on them.

* `Codecs`: dag-cbor, base58btc, the multihash check and sha2-256, with what their
  documentation promises as laws.
* `Codecs.encodeCanonical`: the single encoder the rest of the library routes through.
* `Codecs.reference`: the laws have a model, built from `Lib.CborDecode`, `Lib.Base58` and
  `Lib.Sha256`.
-/

namespace PubsubVoting

open Cbor

/-- The imported encoders. `base58Encode` and `base58Decode` leave out the multibase prefix. -/
structure Codecs where
  /-- `dagCbor.encode`; `none` where it throws. -/
  dagCborEncode : Value → Option Bytes
  /-- `dagCbor.decode`; `none` where it throws. -/
  dagCborDecode : Bytes → Option Value
  /-- `base58btc.encode` -/
  base58Encode : Bytes → JsString
  /-- `base58btc.decode`; `none` where it throws. -/
  base58Decode : JsString → Option Bytes
  /-- `Digest.decode` of multiformats does not throw: the bytes are one multihash. -/
  isDigest : Bytes → Bool
  /-- `sha256.digest`, the digest alone. -/
  sha256 : Bytes → Bytes
  /-- Map keys are sorted, so the order of the entries does not matter. -/
  encode_canon (v : Value) : dagCborEncode v.canon = dagCborEncode v
  /-- Every value inside the ranges of the format is encoded. -/
  encode_isSome (v : Value) : v.encodable = true → (dagCborEncode v).isSome
  /-- Decoding inverts encoding and returns every entry of a map. -/
  decode_encode (v : Value) (x : Bytes) : dagCborEncode v = some x → dagCborDecode x = some v.canon
  /-- A decoded value can be encoded. -/
  decode_encodable (x : Bytes) (v : Value) : dagCborDecode x = some v → v.encodable = true
  /-- Heads are of minimal length and strings are UTF-8. -/
  length_encode (v : Value) (x : Bytes) : dagCborEncode v = some x → x.length = v.size
  /-- base58 decoding inverts encoding. -/
  base58_decode_encode (b : Bytes) : base58Decode (base58Encode b) = some b
  /-- The base58 alphabet is ASCII. -/
  base58_ascii (b : Bytes) : ∀ u ∈ base58Encode b, u.toNat < 128

namespace Codecs

variable (C : Codecs)

/-- Canonically encode a value to bytes. -/
def encodeCanonical (v : Value) : Option Bytes := C.dagCborEncode v

/-- `dagCborCode`, the codec code of a dag-cbor block in a CID. -/
def dagCborCode : UInt8 := 0x71

variable {C}

lemma encodeCanonical_inj {v w : Value} {x : Bytes} (hv : C.encodeCanonical v = some x)
    (hw : C.encodeCanonical w = some x) : v.canon = w.canon :=
  Option.some.inj ((C.decode_encode v x hv).symm.trans (C.decode_encode w x hw))

lemma encodeCanonical_congr {v w : Value} (h : v.canon = w.canon) :
    C.encodeCanonical v = C.encodeCanonical w := by
  rw [encodeCanonical, encodeCanonical, ← C.encode_canon v, h, C.encode_canon w]

/-- Two values that encode at all have the same bytes exactly if they have the same canonical
form. -/
lemma encodeCanonical_eq_iff {v w : Value} {x : Bytes} (hw : C.encodeCanonical w = some x) :
    C.encodeCanonical v = some x ↔ v.canon = w.canon := by
  constructor
  · intro hv
    exact encodeCanonical_inj hv hw
  · intro h
    rw [encodeCanonical_congr h, hw]

/-! ### A model of the laws -/

/-- A multihash with one-byte prefixes: the hash code, the digest's length, the digest. -/
def multihash : Bytes → Bool
  | code :: n :: digest =>
    decide (code.toNat < 0x80 ∧ n.toNat < 0x80) && decide (digest.length = n.toNat)
  | _ => false

/-- The encoders built from the libraries. -/
def reference : Codecs where
  dagCborEncode := Cbor.encode
  dagCborDecode := Cbor.decode
  base58Encode := Base58.encode
  base58Decode := Base58.decode
  isDigest := multihash
  sha256 := Sha256.sha256
  encode_canon := Cbor.encode_canon
  encode_isSome v hv := by rw [Cbor.encode, if_pos hv]; rfl
  decode_encode _ _ := Cbor.decode_encode
  decode_encodable _ _ := Cbor.encodable_of_decode
  length_encode _ _ := Cbor.length_encode
  base58_decode_encode := Base58.decode_encode
  base58_ascii := Base58.encode_ascii

end Codecs

end PubsubVoting
