import Mathlib.Tactic
import Mathlib.Data.List.Sort

/-!
The data model behind a canonical CBOR block and its deterministic encoding (RFC 8949 with
minimal-length heads and length-first key order), as a library of its own: nothing here
mentions votes.

* `Value`: the data-model values; a map is the list of its entries, in the order its writer
  gave them.
* `Value.canon`: the same value with the entries of every map sorted (`keyLe`, shorter keys
  first, then bytewise), so two maps that differ in entry order only have one canonical form.
* `encodeRaw`, `encode`: the bytes of a value as written, and of its canonical form; `encode`
  refuses a value outside the 64-bit ranges of the heads and a map that repeats a key.
* `headSize`, `Value.size`: the length of an encoding in closed form (`length_encodeRaw`), which
  sorting does not change (`size_canon`).
-/

namespace Cbor

/-- A byte string. -/
abbrev Bytes := List UInt8

/-- One name for what every lookup of a byte string rests on. -/
instance : LawfulBEq Bytes := inferInstance

/-- A data-model value. A float is carried as its 64-bit pattern. -/
inductive Value where
  | null
  | bool (b : Bool)
  | int (n : ℤ)
  | float (bits : UInt64)
  | bytes (b : Bytes)
  | text (s : String)
  | list (xs : List Value)
  | map (entries : List (String × Value))
  | link (cid : Bytes)

namespace Value

/-- The induction principle of the nested inductive: a property holds of every value once it is
inherited from the items of a list and from the values of a map. -/
@[elab_as_elim]
theorem ind {P : Value → Prop} (null : P .null) (bool : ∀ b, P (.bool b)) (int : ∀ n, P (.int n))
    (float : ∀ w, P (.float w)) (bytes : ∀ b, P (.bytes b)) (text : ∀ s, P (.text s))
    (list : ∀ xs : List Value, (∀ x ∈ xs, P x) → P (.list xs))
    (map : ∀ es : List (String × Value), (∀ e ∈ es, P e.2) → P (.map es))
    (link : ∀ c, P (.link c)) (v : Value) : P v :=
  @Value.rec P (fun xs => ∀ x ∈ xs, P x) (fun es => ∀ e ∈ es, P e.2) (fun e => P e.2)
    null bool int float bytes text (fun xs ih => list xs ih) (fun es ih => map es ih) link
    (by simp) (fun _ _ hx hxs => List.forall_mem_cons.mpr ⟨hx, hxs⟩)
    (by simp) (fun _ _ he hes => List.forall_mem_cons.mpr ⟨he, hes⟩)
    (fun _ _ hv => hv) v

end Value

/-! ### Text -/

/-- The UTF-8 bytes of a string. -/
def utf8 (s : String) : Bytes := s.toList.flatMap String.utf8EncodeChar

/-- The string that UTF-8 bytes spell, if they are well formed. -/
def ofUtf8 (b : Bytes) : Option String :=
  b.toByteArray.utf8Decode?.map fun cs => String.ofList cs.toList

lemma ofUtf8_utf8 (s : String) : ofUtf8 (utf8 s) = some s := by
  have h : (utf8 s).toByteArray = s.toList.utf8Encode := rfl
  rw [ofUtf8, h, List.utf8Decode?_utf8Encode]
  simp

lemma utf8_injective : Function.Injective utf8 := fun s t h => by
  have hs := ofUtf8_utf8 s
  rw [h, ofUtf8_utf8] at hs
  exact (Option.some.inj hs).symm

lemma length_utf8 (s : String) : (utf8 s).length = (s.toList.map Char.utf8Size).sum := by
  simp [utf8, List.length_flatMap]

/-! ### Heads -/

/-- The `k` low bytes of `n`, most significant first. -/
def bigEndian : ℕ → ℕ → Bytes
  | 0, _ => []
  | k + 1, n => bigEndian k (n / 256) ++ [UInt8.ofNat (n % 256)]

/-- The number big-endian bytes spell. -/
def ofBigEndian (b : Bytes) : ℕ := b.foldl (fun acc x => 256 * acc + x.toNat) 0

@[simp] lemma length_bigEndian (k n : ℕ) : (bigEndian k n).length = k := by
  induction k generalizing n with
  | zero => rfl
  | succ k ih => simp [bigEndian, ih]

lemma ofBigEndian_append (b : Bytes) (x : UInt8) :
    ofBigEndian (b ++ [x]) = 256 * ofBigEndian b + x.toNat := by
  simp [ofBigEndian]

/-- Bytes of one length spell different numbers. -/
lemma ofBigEndian_inj {b b' : Bytes} (hlength : b.length = b'.length) :
    ofBigEndian b = ofBigEndian b' ↔ b = b' := by
  refine ⟨fun h => ?_, fun h => h ▸ rfl⟩
  induction b using List.reverseRecOn generalizing b' with
  | nil => exact (List.length_eq_zero_iff.mp hlength.symm).symm
  | append_singleton b x ih =>
      rcases List.eq_nil_or_concat b' with rfl | ⟨b', x', rfl⟩
      · simp at hlength
      · rw [List.concat_eq_append] at h hlength ⊢
        rw [ofBigEndian_append, ofBigEndian_append] at h
        rw [List.length_append, List.length_append] at hlength
        have hx := x.toNat_lt
        have hx' := x'.toNat_lt
        have hlast : x = x' := UInt8.toNat_inj.mp (by omega)
        rw [ih (Nat.add_right_cancel hlength) (by omega), hlast]

lemma ofBigEndian_bigEndian {k n : ℕ} (h : n < 256 ^ k) : ofBigEndian (bigEndian k n) = n := by
  induction k generalizing n with
  | zero => simp at h; simp [bigEndian, ofBigEndian, h]
  | succ k ih =>
      have hdiv : n / 256 < 256 ^ k := by
        rw [pow_succ] at h
        exact Nat.div_lt_of_lt_mul (by rw [Nat.mul_comm]; exact h)
      have hmod : (UInt8.ofNat (n % 256)).toNat = n % 256 :=
        UInt8.toNat_ofNat_of_lt' (Nat.mod_lt _ (by norm_num))
      rw [bigEndian, ofBigEndian_append, ih hdiv, hmod]
      omega

/-- The head of an item: major type and argument in the shortest of the five forms. -/
def head (major n : ℕ) : Bytes :=
  if n < 24 then [UInt8.ofNat (32 * major + n)]
  else if n < 2 ^ 8 then UInt8.ofNat (32 * major + 24) :: bigEndian 1 n
  else if n < 2 ^ 16 then UInt8.ofNat (32 * major + 25) :: bigEndian 2 n
  else if n < 2 ^ 32 then UInt8.ofNat (32 * major + 26) :: bigEndian 4 n
  else UInt8.ofNat (32 * major + 27) :: bigEndian 8 n

/-- The length of a head. -/
def headSize (n : ℕ) : ℕ :=
  if n < 24 then 1 else if n < 2 ^ 8 then 2 else if n < 2 ^ 16 then 3
  else if n < 2 ^ 32 then 5 else 9

@[simp] lemma length_head (major n : ℕ) : (head major n).length = headSize n := by
  unfold head headSize
  split_ifs <;> simp

lemma headSize_pos (n : ℕ) : 1 ≤ headSize n := by
  rw [headSize]
  split_ifs <;> norm_num

lemma headSize_le_nine (n : ℕ) : headSize n ≤ 9 := by
  rw [headSize]
  split_ifs <;> norm_num

lemma headSize_mono {m n : ℕ} (h : m ≤ n) : headSize m ≤ headSize n := by
  unfold headSize
  split_ifs <;> omega

/-! ### The canonical form -/

/-- Length-first order on map keys: shorter keys first, then by bytes. -/
def keyLe (a b : String) : Prop :=
  toLex ((utf8 a).length, (utf8 a).map UInt8.toNat)
    ≤ toLex ((utf8 b).length, (utf8 b).map UInt8.toNat)

instance : DecidableRel keyLe := fun _ _ => inferInstanceAs (Decidable (_ ≤ _))

lemma keyLe_total (a b : String) : keyLe a b ∨ keyLe b a := le_total _ _

lemma keyLe_trans {a b c : String} (h₁ : keyLe a b) (h₂ : keyLe b c) : keyLe a c :=
  le_trans (α := ℕ ×ₗ List ℕ) h₁ h₂

lemma keyLe_antisymm {a b : String} (h₁ : keyLe a b) (h₂ : keyLe b a) : a = b := by
  have h := le_antisymm (α := ℕ ×ₗ List ℕ) h₁ h₂
  have h' : (utf8 a).map UInt8.toNat = (utf8 b).map UInt8.toNat := (Prod.mk.inj h).2
  exact utf8_injective (List.map_injective_iff.mpr (fun x y => UInt8.toNat_inj.mp) h')

/-- The entry order induced by the key order. -/
def entryLe {α : Type} (a b : String × α) : Prop := keyLe a.1 b.1

instance {α : Type} : DecidableRel (entryLe (α := α)) := fun a b =>
  inferInstanceAs (Decidable (keyLe a.1 b.1))

instance {α : Type} : Std.Total (entryLe (α := α)) := ⟨fun a b => keyLe_total a.1 b.1⟩

instance {α : Type} : IsTrans (String × α) entryLe := ⟨fun _ _ _ => keyLe_trans⟩

mutual

/-- The value with the entries of every map in canonical order. -/
def Value.canon : Value → Value
  | .list xs => .list (canonList xs)
  | .map es => .map ((canonEntries es).insertionSort entryLe)
  | v => v

/-- The items of a list, each in canonical form. -/
def canonList : List Value → List Value
  | [] => []
  | x :: xs => x.canon :: canonList xs

/-- The entries of a map, each value in canonical form, in the order they came. -/
def canonEntries : List (String × Value) → List (String × Value)
  | [] => []
  | (k, v) :: es => (k, v.canon) :: canonEntries es

end

lemma canonList_eq_map (xs : List Value) : canonList xs = xs.map Value.canon := by
  induction xs with
  | nil => rfl
  | cons x xs ih => rw [canonList, ih, List.map_cons]

lemma canonEntries_eq_map (es : List (String × Value)) :
    canonEntries es = es.map fun e => (e.1, e.2.canon) := by
  induction es with
  | nil => rfl
  | cons e es ih => rw [canonEntries, ih, List.map_cons]

/-! ### Encoding -/

mutual

/-- The bytes of a value as written, map entries in the order they stand. -/
def encodeRaw : Value → Bytes
  | .null => [0xf6]
  | .bool false => [0xf4]
  | .bool true => [0xf5]
  | .int n => if 0 ≤ n then head 0 n.toNat else head 1 (-1 - n).toNat
  | .float w => 0xfb :: bigEndian 8 w.toNat
  | .bytes b => head 2 b.length ++ b
  | .text s => head 3 (utf8 s).length ++ utf8 s
  | .list xs => head 4 xs.length ++ encodeList xs
  | .map es => head 5 es.length ++ encodeEntries es
  | .link c => head 6 42 ++ head 2 (c.length + 1) ++ 0 :: c

/-- The items of a list, one after the other. -/
def encodeList : List Value → Bytes
  | [] => []
  | x :: xs => encodeRaw x ++ encodeList xs

/-- The entries of a map, each key before its value. -/
def encodeEntries : List (String × Value) → Bytes
  | [] => []
  | (k, v) :: es => (head 3 (utf8 k).length ++ utf8 k) ++ encodeRaw v ++ encodeEntries es

end

/-- A 64-bit pattern that stands for a float: finite, and not a safe integer, which is written as
an integer. -/
def isFloat (w : UInt64) : Bool :=
  let exponent := w.toNat / 2 ^ 52 % 2 ^ 11
  let mantissa := w.toNat % 2 ^ 52
  decide (exponent ≠ 2047) && !decide (exponent = 0 ∧ mantissa = 0)
    && !decide (1023 ≤ exponent ∧ exponent ≤ 1075 ∧ mantissa % 2 ^ (1075 - exponent) = 0)

mutual

/-- What an encoder accepts: arguments below `2^64`, floats that are not integers, and no repeated
key. -/
def Value.encodable : Value → Bool
  | .int n => decide (-2 ^ 64 ≤ n ∧ n < 2 ^ 64)
  | .float w => isFloat w
  | .bytes b => decide (b.length < 2 ^ 64)
  | .text s => decide ((utf8 s).length < 2 ^ 64)
  | .list xs => decide (xs.length < 2 ^ 64) && encodableList xs
  | .map es => decide (es.length < 2 ^ 64) && decide (es.map Prod.fst).Nodup && encodableEntries es
  | .link c => decide (c.length + 1 < 2 ^ 64)
  | _ => true

/-- Every item of a list is accepted. -/
def encodableList : List Value → Bool
  | [] => true
  | x :: xs => x.encodable && encodableList xs

/-- Every key and value of a map is accepted. -/
def encodableEntries : List (String × Value) → Bool
  | [] => true
  | (k, v) :: es => decide ((utf8 k).length < 2 ^ 64) && v.encodable && encodableEntries es

end

/-- Deterministic encoding: the bytes of the canonical form. -/
def encode (v : Value) : Option Bytes := if v.encodable then some (encodeRaw v.canon) else none

/-! ### The length of an encoding -/

mutual

/-- The encoded length of a value: every head minimal, strings in UTF-8. -/
def Value.size : Value → ℕ
  | .null => 1
  | .bool _ => 1
  | .int n => if 0 ≤ n then headSize n.toNat else headSize (-1 - n).toNat
  | .float _ => 9
  | .bytes b => headSize b.length + b.length
  | .text s => headSize (utf8 s).length + (utf8 s).length
  | .list xs => headSize xs.length + sizeList xs
  | .map es => headSize es.length + sizeEntries es
  | .link c => headSize 42 + headSize (c.length + 1) + (c.length + 1)

/-- The encoded length of the items of a list. -/
def sizeList : List Value → ℕ
  | [] => 0
  | x :: xs => x.size + sizeList xs

/-- The encoded length of the entries of a map. -/
def sizeEntries : List (String × Value) → ℕ
  | [] => 0
  | (k, v) :: es => headSize (utf8 k).length + (utf8 k).length + v.size + sizeEntries es

end

lemma sizeList_eq_sum (xs : List Value) : sizeList xs = (xs.map Value.size).sum := by
  induction xs with
  | nil => rfl
  | cons x xs ih => rw [sizeList, ih, List.map_cons, List.sum_cons]

lemma sizeEntries_eq_sum (es : List (String × Value)) :
    sizeEntries es
      = (es.map fun e => headSize (utf8 e.1).length + (utf8 e.1).length + e.2.size).sum := by
  induction es with
  | nil => rfl
  | cons e es ih => rw [sizeEntries, ih, List.map_cons, List.sum_cons]

lemma length_encodeList {xs : List Value} (h : ∀ x ∈ xs, (encodeRaw x).length = x.size) :
    (encodeList xs).length = sizeList xs := by
  induction xs with
  | nil => rfl
  | cons x xs ih =>
      rw [encodeList, List.length_append, h x (by simp), ih fun y hy => h y (by simp [hy]),
        sizeList]

lemma length_encodeEntries {es : List (String × Value)}
    (h : ∀ e ∈ es, (encodeRaw e.2).length = e.2.size) :
    (encodeEntries es).length = sizeEntries es := by
  induction es with
  | nil => rfl
  | cons e es ih =>
      rw [encodeEntries, List.length_append, List.length_append, List.length_append,
        h e (by simp), ih fun e' he' => h e' (by simp [he']), sizeEntries, length_head]

/-- The closed form is the length of the bytes. -/
lemma length_encodeRaw (v : Value) : (encodeRaw v).length = v.size := by
  induction v using Value.ind with
  | null => rfl
  | bool b => cases b <;> rfl
  | int n => simp only [encodeRaw, Value.size]; split_ifs <;> simp
  | float w => simp [encodeRaw, Value.size]
  | bytes b => simp [encodeRaw, Value.size]
  | text s => simp [encodeRaw, Value.size]
  | list xs ih => simp [encodeRaw, Value.size, length_encodeList ih]
  | map es ih => simp [encodeRaw, Value.size, length_encodeEntries ih]
  | link c => simp [encodeRaw, Value.size]; omega

/-- Sorting the entries of the maps leaves the length alone. -/
lemma size_canon (v : Value) : v.canon.size = v.size := by
  induction v using Value.ind with
  | list xs ih =>
      have hmap : (xs.map Value.canon).map Value.size = xs.map Value.size := by
        simpa using ih
      simp only [Value.canon, Value.size, canonList_eq_map, sizeList_eq_sum, hmap, List.length_map]
  | map es ih =>
      have hperm := List.perm_insertionSort entryLe (canonEntries es)
      have hsum : sizeEntries (canonEntries es) = sizeEntries es := by
        rw [canonEntries_eq_map, sizeEntries_eq_sum, sizeEntries_eq_sum, List.map_map]
        congr 1
        exact List.map_congr_left fun e he => by simp [ih e he]
      have hsort : sizeEntries ((canonEntries es).insertionSort entryLe) = sizeEntries es := by
        rw [← hsum, sizeEntries_eq_sum, sizeEntries_eq_sum]
        exact (hperm.map _).sum_eq
      have hlen : ((canonEntries es).insertionSort entryLe).length = es.length := by
        rw [hperm.length_eq, canonEntries_eq_map, List.length_map]
      rw [Value.canon, Value.size, Value.size, hsort, hlen]
  | null | bool _ | int _ | float _ | bytes _ | text _ | link _ => rfl

lemma length_encode {v : Value} {x : Bytes} (h : encode v = some x) : x.length = v.size := by
  rw [encode] at h
  split_ifs at h
  rw [← Option.some.inj h, length_encodeRaw, size_canon]

/-! ### Canonical forms -/

/-- The canonical form of a map depends on its entries as a set: reordering them changes nothing,
as long as no key is repeated. -/
lemma canon_map_perm {es es' : List (String × Value)} (hperm : es.Perm es')
    (hnodup : (es.map Prod.fst).Nodup) : (Value.map es).canon = (Value.map es').canon := by
  have hkeys : ((canonEntries es).map Prod.fst).Nodup := by
    rw [canonEntries_eq_map, List.map_map]
    exact hnodup
  have hcanon : (canonEntries es).Perm (canonEntries es') := by
    rw [canonEntries_eq_map, canonEntries_eq_map]
    exact hperm.map _
  rw [Value.canon, Value.canon]
  congr 1
  refine List.Perm.eq_of_pairwise ?_ (List.pairwise_insertionSort entryLe _)
    (List.pairwise_insertionSort entryLe _)
    ((List.perm_insertionSort _ _).trans (hcanon.trans (List.perm_insertionSort _ _).symm))
  intro a b ha hb hab hba
  have ha' := (List.mem_insertionSort entryLe).mp ha
  have hb' := hcanon.mem_iff.mpr ((List.mem_insertionSort entryLe).mp hb)
  exact List.inj_on_of_nodup_map hkeys ha' hb' (keyLe_antisymm hab hba)

lemma canon_list (xs : List Value) : (Value.list xs).canon = .list (xs.map Value.canon) := by
  rw [Value.canon, canonList_eq_map]

/-- The canonical form of a map looks only at the canonical forms of its values. -/
lemma canon_map_congr {es es' : List (String × Value)}
    (h : es.map (fun e => (e.1, e.2.canon)) = es'.map fun e => (e.1, e.2.canon)) :
    (Value.map es).canon = (Value.map es').canon := by
  rw [Value.canon, Value.canon, canonEntries_eq_map, canonEntries_eq_map, h]

lemma canon_canon (v : Value) : v.canon.canon = v.canon := by
  induction v using Value.ind with
  | list xs ih =>
      rw [canon_list, canon_list, List.map_map]
      congr 1
      exact List.map_congr_left ih
  | map es ih =>
      have hid : ((canonEntries es).insertionSort entryLe).map (fun e => (e.1, e.2.canon))
          = (canonEntries es).insertionSort entryLe := by
        conv_rhs => rw [← List.map_id ((canonEntries es).insertionSort entryLe)]
        refine List.map_congr_left fun e he => ?_
        have hmem := (List.mem_insertionSort entryLe).mp he
        rw [canonEntries_eq_map] at hmem
        obtain ⟨e', he', rfl⟩ := List.mem_map.mp hmem
        simp [ih e' he']
      rw [Value.canon, Value.canon, canonEntries_eq_map, hid]
      congr 1
      exact (List.pairwise_insertionSort entryLe (canonEntries es)).insertionSort_eq
  | null | bool _ | int _ | float _ | bytes _ | text _ | link _ => rfl

lemma encodableList_eq_all (xs : List Value) : encodableList xs = xs.all Value.encodable := by
  induction xs with
  | nil => rfl
  | cons x xs ih => rw [encodableList, ih, List.all_cons]

lemma encodableEntries_eq_all (es : List (String × Value)) :
    encodableEntries es = es.all fun e => decide ((utf8 e.1).length < 2 ^ 64) && e.2.encodable := by
  induction es with
  | nil => rfl
  | cons e es ih => rw [encodableEntries, ih, List.all_cons]

lemma encodable_canon (v : Value) : v.canon.encodable = v.encodable := by
  induction v using Value.ind with
  | list xs ih =>
      have hall : (xs.map Value.canon).all Value.encodable = xs.all Value.encodable := by
        rw [List.all_map, Bool.eq_iff_iff, List.all_eq_true, List.all_eq_true]
        exact forall₂_congr fun x hx => by rw [Function.comp_apply, ih x hx]
      rw [canon_list, Value.encodable, Value.encodable, encodableList_eq_all, encodableList_eq_all,
        hall, List.length_map]
  | map es ih =>
      have hperm := List.perm_insertionSort entryLe (canonEntries es)
      have hall : ((canonEntries es).insertionSort entryLe).all
            (fun e => decide ((utf8 e.1).length < 2 ^ 64) && e.2.encodable)
          = es.all fun e => decide ((utf8 e.1).length < 2 ^ 64) && e.2.encodable := by
        rw [hperm.all_eq, canonEntries_eq_map, List.all_map, Bool.eq_iff_iff, List.all_eq_true,
          List.all_eq_true]
        exact forall₂_congr fun e he => by rw [Function.comp_apply, ih e he]
      have hkeys : (((canonEntries es).insertionSort entryLe).map Prod.fst).Nodup
          ↔ (es.map Prod.fst).Nodup := by
        rw [(hperm.map Prod.fst).nodup_iff, canonEntries_eq_map, List.map_map]
        rfl
      have hlen : ((canonEntries es).insertionSort entryLe).length = es.length := by
        rw [hperm.length_eq, canonEntries_eq_map, List.length_map]
      rw [Value.canon, Value.encodable, Value.encodable, encodableEntries_eq_all,
        encodableEntries_eq_all, hall, hlen, decide_eq_decide.mpr hkeys]
  | null | bool _ | int _ | float _ | bytes _ | text _ | link _ => rfl

/-- Encoding looks only at the canonical form. -/
lemma encode_canon (v : Value) : encode v.canon = encode v := by
  rw [encode, encode, encodable_canon, canon_canon]

end Cbor
