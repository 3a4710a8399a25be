import PubsubVoting.Lib.CborDecode
import PubsubVoting.Lib.JsMap

/-!
Records in CBOR: maps read by key.

* `Value.get?`: the value under a key; `Value.onlyKeys`: no key besides the listed ones;
  `Value.without`: a map without a key.
* `get?_canon`, `onlyKeys_canon`: both look through the canonical form.
* `canon_eq_of_onlyKeys`: a map without foreign keys is determined, up to the order of its
  entries, by what it holds under the listed keys.
-/

namespace Cbor

namespace Value

/-- The value a map holds under a key. -/
def get? (k : String) : Value → Option Value
  | .map es => es.lookup k
  | _ => none

/-- No key of the map is outside the list. -/
def onlyKeys (ks : List String) : Value → Bool
  | .map es => es.all fun e => ks.contains e.1
  | _ => true

/-- The map without a key. -/
def without (k : String) : Value → Value
  | .map es => .map (es.filter fun e => e.1 ≠ k)
  | w => w

/-- The entries of a map. -/
def entries? : Value → Option (List (String × Value))
  | .map es => some es
  | _ => none

/-- A byte string. -/
def bytes? : Value → Option Bytes
  | .bytes b => some b
  | _ => none

/-- An integer. -/
def int? : Value → Option ℤ
  | .int n => some n
  | _ => none

/-- A text. -/
def text? : Value → Option String
  | .text s => some s
  | _ => none

/-- The items of a list. -/
def list? : Value → Option (List Value)
  | .list xs => some xs
  | _ => none

@[simp] lemma bytes?_eq_some {w : Value} {b : Bytes} : w.bytes? = some b ↔ w = .bytes b := by
  cases w <;> simp [bytes?]

@[simp] lemma int?_eq_some {w : Value} {n : ℤ} : w.int? = some n ↔ w = .int n := by
  cases w <;> simp [int?]

@[simp] lemma text?_eq_some {w : Value} {s : String} : w.text? = some s ↔ w = .text s := by
  cases w <;> simp [text?]

@[simp] lemma list?_eq_some {w : Value} {xs : List Value} : w.list? = some xs ↔ w = .list xs := by
  cases w <;> simp [list?]

lemma get?_without {w : Value} {k k' : String} (h : k' ≠ k) :
    (w.without k).get? k' = w.get? k' := by
  cases w with
  | map es =>
      induction es with
      | nil => rfl
      | cons e es ih =>
          obtain ⟨key, v⟩ := e
          simp only [without, get?, List.lookup_cons] at ih ⊢
          by_cases hkey : key = k
          · have hne : (k' == key) = false := beq_false_of_ne (hkey ▸ h)
            rw [List.filter_cons_of_neg (by simp [hkey]), hne]
            exact ih
          · rw [List.filter_cons_of_pos (by simp [hkey]), List.lookup_cons]
            cases k' == key with
            | true => rfl
            | false => exact ih
  | null | bool _ | int _ | float _ | bytes _ | text _ | list _ | link _ => rfl

lemma onlyKeys_without {w : Value} {k : String} {ks : List String}
    (h : w.onlyKeys (k :: ks) = true) : (w.without k).onlyKeys ks = true := by
  cases w with
  | map es =>
      simp only [without, onlyKeys, List.all_eq_true, List.mem_filter, decide_eq_true_eq,
        List.contains_cons, Bool.or_eq_true, beq_iff_eq] at h ⊢
      exact fun e he => (h e he.1).resolve_left he.2
  | null | bool _ | int _ | float _ | bytes _ | text _ | list _ | link _ => rfl

/-- Something that holds a value under a key is a map. -/
lemma exists_eq_map {w v : Value} {k : String} (h : w.get? k = some v) : ∃ es, w = .map es := by
  cases w with
  | map es => exact ⟨es, rfl⟩
  | null | bool _ | int _ | float _ | bytes _ | text _ | list _ | link _ => cases h

end Value

/-- Entries without foreign keys are those found under the listed keys, in some order. -/
lemma perm_filterMap_lookup {α : Type} {es : List (String × α)} {ks : List String}
    (h : (es.map Prod.fst).Nodup) (hks : ks.Nodup)
    (hall : ∀ e ∈ es, e.1 ∈ ks) :
    es.Perm (ks.filterMap fun k => (es.lookup k).map (k, ·)) := by
  refine (List.perm_ext_iff_of_nodup (List.Nodup.of_map _ h) ?_).mpr fun e => ?_
  · refine hks.filterMap fun k k' e he he' => ?_
    simp only [Option.mem_def, Option.map_eq_some_iff] at he he'
    obtain ⟨v, -, rfl⟩ := he
    obtain ⟨v', -, h'⟩ := he'
    exact (Prod.mk.inj h').1.symm
  · obtain ⟨k, v⟩ := e
    simp only [List.mem_filterMap, Option.map_eq_some_iff, Prod.mk.injEq]
    constructor
    · intro hmem
      exact ⟨k, hall _ hmem, v, (lookup_eq_some_iff h).mpr hmem, rfl, rfl⟩
    · rintro ⟨k', -, v', hv', rfl, rfl⟩
      exact (lookup_eq_some_iff h).mp hv'

/-! ### What can be encoded -/

lemma encodable_list_iff {xs : List Value} :
    (Value.list xs).encodable = true ↔ xs.length < 2 ^ 64 ∧ ∀ x ∈ xs, x.encodable = true := by
  simp only [Value.encodable, Bool.and_eq_true, decide_eq_true_eq, encodableList_eq_all,
    List.all_eq_true]

lemma encodable_map_iff {es : List (String × Value)} :
    (Value.map es).encodable = true ↔
      es.length < 2 ^ 64 ∧ (es.map Prod.fst).Nodup
        ∧ ∀ e ∈ es, (utf8 e.1).length < 2 ^ 64 ∧ e.2.encodable = true := by
  simp only [Value.encodable, Bool.and_eq_true, decide_eq_true_eq, encodableEntries_eq_all,
    List.all_eq_true, and_assoc]

/-- A map with the given short keys can be encoded once its values can. -/
lemma encodable_record (ks : List String) {es : List (String × Value)}
    (hks : ks.length < 24 ∧ ks.Nodup ∧ ∀ k ∈ ks, (utf8 k).length < 24)
    (hkeys : es.map Prod.fst = ks) (hvalues : ∀ e ∈ es, e.2.encodable = true) :
    (Value.map es).encodable = true := by
  subst hkeys
  rw [encodable_map_iff]
  refine ⟨?_, hks.2.1, fun e he => ⟨?_, hvalues e he⟩⟩
  · have hlen := hks.1
    rw [List.length_map] at hlen
    omega
  · have hkey := hks.2.2 e.1 (List.mem_map_of_mem he)
    omega

/-! ### Looking through the canonical form -/

lemma nodup_of_encodable {es : List (String × Value)} (h : (Value.map es).encodable = true) :
    (es.map Prod.fst).Nodup := (encodable_map_iff.mp h).2.1

lemma encodable_get? {w v : Value} (h : w.encodable = true) {k : String} (hv : w.get? k = some v) :
    v.encodable = true := by
  obtain ⟨es, rfl⟩ := Value.exists_eq_map hv
  have hmem := (lookup_eq_some_iff (nodup_of_encodable h)).mp hv
  exact ((encodable_map_iff.mp h).2.2 _ hmem).2

lemma encodable_of_mem {xs : List Value} (h : (Value.list xs).encodable = true) {x : Value}
    (hx : x ∈ xs) : x.encodable = true := (encodable_list_iff.mp h).2 x hx

lemma get?_canon {w : Value} (h : w.encodable = true) (k : String) :
    w.canon.get? k = (w.get? k).map Value.canon := by
  cases w with
  | map es =>
      have hperm := List.perm_insertionSort entryLe (canonEntries es)
      have hnodup : ((canonEntries es).map Prod.fst).Nodup := by
        rw [canonEntries_eq_map, List.map_map]
        exact nodup_of_encodable h
      rw [Value.canon, Value.get?, Value.get?, ← lookup_perm hperm.symm hnodup,
        canonEntries_eq_map, lookup_map]
  | null | bool _ | int _ | float _ | bytes _ | text _ | list _ | link _ => rfl

lemma onlyKeys_canon (w : Value) (ks : List String) : w.canon.onlyKeys ks = w.onlyKeys ks := by
  cases w with
  | map es =>
      rw [Value.canon, Value.onlyKeys, Value.onlyKeys,
        (List.perm_insertionSort entryLe (canonEntries es)).all_eq, canonEntries_eq_map,
        List.all_map]
      rfl
  | null | bool _ | int _ | float _ | bytes _ | text _ | list _ | link _ => rfl

/-- **A map without foreign keys** is the map of what it holds under the listed keys, up to the
order of the entries. -/
theorem canon_eq_of_onlyKeys {w : Value} {ks : List String} (hks : ks.Nodup)
    (h : w.encodable = true) {k : String} {v : Value} (hv : w.get? k = some v)
    (honly : w.onlyKeys ks = true) :
    w.canon = (Value.map (ks.filterMap fun k => (w.get? k).map (k, ·))).canon := by
  obtain ⟨es, rfl⟩ := Value.exists_eq_map hv
  have hall : ∀ e ∈ es, e.1 ∈ ks := by simpa [Value.onlyKeys] using honly
  exact canon_map_perm (perm_filterMap_lookup (nodup_of_encodable h) hks hall)
    (nodup_of_encodable h)

end Cbor
