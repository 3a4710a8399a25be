import PubsubVoting.Lib.Cbor

/-!
A decoder for the encoding of `Lib.Cbor`, and the round trip.

* `readHead`, `take?`, `items`: the three readers the decoder is built from, each with its
  lemma about a prefix that was written (`readHead_head`, `take?_append`, `items_append`).
* `decodeValue`: one value off the front of the input; the fuel bounds the nesting.
* `decodeValue_encodeRaw`: a value that was written is read back, with the rest of the input.
* `decode`, `decode_encode`: the whole input, and the round trip up to entry order.
-/

namespace Cbor

/-! ### The readers -/

/-- The first `n` bytes, if there are as many. -/
def take? (n : ℕ) (bs : Bytes) : Option (Bytes × Bytes) :=
  if n ≤ bs.length then some (bs.take n, bs.drop n) else none

lemma take?_append (b rest : Bytes) : take? b.length (b ++ rest) = some (b, rest) := by
  simp [take?]

/-- The number of argument bytes the five low bits of a head announce. -/
def argWidth : ℕ → Option ℕ
  | 24 => some 1
  | 25 => some 2
  | 26 => some 4
  | 27 => some 8
  | _ => none

/-- A head off the front: major type, the five low bits, the argument, the rest. -/
def readHead : Bytes → Option (ℕ × ℕ × ℕ × Bytes)
  | [] => none
  | b :: rest =>
    let major := b.toNat / 32
    let info := b.toNat % 32
    if info < 24 then some (major, info, info, rest)
    else do
      let width ← argWidth info
      let (arg, rest) ← take? width rest
      return (major, info, ofBigEndian arg, rest)

/-- The five low bits of a written head. -/
def headInfo (n : ℕ) : ℕ :=
  if n < 24 then n else if n < 2 ^ 8 then 24 else if n < 2 ^ 16 then 25 else if n < 2 ^ 32 then 26
  else 27

lemma readHead_wide {major info width n : ℕ} {rest : Bytes} (hmajor : major < 8)
    (hinfo : 24 ≤ info) (hinfo' : info < 32) (hwidth : argWidth info = some width)
    (hn : n < 256 ^ width) :
    readHead (UInt8.ofNat (32 * major + info) :: (bigEndian width n ++ rest))
      = some (major, info, n, rest) := by
  have hbyte : (UInt8.ofNat (32 * major + info)).toNat = 32 * major + info :=
    UInt8.toNat_ofNat_of_lt' (by norm_num; omega)
  have hdiv : (32 * major + info) / 32 = major := by omega
  have hmod : (32 * major + info) % 32 = info := by omega
  have htake := take?_append (bigEndian width n) rest
  rw [length_bigEndian] at htake
  simp only [readHead, hbyte, hdiv, hmod, show ¬ info < 24 by omega, if_false, hwidth, htake,
    Option.bind_eq_bind, Option.bind_some, ofBigEndian_bigEndian hn]
  rfl

/-- A written head is read back. -/
lemma readHead_head {major n : ℕ} (rest : Bytes) (hmajor : major < 8) (hn : n < 2 ^ 64) :
    readHead (head major n ++ rest) = some (major, headInfo n, n, rest) := by
  unfold head headInfo
  split_ifs with h₁ h₂ h₃ h₄
  · have hbyte : (UInt8.ofNat (32 * major + n)).toNat = 32 * major + n :=
      UInt8.toNat_ofNat_of_lt' (by norm_num; omega)
    have hdiv : (32 * major + n) / 32 = major := by omega
    have hmod : (32 * major + n) % 32 = n := by omega
    simp only [List.singleton_append, readHead, hbyte, hdiv, hmod, h₁, if_true]
  · exact readHead_wide hmajor (by norm_num) (by norm_num) rfl (by omega)
  · exact readHead_wide hmajor (by norm_num) (by norm_num) rfl (by omega)
  · exact readHead_wide hmajor (by norm_num) (by norm_num) rfl (by omega)
  · exact readHead_wide hmajor (by norm_num) (by norm_num) rfl (by omega)

/-- `n` items off the front, each by `item`. -/
def items {α : Type} (item : Bytes → Option (α × Bytes)) : ℕ → Bytes → Option (List α × Bytes)
  | 0, bs => some ([], bs)
  | n + 1, bs => do
    let (x, bs) ← item bs
    let (xs, bs) ← items item n bs
    return (x :: xs, bs)

/-- A reader that reads each written item back reads the written list back. -/
lemma items_append {α : Type} {item : Bytes → Option (α × Bytes)} {write : α → Bytes}
    {xs : List α} (h : ∀ x ∈ xs, ∀ rest, item (write x ++ rest) = some (x, rest)) (rest : Bytes) :
    items item xs.length (xs.flatMap write ++ rest) = some (xs, rest) := by
  induction xs with
  | nil => rfl
  | cons x xs ih =>
      have hx := h x (by simp) (xs.flatMap write ++ rest)
      have hxs := ih fun y hy => h y (by simp [hy])
      simp [items, hx, hxs]

/-- A text string off the front. -/
def readText (bs : Bytes) : Option (String × Bytes) := do
  let (major, _, n, bs) ← readHead bs
  if major ≠ 3 then none
  else
    let (b, bs) ← take? n bs
    let s ← ofUtf8 b
    return (s, bs)

lemma readText_append {s : String} (hs : (utf8 s).length < 2 ^ 64) (rest : Bytes) :
    readText (head 3 (utf8 s).length ++ utf8 s ++ rest) = some (s, rest) := by
  rw [List.append_assoc, readText, readHead_head _ (by norm_num) hs]
  simp [take?_append, ofUtf8_utf8]

/-- A map entry off the front: its key, then its value by `value`. -/
def readEntry {α : Type} (value : Bytes → Option (α × Bytes)) (bs : Bytes) :
    Option ((String × α) × Bytes) := do
  let (k, bs) ← readText bs
  let (v, bs) ← value bs
  return ((k, v), bs)

/-! ### The decoder -/

/-- One value off the front of the input; the fuel bounds the nesting. -/
def decodeValue : ℕ → Bytes → Option (Value × Bytes)
  | 0, _ => none
  | fuel + 1, bs =>
    match readHead bs with
    | some (0, _, n, rest) => some (.int n, rest)
    | some (1, _, n, rest) => some (.int (-1 - n), rest)
    | some (2, _, n, rest) => (take? n rest).map fun p => (.bytes p.1, p.2)
    | some (3, _, _, _) => (readText bs).map fun p => (.text p.1, p.2)
    | some (4, _, n, rest) => (items (decodeValue fuel) n rest).map fun p => (.list p.1, p.2)
    | some (5, _, n, rest) =>
      (items (readEntry (decodeValue fuel)) n rest).map fun p => (.map p.1, p.2)
    | some (6, _, 42, rest) =>
      match readHead rest with
      | some (2, _, n, rest) =>
        match take? n rest with
        | some (0 :: c, rest) => some (.link c, rest)
        | _ => none
      | _ => none
    | some (7, 20, _, rest) => some (.bool false, rest)
    | some (7, 21, _, rest) => some (.bool true, rest)
    | some (7, 22, _, rest) => some (.null, rest)
    | some (7, 27, w, rest) => some (.float (UInt64.ofNat w), rest)
    | _ => none

/-- The whole input as one value; what could not be encoded again is refused. -/
def decode (bs : Bytes) : Option Value :=
  match decodeValue bs.length bs with
  | some (v, []) => if v.encodable then some v else none
  | _ => none

/-! ### The round trip -/

lemma encodeList_eq_flatMap (xs : List Value) : encodeList xs = xs.flatMap encodeRaw := by
  induction xs with
  | nil => rfl
  | cons x xs ih => rw [encodeList, ih, List.flatMap_cons]

/-- The bytes of one map entry. -/
def encodeEntry (e : String × Value) : Bytes :=
  head 3 (utf8 e.1).length ++ utf8 e.1 ++ encodeRaw e.2

lemma encodeEntries_eq_flatMap (es : List (String × Value)) :
    encodeEntries es = es.flatMap encodeEntry := by
  induction es with
  | nil => rfl
  | cons e es ih => rw [encodeEntries, ih, List.flatMap_cons, encodeEntry]

lemma length_le_of_mem_flatMap {α : Type} {xs : List α} {x : α} (hx : x ∈ xs) (f : α → Bytes) :
    (f x).length ≤ (xs.flatMap f).length := by
  obtain ⟨as, bs, rfl⟩ := List.append_of_mem hx
  simp
  omega

/-- **A written value is read back**, whatever follows it, once the fuel covers its length. -/
theorem decodeValue_encodeRaw (v : Value) (hv : v.encodable = true) (rest : Bytes) {fuel : ℕ}
    (hfuel : (encodeRaw v).length ≤ fuel) :
    decodeValue fuel (encodeRaw v ++ rest) = some (v, rest) := by
  induction v using Value.ind generalizing rest fuel with
  | null =>
      obtain ⟨fuel, rfl⟩ : ∃ f, fuel = f + 1 := ⟨fuel - 1, by simp [encodeRaw] at hfuel; omega⟩
      rfl
  | bool b =>
      obtain ⟨fuel, rfl⟩ : ∃ f, fuel = f + 1 :=
        ⟨fuel - 1, by cases b <;> simp [encodeRaw] at hfuel <;> omega⟩
      cases b <;> rfl
  | int n =>
      obtain ⟨fuel, rfl⟩ : ∃ f, fuel = f + 1 := ⟨fuel - 1, by
        have h := headSize_pos n.toNat
        have h' := headSize_pos (-1 - n).toNat
        simp only [encodeRaw] at hfuel
        split_ifs at hfuel <;> simp at hfuel <;> omega⟩
      simp only [Value.encodable, decide_eq_true_eq] at hv
      by_cases hn : 0 ≤ n
      · rw [encodeRaw, if_pos hn, decodeValue, readHead_head rest (by norm_num) (by omega)]
        simp [hn]
      · rw [encodeRaw, if_neg hn, decodeValue, readHead_head rest (by norm_num) (by omega)]
        simp only [Option.some.injEq, Prod.mk.injEq, Value.int.injEq, and_true]
        omega
  | float w =>
      obtain ⟨fuel, rfl⟩ : ∃ f, fuel = f + 1 := ⟨fuel - 1, by simp [encodeRaw] at hfuel; omega⟩
      have hhead : readHead (UInt8.ofNat (32 * 7 + 27) :: (bigEndian 8 w.toNat ++ rest))
          = some (7, 27, w.toNat, rest) :=
        readHead_wide (by norm_num) (by norm_num) (by norm_num) rfl w.toNat_lt
      rw [encodeRaw, decodeValue, List.cons_append,
        show (0xfb : UInt8) = UInt8.ofNat (32 * 7 + 27) from rfl, hhead]
      simp
  | bytes b =>
      obtain ⟨fuel, rfl⟩ : ∃ f, fuel = f + 1 := ⟨fuel - 1, by
        have h := headSize_pos b.length
        simp [encodeRaw] at hfuel; omega⟩
      simp only [Value.encodable, decide_eq_true_eq] at hv
      rw [encodeRaw, decodeValue, List.append_assoc, readHead_head _ (by norm_num) hv]
      simp [take?_append]
  | text s =>
      obtain ⟨fuel, rfl⟩ : ∃ f, fuel = f + 1 := ⟨fuel - 1, by
        have h := headSize_pos (utf8 s).length
        simp [encodeRaw] at hfuel; omega⟩
      simp only [Value.encodable, decide_eq_true_eq] at hv
      have htext := readText_append hv rest
      rw [encodeRaw, decodeValue, List.append_assoc, readHead_head _ (by norm_num) hv]
      rw [List.append_assoc] at htext
      simp [htext]
  | list xs ih =>
      obtain ⟨fuel, rfl⟩ : ∃ f, fuel = f + 1 := ⟨fuel - 1, by
        have h := headSize_pos xs.length
        simp [encodeRaw] at hfuel; omega⟩
      simp only [Value.encodable, Bool.and_eq_true, decide_eq_true_eq, encodableList_eq_all,
        List.all_eq_true] at hv
      have hitem : ∀ x ∈ xs, ∀ rest, decodeValue fuel (encodeRaw x ++ rest) = some (x, rest) := by
        intro x hx rest
        refine ih x hx (hv.2 x hx) rest ?_
        have hle := length_le_of_mem_flatMap hx encodeRaw
        have h := headSize_pos xs.length
        simp only [encodeRaw, encodeList_eq_flatMap, List.length_append, length_head] at hfuel
        omega
      rw [encodeRaw, decodeValue, List.append_assoc, readHead_head _ (by norm_num) hv.1]
      simp [encodeList_eq_flatMap, items_append hitem]
  | map es ih =>
      obtain ⟨fuel, rfl⟩ : ∃ f, fuel = f + 1 := ⟨fuel - 1, by
        have h := headSize_pos es.length
        simp [encodeRaw] at hfuel; omega⟩
      simp only [Value.encodable, Bool.and_eq_true, decide_eq_true_eq, encodableEntries_eq_all,
        List.all_eq_true] at hv
      have hitem : ∀ e ∈ es, ∀ rest,
          readEntry (decodeValue fuel) (encodeEntry e ++ rest) = some (e, rest) := by
        intro e he rest
        have hlen : (encodeRaw e.2).length ≤ fuel := by
          have hle := length_le_of_mem_flatMap he encodeEntry
          have h := headSize_pos es.length
          simp only [encodeRaw, encodeEntries_eq_flatMap, List.length_append, length_head] at hfuel
          simp only [encodeEntry, List.length_append, length_head] at hle
          omega
        have hvalue := ih e he (hv.2 e he).2 rest hlen
        rw [encodeEntry, List.append_assoc _ (encodeRaw e.2), readEntry,
          readText_append (hv.2 e he).1]
        simp [hvalue]
      have hitems := items_append hitem rest
      rw [encodeRaw, decodeValue, List.append_assoc, readHead_head _ (by norm_num) hv.1.1,
        encodeEntries_eq_flatMap]
      simp only [hitems, Option.map_some]
  | link c =>
      obtain ⟨fuel, rfl⟩ : ∃ f, fuel = f + 1 := ⟨fuel - 1, by
        have h := headSize_pos (c.length + 1)
        simp [encodeRaw] at hfuel; omega⟩
      simp only [Value.encodable, decide_eq_true_eq] at hv
      have htake := take?_append (0 :: c) rest
      rw [List.length_cons] at htake
      rw [encodeRaw, decodeValue, List.append_assoc, List.append_assoc,
        readHead_head _ (by norm_num) (by norm_num)]
      simp only [readHead_head _ (show 2 < 8 by norm_num) hv, htake]

/-- **The round trip**: what was encoded decodes to its canonical form. -/
theorem decode_encode {v : Value} {x : Bytes} (h : encode v = some x) :
    decode x = some v.canon := by
  rw [encode] at h
  split_ifs at h with hv
  obtain rfl := Option.some.inj h
  have hcanon : v.canon.encodable = true := by rw [encodable_canon, hv]
  have hread := decodeValue_encodeRaw v.canon hcanon [] le_rfl
  rw [List.append_nil] at hread
  simp [decode, hread, hcanon]

lemma encodable_of_decode {v : Value} {x : Bytes} (h : decode x = some v) : v.encodable = true := by
  rw [decode] at h
  split at h
  · split_ifs at h with hv
    rw [← Option.some.inj h, hv]
  · simp at h

end Cbor
