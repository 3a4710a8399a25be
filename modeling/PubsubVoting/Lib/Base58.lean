import Mathlib.Data.Nat.Digits.Lemmas
import Mathlib.Tactic
import PubsubVoting.Lib.JsString
import PubsubVoting.Lib.MapM

/-!
Base conversion that keeps leading zeros, and base58 with the bitcoin alphabet on top of it.

* `rebase`: the digits of the same number in another base, with as many leading zeros.
* `rebase_rebase`: converting there and back gives the digits one started from.
* `Base58.encode`, `Base58.decode`: bytes, written in base 58; `decode_encode`, `encode_decode`: the
  two are inverse to each other.
-/

namespace Base58

/-! ### Numerals with leading zeros -/

/-- The number of leading zeros of a numeral, most significant digit first. -/
def leadingZeros : List ℕ → ℕ
  | 0 :: ds => leadingZeros ds + 1
  | _ => 0

/-- The number a numeral stands for. -/
def value (base : ℕ) (ds : List ℕ) : ℕ := Nat.ofDigits base ds.reverse

/-- The numeral of the same number in base `target`, with as many leading zeros. -/
def rebase (base target : ℕ) (ds : List ℕ) : List ℕ :=
  List.replicate (leadingZeros ds) 0 ++ (Nat.digits target (value base ds)).reverse

lemma value_replicate_append (base n : ℕ) (ds : List ℕ) :
    value base (List.replicate n 0 ++ ds) = value base ds := by
  rw [value, value, List.reverse_append, List.reverse_replicate, Nat.ofDigits_append_replicate_zero]

lemma leadingZeros_replicate_append {ds : List ℕ} (h : ∀ d ∈ ds.head?, d ≠ 0) (n : ℕ) :
    leadingZeros (List.replicate n 0 ++ ds) = n := by
  induction n with
  | zero =>
      rcases ds with - | ⟨d, ds⟩
      · rfl
      · obtain ⟨d, rfl⟩ := Nat.exists_eq_succ_of_ne_zero (h d rfl)
        rfl
  | succ n ih => rw [List.replicate_succ, List.cons_append, leadingZeros, ih]

/-- The significant digits of a number start with a nonzero one. -/
lemma head?_digits_reverse (base n : ℕ) : ∀ d ∈ (Nat.digits base n).reverse.head?, d ≠ 0 := by
  intro d hd
  rw [List.head?_reverse, Option.mem_def] at hd
  have hn : n ≠ 0 := by
    rintro rfl
    simp at hd
  have hlast := List.getLast?_eq_some_getLast (Nat.digits_ne_nil_iff_ne_zero (b := base).mpr hn)
  rw [hlast] at hd
  rw [← Option.some.inj hd]
  exact Nat.getLast_digit_ne_zero base hn

/-- A numeral is its leading zeros followed by the significant digits of its value. -/
lemma eq_replicate_append {base : ℕ} (hbase : 1 < base) {ds : List ℕ} (h : ∀ d ∈ ds, d < base) :
    ds = List.replicate (leadingZeros ds) 0 ++ (Nat.digits base (value base ds)).reverse := by
  induction ds with
  | nil => simp [leadingZeros, value]
  | cons d ds ih =>
      by_cases hd : d = 0
      · subst hd
        have hvalue : value base (0 :: ds) = value base ds := value_replicate_append base 1 ds
        rw [leadingZeros, hvalue, List.replicate_succ, List.cons_append,
          ← ih fun e he => h e (by simp [he])]
      · have hzeros : leadingZeros (d :: ds) = 0 := by
          obtain ⟨d, rfl⟩ := Nat.exists_eq_succ_of_ne_zero hd
          rfl
        have hdigits : Nat.digits base (value base (d :: ds)) = (d :: ds).reverse := by
          refine Nat.digits_ofDigits base hbase _ (fun e he => h e (List.mem_reverse.mp he)) ?_
          intro _
          simpa using hd
        rw [hzeros, hdigits, List.reverse_reverse, List.replicate_zero, List.nil_append]

/-- **Conversion is reversible**, whatever the target base. -/
theorem rebase_rebase {base target : ℕ} (hbase : 1 < base) {ds : List ℕ} (h : ∀ d ∈ ds, d < base) :
    rebase target base (rebase base target ds) = ds := by
  have hvalue : value target (rebase base target ds) = value base ds := by
    rw [rebase, value_replicate_append, value, List.reverse_reverse, Nat.ofDigits_digits]
  have hzeros : leadingZeros (rebase base target ds) = leadingZeros ds :=
    leadingZeros_replicate_append (head?_digits_reverse target _) _
  rw [rebase, hvalue, hzeros]
  exact (eq_replicate_append hbase h).symm

lemma rebase_lt {base target : ℕ} (htarget : 1 < target) {ds : List ℕ} :
    ∀ d ∈ rebase base target ds, d < target := by
  intro d hd
  rcases List.mem_append.mp hd with hd | hd
  · rw [List.eq_of_mem_replicate hd]
    omega
  · exact Nat.digits_lt_base htarget (List.mem_reverse.mp hd)

/-! ### The alphabet -/

/-- The 58 digits: no zero, no capital o, no capital i, no small l. -/
def alphabet : JsString :=
  JsString.ofString "123456789ABCDEFGHJKLMNPQRSTUVWXYZabcdefghijkmnopqrstuvwxyz"

/-- Bytes in base 58. -/
def encode (b : List UInt8) : JsString :=
  (rebase 256 58 (b.map UInt8.toNat)).map fun d => alphabet.getD d 0

/-- The bytes a base-58 text stands for; a unit outside the alphabet is refused. -/
def decode (s : JsString) : Option (List UInt8) := do
  let ds ← s.mapM fun u => alphabet.findIdx? (· == u)
  return (rebase 58 256 ds).map UInt8.ofNat

/-- An encoded text is ASCII. -/
lemma encode_ascii (b : List UInt8) : ∀ u ∈ encode b, u.toNat < 128 := by
  have halphabet : ∀ d < 58, (alphabet.getD d 0).toNat < 128 := by decide
  rw [encode, List.forall_mem_map]
  exact fun d hd => halphabet d (rebase_lt (by norm_num) d hd)

lemma findIdx?_alphabet : ∀ d < 58, alphabet.findIdx? (· == alphabet.getD d 0) = some d := by
  decide

lemma mapM_alphabet {ds : List ℕ} (h : ∀ d ∈ ds, d < 58) :
    (ds.map fun d => alphabet.getD d 0).mapM (fun u => alphabet.findIdx? (· == u)) = some ds := by
  induction ds with
  | nil => rfl
  | cons d ds ih =>
      rw [List.map_cons, List.mapM_cons, findIdx?_alphabet d (h d (by simp)),
        ih fun e he => h e (by simp [he])]
      rfl

/-- **The round trip**: a text that was encoded decodes to the bytes it was made of. -/
theorem decode_encode (b : List UInt8) : decode (encode b) = some b := by
  have hbytes : ∀ d ∈ b.map UInt8.toNat, d < 256 := by
    intro d hd
    obtain ⟨u, -, rfl⟩ := List.mem_map.mp hd
    exact u.toNat_lt
  have hid : (b.map UInt8.toNat).map UInt8.ofNat = b := by
    rw [List.map_map]
    simp [Function.comp_def]
  rw [decode, encode, mapM_alphabet (rebase_lt (by norm_num))]
  simp [rebase_rebase (by norm_num : 1 < 256) hbytes, hid]

lemma getD_of_findIdx? {u : UInt16} {d : ℕ} (h : alphabet.findIdx? (· == u) = some d) :
    d < 58 ∧ alphabet.getD d 0 = u := by
  obtain ⟨hd, heq, -⟩ := List.findIdx?_eq_some_iff_getElem.mp h
  refine ⟨hd.trans_eq (by decide), ?_⟩
  rw [List.getD_eq_getElem?_getD, List.getElem?_eq_getElem hd, Option.getD_some]
  exact eq_of_beq heq

/-- **The round trip the other way**: no two texts decode to the same bytes. -/
theorem encode_decode {s : JsString} {b : List UInt8} (h : decode s = some b) : encode b = s := by
  simp only [decode, Option.bind_eq_bind, Option.bind_eq_some_iff, Option.pure_def,
    Option.some.injEq] at h
  obtain ⟨ds, hds, rfl⟩ := h
  have hlt : ∀ d ∈ ds, d < 58 :=
    List.forall_mem_of_mapM hds fun u _ d hd => (getD_of_findIdx? hd).1
  have htext : (ds.map fun d => alphabet.getD d 0) = s.map id :=
    List.map_eq_map_of_mapM hds fun u _ d hd => (getD_of_findIdx? hd).2
  have hbytes : ((rebase 58 256 ds).map UInt8.ofNat).map UInt8.toNat = rebase 58 256 ds := by
    rw [List.map_map]
    conv_rhs => rw [← List.map_id (rebase 58 256 ds)]
    refine List.map_congr_left fun d hd => ?_
    exact UInt8.toNat_ofNat_of_lt' (rebase_lt (by norm_num) d hd)
  rw [encode, hbytes, rebase_rebase (by norm_num) hlt, htext, List.map_id]

end Base58
