import Mathlib.Tactic

/-!
Bytes in base 32, five bits to a digit, with the lower-case alphabet and no padding.

* `Base32.digits`, `Base32.bytes`: bits in groups of five, the last filled up with zeros, and in
  groups of eight, what is left over dropped.
* `Base32.encode`, `Base32.decode`: texts over the alphabet; `decode_encode`: decoding inverts
  encoding, so `encode_injective`.
-/

namespace Base32

/-! ### Bits -/

/-- The lowest `w` bits of a number, most significant first. -/
def bits : ℕ → ℕ → List Bool
  | 0, _ => []
  | w + 1, n => n.testBit w :: bits w n

/-- The number that bits stand for. -/
def ofBits (bs : List Bool) : ℕ := bs.foldl (fun n b => 2 * n + b.toNat) 0

/-- Bits in groups of five. -/
def digits : List Bool → List ℕ
  | a :: b :: c :: d :: e :: rest => ofBits [a, b, c, d, e] :: digits rest
  | [] => []
  | rest => [ofBits (rest ++ List.replicate (5 - rest.length) false)]

/-- Bits in groups of eight. -/
def bytes : List Bool → List UInt8
  | a :: b :: c :: d :: e :: f :: g :: h :: rest =>
      UInt8.ofNat (ofBits [a, b, c, d, e, f, g, h]) :: bytes rest
  | _ => []

lemma bits_ofBits : ∀ a b c d e, bits 5 (ofBits [a, b, c, d, e]) = [a, b, c, d, e] := by
  decide

lemma foldl_bits (w n m : ℕ) :
    (bits w n).foldl (fun n b => 2 * n + b.toNat) m = 2 ^ w * m + n % 2 ^ w := by
  induction w generalizing m with
  | zero => simp [bits, Nat.mod_one]
  | succ w ih =>
      rw [bits, List.foldl_cons, ih, Nat.mod_pow_succ, Nat.toNat_testBit, pow_succ]
      ring

lemma ofBits_bits {w n : ℕ} (h : n < 2 ^ w) : ofBits (bits w n) = n := by
  rw [ofBits, foldl_bits, Nat.mul_zero, Nat.zero_add, Nat.mod_eq_of_lt h]

lemma ofBits_lt : ∀ a b c d e, ofBits [a, b, c, d, e] < 32 := by
  decide

lemma digits_lt (bs : List Bool) : ∀ d ∈ digits bs, d < 32 := by
  fun_induction digits bs with
  | case1 a b c d e rest ih => exact List.forall_mem_cons.mpr ⟨ofBits_lt a b c d e, ih⟩
  | case2 => simp
  | case3 rest hfive hne =>
      rcases rest with - | ⟨a, - | ⟨b, - | ⟨c, - | ⟨d, - | ⟨e, rest⟩⟩⟩⟩⟩
      · exact absurd rfl hne
      · simpa using ofBits_lt a false false false false
      · simpa using ofBits_lt a b false false false
      · simpa using ofBits_lt a b c false false
      · simpa using ofBits_lt a b c d false
      · exact absurd rfl (hfive a b c d e rest)

/-- The digits hold the bits, and less than a digit of zeros. -/
lemma flatMap_bits_digits (bs : List Bool) :
    ∃ k < 5, (digits bs).flatMap (bits 5) = bs ++ List.replicate k false := by
  fun_induction digits bs with
  | case1 a b c d e rest ih =>
      obtain ⟨k, hk, hrest⟩ := ih
      refine ⟨k, hk, ?_⟩
      rw [List.flatMap_cons, bits_ofBits, hrest]
      rfl
  | case2 => exact ⟨0, by norm_num, rfl⟩
  | case3 rest hfive hne =>
      rcases rest with - | ⟨a, - | ⟨b, - | ⟨c, - | ⟨d, - | ⟨e, rest⟩⟩⟩⟩⟩
      · exact absurd rfl hne
      · exact ⟨4, by norm_num, by simpa using bits_ofBits a false false false false⟩
      · exact ⟨3, by norm_num, by simpa using bits_ofBits a b false false false⟩
      · exact ⟨2, by norm_num, by simpa using bits_ofBits a b c false false⟩
      · exact ⟨1, by norm_num, by simpa using bits_ofBits a b c d false⟩
      · exact absurd rfl (hfive a b c d e rest)

/-- Bytes come back from their bits, whatever less than a byte follows them. -/
lemma bytes_flatMap_bits (b : List UInt8) {k : ℕ} (hk : k < 8) :
    bytes (b.flatMap (fun u => bits 8 u.toNat) ++ List.replicate k false) = b := by
  induction b with
  | nil =>
      interval_cases k <;> rfl
  | cons u b ih =>
      have hu : UInt8.ofNat (ofBits (bits 8 u.toNat)) = u := by
        rw [ofBits_bits u.toNat_lt, UInt8.ofNat_toNat]
      calc bytes ((u :: b).flatMap (fun u => bits 8 u.toNat) ++ List.replicate k false)
          = UInt8.ofNat (ofBits (bits 8 u.toNat)) ::
              bytes (b.flatMap (fun u => bits 8 u.toNat) ++ List.replicate k false) := rfl
        _ = u :: b := by rw [hu, ih]

/-! ### The alphabet -/

/-- The 32 digits. -/
def alphabet : List Char := "abcdefghijklmnopqrstuvwxyz234567".toList

/-- Bytes in base 32. -/
def encode (b : List UInt8) : String :=
  String.ofList ((digits (b.flatMap fun u => bits 8 u.toNat)).map fun d => alphabet.getD d 'a')

/-- The bytes that a text over the alphabet stands for. -/
def decode (s : String) : List UInt8 :=
  bytes ((s.toList.map fun c => alphabet.idxOf c).flatMap (bits 5))

lemma idxOf_alphabet : ∀ d < 32, alphabet.idxOf (alphabet.getD d 'a') = d := by
  decide

/-- **The round trip.** -/
theorem decode_encode (b : List UInt8) : decode (encode b) = b := by
  obtain ⟨k, hk, hbits⟩ := flatMap_bits_digits (b.flatMap fun u => bits 8 u.toNat)
  have hdigits : ((digits (b.flatMap fun u => bits 8 u.toNat)).map fun d =>
      alphabet.getD d 'a').map (fun c => alphabet.idxOf c) =
        digits (b.flatMap fun u => bits 8 u.toNat) := by
    rw [List.map_map]
    conv_rhs => rw [← List.map_id (digits _)]
    exact List.map_congr_left fun d hd => idxOf_alphabet d (digits_lt _ d hd)
  rw [decode, encode, String.toList_ofList, hdigits, hbits]
  exact bytes_flatMap_bits b (by omega)

lemma encode_injective : Function.Injective encode :=
  Function.LeftInverse.injective decode_encode

end Base32
