import Mathlib.Data.ZMod.Basic
import Mathlib.GroupTheory.OrderOfElement
import Mathlib.Tactic

/-!
Recovering the key behind an ECDSA signature, in any group of points.

* `RecoveryGroup`: the points, and the two that have a given x-coordinate.
* `RecoveryGroup.recoverKey`: the key behind `(r, s)` and the parity of the point `r` stands for.
* `recoverKey_neg`: the negated signature has the same key; `recoverKey_inj`: no other one has;
  `recoverKey_digest_inj`: nor has the signature for another digest.
-/

/-- Points of which `n` times each is zero; those that are lifted from an x-coordinate have order
`n`, and differ by a sign. -/
structure RecoveryGroup (n : ℕ) (E : Type) [AddCommGroup E] where
  base : E
  lift : ℕ → Bool → Option E
  nsmul_eq_zero : ∀ X : E, n • X = 0
  lift_not : ∀ r odd, lift r (!odd) = (lift r odd).map fun R => -R
  order : ∀ r odd R, lift r odd = some R → addOrderOf R = n

namespace RecoveryGroup

variable {n : ℕ} {E : Type} [AddCommGroup E]

/-- The scalar by which a number is inverted modulo `n`. -/
def inverse (n r : ℕ) : ℕ := ((r : ZMod n)⁻¹).val

/-- The signature's scalars are in range, and the first can be inverted. -/
def InRange (n r s : ℕ) : Prop := (0 < r ∧ r < n ∧ r.Coprime n) ∧ 0 < s ∧ s < n

instance (n r s : ℕ) : Decidable (InRange n r s) := by
  rw [InRange]
  infer_instance

variable {r s s' : ℕ}

/-- Inverting is undone by multiplying. -/
lemma nsmul_inverse (c : RecoveryGroup n E) (hr : r.Coprime n) (hn : 0 < n) (X : E) :
    r • (inverse n r • X) = X := by
  have : NeZero n := ⟨hn.ne'⟩
  have hone : r * inverse n r ≡ 1 [MOD n] := by
    rw [← ZMod.natCast_eq_natCast_iff, Nat.cast_mul, inverse, ZMod.natCast_val, ZMod.cast_id,
      ZMod.coe_mul_inv_eq_one r hr, Nat.cast_one]
  have horder : addOrderOf X ∣ n := addOrderOf_dvd_of_nsmul_eq_zero (c.nsmul_eq_zero X)
  calc r • (inverse n r • X) = (r * inverse n r) • X := (mul_nsmul' X r _).symm
    _ = 1 • X := nsmul_eq_nsmul_iff_modEq.mpr (hone.of_dvd horder)
    _ = X := one_nsmul X

/-- The negated scalar, on the negated point. -/
lemma sub_nsmul_neg (c : RecoveryGroup n E) (hs : s ≤ n) (R : E) : (n - s) • -R = s • R := by
  have hsum : (n - s) • R + s • R = 0 := by
    rw [← add_nsmul, Nat.sub_add_cancel hs]
    exact c.nsmul_eq_zero R
  rw [smul_neg]
  exact neg_eq_of_add_eq_zero_right hsum

lemma inRange_sub (h : InRange n r s) : InRange n r (n - s) := by
  obtain ⟨hr, hpos, hlt⟩ := h
  exact ⟨hr, Nat.sub_pos_of_lt hlt, Nat.sub_lt (hpos.trans hlt) hpos⟩

/-- What is divided by `r` is told by the quotient. -/
lemma eq_of_inverse_nsmul (c : RecoveryGroup n E) (hrange : InRange n r s) {X Y : E}
    (h : inverse n r • X = inverse n r • Y) : X = Y := by
  obtain ⟨⟨-, hlt, hcoprime⟩, -⟩ := hrange
  have hn : 0 < n := (Nat.zero_le r).trans_lt hlt
  rw [← c.nsmul_inverse hcoprime hn X, h, c.nsmul_inverse hcoprime hn Y]

variable [DecidableEq E] (c : RecoveryGroup n E)

/-- The key that signed `z` with `(r, s)`, where `r` stands for the point of the given parity: `z`
times the base is taken off `s` times the point, and the rest is divided by `r`. There is none at
infinity. -/
def recoverKey (z r s : ℕ) (odd : Bool) : Option E :=
  if InRange n r s then
    (c.lift r odd).bind fun R =>
      let Q := inverse n r • (s • R - z • c.base)
      if Q = 0 then none else some Q
  else none

variable {c} {z : ℕ} {odd odd' : Bool} {Q R : E}

lemma recoverKey_eq_some_iff : c.recoverKey z r s odd = some Q ↔
    InRange n r s ∧ ∃ R, c.lift r odd = some R ∧
      inverse n r • (s • R - z • c.base) = Q ∧ Q ≠ 0 := by
  rw [recoverKey]
  split_ifs with hrange
  · rw [Option.bind_eq_some_iff]
    refine ⟨fun ⟨R, hR, hQ⟩ => ⟨hrange, R, hR, ?_⟩, fun ⟨_, R, hR, hQ, hne⟩ => ⟨R, hR, ?_⟩⟩
    · dsimp only at hQ
      split_ifs at hQ with hzero
      obtain rfl := Option.some.inj hQ
      exact ⟨rfl, hzero⟩
    · dsimp only
      rw [hQ, if_neg hne]
  · exact ⟨fun h => (by cases h), fun h => absurd h.1 hrange⟩

/-- There is a key behind scalars in range, but at infinity. -/
lemma exists_recoverKey (hrange : InRange n r s) (hR : c.lift r odd = some R)
    (hne : s • R ≠ z • c.base) : ∃ Q, c.recoverKey z r s odd = some Q := by
  refine ⟨_, recoverKey_eq_some_iff.mpr ⟨hrange, R, hR, rfl, fun hzero => hne ?_⟩⟩
  rw [← nsmul_zero (inverse n r)] at hzero
  exact sub_eq_zero.mp (c.eq_of_inverse_nsmul hrange hzero)

/-- **The negated signature has the same key.** -/
theorem recoverKey_neg (h : c.recoverKey z r s odd = some Q) :
    c.recoverKey z r (n - s) (!odd) = some Q := by
  obtain ⟨hrange, R, hR, hQ, hne⟩ := recoverKey_eq_some_iff.mp h
  refine recoverKey_eq_some_iff.mpr ⟨inRange_sub hrange, -R, ?_, ?_, hne⟩
  · rw [c.lift_not, hR, Option.map_some]
  · rw [c.sub_nsmul_neg hrange.2.2.le]
    exact hQ

/-- **No other signature with the same `r` has the key.** -/
theorem recoverKey_inj (h : c.recoverKey z r s odd = some Q)
    (h' : c.recoverKey z r s' odd' = some Q) :
    s' = s ∧ odd' = odd ∨ s' = n - s ∧ odd' = !odd := by
  obtain ⟨hrange, R, hR, hQ, -⟩ := recoverKey_eq_some_iff.mp h
  obtain ⟨hrange', R', hR', hQ', -⟩ := recoverKey_eq_some_iff.mp h'
  have hsame : s • R = s' • R' :=
    sub_left_injective (c.eq_of_inverse_nsmul hrange (hQ.trans hQ'.symm))
  have horder := c.order r odd R hR
  have hscalar : ∀ {k l : ℕ}, k • R = l • R → k < n → l < n → k = l := by
    intro k l hkl hk hl
    have hmod := nsmul_eq_nsmul_iff_modEq.mp hkl
    rw [horder] at hmod
    exact hmod.eq_of_lt_of_lt hk hl
  by_cases hodd : odd' = odd
  · subst hodd
    obtain rfl := Option.some.inj (hR.symm.trans hR')
    exact .inl ⟨(hscalar hsame hrange.2.2 hrange'.2.2).symm, rfl⟩
  · have hflip : odd' = !odd := Bool.eq_not_of_ne hodd
    subst hflip
    rw [c.lift_not, hR, Option.map_some] at hR'
    obtain rfl := Option.some.inj hR'
    have hneg : s • R = (n - s') • R := by
      rw [hsame, ← c.sub_nsmul_neg (Nat.sub_le n s') R, Nat.sub_sub_self hrange'.2.2.le]
    have hs := hscalar hneg hrange.2.2 (inRange_sub hrange').2.2
    refine .inr ⟨?_, rfl⟩
    rw [hs, Nat.sub_sub_self hrange'.2.2.le]

/-- **A signature has a key for one digest only**, up to the order of the base. -/
theorem recoverKey_digest_inj {z' : ℕ} (hbase : addOrderOf c.base = n)
    (h : c.recoverKey z r s odd = some Q) (h' : c.recoverKey z' r s odd = some Q) :
    z ≡ z' [MOD n] := by
  obtain ⟨hrange, R, hR, hQ, -⟩ := recoverKey_eq_some_iff.mp h
  obtain ⟨-, R', hR', hQ', -⟩ := recoverKey_eq_some_iff.mp h'
  obtain rfl := Option.some.inj (hR.symm.trans hR')
  have hsame : z • c.base = z' • c.base :=
    sub_right_injective (c.eq_of_inverse_nsmul hrange (hQ.trans hQ'.symm))
  have hmod := nsmul_eq_nsmul_iff_modEq.mp hsame
  rwa [hbase] at hmod

end RecoveryGroup
