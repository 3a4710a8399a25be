import PubsubVoting.Lib.JsString
import PubsubVoting.Lib.MapM
import Mathlib.Data.List.TakeWhile

/-!
Numbers in strings: the decimal digits of a natural number, and what stands after the last
separator of a string.

* `decimal`, `number?`, `number?_decimal`: rendering a number and reading it back.
* `afterLast`, `afterLast_append`: `s.slice(s.lastIndexOf(sep) + 1)`, and what it is of a string
  that was put together around the separator.
-/

namespace JsString

/-! ### Digits -/

/-- The unit of a digit. -/
def digitUnit (d : ℕ) : UInt16 := UInt16.ofNat (48 + d)

/-- The digit a unit stands for. -/
def digit? (u : UInt16) : Option ℕ :=
  if 48 ≤ u.toNat ∧ u.toNat < 58 then some (u.toNat - 48) else none

/-- `String(n)` for a natural number. -/
def decimal (n : ℕ) : JsString :=
  if n = 0 then [digitUnit 0] else (Nat.digits 10 n).reverse.map digitUnit

/-- `Number(s)` for a string of digits, the empty one included; no number for any other string. -/
def number? (s : JsString) : Option ℕ := (s.mapM digit?).map fun ds => Nat.ofDigits 10 ds.reverse

lemma toNat_digitUnit {d : ℕ} (h : d < 10) : (digitUnit d).toNat = 48 + d := by
  rw [digitUnit, UInt16.toNat_ofNat']
  omega

lemma digit?_digitUnit {d : ℕ} (h : d < 10) : digit? (digitUnit d) = some d := by
  rw [digit?, toNat_digitUnit h, if_pos (by omega), Nat.add_sub_cancel_left]

/-- The units of a rendered number are those of digits. -/
lemma exists_digit_of_mem_decimal {n : ℕ} {u : UInt16} (h : u ∈ decimal n) :
    ∃ d < 10, u = digitUnit d := by
  rw [decimal] at h
  split_ifs at h with hn
  · exact ⟨0, by omega, List.mem_singleton.mp h⟩
  · obtain ⟨d, hd, rfl⟩ := List.mem_map.mp h
    exact ⟨d, Nat.digits_lt_base (by omega) (List.mem_reverse.mp hd), rfl⟩

/-- A unit that is no digit does not occur in a rendered number. -/
lemma not_mem_decimal {u : UInt16} (h : u.toNat < 48 ∨ 58 ≤ u.toNat) (n : ℕ) : u ∉ decimal n := by
  intro hmem
  obtain ⟨d, hd, rfl⟩ := exists_digit_of_mem_decimal hmem
  rw [toNat_digitUnit hd] at h
  omega

/-- A number is read back from its digits. -/
theorem number?_decimal (n : ℕ) : number? (decimal n) = some n := by
  unfold number? decimal
  split_ifs with hn
  · subst hn
    rfl
  · have hdigits : ((Nat.digits 10 n).reverse.map digitUnit).mapM digit?
        = some (Nat.digits 10 n).reverse := by
      rw [List.mapM_map]
      have hlt : ∀ d ∈ (Nat.digits 10 n).reverse, d < 10 := fun d hd =>
        Nat.digits_lt_base (by omega) (List.mem_reverse.mp hd)
      have hid := List.mapM_eq_some_of_forall (f := digit? ∘ digitUnit) (g := id)
        fun d hd => digit?_digitUnit (hlt d hd)
      rwa [List.map_id] at hid
    rw [hdigits, Option.map_some, List.reverse_reverse, Nat.ofDigits_digits]

lemma decimal_injective : Function.Injective decimal := fun m n h => by
  have hnumber := congrArg number? h
  rw [number?_decimal, number?_decimal] at hnumber
  exact Option.some.inj hnumber

/-! ### The last separator -/

/-- What stands after the last separator; the whole string where there is none. -/
def afterLast (sep : UInt16) (s : JsString) : JsString :=
  (s.reverse.takeWhile fun u => decide (u ≠ sep)).reverse

lemma takeWhile_append_stop {p : UInt16 → Bool} {u : UInt16} (hu : p u = false)
    (s t : JsString) : (s ++ u :: t).takeWhile p = s.takeWhile p := by
  induction s with
  | nil => simp [hu]
  | cons v s ih => by_cases hv : p v = true <;> simp [hv, ih]

/-- What stands before a separator does not count. -/
lemma afterLast_append_sep (sep : UInt16) (s t : JsString) :
    afterLast sep (t ++ sep :: s) = afterLast sep s := by
  rw [afterLast, List.reverse_append, List.reverse_cons, List.append_assoc,
    List.singleton_append, takeWhile_append_stop (by simp), afterLast]

theorem afterLast_append {sep : UInt16} {s : JsString} (h : sep ∉ s) (t : JsString) :
    afterLast sep (t ++ sep :: s) = s := by
  have hs : ∀ u ∈ s.reverse, decide (u ≠ sep) = true := fun u hu =>
    decide_eq_true fun he => h (he ▸ List.mem_reverse.mp hu)
  rw [afterLast_append_sep, afterLast, List.takeWhile_eq_self_iff.mpr hs, List.reverse_reverse]

/-- A string is determined by what stands before and after its last separator. -/
lemma append_sep_inj {sep : UInt16} {s s' t t' : JsString} (hs : sep ∉ s) (hs' : sep ∉ s')
    (h : t ++ sep :: s = t' ++ sep :: s') : t = t' ∧ s = s' := by
  have hafter := congrArg (afterLast sep) h
  rw [afterLast_append hs, afterLast_append hs'] at hafter
  subst hafter
  exact ⟨List.append_cancel_right h, rfl⟩

end JsString
