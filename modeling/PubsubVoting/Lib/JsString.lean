import Mathlib.Tactic

/-!
Strings as JavaScript has them: sequences of UTF-16 code units, lone surrogates included. The
`length` of such a string counts its units, which is what a bound like `max(253)` is about.

* `ofString`, `toWellFormed`: from and to Unicode scalar values; a lone surrogate becomes U+FFFD,
  as a UTF-8 encoder makes of it.
* `toWellFormed_ofString`: a text survives the round trip through its units.
* `WellFormed`, `wellFormed_of_ascii`: the strings that survive the round trip the other way.
* `repair`, `repair_forall₂`: a string through UTF-8 and back changes unit by unit, a lone surrogate
  into U+FFFD and nothing else.
* `split`, `isWhitespace`, `toLowerCase`: the operations on units that callers use.
-/

/-- A string, as its UTF-16 code units. -/
abbrev JsString := List UInt16

/-- One name for what every lookup of a string rests on. -/
instance : LawfulBEq JsString := inferInstance

namespace JsString

/-! ### Scalar values -/

/-- The units of one scalar value: one, or a surrogate pair beyond the basic plane. -/
def charUnits (c : Char) : JsString :=
  if c.toNat < 0x10000 then [UInt16.ofNat c.toNat]
  else [UInt16.ofNat (0xD800 + (c.toNat - 0x10000) / 0x400),
    UInt16.ofNat (0xDC00 + (c.toNat - 0x10000) % 0x400)]

/-- The units of a text. -/
def ofString (s : String) : JsString := s.toList.flatMap charUnits

/-- The first half of a surrogate pair. -/
def isHigh (u : UInt16) : Bool := decide (0xD800 ≤ u.toNat ∧ u.toNat < 0xDC00)

/-- The second half of a surrogate pair. -/
def isLow (u : UInt16) : Bool := decide (0xDC00 ≤ u.toNat ∧ u.toNat < 0xE000)

/-- The scalar value of a unit that is not part of a pair. -/
def single (u : UInt16) : Char :=
  if isHigh u || isLow u then '\uFFFD' else Char.ofNat u.toNat

/-- The scalar values of a string: pairs joined, lone surrogates replaced. -/
def scalars : JsString → List Char
  | [] => []
  | [u] => [single u]
  | u :: v :: rest =>
    if isHigh u && isLow v then
      Char.ofNat (0x10000 + (u.toNat - 0xD800) * 0x400 + (v.toNat - 0xDC00)) :: scalars rest
    else single u :: scalars (v :: rest)

/-- The text a string spells, lone surrogates replaced. -/
def toWellFormed (s : JsString) : String := String.ofList (scalars s)

lemma scalars_single {u : UInt16} (hu : isHigh u = false) (rest : JsString) :
    scalars (u :: rest) = single u :: scalars rest := by
  cases rest with
  | nil => rfl
  | cons v rest => simp [scalars, hu]

/-- No scalar value is a surrogate. -/
lemma toNat_char_lt (c : Char) : c.toNat < 0xD800 ∨ 0xE000 ≤ c.toNat ∧ c.toNat < 0x110000 := by
  rcases c.valid with h | ⟨h₁, h₂⟩
  · exact Or.inl h
  · exact Or.inr ⟨h₁, h₂⟩

lemma toNat_ofNat {n : ℕ} (h : n.isValidChar) : (Char.ofNat n).toNat = n := by
  rw [Char.ofNat, dif_pos h]
  rfl

lemma scalars_charUnits (c : Char) (rest : JsString) :
    scalars (charUnits c ++ rest) = c :: scalars rest := by
  have hc := toNat_char_lt c
  by_cases h : c.toNat < 0x10000
  · have hu : (UInt16.ofNat c.toNat).toNat = c.toNat := UInt16.toNat_ofNat_of_lt' (by simpa using h)
    have hhigh : isHigh (UInt16.ofNat c.toNat) = false := by
      simp only [isHigh, hu, decide_eq_false_iff_not]
      omega
    have hlow : isLow (UInt16.ofNat c.toNat) = false := by
      simp only [isLow, hu, decide_eq_false_iff_not]
      omega
    rw [charUnits, if_pos h, List.singleton_append, scalars_single hhigh]
    simp only [single, hhigh, hlow, hu, Bool.or_self, Bool.false_eq_true, if_false,
      Char.ofNat_toNat]
  · have hu : (UInt16.ofNat (0xD800 + (c.toNat - 0x10000) / 0x400)).toNat
        = 0xD800 + (c.toNat - 0x10000) / 0x400 :=
      UInt16.toNat_ofNat_of_lt' (by norm_num; omega)
    have hv : (UInt16.ofNat (0xDC00 + (c.toNat - 0x10000) % 0x400)).toNat
        = 0xDC00 + (c.toNat - 0x10000) % 0x400 :=
      UInt16.toNat_ofNat_of_lt' (by norm_num; omega)
    have hhigh : isHigh (UInt16.ofNat (0xD800 + (c.toNat - 0x10000) / 0x400)) = true := by
      simp only [isHigh, hu, decide_eq_true_eq]
      omega
    have hlow : isLow (UInt16.ofNat (0xDC00 + (c.toNat - 0x10000) % 0x400)) = true := by
      simp only [isLow, hv, decide_eq_true_eq]
      omega
    have hjoin : 0x10000 + (0xD800 + (c.toNat - 0x10000) / 0x400 - 0xD800) * 0x400
        + (0xDC00 + (c.toNat - 0x10000) % 0x400 - 0xDC00) = c.toNat := by omega
    rw [charUnits, if_neg h]
    simp only [List.cons_append, List.nil_append, scalars, hhigh, hlow, hu, hv, hjoin,
      Bool.and_self,
      if_true, Char.ofNat_toNat]

/-- **A text survives the round trip** through its units. -/
theorem toWellFormed_ofString (s : String) : toWellFormed (ofString s) = s := by
  have h : ∀ cs : List Char, scalars (cs.flatMap charUnits) = cs := by
    intro cs
    induction cs with
    | nil => rfl
    | cons c cs ih => rw [List.flatMap_cons, scalars_charUnits, ih]
  rw [toWellFormed, ofString, h, String.ofList_toList]

/-- A string without lone surrogates: the units of some text. -/
def WellFormed (s : JsString) : Prop := ofString s.toWellFormed = s

lemma wellFormed_ofString (s : String) : (ofString s).WellFormed := by
  rw [WellFormed, toWellFormed_ofString]

lemma WellFormed.eq_of_toWellFormed_eq {s t : JsString} (hs : s.WellFormed) (ht : t.WellFormed)
    (h : s.toWellFormed = t.toWellFormed) : s = t := by
  rw [← hs, h, ht]

/-- ASCII strings are well formed. -/
lemma wellFormed_of_ascii {s : JsString} (h : ∀ u ∈ s, u.toNat < 128) : s.WellFormed := by
  have hunits : (scalars s).flatMap charUnits = s := by
    induction s with
    | nil => rfl
    | cons u s ih =>
        have hu := h u (by simp)
        have hhigh : isHigh u = false := by
          simp only [isHigh, decide_eq_false_iff_not]
          omega
        have hlow : isLow u = false := by
          simp only [isLow, decide_eq_false_iff_not]
          omega
        have hnat : (Char.ofNat u.toNat).toNat = u.toNat := by
          have hvalid : u.toNat.isValidChar := Or.inl (by omega)
          exact toNat_ofNat hvalid
        have hsingle : charUnits (single u) = [u] := by
          rw [single, hhigh, hlow, Bool.or_self, if_neg Bool.false_ne_true, charUnits, hnat,
            if_pos (by omega), UInt16.ofNat_toNat]
        rw [scalars_single hhigh, List.flatMap_cons, hsingle, ih fun v hv => h v (by simp [hv])]
        rfl
  rw [WellFormed, toWellFormed, ofString, String.toList_ofList, hunits]

/-! ### Lone surrogates -/

/-- The string a UTF-8 encoder and decoder make of a string. -/
def repair (s : JsString) : JsString := ofString s.toWellFormed

/-- The half of a surrogate pair. -/
def isSurrogate (u : UInt16) : Bool := isHigh u || isLow u

/-- A unit stays, or it is a surrogate and becomes U+FFFD. -/
def Repairs (u v : UInt16) : Prop := v = u ∨ isSurrogate u = true ∧ v = 0xFFFD

lemma wellFormed_repair (s : JsString) : s.repair.WellFormed := wellFormed_ofString _

lemma repair_repair (s : JsString) : s.repair.repair = s.repair := wellFormed_repair s

lemma charUnits_single (u : UInt16) :
    charUnits (single u) = [if isSurrogate u then 0xFFFD else u] := by
  unfold single isSurrogate
  cases h : isHigh u || isLow u with
  | true => rfl
  | false =>
      have hlt := u.toNat_lt
      rw [Bool.or_eq_false_iff, isHigh, isLow, decide_eq_false_iff_not,
        decide_eq_false_iff_not] at h
      have hvalid : u.toNat.isValidChar := by
        rw [Nat.isValidChar]
        omega
      have hnat : (Char.ofNat u.toNat).toNat = u.toNat := toNat_ofNat hvalid
      have hbmp : (Char.ofNat u.toNat).toNat < 0x10000 := by omega
      rw [if_neg Bool.false_ne_true, if_neg Bool.false_ne_true, charUnits, if_pos hbmp, hnat,
        UInt16.ofNat_toNat]

lemma charUnits_pair {u v : UInt16} (hu : isHigh u = true) (hv : isLow v = true) :
    charUnits (Char.ofNat (0x10000 + (u.toNat - 0xD800) * 0x400 + (v.toNat - 0xDC00)))
      = [u, v] := by
  rw [isHigh, decide_eq_true_iff] at hu
  rw [isLow, decide_eq_true_iff] at hv
  have hvalid : (0x10000 + (u.toNat - 0xD800) * 0x400 + (v.toNat - 0xDC00)).isValidChar := by
    rw [Nat.isValidChar]
    omega
  have hnat : (Char.ofNat (0x10000 + (u.toNat - 0xD800) * 0x400 + (v.toNat - 0xDC00))).toNat
      = 0x10000 + (u.toNat - 0xD800) * 0x400 + (v.toNat - 0xDC00) := toNat_ofNat hvalid
  have hastral : ¬ 0x10000 + (u.toNat - 0xD800) * 0x400 + (v.toNat - 0xDC00) < 0x10000 := by omega
  have hhigh :
      0xD800 + (0x10000 + (u.toNat - 0xD800) * 0x400 + (v.toNat - 0xDC00) - 0x10000) / 0x400
      = u.toNat := by omega
  have hlow : 0xDC00 + (0x10000 + (u.toNat - 0xD800) * 0x400 + (v.toNat - 0xDC00) - 0x10000) % 0x400
      = v.toNat := by omega
  rw [charUnits, hnat, if_neg hastral, hhigh, hlow, UInt16.ofNat_toNat, UInt16.ofNat_toNat]

/-- **Repair goes unit by unit.** -/
theorem repair_forall₂ (s : JsString) : List.Forall₂ Repairs s s.repair := by
  have hunits : List.Forall₂ Repairs s ((scalars s).flatMap charUnits) := by
    have hsingle : ∀ u, Repairs u (if isSurrogate u then 0xFFFD else u) := by
      intro u
      cases hu : isSurrogate u with
      | true => exact Or.inr ⟨hu, rfl⟩
      | false => exact Or.inl rfl
    induction s using scalars.induct with
    | case1 => exact .nil
    | case2 u =>
        rw [scalars, List.flatMap_singleton, charUnits_single]
        exact .cons (hsingle u) .nil
    | case3 u v rest hpair ih =>
        rw [Bool.and_eq_true] at hpair
        rw [scalars, if_pos (by simp [hpair]), List.flatMap_cons, charUnits_pair hpair.1 hpair.2]
        exact .cons (Or.inl rfl) (.cons (Or.inl rfl) ih)
    | case4 u v rest hpair ih =>
        rw [scalars, if_neg hpair, List.flatMap_cons, charUnits_single]
        exact .cons (hsingle u) ih
  rwa [repair, ofString, toWellFormed, String.toList_ofList]

@[simp] lemma length_repair (s : JsString) : s.repair.length = s.length :=
  (repair_forall₂ s).length_eq.symm

/-! ### Operations on units -/

/-- The pieces between the occurrences of a separator unit; always at least one. -/
def split (sep : UInt16) : JsString → List JsString
  | [] => [[]]
  | u :: rest =>
    if u = sep then [] :: split sep rest
    else
      match split sep rest with
      | [] => [[u]]
      | piece :: pieces => (u :: piece) :: pieces

/-- The units the whitespace class of a regular expression matches. -/
def isWhitespace (u : UInt16) : Bool :=
  decide (9 ≤ u.toNat ∧ u.toNat ≤ 13) || decide (0x2000 ≤ u.toNat ∧ u.toNat ≤ 0x200a)
    || [0x20, 0xa0, 0x1680, 0x2028, 0x2029, 0x202f, 0x205f, 0x3000, 0xfeff].contains u.toNat

/-- Splitting respects a relation between units that respects the separator. -/
lemma split_forall₂ {R : UInt16 → UInt16 → Prop} {sep : UInt16}
    (hR : ∀ u v, R u v → (u = sep ↔ v = sep)) {s t : JsString} (h : List.Forall₂ R s t) :
    List.Forall₂ (List.Forall₂ R) (split sep s) (split sep t) := by
  induction h with
  | nil => exact .cons .nil .nil
  | @cons u v s t huv _ ih =>
      by_cases hu : u = sep
      · rw [split, split, if_pos hu, if_pos ((hR u v huv).mp hu)]
        exact .cons .nil ih
      · rw [split, split, if_neg hu, if_neg fun hv => hu ((hR u v huv).mpr hv)]
        generalize split sep s = pieces at ih ⊢
        generalize split sep t = pieces' at ih ⊢
        rcases ih with - | ⟨hpiece, hpieces⟩
        · exact .cons (.cons huv .nil) .nil
        · exact .cons (.cons huv hpiece) hpieces

lemma Repairs.eq_iff {u v w : UInt16} (h : Repairs u v) (hw : w.toNat < 0xD800) :
    u = w ↔ v = w := by
  rcases h with rfl | ⟨hu, rfl⟩
  · rfl
  · constructor
    · rintro rfl
      simp only [isSurrogate, isHigh, isLow, Bool.or_eq_true, decide_eq_true_eq] at hu
      omega
    · rintro rfl
      exact absurd hw (by decide)

lemma Repairs.isWhitespace_eq {u v : UInt16} (h : Repairs u v) :
    isWhitespace u = isWhitespace v := by
  rcases h with rfl | ⟨hu, rfl⟩
  · rfl
  · rw [show isWhitespace 0xFFFD = false from by decide]
    simp only [isSurrogate, isHigh, isLow, Bool.or_eq_true, decide_eq_true_eq] at hu
    simp only [isWhitespace, Bool.or_eq_false_iff, decide_eq_false_iff_not, List.contains_eq_mem,
      List.mem_cons, List.not_mem_nil, or_false]
    omega

/-- Lower case on the ASCII letters. -/
def toLowerCase (s : JsString) : JsString :=
  s.map fun u => if 65 ≤ u.toNat ∧ u.toNat ≤ 90 then u + 32 else u

@[simp] lemma length_toLowerCase (s : JsString) : s.toLowerCase.length = s.length := by
  simp [toLowerCase]

lemma toLowerCase_toLowerCase (s : JsString) : s.toLowerCase.toLowerCase = s.toLowerCase := by
  have hunit : ∀ u : UInt16, 65 ≤ u.toNat ∧ u.toNat ≤ 90 →
      ¬ (65 ≤ (u + 32).toNat ∧ (u + 32).toNat ≤ 90) := by
    intro u hu
    have h : (u + 32).toNat = u.toNat + 32 := by
      rw [UInt16.toNat_add]
      exact Nat.mod_eq_of_lt (by simp; omega)
    omega
  rw [toLowerCase, toLowerCase, List.map_map]
  refine List.map_congr_left fun u _ => ?_
  by_cases hu : 65 ≤ u.toNat ∧ u.toNat ≤ 90
  · simp only [Function.comp_apply, if_pos hu, if_neg (hunit u hu)]
  · simp only [Function.comp_apply, if_neg hu]

end JsString
