import Mathlib.Tactic

/-!
Association lists, and insertion-ordered maps as JavaScript has them.

* `lookup_eq_some_iff`, `lookup_perm`: with distinct keys, looking up is membership, and the order
  of the entries does not matter.
* `JsMap`: entries with distinct keys in the order the keys were first set. `set` on a key that is
  there replaces the value in place.
* `get?_set`, `get?_delete`: what the operations do to a lookup.
-/

section

variable {κ α β : Type} [DecidableEq κ] {es es' : List (κ × α)}

lemma lookup_eq_some_iff (h : (es.map Prod.fst).Nodup) {k : κ} {v : α} :
    es.lookup k = some v ↔ (k, v) ∈ es := by
  induction es with
  | nil => simp
  | cons e es ih =>
      obtain ⟨k', v'⟩ := e
      rw [List.map_cons, List.nodup_cons] at h
      by_cases hk : k = k'
      · subst hk
        have hnot : (k, v) ∉ es := fun hmem =>
          h.1 (List.mem_map.mpr ⟨(k, v), hmem, rfl⟩)
        simp [hnot, eq_comm]
      · have hne : (k == k') = false := by simpa using hk
        simp only [List.lookup_cons, hne, ih h.2, List.mem_cons, Prod.mk.injEq, hk, false_and,
          false_or]

/-- Looking a key up does not depend on the order of the entries. -/
lemma lookup_perm (hperm : es.Perm es') (h : (es.map Prod.fst).Nodup) (k : κ) :
    es.lookup k = es'.lookup k := by
  have h' : (es'.map Prod.fst).Nodup := (hperm.map Prod.fst).nodup_iff.mp h
  refine Option.ext fun v => ?_
  rw [lookup_eq_some_iff h, lookup_eq_some_iff h', hperm.mem_iff]

lemma lookup_map (f : α → β) (k : κ) :
    (es.map fun e => (e.1, f e.2)).lookup k = (es.lookup k).map f := by
  induction es with
  | nil => rfl
  | cons e es ih =>
      obtain ⟨k', v'⟩ := e
      by_cases hk : k == k' <;> simp [List.lookup_cons, hk, ih]

end

/-- An insertion-ordered map. -/
structure JsMap (κ α : Type) where
  entries : List (κ × α)
  nodup : (entries.map Prod.fst).Nodup

namespace JsMap

variable {κ α : Type}

/-- `new Map()` -/
def empty : JsMap κ α := ⟨[], List.nodup_nil⟩

instance : EmptyCollection (JsMap κ α) := ⟨empty⟩

/-- The keys, oldest first. -/
def keys (m : JsMap κ α) : List κ := m.entries.map Prod.fst

/-- The values, in the order of their keys. -/
def values (m : JsMap κ α) : List α := m.entries.map Prod.snd

variable [DecidableEq κ]

/-- The value under a key. -/
def get? (m : JsMap κ α) (k : κ) : Option α := m.entries.lookup k

/-- The key is there. -/
def has (m : JsMap κ α) (k : κ) : Bool := (m.get? k).isSome

/-- Replace the value of a key that is there, in place. -/
def replace (m : JsMap κ α) (k : κ) (v : α) : JsMap κ α where
  entries := m.entries.map fun e => if e.1 = k then (k, v) else e
  nodup := by
    have hkeys : (m.entries.map fun e => if e.1 = k then (k, v) else e).map Prod.fst
        = m.entries.map Prod.fst := by
      rw [List.map_map]
      refine List.map_congr_left fun e _ => ?_
      by_cases he : e.1 = k <;> simp [he]
    rw [hkeys]
    exact m.nodup

/-- Set a key: in place if it is there, at the end if it is not. -/
def set (m : JsMap κ α) (k : κ) (v : α) : JsMap κ α :=
  if h : k ∈ m.keys then m.replace k v
  else ⟨m.entries ++ [(k, v)], by
    rw [List.map_append, List.nodup_append]
    exact ⟨m.nodup, by simp, fun a ha b hb hab => h (by
      obtain rfl : b = k := by simpa using hb
      exact hab ▸ ha)⟩⟩

/-- Delete a key. -/
def delete (m : JsMap κ α) (k : κ) : JsMap κ α where
  entries := m.entries.filter fun e => e.1 ≠ k
  nodup := (List.filter_sublist.map Prod.fst).nodup m.nodup

/-- Keep the entries that pass a test. -/
def filter (m : JsMap κ α) (p : κ × α → Bool) : JsMap κ α where
  entries := m.entries.filter p
  nodup := (List.filter_sublist.map Prod.fst).nodup m.nodup

/-- Delete the oldest key, if there is one. -/
def dropOldest (m : JsMap κ α) : JsMap κ α where
  entries := m.entries.tail
  nodup := ((List.tail_sublist _).map Prod.fst).nodup m.nodup

/-- Set the entries of a list one after the other, in an empty map. -/
def ofEntries (es : List (κ × α)) : JsMap κ α := es.foldl (fun m e => m.set e.1 e.2) ∅

/-- Set a key as the youngest one; a new key makes room for itself in a map that is full. -/
def setYoungest (m : JsMap κ α) (bound : ℕ) (k : κ) (v : α) : JsMap κ α :=
  let room :=
    if m.has k then m.delete k else if m.entries.length ≥ bound then m.dropOldest else m
  room.set k v

variable {m : JsMap κ α} {k k' : κ} {v : α}

lemma get?_eq_some_iff : m.get? k = some v ↔ (k, v) ∈ m.entries := lookup_eq_some_iff m.nodup

/-- A statement about every lookup is one about the entries. -/
lemma forall_get?_iff {p : κ → α → Prop} :
    (∀ k, ∀ v ∈ m.get? k, p k v) ↔ ∀ e ∈ m.entries, p e.1 e.2 := by
  simp only [Option.mem_def, get?_eq_some_iff, Prod.forall]

lemma exists_get?_iff {p : κ → α → Prop} :
    (∃ k, ∃ v ∈ m.get? k, p k v) ↔ ∃ e ∈ m.entries, p e.1 e.2 := by
  simp only [Option.mem_def, get?_eq_some_iff, Prod.exists]

@[simp] lemma get?_empty : (∅ : JsMap κ α).get? k = none := rfl

lemma mem_keys_iff : k ∈ m.keys ↔ ∃ v, m.get? k = some v := by
  simp [keys, get?_eq_some_iff]

lemma get?_eq_none_iff : m.get? k = none ↔ k ∉ m.keys := by
  rw [mem_keys_iff, Option.eq_none_iff_forall_ne_some]
  simp

lemma has_iff : m.has k = true ↔ k ∈ m.keys := by
  rw [has, Option.isSome_iff_exists, mem_keys_iff]

@[simp] lemma get?_set (m : JsMap κ α) (k k' : κ) (v : α) :
    (m.set k v).get? k' = if k' = k then some v else m.get? k' := by
  refine Option.ext fun w => ?_
  rw [get?_eq_some_iff]
  rw [set]
  split_ifs with hmem hk hk
  · subst hk
    obtain ⟨u, hu⟩ := mem_keys_iff.mp hmem
    simp only [replace, List.mem_map, Option.some.injEq]
    constructor
    · rintro ⟨e, -, he⟩
      by_cases h : e.1 = k'
      · rw [if_pos h] at he
        exact (Prod.mk.inj he).2
      · rw [if_neg h] at he
        exact absurd (congrArg Prod.fst he) h
    · rintro rfl
      exact ⟨(k', u), get?_eq_some_iff.mp hu, by simp⟩
  · rw [get?_eq_some_iff]
    simp only [replace, List.mem_map]
    constructor
    · rintro ⟨e, hmem', he⟩
      by_cases h : e.1 = k
      · rw [if_pos h] at he
        exact absurd (congrArg Prod.fst he).symm hk
      · rw [if_neg h] at he
        exact he ▸ hmem'
    · intro hmem'
      exact ⟨(k', w), hmem', by simp [hk]⟩
  · subst hk
    have hnot : (k', w) ∉ m.entries := fun h => hmem (List.mem_map.mpr ⟨_, h, rfl⟩)
    simp [hnot, eq_comm]
  · simp [get?_eq_some_iff, hk]

@[simp] lemma get?_delete (m : JsMap κ α) (k k' : κ) :
    (m.delete k).get? k' = if k' = k then none else m.get? k' := by
  refine Option.ext fun w => ?_
  rw [get?_eq_some_iff]
  simp only [delete, List.mem_filter, decide_not, Bool.not_eq_true', decide_eq_false_iff_not]
  split_ifs with hk
  · simp [hk]
  · simp [get?_eq_some_iff, hk]

/-- The entries are the one under a key that is there, and those that its deletion leaves. -/
lemma perm_delete (h : m.get? k = some v) : m.entries.Perm ((k, v) :: (m.delete k).entries) := by
  classical
  have herase : (m.delete k).entries = m.entries.erase (k, v) := by
    rw [(List.Nodup.of_map _ m.nodup).erase_eq_filter]
    refine List.filter_congr fun e he => ?_
    have hiff : e.1 = k ↔ e = (k, v) := by
      constructor
      · rintro rfl
        have hsame := get?_eq_some_iff.mpr he
        rw [h] at hsame
        rw [Option.some.inj hsame]
      · rintro rfl
        rfl
    rw [bne, beq_eq_decide, decide_not, decide_eq_decide.mpr hiff]
  rw [herase]
  exact List.perm_cons_erase (get?_eq_some_iff.mp h)

/-- What a set leaves of the other keys. -/
lemma delete_set (m : JsMap κ α) (k : κ) (v : α) :
    ((m.set k v).delete k).entries = (m.delete k).entries := by
  unfold set delete
  split_ifs with hk
  · rw [replace]
    dsimp only
    induction m.entries with
    | nil => rfl
    | cons e es ih =>
        by_cases he : e.1 = k
        · simpa [he] using ih
        · simpa [he] using ih
  · simp

/-- The entries of a map in which a key was set: its own, and those of the other keys. -/
lemma perm_set (m : JsMap κ α) (k : κ) (v : α) :
    (m.set k v).entries.Perm ((k, v) :: (m.delete k).entries) := by
  have hself : (m.set k v).get? k = some v := by rw [get?_set, if_pos rfl]
  rw [← delete_set m k v]
  exact perm_delete hself

lemma delete_of_get?_none (h : m.get? k = none) : (m.delete k).entries = m.entries := by
  refine List.filter_eq_self.mpr fun e he => ?_
  have hne : e.1 ≠ k := by
    rintro rfl
    rw [get?_eq_some_iff.mpr he] at h
    cases h
  simpa using hne

lemma get?_filter (m : JsMap κ α) (p : κ × α → Bool) (k : κ) :
    (m.filter p).get? k = (m.get? k).filter fun v => p (k, v) := by
  refine Option.ext fun w => ?_
  rw [get?_eq_some_iff, filter, List.mem_filter, Option.filter_eq_some_iff, get?_eq_some_iff]

lemma mem_keys_set (m : JsMap κ α) (k k' : κ) (v : α) :
    k' ∈ (m.set k v).keys ↔ k' = k ∨ k' ∈ m.keys := by
  rw [mem_keys_iff, mem_keys_iff, get?_set]
  by_cases hk : k' = k <;> simp [hk]

@[simp] lemma has_set (m : JsMap κ α) (k k' : κ) (v : α) :
    (m.set k v).has k' = (decide (k' = k) || m.has k') := by
  rw [has, has, get?_set]
  by_cases hk : k' = k <;> simp [hk]

@[simp] lemma has_delete (m : JsMap κ α) (k k' : κ) :
    (m.delete k).has k' = (decide (k' ≠ k) && m.has k') := by
  rw [has, has, get?_delete]
  by_cases hk : k' = k <;> simp [hk]

lemma mem_values_iff : v ∈ m.values ↔ ∃ k, m.get? k = some v := by
  simp [values, get?_eq_some_iff]

lemma mem_values_of_get? (h : m.get? k = some v) : v ∈ m.values :=
  List.mem_map.mpr ⟨(k, v), get?_eq_some_iff.mp h, rfl⟩

/-- What is left when the oldest key is gone was there before. -/
lemma get?_of_dropOldest (h : m.dropOldest.get? k = some v) : m.get? k = some v :=
  get?_eq_some_iff.mpr (List.mem_of_mem_tail (get?_eq_some_iff.mp h))

/-- A map in which a key was set as the youngest holds it, and else what it held before. -/
lemma get?_of_setYoungest {bound : ℕ} {w : α} (h : (m.setYoungest bound k v).get? k' = some w) :
    k' = k ∧ w = v ∨ m.get? k' = some w := by
  simp only [setYoungest, get?_set] at h
  by_cases hk : k' = k
  · rw [if_pos hk] at h
    exact .inl ⟨hk, (Option.some.inj h).symm⟩
  · rw [if_neg hk] at h
    split_ifs at h
    · rw [get?_delete, if_neg hk] at h
      exact .inr h
    · exact .inr (get?_of_dropOldest h)
    · exact .inr h

/-- Entries with distinct keys are all found. -/
lemma get?_ofEntries {es : List (κ × α)} (h : (es.map Prod.fst).Nodup) :
    (ofEntries es).get? k = some v ↔ (k, v) ∈ es := by
  have hfold : ∀ (m : JsMap κ α), (es.foldl (fun m e => m.set e.1 e.2) m).get? k = some v ↔
      (k, v) ∈ es ∨ k ∉ es.map Prod.fst ∧ m.get? k = some v := by
    induction es with
    | nil => simp
    | cons e es ih =>
        intro m
        have hnodup := List.nodup_cons.mp h
        rw [List.foldl_cons, ih hnodup.2, get?_set]
        by_cases hk : k = e.1
        · subst hk
          have hlater : (e.1, v) ∉ es := fun hmem => hnodup.1 (List.mem_map.mpr ⟨_, hmem, rfl⟩)
          have hnot : e.1 ∉ es.map Prod.fst := hnodup.1
          rw [if_pos rfl]
          constructor
          · rintro (hmem | ⟨-, hv⟩)
            · exact absurd hmem hlater
            · obtain rfl := Option.some.inj hv
              exact .inl List.mem_cons_self
          · rintro (hmem | ⟨hkey, -⟩)
            · rcases List.mem_cons.mp hmem with heq | hmem
              · exact .inr ⟨hnot, congrArg some (Prod.mk.inj heq).2.symm⟩
              · exact absurd hmem hlater
            · exact absurd List.mem_cons_self hkey
        · rw [if_neg hk]
          simp [hk, Prod.ext_iff]
  rw [ofEntries, hfold]
  simp

end JsMap
