import PubsubVoting.Lib.JsMap

/-!
Positions of a list, grouped by a key, and values written back to positions.

* `groupPositions`, `mem_groupPositions`: the positions under each key, in order;
  `keys_groupPositions`: the keys in the order they are first met.
* `scatter`, `scatterAll`: writing back; `mem_zip_or_of_scatter`, `exists_of_scatterAll`: where a
  value of the result comes from.
* `scatterAll_groups`: grouping positions and writing back group by group.
* `forall₂_iff_getElem?`: a relation between lists, position by position.
* `sum_map_set`, `sum_map_mapIdx_le`: a sum after one position, or any of them, has changed.
* `slices`, `flatten_slices`: a list cut into slices of a size.
-/

section

variable {κ α β : Type} [DecidableEq κ]

/-- A position joins the ones under its key. -/
def groupInto (groups : JsMap κ (List ℕ)) (e : κ × ℕ) : JsMap κ (List ℕ) :=
  groups.set e.1 ((groups.get? e.1).getD [] ++ [e.2])

/-- The positions under each key, the keys in the order they are first met. -/
def groupPositions (es : List (κ × ℕ)) : JsMap κ (List ℕ) := es.foldl groupInto ∅

lemma get?_foldl_groupInto (es : List (κ × ℕ)) (groups : JsMap κ (List ℕ)) (k : κ) (i : ℕ) :
    i ∈ ((es.foldl groupInto groups).get? k).getD [] ↔
      i ∈ (groups.get? k).getD [] ∨ (k, i) ∈ es := by
  induction es generalizing groups with
  | nil => simp
  | cons e es ih =>
      obtain ⟨k', i'⟩ := e
      rw [List.foldl_cons, ih, groupInto, JsMap.get?_set]
      by_cases hk : k = k'
      · subst hk
        simp [or_assoc]
      · simp [hk]

/-- A position is under a key exactly if it was given with it. -/
theorem mem_groupPositions {es : List (κ × ℕ)} {k : κ} {ats : List ℕ}
    (h : (groupPositions es).get? k = some ats) {i : ℕ} : i ∈ ats ↔ (k, i) ∈ es := by
  have hmem := get?_foldl_groupInto es ∅ k i
  rw [← groupPositions, h] at hmem
  simpa using hmem

lemma exists_group {es : List (κ × ℕ)} {k : κ} {i : ℕ} (h : (k, i) ∈ es) :
    ∃ ats, (groupPositions es).get? k = some ats ∧ i ∈ ats := by
  have hmem := (get?_foldl_groupInto es ∅ k i).mpr (.inr h)
  rw [← groupPositions] at hmem
  cases hget : (groupPositions es).get? k with
  | none => simp [hget] at hmem
  | some ats => exact ⟨ats, rfl, by simpa [hget] using hmem⟩

/-- A key has at least one position. -/
lemma exists_position {es : List (κ × ℕ)} {k : κ} {ats : List ℕ}
    (h : (groupPositions es).get? k = some ats) : ∃ i, (k, i) ∈ es := by
  have hne : ∀ (es : List (κ × ℕ)) (groups : JsMap κ (List ℕ)),
      (∀ k, groups.get? k ≠ some []) → ∀ k, (es.foldl groupInto groups).get? k ≠ some [] := by
    intro es
    induction es with
    | nil => exact fun groups hgroups => hgroups
    | cons e es ih =>
        refine fun groups hgroups => ih _ fun k' => ?_
        rw [groupInto, JsMap.get?_set]
        split_ifs
        · simp
        · exact hgroups k'
  cases ats with
  | nil => exact absurd h (hne es ∅ (fun _ hempty => by cases hempty) k)
  | cons i ats => exact ⟨i, (mem_groupPositions h).mp (by simp)⟩

/-- A set key stays where it is, or comes last. -/
lemma keys_set (m : JsMap κ α) (k : κ) (v : α) :
    (m.set k v).keys = if k ∈ m.keys then m.keys else m.keys ++ [k] := by
  rw [JsMap.set]
  split_ifs with hk
  · unfold JsMap.replace JsMap.keys
    rw [List.map_map]
    refine List.map_congr_left fun e _ => ?_
    by_cases he : e.1 = k <;> simp [he]
  · exact List.map_append

/-- Positions are grouped under their keys in the order the keys are first met. -/
lemma keys_foldl_groupInto [BEq κ] [LawfulBEq κ] (es : List (κ × ℕ)) (groups : JsMap κ (List ℕ)) :
    (es.foldl groupInto groups).keys
      = groups.keys ++ ((es.map Prod.fst).filter (fun k => k ∉ groups.keys)).eraseDups := by
  induction es generalizing groups with
  | nil => simp
  | cons e es ih =>
      obtain ⟨k, i⟩ := e
      rw [List.foldl_cons, ih, groupInto, keys_set, List.map_cons]
      by_cases hk : k ∈ groups.keys
      · rw [if_pos hk, List.filter_cons_of_neg (by simpa using hk)]
      · rw [if_neg hk, List.filter_cons_of_pos (by simpa using hk), List.eraseDups_cons,
          List.append_assoc, List.singleton_append, List.filter_filter]
        refine congrArg (fun ks => groups.keys ++ k :: ks) (congrArg List.eraseDups ?_)
        refine List.filter_congr fun x _ => ?_
        by_cases hx : x = k <;> simp [hx]

/-- The distinct keys, in the order they are first met. -/
lemma keys_groupPositions [BEq κ] [LawfulBEq κ] (es : List (κ × ℕ)) :
    (groupPositions es).keys = (es.map Prod.fst).eraseDups := by
  have hkeys := keys_foldl_groupInto es ∅
  have hall : (es.map Prod.fst).filter (fun k => k ∉ (∅ : JsMap κ (List ℕ)).keys)
      = es.map Prod.fst := List.filter_eq_self.mpr fun k _ => rfl
  rw [hall] at hkeys
  exact hkeys

/-! ### Writing back -/

/-- Write values to positions, one after the other. -/
def scatter (values : List α) (ats : List ℕ) (vs : List α) : List α :=
  (ats.zip vs).foldl (fun acc e => acc.set e.1 e.2) values

lemma length_foldl_set (es : List (ℕ × α)) (values : List α) :
    (es.foldl (fun acc e => acc.set e.1 e.2) values).length = values.length := by
  induction es generalizing values with
  | nil => rfl
  | cons e es ih => rw [List.foldl_cons, ih, List.length_set]

@[simp] lemma length_scatter (values : List α) (ats : List ℕ) (vs : List α) :
    (scatter values ats vs).length = values.length := length_foldl_set _ _

lemma getElem?_foldl_set {es : List (ℕ × α)} {values : List α} {j : ℕ} {v : α}
    (h : (es.foldl (fun acc e => acc.set e.1 e.2) values)[j]? = some v) :
    values[j]? = some v ∧ (∀ e ∈ es, e.1 ≠ j) ∨ (j, v) ∈ es := by
  induction es generalizing values with
  | nil => exact .inl ⟨h, nofun⟩
  | cons e es ih =>
      obtain ⟨a, b⟩ := e
      rcases ih h with ⟨hset, hnot⟩ | hmem
      · by_cases ha : a = j
        · subst ha
          rw [List.getElem?_set_self'] at hset
          obtain ⟨-, -, rfl⟩ := Option.map_eq_some_iff.mp hset
          exact .inr (by simp)
        · rw [List.getElem?_set_ne ha] at hset
          exact .inl ⟨hset, by simpa [ha] using hnot⟩
      · exact .inr (List.mem_cons_of_mem _ hmem)

/-- A value of the result was written to its position, or was there and no value was written. -/
theorem mem_zip_or_of_scatter {values vs : List α} {ats : List ℕ} {j : ℕ} {v : α}
    (h : (scatter values ats vs)[j]? = some v) :
    values[j]? = some v ∧ (∀ e ∈ ats.zip vs, e.1 ≠ j) ∨ (j, v) ∈ ats.zip vs :=
  getElem?_foldl_set h

/-- Write several lists of values, one after the other. -/
def scatterAll (values : List α) (parts : List (List ℕ × List α)) : List α :=
  parts.foldl (fun acc part => scatter acc part.1 part.2) values

@[simp] lemma length_scatterAll (values : List α) (parts : List (List ℕ × List α)) :
    (scatterAll values parts).length = values.length := by
  induction parts generalizing values with
  | nil => rfl
  | cons part parts ih => exact (ih _).trans (length_scatter _ _ _)

/-- A value of the result was written by one of the lists, or was there and none wrote there. -/
theorem exists_of_scatterAll {values : List α} {parts : List (List ℕ × List α)} {j : ℕ} {v : α}
    (h : (scatterAll values parts)[j]? = some v) :
    values[j]? = some v ∧ (∀ part ∈ parts, ∀ e ∈ part.1.zip part.2, e.1 ≠ j) ∨
      ∃ part ∈ parts, (j, v) ∈ part.1.zip part.2 := by
  induction parts generalizing values with
  | nil => exact .inl ⟨h, nofun⟩
  | cons part parts ih =>
      rcases ih h with ⟨hpart, hnot⟩ | ⟨later, hlater, hmem⟩
      · rcases mem_zip_or_of_scatter hpart with ⟨hold, hnot'⟩ | hmem
        · exact .inl ⟨hold, List.forall_mem_cons.mpr ⟨hnot', hnot⟩⟩
        · exact .inr ⟨part, by simp, hmem⟩
      · exact .inr ⟨later, by simp [hlater], hmem⟩

/-- A relation between lists of one length, position by position. -/
lemma forall₂_iff_getElem? {R : α → β → Prop} {xs : List α} {ys : List β} :
    List.Forall₂ R xs ys ↔ xs.length = ys.length ∧
      ∀ (j : ℕ) (x : α) (y : β), xs[j]? = some x → ys[j]? = some y → R x y := by
  rw [List.forall₂_iff_get]
  refine and_congr_right fun hlen => ⟨fun h j x y hx hy => ?_, fun h i hi hi' => ?_⟩
  · obtain ⟨hj, rfl⟩ := List.getElem?_eq_some_iff.mp hx
    obtain ⟨hj', rfl⟩ := List.getElem?_eq_some_iff.mp hy
    exact h j hj hj'
  · exact h i _ _ (List.getElem?_eq_getElem hi) (List.getElem?_eq_getElem hi')

/-- A relation between lists that implies another one for the items of the first. -/
lemma forall₂_imp_mem {R R' : α → β → Prop} {xs : List α} {ys : List β}
    (hR : ∀ x ∈ xs, ∀ y, R x y → R' x y) (h : List.Forall₂ R xs ys) :
    List.Forall₂ R' xs ys := by
  induction h with
  | nil => exact .nil
  | cons hxy _ ih =>
      rw [List.forall_mem_cons] at hR
      exact .cons (hR.1 _ hxy) (ih hR.2)

/-- **Values written back group by group**: a value of the result was written by the group of its
position, with its key, or was there and the position is in no group. -/
theorem scatterAll_groups {es : List (κ × ℕ)} {values : List α} {lists : List (List α)} {j : ℕ}
    {v : α} (hlen : List.Forall₂ (fun group vs => group.2.length = vs.length)
      (groupPositions es).entries lists)
    (h : (scatterAll values (((groupPositions es).entries.map Prod.snd).zip lists))[j]? = some v) :
    values[j]? = some v ∧ (∀ k, (k, j) ∉ es) ∨
      ∃ group vs, (group, vs) ∈ (groupPositions es).entries.zip lists ∧
        (j, v) ∈ group.2.zip vs ∧ (group.1, j) ∈ es := by
  rcases exists_of_scatterAll h with ⟨hold, hnot⟩ | ⟨part, hpart, hmem⟩
  · refine .inl ⟨hold, fun k hk => ?_⟩
    -- the group of the key has a value for the position
    obtain ⟨ats, hats, hj⟩ := exists_group hk
    obtain ⟨n, hn⟩ := List.mem_iff_getElem?.mp (JsMap.get?_eq_some_iff.mp hats)
    obtain ⟨hnlt, -⟩ := List.getElem?_eq_some_iff.mp hn
    have hnlt' : n < lists.length := hlen.length_eq ▸ hnlt
    have hvs : ats.length = lists[n].length :=
      (forall₂_iff_getElem?.mp hlen).2 n _ _ hn (List.getElem?_eq_getElem hnlt')
    obtain ⟨m, hm, hmj⟩ := List.mem_iff_getElem.mp hj
    refine hnot (ats, lists[n]) ?_ (j, lists[n][m]) ?_ rfl
    · refine List.mem_iff_getElem?.mpr ⟨n, ?_⟩
      rw [List.getElem?_zip_eq_some, List.getElem?_map, hn]
      exact ⟨rfl, List.getElem?_eq_getElem hnlt'⟩
    · refine List.mem_iff_getElem?.mpr ⟨m, ?_⟩
      rw [List.getElem?_zip_eq_some]
      exact ⟨hmj ▸ List.getElem?_eq_getElem hm, List.getElem?_eq_getElem (hvs ▸ hm)⟩
  · obtain ⟨ats, vs⟩ := part
    rw [List.zip_map_left, List.mem_map] at hpart
    obtain ⟨⟨group, vs'⟩, hzip, heq⟩ := hpart
    cases heq
    have hget := JsMap.get?_eq_some_iff.mpr (List.of_mem_zip hzip).1
    exact .inr ⟨group, vs', hzip, hmem, (mem_groupPositions hget).mp (List.of_mem_zip hmem).1⟩

end

/-- A sum after one position has changed. -/
lemma sum_map_set {α : Type} {f : α → ℕ} {xs : List α} {i : ℕ} {old : α} (h : xs[i]? = some old)
    (new : α) : ((xs.set i new).map f).sum + f old = (xs.map f).sum + f new := by
  induction xs generalizing i with
  | nil => cases h
  | cons x xs ih =>
      cases i with
      | zero =>
          obtain rfl := Option.some.inj h
          simp only [List.set_cons_zero, List.map_cons, List.sum_cons]
          omega
      | succ i =>
          have hrest := ih (i := i) h
          simp only [List.set_cons_succ, List.map_cons, List.sum_cons]
          omega

/-- A sum whose terms change in place, none of them upwards. -/
lemma sum_map_mapIdx_le {α : Type} {xs : List α} {g : α → ℕ} {f : ℕ → α → α}
    (h : ∀ (i : ℕ) x, xs[i]? = some x → g (f i x) ≤ g x) :
    ((xs.mapIdx f).map g).sum ≤ (xs.map g).sum := by
  have hxs : xs.map g = xs.zipIdx.map fun x => g x.1 := by
    rw [← Function.comp_def, ← List.map_map, List.zipIdx_map_fst]
  rw [List.mapIdx_eq_zipIdx_map, List.map_map, hxs]
  exact List.sum_le_sum fun x hx => h x.2 x.1 (List.mem_zipIdx_iff_getElem?.mp hx)

/-! ### Slices -/

section

variable {α : Type}

/-- A list cut into slices of a size, the last of which may be shorter. -/
def slices (size : ℕ) (xs : List α) : List (List α) :=
  (List.range ((xs.length + size - 1) / size)).map fun i => (xs.drop (i * size)).take size

lemma flatten_map_range (size : ℕ) (xs : List α) (n : ℕ) :
    ((List.range n).map fun i => (xs.drop (i * size)).take size).flatten = xs.take (n * size) := by
  induction n with
  | zero => simp
  | succ n ih =>
      rw [List.range_succ, List.map_append, List.flatten_append, ih, List.map_singleton,
        List.flatten_singleton, Nat.succ_mul, List.take_add]

/-- The slices are the list, cut. -/
theorem flatten_slices {size : ℕ} (hsize : 0 < size) (xs : List α) :
    (slices size xs).flatten = xs := by
  have hlong : xs.length ≤ (xs.length + size - 1) / size * size := by
    have hsplit := Nat.div_add_mod' (xs.length + size - 1) size
    have hmod := Nat.mod_lt (xs.length + size - 1) hsize
    omega
  rw [slices, flatten_map_range, List.take_of_length_le hlong]

/-- The slices hold what the list holds. -/
theorem mem_slices {size : ℕ} (hsize : 0 < size) {xs : List α} {x : α} :
    (∃ slice ∈ slices size xs, x ∈ slice) ↔ x ∈ xs := by
  rw [← List.mem_flatten, flatten_slices hsize]

/-- There are at most as many slices as items. -/
lemma length_slices_le {size : ℕ} (hsize : 0 < size) (xs : List α) :
    (slices size xs).length ≤ xs.length := by
  rw [slices, List.length_map, List.length_range]
  cases xs with
  | nil =>
      have hlt : ([] : List α).length + size - 1 < size := by
        rw [List.length_nil]
        omega
      rw [Nat.div_eq_of_lt hlt]
      exact Nat.zero_le _
  | cons x xs =>
      refine Nat.div_le_of_le_mul ?_
      have hle : xs.length ≤ size * xs.length := Nat.le_mul_of_pos_left _ hsize
      rw [List.length_cons, Nat.mul_succ]
      omega

end
