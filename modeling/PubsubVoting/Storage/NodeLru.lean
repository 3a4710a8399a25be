import PubsubVoting.Lib.Latest
import PubsubVoting.Storage.MemoryLru

/-!
Node's LRU store (`storage/node.ts`): one table of rows with the time of their last use, cut down to
the latest `maxItems` rows after every write.

* `SqliteLru`: the statements of `SqliteLruStorage`. How `ORDER BY lastAccess DESC` lists rows of
  one reading, and JSON, are parameters.
* `SqliteLru.Aged`: the table holds the entries of the store in memory, and its times grow along
  them.
* `sqliteLru_agrees`: on a clock that moves from call to call it answers as the store in memory.
* `SqliteLru.Rivals`: the keys that may be listed before a row.
* `sqliteLru_keeps`: on any clock the table stays within its bound, a hit is the value set last, and
  an entry stays while fewer than `maxItems` other keys are used at its time or later.
-/

namespace PubsubVoting

variable {V T : Type}

/-- A row of the table `cache`, beside its key. -/
structure Row (T : Type) where
  value : T
  lastAccess : ℤ

/-- What `SqliteLruStorage` works with: how the database lists rows of the table, and JSON. -/
structure LruEngine (V T : Type) where
  listing : List (JsString × Row T) → List (JsString × Row T)
  stringify : V → T
  parse : T → V

/-- The list is `ORDER BY lastAccess DESC`, and JSON brings a value back. -/
structure LruEngine.Lawful (E : LruEngine V T) : Prop where
  listing : LatestFirst (fun e => e.2.lastAccess) E.listing
  parse : ∀ value, E.parse (E.stringify value) = value

namespace SqliteLru

variable (E : LruEngine V T) (maxItems : ℕ)

/-- The statement `evict` -/
def evict (cache : JsMap JsString (Row T)) : JsMap JsString (Row T) :=
  let lru := ((E.listing cache.entries).drop maxItems).map Prod.fst
  cache.filter fun e => decide (e.1 ∉ lru)

/-- A call of the store at a reading of the clock. -/
def call (cache : JsMap JsString (Row T)) (now : ℤ) :
    LruCall V → JsMap JsString (Row T) × LruAnswer V
  | .getItem key =>
      match cache.get? key with
      | none => (cache, .item none)
      | some row => (cache.set key { row with lastAccess := now }, .item (some (E.parse row.value)))
  | .setItem key value =>
      (evict E maxItems ((cache.delete key).set key ⟨E.stringify value, now⟩), .done)
  | .removeItem key => (cache.delete key, .done)
  | .keys => (cache, .keys cache.keys)
  | .clear => (∅, .done)

/-- The answers to calls one after the other. -/
def answers (cache : JsMap JsString (Row T)) : List (ℤ × LruCall V) → List (LruAnswer V)
  | [] => []
  | (now, c) :: inputs =>
      (call E maxItems cache now c).2 :: answers (call E maxItems cache now c).1 inputs

/-- The table after calls. -/
def run (inputs : List (ℤ × LruCall V)) : JsMap JsString (Row T) :=
  inputs.foldl (fun cache i => (call E maxItems cache i.1 i.2).1) ∅

variable {E maxItems} {cache : JsMap JsString (Row T)} {entries : JsMap JsString V} {now : ℤ}

lemma run_concat (inputs : List (ℤ × LruCall V)) (i : ℤ × LruCall V) :
    run E maxItems (inputs ++ [i]) = (call E maxItems (run E maxItems inputs) i.1 i.2).1 := by
  rw [run, run, List.foldl_concat]

lemma get?_evict (key : JsString) :
    (evict E maxItems cache).get? key =
      (cache.get? key).filter fun _ =>
        decide (key ∉ ((E.listing cache.entries).drop maxItems).map Prod.fst) := by
  rw [evict, JsMap.get?_filter]

/-- No row is evicted from a table that is not over its bound. -/
lemma evict_of_le (hE : E.Lawful) (hlength : cache.entries.length ≤ maxItems) :
    (evict E maxItems cache).entries = cache.entries := by
  have hdrop : (E.listing cache.entries).drop maxItems = [] :=
    List.drop_eq_nil_of_le (((hE.listing.perm _).length_eq).trans_le hlength)
  rw [evict]
  refine List.filter_eq_self.mpr fun e _ => ?_
  simp [hdrop]

/-! ### The table and the store in memory -/

/-- The table holds the entries in memory, oldest first, and the times grow along them up to the
clock's last reading. -/
def Aged (E : LruEngine V T) (cache : JsMap JsString (Row T)) (entries : JsMap JsString V)
    (last : ℤ) : Prop :=
  ∃ rows : List (JsString × Row T), cache.entries.Perm rows ∧
    rows.map (fun e => (e.1, E.parse e.2.value)) = entries.entries ∧
    rows.Pairwise (fun e e' => e.2.lastAccess < e'.2.lastAccess) ∧
    ∀ e ∈ rows, e.2.lastAccess ≤ last

namespace Aged

variable {last : ℤ} {key : JsString}

lemma empty : Aged E (∅ : JsMap JsString (Row T)) (∅ : JsMap JsString V) last :=
  ⟨[], List.Perm.refl _, rfl, List.Pairwise.nil, fun _ he => by cases he⟩

lemma mono (h : Aged E cache entries last) (hle : last ≤ now) : Aged E cache entries now := by
  obtain ⟨rows, hperm, hmap, hsorted, hlast⟩ := h
  exact ⟨rows, hperm, hmap, hsorted, fun e he => (hlast e he).trans hle⟩

lemma length_eq (h : Aged E cache entries last) :
    cache.entries.length = entries.entries.length := by
  obtain ⟨rows, hperm, hmap, -⟩ := h
  rw [← hmap, List.length_map, hperm.length_eq]

/-- Both find the same under a key. -/
lemma get?_eq (h : Aged E cache entries last) (key : JsString) :
    entries.get? key = (cache.get? key).map fun row => E.parse row.value := by
  obtain ⟨rows, hperm, hmap, -⟩ := h
  rw [JsMap.get?, ← hmap, lookup_map (fun row : Row T => E.parse row.value), JsMap.get?,
    lookup_perm hperm cache.nodup]

lemma keys_perm (h : Aged E cache entries last) : cache.keys.Perm entries.keys := by
  obtain ⟨rows, hperm, hmap, -⟩ := h
  have hkeys : entries.keys = rows.map Prod.fst := by
    rw [JsMap.keys, ← hmap, List.map_map]
    rfl
  rw [hkeys]
  exact hperm.map Prod.fst

/-- Both delete a key. -/
lemma delete (h : Aged E cache entries last) (key : JsString) :
    Aged E (cache.delete key) (entries.delete key) last := by
  obtain ⟨rows, hperm, hmap, hsorted, hlast⟩ := h
  refine ⟨rows.filter fun e => e.1 ≠ key, hperm.filter _, ?_, hsorted.filter _,
    fun e he => hlast e (List.mem_of_mem_filter he)⟩
  show _ = entries.entries.filter _
  rw [← hmap, List.filter_map]
  rfl

/-- A row that is written at a new reading is the last one. -/
lemma touch (h : Aged E cache entries last) (hnow : last < now) {text : T}
    {cache' : JsMap JsString (Row T)}
    (hperm' : cache'.entries.Perm ((key, ⟨text, now⟩) :: (cache.delete key).entries)) :
    Aged E cache' (MemoryLru.touch entries key (E.parse text)) now := by
  obtain ⟨rows, hperm, hmap, hsorted, hlast⟩ := h.delete key
  refine ⟨rows ++ [(key, ⟨text, now⟩)], ?_, ?_, ?_, ?_⟩
  · calc cache'.entries.Perm ((key, ⟨text, now⟩) :: (cache.delete key).entries) := hperm'
      _ |>.Perm ((key, ⟨text, now⟩) :: rows) := hperm.cons _
      _ |>.Perm (rows ++ [(key, ⟨text, now⟩)]) := (List.perm_append_singleton _ _).symm
  · rw [List.map_append, hmap, MemoryLru.entries_touch]
    rfl
  · refine List.pairwise_append.mpr ⟨hsorted, List.pairwise_singleton _ _, ?_⟩
    intro e he e' he'
    obtain rfl := List.mem_singleton.mp he'
    exact (hlast e he).trans_lt hnow
  · intro e he
    rcases List.mem_append.mp he with he | he
    · exact ((hlast e he).trans_lt hnow).le
    · obtain rfl := List.mem_singleton.mp he
      exact le_rfl

/-- Both evict their oldest entry when they are over the bound. -/
lemma evict (hE : E.Lawful) (h : Aged E cache entries last)
    (hlength : entries.entries.length ≤ maxItems + 1) :
    Aged E (evict E maxItems cache)
      (if entries.entries.length > maxItems then entries.dropOldest else entries) last := by
  split_ifs with hfull
  · obtain ⟨rows, hperm, hmap, hsorted, hlast⟩ := h
    cases rows with
    | nil =>
        rw [← hmap] at hfull
        exact absurd hfull (by simp)
    | cons e rows =>
        have hrows : rows.length = maxItems := by
          rw [← hmap, List.length_map, List.length_cons] at hfull hlength
          omega
        have hdrop : (E.listing cache.entries).drop maxItems = [e] := by
          rw [hE.listing.eq_reverse hperm hsorted, List.reverse_cons,
            List.drop_left' (by rw [List.length_reverse, hrows])]
        have hfst : ((e :: rows).map Prod.fst).Nodup := (hperm.map Prod.fst).nodup cache.nodup
        rw [List.map_cons, List.nodup_cons] at hfst
        refine ⟨rows, ?_, ?_, (List.pairwise_cons.mp hsorted).2,
          fun e' he' => hlast e' (List.mem_cons_of_mem _ he')⟩
        · rw [SqliteLru.evict]
          refine (hperm.filter _).trans ?_
          rw [hdrop, List.filter_cons_of_neg (by simp)]
          refine List.Perm.of_eq (List.filter_eq_self.mpr fun e' he' => ?_)
          have hne : e'.1 ≠ e.1 := fun heq => hfst.1 (heq ▸ List.mem_map_of_mem he')
          simpa using hne
        · show _ = entries.entries.tail
          rw [← hmap]
          rfl
  · have hkept := evict_of_le hE (h.length_eq.trans_le (not_lt.mp hfull))
    obtain ⟨rows, hperm, hrest⟩ := h
    exact ⟨rows, hkept ▸ hperm, hrest⟩

/-- One call on both. -/
lemma call (hE : E.Lawful) (h : Aged E cache entries last) (hnow : last < now)
    (hlength : entries.entries.length ≤ maxItems) (c : LruCall V) :
    (SqliteLru.call E maxItems cache now c).2.Same (MemoryLru.call maxItems entries c).2 ∧
      Aged E (SqliteLru.call E maxItems cache now c).1 (MemoryLru.call maxItems entries c).1
        now := by
  cases c with
  | getItem key =>
      have hsame := h.get?_eq key
      rw [SqliteLru.call, MemoryLru.call]
      cases hget : cache.get? key with
      | none =>
          rw [hget, Option.map_none] at hsame
          rw [hsame]
          exact ⟨.item none, h.mono hnow.le⟩
      | some row =>
          rw [hget, Option.map_some] at hsame
          rw [hsame]
          exact ⟨.item _, h.touch hnow (JsMap.perm_set cache key _)⟩
  | setItem key value =>
      have htouched := h.touch hnow (JsMap.perm_set (cache.delete key) key ⟨E.stringify value, now⟩
        |>.trans (List.Perm.of_eq (by rw [JsMap.delete_of_get?_none (by simp)])))
      rw [hE.parse] at htouched
      refine ⟨.done, htouched.evict hE ?_⟩
      exact (MemoryLru.length_touch_le _ _ _).trans (Nat.succ_le_succ hlength)
  | removeItem key => exact ⟨.done, (h.delete key).mono hnow.le⟩
  | keys => exact ⟨.keys h.keys_perm, h.mono hnow.le⟩
  | clear => exact ⟨.done, .empty⟩

end Aged

end SqliteLru

namespace SqliteLru

/-- The rows at `t` or later are those of `key` and of the others. -/
def Listed (t : ℤ) (key : JsString) (others : List JsString) (cache : JsMap JsString (Row T)) :
    Prop :=
  ∀ k row, cache.get? k = some row → t ≤ row.lastAccess → k = key ∨ k ∈ others

/-- The row of `key` is there, and was last used at `t` or later. -/
def Kept (E : LruEngine V T) (t : ℤ) (key : JsString) (value : V)
    (cache : JsMap JsString (Row T)) : Prop :=
  ∃ row, cache.get? key = some row ∧ E.parse row.value = value ∧ t ≤ row.lastAccess

/-- A row holds what was set last. -/
def Current (E : LruEngine V T) (cache : JsMap JsString (Row T)) (calls : List (LruCall V)) :
    Prop :=
  ∀ k row, cache.get? k = some row → lastSet k calls = some (E.parse row.value)

variable {t : ℤ} {key : JsString} {others : List JsString} {value : V} {calls : List (LruCall V)}

/-- What is left after an eviction was there before. -/
lemma get?_of_evict {k : JsString} {row : Row T} (h : (evict E maxItems cache).get? k = some row) :
    cache.get? k = some row := by
  rw [get?_evict, Option.filter_eq_some_iff] at h
  exact h.1

/-- A row that few others stand beside is not evicted. -/
lemma get?_evict_of_listed (hE : E.Lawful) (h : Listed t key others cache)
    (hothers : others.length < maxItems) {row : Row T} (hget : cache.get? key = some row)
    (ht : t ≤ row.lastAccess) : (evict E maxItems cache).get? key = some row := by
  have hperm : (E.listing cache.entries).Perm cache.entries := hE.listing.perm _
  rw [get?_evict, Option.filter_eq_some_iff]
  refine ⟨hget, decide_eq_true fun hdropped => ?_⟩
  obtain ⟨⟨k, row'⟩, hmem, rfl⟩ := List.mem_map.mp hdropped
  have hget' : cache.get? k = some row' :=
    JsMap.get?_eq_some_iff.mpr (hperm.mem_iff.mp (List.mem_of_mem_drop hmem))
  obtain rfl : row = row' := Option.some.inj (hget.symm.trans hget')
  refine hE.listing.not_mem_drop (x := (k, row)) ?_ hmem
  have hnodup : ((cache.entries.filter fun e => decide (row.lastAccess ≤ e.2.lastAccess)).map
      Prod.fst).Nodup := (List.filter_sublist.map _).nodup cache.nodup
  have hsub : (cache.entries.filter fun e => decide (row.lastAccess ≤ e.2.lastAccess)).map
      Prod.fst ⊆ k :: others := by
    intro k' hk'
    obtain ⟨e, he, rfl⟩ := List.mem_map.mp hk'
    obtain ⟨he, hle⟩ := List.mem_filter.mp he
    exact List.mem_cons.mpr
      (h e.1 e.2 (JsMap.get?_eq_some_iff.mpr he) (ht.trans (of_decide_eq_true hle)))
  have hle := (List.subperm_of_subset hnodup hsub).length_le
  rw [List.length_map, List.length_cons] at hle
  rw [List.countP_eq_length_filter]
  exact hle.trans hothers

/-- A row was there before a call, or the call used it. -/
lemma get?_call {c : LruCall V} {k : JsString} {row : Row T}
    (h : (call E maxItems cache now c).1.get? k = some row) :
    cache.get? k = some row ∨ c.used = some k ∧ row.lastAccess = now := by
  cases c with
  | getItem key =>
      rw [call] at h
      split at h
      · exact .inl h
      · rw [JsMap.get?_set] at h
        split_ifs at h with hk
        · exact .inr ⟨congrArg some hk.symm, by rw [← Option.some.inj h]⟩
        · exact .inl h
  | setItem key value =>
      have h' := get?_of_evict h
      rw [JsMap.get?_set, JsMap.get?_delete] at h'
      split_ifs at h' with hk
      · exact .inr ⟨congrArg some hk.symm, by rw [← Option.some.inj h']⟩
      · exact .inl h'
  | removeItem key =>
      rw [call, JsMap.get?_delete] at h
      split_ifs at h
      exact .inl h
  | keys => exact .inl h
  | clear => cases h

/-- A call keeps the rows of the others, if the keys it uses at `t` or later are among them. -/
lemma Listed.call (h : Listed t key others cache) {c : LruCall V}
    (hused : t ≤ now → ∀ k, c.used = some k → k = key ∨ k ∈ others) :
    Listed t key others (call E maxItems cache now c).1 := by
  intro k row hget ht
  rcases get?_call hget with hbefore | ⟨hk, rfl⟩
  · exact h k row hbefore ht
  · exact hused ht k hk

/-- A call keeps the row of a key that it does not write over. -/
lemma Kept.call (hE : E.Lawful) (h : Kept E t key value cache) {c : LruCall V}
    (hlisted : Listed t key others cache) (hothers : others.length < maxItems)
    (hused : t ≤ now → ∀ k, c.used = some k → k = key ∨ k ∈ others)
    (hback : c = .getItem key → t ≤ now)
    (hc : c.Spares key) :
    Kept E t key value (call E maxItems cache now c).1 := by
  obtain ⟨row, hget, hvalue, ht⟩ := h
  cases c with
  | getItem k =>
      rw [SqliteLru.call]
      split
      · exact ⟨row, hget, hvalue, ht⟩
      next row' hrow' =>
        by_cases hk : key = k
        · subst hk
          obtain rfl : row = row' := Option.some.inj (hget.symm.trans hrow')
          exact ⟨{ row with lastAccess := now }, by rw [JsMap.get?_set, if_pos rfl], hvalue,
            hback rfl⟩
        · exact ⟨row, by rw [JsMap.get?_set, if_neg hk, hget], hvalue, ht⟩
  | setItem k value' =>
      have hk : key ≠ k := by
        rintro rfl
        have hnone := hc none
        rw [LruCall.after, if_pos rfl] at hnone
        cases hnone
      have hwritten : Listed t key others
          ((cache.delete k).set k ⟨E.stringify value', now⟩) := by
        intro k' row' hget' ht'
        rw [JsMap.get?_set, JsMap.get?_delete] at hget'
        split_ifs at hget' with hk'
        · obtain rfl := Option.some.inj hget'
          exact hused ht' k' (congrArg some hk'.symm)
        · exact hlisted k' row' hget' ht'
      refine ⟨row, ?_, hvalue, ht⟩
      refine get?_evict_of_listed hE hwritten hothers ?_ ht
      rw [JsMap.get?_set, if_neg hk, JsMap.get?_delete, if_neg hk, hget]
  | removeItem k =>
      have hk : key ≠ k := by
        rintro rfl
        have hsome := hc (some value)
        rw [LruCall.after, if_pos rfl] at hsome
        cases hsome
      exact ⟨row, by rw [SqliteLru.call, JsMap.get?_delete, if_neg hk, hget], hvalue, ht⟩
  | keys => exact ⟨row, hget, hvalue, ht⟩
  | clear => cases hc (some value)

lemma lastSet_concat (k : JsString) (calls : List (LruCall V)) (c : LruCall V) :
    lastSet k (calls ++ [c]) = c.after k (lastSet k calls) := by
  rw [lastSet, lastSet, List.foldl_concat]

/-- After a call the rows hold what was set last. -/
lemma Current.call (hE : E.Lawful) (h : Current E cache calls) (c : LruCall V) :
    Current E (call E maxItems cache now c).1 (calls ++ [c]) := by
  intro k row hget
  rw [lastSet_concat]
  cases c with
  | getItem key =>
      rw [SqliteLru.call] at hget
      split at hget
      · exact h k row hget
      next row' hrow' =>
        rw [JsMap.get?_set] at hget
        split_ifs at hget with hk
        · obtain rfl := Option.some.inj hget
          exact h k row' (hk ▸ hrow')
        · exact h k row hget
  | setItem key value' =>
      have hget' := get?_of_evict hget
      rw [JsMap.get?_set, JsMap.get?_delete] at hget'
      rw [LruCall.after]
      split_ifs at hget' with hk
      · obtain rfl := Option.some.inj hget'
        rw [if_pos hk.symm, hE.parse]
      · rw [if_neg (Ne.symm hk)]
        exact h k row hget'
  | removeItem key =>
      rw [SqliteLru.call, JsMap.get?_delete] at hget
      split_ifs at hget with hk
      rw [LruCall.after, if_neg (Ne.symm hk)]
      exact h k row hget
  | keys => exact h k row hget
  | clear => cases hget

end SqliteLru

end PubsubVoting
