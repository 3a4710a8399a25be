import PubsubVoting.Lib.Decimal
import PubsubVoting.Lib.JsMap
import PubsubVoting.Lib.Transition

/-!
The cache a rule computes through: a bounded in-memory front over a persistent store, entries keyed
by a key and an epoch.

* `entryKey`, `epochOf_entryKey`, `entryKey_inj`: the epoch trails the key and is parsed back.
* `MemoryRuleCache`: the bounded front; `get?_set`, `get?_purgeBelow`: what its operations do.
* `RuleCaches`: any number of fronts over one store, the lookups and the purges in flight.
  `RuleCaches.handle`: the operations a caller awaits; `RuleCaches.storeStep`: what the store does
  on its own.
* `spared_purgeBelow`, `spared_purgeNext`: what a purge leaves in every tier.
* `RuleCaches.held`, `mem_held_handle`, `mem_held_storeStep`: the values some tier has for an entry,
  and that only `set` adds to them.
-/

namespace PubsubVoting

open JsString

/-! ### Keys -/

/-- `:` -/
def colon : UInt16 := 58

/-- The entry of a key within an epoch. -/
def entryKey (key : JsString) (epoch : ℕ) : JsString := key ++ colon :: decimal epoch

/-- The epoch that trails an entry's key. -/
def epochOf (entry : JsString) : Option ℕ := number? (afterLast colon entry)

lemma colon_not_mem_decimal (n : ℕ) : colon ∉ decimal n := not_mem_decimal (.inr le_rfl) n

/-- A purge parses the epoch back off the end. -/
lemma epochOf_entryKey (key : JsString) (epoch : ℕ) :
    epochOf (entryKey key epoch) = some epoch := by
  rw [epochOf, entryKey, afterLast_append (colon_not_mem_decimal epoch), number?_decimal]

lemma entryKey_inj {key key' : JsString} {epoch epoch' : ℕ}
    (h : entryKey key epoch = entryKey key' epoch') : key = key' ∧ epoch = epoch' := by
  obtain ⟨hkey, hepoch⟩ := append_sep_inj (colon_not_mem_decimal _) (colon_not_mem_decimal _) h
  exact ⟨hkey, decimal_injective hepoch⟩

/-- The test of a purge: the entry starts with a prefix and is below an epoch. -/
def purges (epoch : ℕ) (keyPrefix entry : JsString) : Bool :=
  keyPrefix.isPrefixOf entry && (epochOf entry).any fun at' => at' < epoch

/-! ### The in-memory front -/

/-- The memoised values, and the order they came in. -/
structure MemoryRuleCache where
  byKey : JsMap JsString JsString
  order : List JsString

namespace MemoryRuleCache

/-- Nothing memoised. -/
def empty : MemoryRuleCache := ⟨∅, []⟩

/-- The value of an entry. -/
def get? (cache : MemoryRuleCache) (entry : JsString) : Option JsString := cache.byKey.get? entry

/-- Drop the oldest entry once there are more than the bound. -/
def evict (maxEntries : ℕ) (cache : MemoryRuleCache) : MemoryRuleCache :=
  if cache.order.length > maxEntries then
    match cache.order with
    | [] => cache
    | evicted :: order => ⟨cache.byKey.delete evicted, order⟩
  else cache

/-- Memoise a value; an entry that is there is neither refreshed nor overwritten. -/
def set (maxEntries : ℕ) (cache : MemoryRuleCache) (entry value : JsString) : MemoryRuleCache :=
  if cache.byKey.has entry then cache
  else evict maxEntries ⟨cache.byKey.set entry value, cache.order ++ [entry]⟩

/-- Forget one entry. -/
def drop (cache : MemoryRuleCache) (entry : JsString) : MemoryRuleCache :=
  ⟨cache.byKey.delete entry, cache.order.erase entry⟩

/-- Forget the entries under a prefix that are below an epoch. -/
def purgeBelow (cache : MemoryRuleCache) (epoch : ℕ) (keyPrefix : JsString) : MemoryRuleCache :=
  (cache.byKey.keys.filter (purges epoch keyPrefix)).foldl drop cache

variable {maxEntries epoch : ℕ} {cache : MemoryRuleCache}
  {entry entry' value v keyPrefix : JsString}

lemma get?_evict (h : (evict maxEntries cache).get? entry = some v) :
    cache.get? entry = some v := by
  rw [evict] at h
  split_ifs at h
  · cases horder : cache.order with
    | nil => rwa [horder] at h
    | cons evicted order =>
        rw [horder, get?, JsMap.get?_delete] at h
        split_ifs at h
        exact h
  · exact h

/-- Memoising adds at most the value memoised, and that only under an entry that was not there. -/
lemma get?_set (h : (cache.set maxEntries entry value).get? entry' = some v) :
    cache.get? entry' = some v ∨ entry' = entry ∧ v = value := by
  rw [set] at h
  split_ifs at h with hhas
  · exact .inl h
  · have hset := get?_evict h
    rw [get?, JsMap.get?_set] at hset
    split_ifs at hset with hentry
    · exact .inr ⟨hentry, (Option.some.inj hset).symm⟩
    · exact .inl hset

lemma get?_foldl_drop (entries : List JsString) (cache : MemoryRuleCache) (entry : JsString) :
    (entries.foldl drop cache).get? entry
      = if entry ∈ entries then none else cache.get? entry := by
  induction entries generalizing cache with
  | nil => simp
  | cons e entries ih =>
      rw [List.foldl_cons, ih, drop, get?, JsMap.get?_delete]
      by_cases he : entry = e <;> simp [he, get?]

/-- A purge forgets the entries that its test is about, and nothing else. -/
lemma get?_purgeBelow (cache : MemoryRuleCache) (epoch : ℕ) (keyPrefix entry : JsString) :
    (cache.purgeBelow epoch keyPrefix).get? entry
      = if purges epoch keyPrefix entry then none else cache.get? entry := by
  rw [purgeBelow, get?_foldl_drop]
  cases hpurges : purges epoch keyPrefix entry with
  | false => simp [hpurges]
  | true =>
      by_cases hmem : entry ∈ cache.byKey.keys
      · simp [hmem, hpurges]
      · have hnone : cache.get? entry = none := JsMap.get?_eq_none_iff.mpr hmem
        simp [hmem, hnone]

end MemoryRuleCache

/-! ### Fronts over one store -/

/-- One persistent cache: its front, and the highest epoch purged for each prefix. -/
structure PersistentRuleCache where
  mem : MemoryRuleCache
  purged : JsMap JsString ℕ

/-- A front as it is opened. -/
def PersistentRuleCache.fresh : PersistentRuleCache := ⟨.empty, ∅⟩

/-- A lookup that found a value in the store, on its way to memoise it in its front. -/
structure Lookup where
  id : ℕ
  front : ℕ
  key : JsString
  epoch : ℕ
deriving DecidableEq

/-- A purge of the store: the keys that are still to be looked at. -/
structure PurgeTask where
  epoch : ℕ
  keyPrefix : JsString
  keys : List JsString

/-- A `get` that was answered, and the value that applied to its entry then. -/
structure CacheAnswer where
  key : JsString
  epoch : ℕ
  value : Option JsString
  applies : Option JsString

/-- The caches over one store under one namespace; a front that is not there yet is fresh.
`applies` and `answers` are for the statements about runs: the value each entry was first given
since it was last dropped from the store, and the lookups answered so far. -/
structure RuleCaches where
  store : JsMap JsString JsString
  fronts : JsMap ℕ PersistentRuleCache
  lookups : JsMap Lookup JsString
  nextLookup : ℕ
  purgeTasks : List PurgeTask
  applies : JsMap JsString JsString
  answers : List CacheAnswer

/-- What a caller asks of a cache. A `get` asks up to three times: the front, the store, and again
the front when the store's answer has come. -/
inductive CacheOp where
  | memGet (key : JsString) (epoch : ℕ)
  | getItem (key : JsString) (epoch : ℕ)
  | settle (lookup : Lookup)
  | set (key : JsString) (epoch : ℕ) (value : JsString)
  | purgeBelow (epoch : ℕ) (keyPrefix : Option JsString)

/-- What a caller is answered: a value, the lookup that is now in flight, or nothing. -/
abbrev CacheOp.Answer : CacheOp → Type
  | .memGet _ _ => Option JsString
  | .getItem _ _ => Option Lookup
  | .settle _ => Option JsString
  | .set _ _ _ => Unit
  | .purgeBelow _ _ => Unit

/-- What the store does on its own: an eviction, or the next key of a purge. -/
inductive StoreEvent where
  | evict (storeKey : JsString)
  | purgeNext (task : ℕ)

namespace RuleCaches

/-- Nothing stored, no front opened. -/
def empty : RuleCaches := ⟨∅, ∅, ∅, 0, [], ∅, []⟩

section

variable (maxEntries : ℕ) (ns : JsString) (s : RuleCaches) (front : ℕ)

/-- The store's key of an entry. -/
def storeKey (key : JsString) (epoch : ℕ) : JsString := ns ++ colon :: entryKey key epoch

/-- A front, fresh if it has not been used. -/
def frontAt : PersistentRuleCache := (s.fronts.get? front).getD .fresh

/-- Replace a front. -/
def setFront (cache : PersistentRuleCache) : RuleCaches :=
  { s with fronts := s.fronts.set front cache }

/-- Note the answer to a `get`. -/
def answer (key : JsString) (epoch : ℕ) (value : Option JsString) : RuleCaches :=
  { s with
    answers := s.answers ++ [⟨key, epoch, value, s.applies.get? (storeKey ns key epoch)⟩] }

/-- `mem.get`: a hit is the answer. -/
def memGet (key : JsString) (epoch : ℕ) : Option JsString × RuleCaches :=
  match (s.frontAt front).mem.get? (entryKey key epoch) with
  | some value => (some value, s.answer ns key epoch (some value))
  | none => (none, s)

/-- `store.getItem`: a miss is the answer; a value is on its way to the front. -/
def getItem (key : JsString) (epoch : ℕ) : Option Lookup × RuleCaches :=
  match s.store.get? (storeKey ns key epoch) with
  | some value =>
    let lookup : Lookup := ⟨s.nextLookup, front, key, epoch⟩
    (some lookup,
      { s with
        lookups := s.lookups.set lookup value
        nextLookup := s.nextLookup + 1 })
  | none => (none, s.answer ns key epoch none)

/-- Memoise a value in a front. -/
def memoise (key : JsString) (epoch : ℕ) (value : JsString) : RuleCaches :=
  let cache := s.frontAt front
  s.setFront front { cache with mem := cache.mem.set maxEntries (entryKey key epoch) value }

/-- The value from the store is memoised in the front and is the answer. -/
def settleFound (lookup : Lookup) (value : JsString) : RuleCaches :=
  let landed := { s with lookups := s.lookups.delete lookup }
  (landed.memoise maxEntries lookup.front lookup.key lookup.epoch value).answer ns lookup.key
    lookup.epoch (some value)

/-- The store's answer to a lookup arrives. -/
def settle (lookup : Lookup) : Option JsString × RuleCaches :=
  match s.lookups.get? lookup with
  | some value => (some value, s.settleFound maxEntries ns lookup value)
  | none => (none, s)

/-- `set`: the front keeps what it has, the store is written. -/
def set (key : JsString) (epoch : ℕ) (value : JsString) : RuleCaches :=
  let item := storeKey ns key epoch
  { s.memoise maxEntries front key epoch value with
    store := s.store.set item value
    applies := if s.applies.has item then s.applies else s.applies.set item value }

/-- The prefix a purge looks for in the store. -/
def purgePrefix (keyPrefix : Option JsString) : JsString := ns ++ colon :: keyPrefix.getD []

/-- `purgeBelow`: the front at once, the store key by key; nothing where it has been done. -/
def purgeBelow (epoch : ℕ) (keyPrefix : Option JsString) : RuleCaches :=
  let cache := s.frontAt front
  let pre := purgePrefix ns keyPrefix
  if epoch ≤ (cache.purged.get? pre).getD 0 then s
  else
    { s.setFront front
        ⟨cache.mem.purgeBelow epoch (keyPrefix.getD []), cache.purged.set pre epoch⟩ with
      purgeTasks := s.purgeTasks ++ [⟨epoch, pre, s.store.keys⟩] }

/-- Answer what a caller asks. -/
def handle : (op : CacheOp) → op.Answer × RuleCaches
  | .memGet key epoch => s.memGet ns front key epoch
  | .getItem key epoch => s.getItem ns front key epoch
  | .settle lookup => s.settle maxEntries ns lookup
  | .set key epoch value => ((), s.set maxEntries ns front key epoch value)
  | .purgeBelow epoch keyPrefix => ((), s.purgeBelow ns front epoch keyPrefix)

/-- An item leaves the store. -/
def removeItem (item : JsString) : RuleCaches :=
  { s with store := s.store.delete item, applies := s.applies.delete item }

/-- A purge looks at its next key. -/
def purgeNext (task : ℕ) : PurgeTask → RuleCaches
  | ⟨_, _, []⟩ => { s with purgeTasks := s.purgeTasks.eraseIdx task }
  | ⟨epoch, keyPrefix, item :: items⟩ =>
    let rest := { s with purgeTasks := s.purgeTasks.set task ⟨epoch, keyPrefix, items⟩ }
    if purges epoch keyPrefix item then rest.removeItem item else rest

/-- The store moves on its own. -/
def storeStep : StoreEvent → Option RuleCaches
  | .evict item => some (s.removeItem item)
  | .purgeNext task => s.purgeTasks[task]?.map (s.purgeNext task)

/-- The values some tier has for an entry: the store, a front, or a lookup on its way. -/
def held (key : JsString) (epoch : ℕ) : List JsString :=
  (s.store.get? (storeKey ns key epoch)).toList
    ++ s.fronts.values.filterMap (fun cache => cache.mem.get? (entryKey key epoch))
    ++ (s.lookups.entries.filter fun e => e.1.key = key ∧ e.1.epoch = epoch).map (·.2)

end

section

variable {maxEntries : ℕ} {ns : JsString} {s t : RuleCaches} {front : ℕ} {key key' : JsString}
  {epoch epoch' : ℕ} {value v : JsString}

lemma storeKey_inj (h : storeKey ns key epoch = storeKey ns key' epoch') :
    key = key' ∧ epoch = epoch' :=
  entryKey_inj (List.cons_inj_right colon |>.mp (List.append_cancel_left h))

lemma epochOf_storeKey (ns key : JsString) (epoch : ℕ) :
    epochOf (storeKey ns key epoch) = some epoch := by
  rw [storeKey, entryKey, ← List.cons_append, ← List.append_assoc, ← entryKey, epochOf_entryKey]

lemma mem_held_iff : v ∈ s.held ns key epoch ↔
    s.store.get? (storeKey ns key epoch) = some v ∨
      (∃ f cache, s.fronts.get? f = some cache ∧ cache.mem.get? (entryKey key epoch) = some v) ∨
      ∃ l, s.lookups.get? l = some v ∧ l.key = key ∧ l.epoch = epoch := by
  simp only [held, List.mem_append, Option.mem_toList, List.mem_filterMap,
    List.mem_map, List.mem_filter, decide_eq_true_eq, JsMap.mem_values_iff, or_assoc,
    JsMap.get?_eq_some_iff (m := s.lookups)]
  refine or_congr_right (or_congr ⟨?_, ?_⟩ ⟨?_, ?_⟩)
  · rintro ⟨cache, ⟨f, hf⟩, hv⟩
    exact ⟨f, cache, hf, hv⟩
  · rintro ⟨f, cache, hf, hv⟩
    exact ⟨cache, ⟨f, hf⟩, hv⟩
  · rintro ⟨⟨l, w⟩, ⟨hl, hkeys⟩, rfl⟩
    exact ⟨l, hl, hkeys⟩
  · rintro ⟨l, hl, hkeys⟩
    exact ⟨(l, v), ⟨hl, hkeys⟩, rfl⟩

/-- What a front has for an entry is held. -/
lemma mem_held_of_frontAt (h : (s.frontAt front).mem.get? (entryKey key epoch) = some v) :
    v ∈ s.held ns key epoch := by
  rw [frontAt] at h
  cases hfront : s.fronts.get? front with
  | none =>
      rw [hfront] at h
      cases h
  | some cache =>
      rw [hfront] at h
      exact mem_held_iff.mpr (.inr (.inl ⟨front, cache, hfront, h⟩))

/-! ### What the operations add -/

/-- The store, the fronts and the lookups of a state are among those of another, front by front and
entry by entry. -/
structure Within (t s : RuleCaches) : Prop where
  store : ∀ item v, t.store.get? item = some v → s.store.get? item = some v
  fronts : ∀ f cache, t.fronts.get? f = some cache → ∀ entry v, cache.mem.get? entry = some v →
    (s.frontAt f).mem.get? entry = some v
  lookups : ∀ l v, t.lookups.get? l = some v → s.lookups.get? l = some v

lemma Within.mem_held (h : Within t s) (hv : v ∈ t.held ns key epoch) :
    v ∈ s.held ns key epoch := by
  rcases mem_held_iff.mp hv with hstore | ⟨f, cache, hf, hentry⟩ | ⟨l, hl, hkeys⟩
  · exact mem_held_iff.mpr (.inl (h.store _ _ hstore))
  · exact mem_held_of_frontAt (h.fronts f cache hf _ _ hentry)
  · exact mem_held_iff.mpr (.inr (.inr ⟨l, h.lookups _ _ hl, hkeys⟩))

lemma Within.refl (s : RuleCaches) : Within s s where
  store := fun _ _ h => h
  fronts := fun f cache hf entry v hv => by rwa [frontAt, hf]
  lookups := fun _ _ h => h

/-- Keeping note of an answer changes no tier. -/
lemma within_answer (value : Option JsString) : Within (s.answer ns key epoch value) s :=
  ⟨(Within.refl s).store, (Within.refl s).fronts, (Within.refl s).lookups⟩

/-- An item that leaves the store. -/
lemma within_removeItem (item : JsString) : Within (s.removeItem item) s where
  store := fun item' v h => by
    rw [removeItem, JsMap.get?_delete] at h
    split_ifs at h
    exact h
  fronts := (Within.refl s).fronts
  lookups := (Within.refl s).lookups

lemma within_purgeBelow (keyPrefix : Option JsString) :
    Within (s.purgeBelow ns front epoch keyPrefix) s := by
  rw [purgeBelow]
  dsimp only
  split_ifs
  · exact .refl s
  · refine ⟨(Within.refl s).store, fun f cache hf entry v hv => ?_, (Within.refl s).lookups⟩
    rw [setFront, JsMap.get?_set] at hf
    split_ifs at hf with hsame
    · obtain rfl := Option.some.inj hf
      rw [MemoryRuleCache.get?_purgeBelow] at hv
      split_ifs at hv
      exact hsame ▸ hv
    · exact (Within.refl s).fronts f cache hf entry v hv

lemma within_purgeNext (task : ℕ) (purge : PurgeTask) : Within (s.purgeNext task purge) s := by
  obtain ⟨epoch, keyPrefix, items⟩ := purge
  cases items with
  | nil => exact ⟨(Within.refl s).store, (Within.refl s).fronts, (Within.refl s).lookups⟩
  | cons item items =>
      unfold purgeNext
      dsimp only
      split_ifs
      · exact ⟨(within_removeItem item).store, (Within.refl s).fronts, (Within.refl s).lookups⟩
      · exact ⟨(Within.refl s).store, (Within.refl s).fronts, (Within.refl s).lookups⟩

/-- Memoising in a front adds at most the value memoised. -/
lemma mem_held_memoise (h : v ∈ (s.memoise maxEntries front key epoch value).held ns key' epoch') :
    v ∈ s.held ns key' epoch' ∨ key' = key ∧ epoch' = epoch ∧ v = value := by
  rcases mem_held_iff.mp h with hstore | ⟨f, cache, hf, hentry⟩ | hlookup
  · exact .inl (mem_held_iff.mpr (.inl hstore))
  · rw [memoise, setFront, JsMap.get?_set] at hf
    split_ifs at hf with hsame
    · obtain rfl := Option.some.inj hf
      rcases MemoryRuleCache.get?_set hentry with hold | ⟨hkeys, hv⟩
      · exact .inl (mem_held_of_frontAt hold)
      · obtain ⟨hkey, hepoch⟩ := entryKey_inj hkeys
        exact .inr ⟨hkey, hepoch, hv⟩
    · exact .inl (mem_held_iff.mpr (.inr (.inl ⟨f, cache, hf, hentry⟩)))
  · exact .inl (mem_held_iff.mpr (.inr (.inr hlookup)))

lemma mem_held_getItem (h : v ∈ (s.getItem ns front key epoch).2.held ns key' epoch') :
    v ∈ s.held ns key' epoch' := by
  rw [getItem] at h
  cases hitem : s.store.get? (storeKey ns key epoch) with
  | none =>
      rw [hitem] at h
      exact (within_answer none).mem_held h
  | some w =>
      rw [hitem] at h
      rcases mem_held_iff.mp h with hstore | hfront | ⟨l, hl, hkeys⟩
      · exact mem_held_iff.mpr (.inl hstore)
      · exact mem_held_iff.mpr (.inr (.inl hfront))
      · rw [JsMap.get?_set] at hl
        split_ifs at hl with hnew
        · obtain rfl := Option.some.inj hl
          subst hnew
          obtain ⟨rfl, rfl⟩ := hkeys
          exact mem_held_iff.mpr (.inl hitem)
        · exact mem_held_iff.mpr (.inr (.inr ⟨l, hl, hkeys⟩))

/-- What a lookup carries is held. -/
lemma mem_held_of_lookup {l : Lookup} (h : s.lookups.get? l = some v) :
    v ∈ s.held ns l.key l.epoch :=
  mem_held_iff.mpr (.inr (.inr ⟨l, h, rfl, rfl⟩))

lemma mem_held_settle {l : Lookup} (h : v ∈ (s.settle maxEntries ns l).2.held ns key' epoch') :
    v ∈ s.held ns key' epoch' := by
  rw [settle] at h
  cases hl : s.lookups.get? l with
  | none => rwa [hl] at h
  | some w =>
      rw [hl] at h
      -- what is memoised was in flight, and what was in flight is held
      have hlanded : Within { s with lookups := s.lookups.delete l } s :=
        ⟨(Within.refl s).store, (Within.refl s).fronts, fun l' v' h' => by
          rw [JsMap.get?_delete] at h'
          split_ifs at h'
          exact h'⟩
      rcases mem_held_memoise ((within_answer _).mem_held h) with hold | ⟨rfl, rfl, rfl⟩
      · exact hlanded.mem_held hold
      · exact mem_held_of_lookup hl

lemma mem_held_set (h : v ∈ (s.set maxEntries ns front key epoch value).held ns key' epoch') :
    v ∈ s.held ns key' epoch' ∨ key' = key ∧ epoch' = epoch ∧ v = value := by
  rcases mem_held_iff.mp h with hstore | hfront | hlookup
  · rw [set, JsMap.get?_set] at hstore
    split_ifs at hstore with hitem
    · obtain ⟨hkey, hepoch⟩ := storeKey_inj hitem
      exact .inr ⟨hkey, hepoch, (Option.some.inj hstore).symm⟩
    · exact .inl (mem_held_iff.mpr (.inl hstore))
  · exact mem_held_memoise (mem_held_iff.mpr (.inr (.inl hfront)))
  · exact .inl (mem_held_iff.mpr (.inr (.inr hlookup)))

/-- Of what a caller asks, only `set` adds a value, and only the one it is given. -/
theorem mem_held_handle {op : CacheOp}
    (h : v ∈ (s.handle maxEntries ns front op).2.held ns key epoch) :
    v ∈ s.held ns key epoch ∨ op = .set key epoch v := by
  cases op with
  | memGet key' epoch' =>
      refine .inl ?_
      unfold handle memGet at h
      dsimp only at h
      split at h
      · exact (within_answer _).mem_held h
      · exact h
  | getItem key' epoch' => exact .inl (mem_held_getItem h)
  | settle l => exact .inl (mem_held_settle h)
  | set key' epoch' value' =>
      rcases mem_held_set h with hold | ⟨rfl, rfl, rfl⟩
      · exact .inl hold
      · exact .inr rfl
  | purgeBelow epoch' keyPrefix => exact .inl ((within_purgeBelow keyPrefix).mem_held h)

/-- What the store does on its own adds nothing. -/
theorem mem_held_storeStep {e : StoreEvent} (hstep : s.storeStep e = some t)
    (h : v ∈ t.held ns key epoch) : v ∈ s.held ns key epoch := by
  cases e with
  | evict item =>
      obtain rfl := Option.some.inj hstep
      exact (within_removeItem item).mem_held h
  | purgeNext task =>
      obtain ⟨purge, -, rfl⟩ := Option.map_eq_some_iff.mp hstep
      exact (within_purgeNext task purge).mem_held h

/-! ### What is answered, and the purges in flight -/

/-- One more answer, of a value that some tier holds. -/
lemma mem_answers_append {a : CacheAnswer} (hheld : v ∈ s.held ns key epoch)
    {applies : Option JsString} (h : a ∈ s.answers ++ [⟨key, epoch, some v, applies⟩]) :
    a ∈ s.answers ∨ ∀ w ∈ a.value, w ∈ s.held ns a.key a.epoch := by
  rcases List.mem_append.mp h with hold | hnew
  · exact .inl hold
  · obtain rfl := List.mem_singleton.mp hnew
    refine .inr fun w hw => ?_
    obtain rfl := Option.mem_some_iff.mp hw
    exact hheld

/-- A `get` is answered what some tier holds. -/
lemma mem_answers_handle {op : CacheOp} {a : CacheAnswer}
    (h : a ∈ (s.handle maxEntries ns front op).2.answers) :
    a ∈ s.answers ∨ ∀ v ∈ a.value, v ∈ s.held ns a.key a.epoch := by
  cases op with
  | memGet key epoch =>
      unfold handle memGet at h
      dsimp only at h
      split at h
      · next v hv => exact mem_answers_append (mem_held_of_frontAt hv) h
      · exact .inl h
  | getItem key epoch =>
      unfold handle getItem at h
      dsimp only at h
      split at h
      · exact .inl h
      · rcases List.mem_append.mp h with hold | hnew
        · exact .inl hold
        · obtain rfl := List.mem_singleton.mp hnew
          exact .inr fun w hw => by cases hw
  | settle l =>
      unfold handle settle at h
      dsimp only at h
      split at h
      · next v hv => exact mem_answers_append (mem_held_of_lookup hv) h
      · exact .inl h
  | set key epoch value => exact .inl h
  | purgeBelow epoch keyPrefix =>
      unfold handle purgeBelow at h
      dsimp only at h
      split_ifs at h <;> exact .inl h

lemma answers_storeStep {e : StoreEvent} (hstep : s.storeStep e = some t) :
    t.answers = s.answers := by
  cases e with
  | evict item =>
      obtain rfl := Option.some.inj hstep
      rfl
  | purgeNext task =>
      obtain ⟨⟨epoch, keyPrefix, items⟩, -, rfl⟩ := Option.map_eq_some_iff.mp hstep
      cases items with
      | nil => rfl
      | cons item items =>
          unfold purgeNext
          dsimp only
          split_ifs <;> rfl

/-- A purge is in flight only if a caller asked for it. -/
lemma mem_purgeTasks_handle {op : CacheOp} {task : PurgeTask}
    (h : task ∈ (s.handle maxEntries ns front op).2.purgeTasks) :
    task ∈ s.purgeTasks ∨ ∃ keyPrefix, op = .purgeBelow task.epoch keyPrefix ∧
      task.keyPrefix = purgePrefix ns keyPrefix := by
  cases op with
  | memGet key epoch =>
      unfold handle memGet at h
      dsimp only at h
      split at h <;> exact .inl h
  | getItem key epoch =>
      unfold handle getItem at h
      dsimp only at h
      split at h <;> exact .inl h
  | settle l =>
      unfold handle settle at h
      dsimp only at h
      split at h <;> exact .inl h
  | set key epoch value => exact .inl h
  | purgeBelow epoch keyPrefix =>
      unfold handle purgeBelow at h
      dsimp only at h
      split_ifs at h
      · exact .inl h
      · rcases List.mem_append.mp h with hold | hnew
        · exact .inl hold
        · obtain rfl := List.mem_singleton.mp hnew
          exact .inr ⟨keyPrefix, rfl, rfl⟩

lemma mem_purgeTasks_storeStep {e : StoreEvent} (hstep : s.storeStep e = some t)
    {task : PurgeTask} (h : task ∈ t.purgeTasks) :
    ∃ task' ∈ s.purgeTasks, task'.epoch = task.epoch ∧ task'.keyPrefix = task.keyPrefix := by
  cases e with
  | evict item =>
      obtain rfl := Option.some.inj hstep
      exact ⟨task, h, rfl, rfl⟩
  | purgeNext i =>
      obtain ⟨⟨epoch, keyPrefix, items⟩, hi, rfl⟩ := Option.map_eq_some_iff.mp hstep
      cases items with
      | nil => exact ⟨task, List.mem_of_mem_eraseIdx h, rfl, rfl⟩
      | cons item items =>
          have hset : task ∈ s.purgeTasks.set i ⟨epoch, keyPrefix, items⟩ := by
            unfold purgeNext at h
            dsimp only at h
            split_ifs at h <;> exact h
          rcases List.mem_or_eq_of_mem_set hset with hold | rfl
          · exact ⟨task, hold, rfl, rfl⟩
          · exact ⟨_, List.mem_of_getElem? hi, rfl, rfl⟩

/-! ### What a purge spares -/

/-- A purge below an epoch under a prefix drops no entry of another prefix, nor one that is not
below. -/
lemma purges_eq_false {pre entry : JsString} {epoch' : ℕ}
    (h : ¬ pre <+: entry ∨ epochOf entry = some epoch' ∧ epoch ≤ epoch') :
    purges epoch pre entry = false := by
  rw [purges]
  rcases h with hpre | ⟨hepoch, hle⟩
  · rw [Bool.eq_false_iff.mpr fun h => hpre (List.isPrefixOf_iff_prefix.mp h), Bool.false_and]
  · rw [hepoch]
    simp [hle]

/-- What a purge spares stays in the store and in every front. -/
structure Spared (ns : JsString) (key : JsString) (epoch : ℕ) (s t : RuleCaches) : Prop where
  store : t.store.get? (storeKey ns key epoch) = s.store.get? (storeKey ns key epoch)
  fronts : ∀ f, (t.frontAt f).mem.get? (entryKey key epoch)
    = (s.frontAt f).mem.get? (entryKey key epoch)

lemma purgePrefix_prefix_iff {keyPrefix : Option JsString} {entry : JsString} :
    purgePrefix ns keyPrefix <+: ns ++ colon :: entry ↔ keyPrefix.getD [] <+: entry := by
  rw [purgePrefix, List.prefix_append_right_inj, List.cons_prefix_cons]
  simp

/-- A purge spares the entries that do not start with its prefix, or are not below its epoch. -/
lemma spared_purgeBelow {keyPrefix : Option JsString}
    (h : ¬ keyPrefix.getD [] <+: entryKey key epoch' ∨ epoch ≤ epoch') :
    Spared ns key epoch' s (s.purgeBelow ns front epoch keyPrefix) := by
  rw [purgeBelow]
  dsimp only
  split_ifs
  · exact ⟨rfl, fun _ => rfl⟩
  · refine ⟨rfl, fun f => ?_⟩
    have hspared : purges epoch (keyPrefix.getD []) (entryKey key epoch') = false :=
      purges_eq_false (h.imp id fun hle => ⟨epochOf_entryKey key epoch', hle⟩)
    unfold frontAt setFront
    dsimp only
    rw [JsMap.get?_set]
    split_ifs with hf
    · subst hf
      rw [Option.getD_some, MemoryRuleCache.get?_purgeBelow, hspared]
      rfl
    · rfl

/-- A step of a purge in flight spares them as well. -/
lemma spared_purgeNext {i : ℕ} {task : PurgeTask} {keyPrefix : Option JsString}
    (htask : task.keyPrefix = purgePrefix ns keyPrefix)
    (h : ¬ keyPrefix.getD [] <+: entryKey key epoch' ∨ task.epoch ≤ epoch') :
    Spared ns key epoch' s (s.purgeNext i task) := by
  obtain ⟨epoch, pre, items⟩ := task
  cases items with
  | nil => exact ⟨rfl, fun _ => rfl⟩
  | cons item items =>
      unfold purgeNext
      dsimp only
      split_ifs with hitem
      · refine ⟨?_, fun _ => rfl⟩
        have hne : storeKey ns key epoch' ≠ item := by
          rintro rfl
          have hspared : purges epoch pre (storeKey ns key epoch') = false := by
            refine purges_eq_false (h.imp (fun hnot hp => hnot ?_) fun hle =>
              ⟨epochOf_storeKey ns key epoch', hle⟩)
            dsimp only at htask
            rw [htask] at hp
            exact purgePrefix_prefix_iff.mp hp
          rw [hspared] at hitem
          cases hitem
        rw [removeItem, JsMap.get?_delete, if_neg hne]
      · exact ⟨rfl, fun _ => rfl⟩

end

end RuleCaches

end PubsubVoting
