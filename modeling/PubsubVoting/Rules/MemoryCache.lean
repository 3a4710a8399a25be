import PubsubVoting.Lib.BoundedFifo
import PubsubVoting.Rules.Cache

/-!
The in-memory rule cache as a bounded first-in-first-out store, with whatever numbers as epochs.

* `JsNumbers`: epochs as the language's numbers, of which nothing is assumed;
  `purgeBelow_naturals`: with natural numbers the purge is that of the rule caches.
* `memoryFifo`, `lawful_memoryFifo`: the cache with its operations, each of which does to the list
  of entries what it does to a queue.
-/

namespace PubsubVoting

/-! ### Epochs and operations -/

/-- The language's numbers, as the cache uses them for epochs: how one is spelled, which strings
read as a finite one, and which is below which. -/
structure JsNumbers (N : Type) where
  spell : N → JsString
  finite? : JsString → Option N
  below : N → N → Bool

/-- The natural numbers among them. -/
def naturals : JsNumbers ℕ := ⟨JsString.decimal, JsString.number?, fun a b => decide (a < b)⟩

/-- An operation on the in-memory rule cache. -/
inductive MemoryCacheOp (N : Type) where
  | get (key : JsString) (epoch : N)
  | set (key : JsString) (epoch : N) (value : JsString)
  | purgeBelow (epoch : N) (keyPrefix : Option JsString)

section

variable {N : Type} (J : JsNumbers N)

/-- The entry of a key within an epoch. -/
def JsNumbers.entryKey (key : JsString) (epoch : N) : JsString := key ++ colon :: J.spell epoch

/-- The test of a purge: the entry starts with the prefix, if there is one, and what trails it is a
finite number below the epoch. -/
def JsNumbers.purges (epoch : N) (keyPrefix : Option JsString) (entry : JsString) : Bool :=
  (keyPrefix.all fun p => p.isPrefixOf entry) &&
    (J.finite? (JsString.afterLast colon entry)).any fun at' => J.below at' epoch

/-- What an operation does to the queue of entries. -/
def MemoryCacheOp.effect : MemoryCacheOp N → FifoOp JsString
  | .get _ _ => .keep
  | .set key epoch _ => .put (J.entryKey key epoch)
  | .purgeBelow epoch keyPrefix => .purge (J.purges epoch keyPrefix)

namespace MemoryRuleCache

/-- Forget the entries that pass a test, one after the other. -/
def dropWhere (cache : MemoryRuleCache) (test : JsString → Bool) : MemoryRuleCache :=
  (cache.byKey.keys.filter test).foldl drop cache

/-- Perform an operation. -/
def perform (maxEntries : ℕ) (cache : MemoryRuleCache) : MemoryCacheOp N → MemoryRuleCache
  | .get _ _ => cache
  | .set key epoch value => cache.set maxEntries (J.entryKey key epoch) value
  | .purgeBelow epoch keyPrefix => cache.dropWhere (J.purges epoch keyPrefix)

end MemoryRuleCache

/-- The in-memory rule cache: the list is `order`, what it names is in `byKey`. -/
def memoryFifo (maxEntries : ℕ) : KeyedFifo MemoryRuleCache (MemoryCacheOp N) JsString where
  init := .empty
  step := MemoryRuleCache.perform J maxEntries
  has := fun cache => cache.byKey.has
  order := MemoryRuleCache.order
  effect := MemoryCacheOp.effect J

end

/-! ### The list of entries -/

namespace MemoryRuleCache

/-- On natural numbers the purge is the one of the rule caches. -/
theorem purgeBelow_naturals (maxEntries : ℕ) (cache : MemoryRuleCache) (epoch : ℕ)
    (keyPrefix : Option JsString) :
    cache.perform naturals maxEntries (.purgeBelow epoch keyPrefix)
      = cache.purgeBelow epoch (keyPrefix.getD []) := by
  have htest : naturals.purges epoch keyPrefix = purges epoch (keyPrefix.getD []) := by
    funext entry
    cases keyPrefix with
    | none => simp [JsNumbers.purges, purges, naturals, epochOf]
    | some p => rfl
  rw [perform, htest]
  rfl

variable {maxEntries : ℕ} {cache : MemoryRuleCache}

/-- An eviction drops the oldest entry of the list from the map. -/
lemma evict_spec (h : Enumerates cache.byKey.has cache.order) :
    (evict maxEntries cache).order = trimOldest maxEntries cache.order ∧
      Enumerates (evict maxEntries cache).byKey.has (evict maxEntries cache).order := by
  refine h.trim (fun hfits => ?_) fun evicted order horder hlong => ?_
  · rw [evict, if_neg hfits]
    exact ⟨rfl, rfl⟩
  · rw [evict, if_pos hlong, horder]
    exact ⟨fun x => JsMap.has_delete cache.byKey evicted x, rfl⟩

/-- Memoising does to the list what putting the entry does to a queue. -/
lemma set_spec (h : Enumerates cache.byKey.has cache.order) (entry value : JsString) :
    (cache.set maxEntries entry value).order
        = (FifoOp.put entry).next maxEntries cache.order ∧
      Enumerates (cache.set maxEntries entry value).byKey.has
        (cache.set maxEntries entry value).order := by
  refine h.put entry (fun hthere => ?_) fun hnew => ?_
  · rw [set, if_pos hthere]
    exact ⟨rfl, rfl⟩
  · rw [set, if_neg (Bool.eq_false_iff.mp hnew)]
    exact evict_spec (h.set hnew value)

/-- Entries forgotten one after the other leave the list wherever they are. -/
lemma foldl_drop_spec (entries : List JsString) (h : Enumerates cache.byKey.has cache.order) :
    (entries.foldl drop cache).order = cache.order.filter (fun k => k ∉ entries) ∧
      Enumerates (entries.foldl drop cache).byKey.has (entries.foldl drop cache).order := by
  induction entries generalizing cache with
  | nil => exact ⟨(List.filter_eq_self.mpr (by simp)).symm, h⟩
  | cons entry entries ih =>
      have hdrop : Enumerates (cache.drop entry).byKey.has (cache.drop entry).order :=
        h.delete entry
      obtain ⟨horder, henum⟩ := ih hdrop
      refine ⟨?_, henum⟩
      calc ((entry :: entries).foldl drop cache).order
          = (cache.order.erase entry).filter (fun k => k ∉ entries) := horder
        _ = (cache.order.filter (fun k => k ≠ entry)).filter (fun k => k ∉ entries) := by
            rw [h.nodup.erase_eq_filter]
            refine congrArg (List.filter _) (List.filter_congr fun k _ => ?_)
            rw [bne, beq_eq_decide, decide_not]
        _ = cache.order.filter (fun k => k ∉ entry :: entries) := by
            rw [List.filter_filter]
            refine List.filter_congr fun k _ => ?_
            rw [← Bool.decide_and, decide_eq_decide, List.mem_cons, not_or, and_comm]

/-- A purge leaves in the list the entries that do not pass its test. -/
lemma dropWhere_spec (maxEntries : ℕ) (test : JsString → Bool)
    (h : Enumerates cache.byKey.has cache.order) :
    (cache.dropWhere test).order = (FifoOp.purge test).next maxEntries cache.order ∧
      Enumerates (cache.dropWhere test).byKey.has (cache.dropWhere test).order := by
  obtain ⟨horder, henum⟩ := foldl_drop_spec (cache.byKey.keys.filter test) h
  refine ⟨horder.trans (List.filter_congr fun k hk => ?_), henum⟩
  have hmem : k ∈ cache.byKey.keys := JsMap.has_iff.mp ((h.mem_iff k).mp hk)
  cases htest : test k <;> simp [htest, hmem]

end MemoryRuleCache

/-- The in-memory rule cache keeps its list in step. -/
lemma lawful_memoryFifo {N : Type} (J : JsNumbers N) (maxEntries : ℕ) :
    (memoryFifo J maxEntries).Lawful maxEntries where
  init_order := rfl
  init_has := fun _ => rfl
  order_step := fun cache op h => by
    cases op with
    | get key epoch => rfl
    | set key epoch value => exact (MemoryRuleCache.set_spec h _ value).1
    | purgeBelow epoch keyPrefix => exact (MemoryRuleCache.dropWhere_spec maxEntries _ h).1
  enumerates_step := fun cache op h => by
    cases op with
    | get key epoch => exact h
    | set key epoch value => exact (MemoryRuleCache.set_spec h _ value).2
    | purgeBelow epoch keyPrefix =>
        exact (MemoryRuleCache.dropWhere_spec maxEntries _ h).2

end PubsubVoting
