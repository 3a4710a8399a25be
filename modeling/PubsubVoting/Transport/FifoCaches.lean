import PubsubVoting.Rules.MemoryCache
import PubsubVoting.Transport.AcceptedDedup
import PubsubVoting.Verify.Cache

/-!
The three bounded first-in-first-out structures: the in-memory rule cache, the verdict cache and the
dedup of accepted votes. Each keeps a map or a set, and beside it the list of its keys in the order
they came in.

* `verdictFifo`, `acceptedFifo`: the verdict cache and the dedup with their operations.
* `fifoCaches_sound`: after any sequence of operations each list is a duplicate-free enumeration of
  what is stored and the list of a queue after the same operations, oldest first and within the
  bound; what is put is stored, and an entry leaves only by a purge or because as many newer entries
  as the bound followed it.
-/

namespace PubsubVoting

/-! ### The verdict cache -/

/-- An operation on the verdict cache. -/
inductive VerdictCacheOp where
  | get (cid : Cid)
  | set (cid : Cid) (verdict : BundleVerdict)
  | has (cid : Cid)

/-- What an operation does to the queue of addresses. -/
def VerdictCacheOp.effect : VerdictCacheOp → FifoOp Cid
  | .set cid _ => .put cid
  | _ => .keep

namespace VerdictCache

/-- Perform an operation. -/
def perform (maxEntries : ℕ) (cache : VerdictCache) : VerdictCacheOp → VerdictCache
  | .set cid verdict => cache.set maxEntries cid verdict
  | _ => cache

variable {maxEntries : ℕ} {cache : VerdictCache}

/-- Trimming drops the oldest address of the list from the map. -/
lemma trim_spec (h : Enumerates cache.byCid.has cache.order) :
    (trim maxEntries cache).order = trimOldest maxEntries cache.order ∧
      Enumerates (trim maxEntries cache).byCid.has (trim maxEntries cache).order := by
  refine h.trim (fun hfits => ?_) fun evicted order horder hlong => ?_
  · rw [trim, if_neg hfits]
    exact ⟨rfl, rfl⟩
  · rw [trim, if_pos hlong, horder]
    exact ⟨fun x => JsMap.has_delete cache.byCid evicted x, rfl⟩

/-- Caching does to the list what putting the address does to a queue. -/
lemma set_spec (h : Enumerates cache.byCid.has cache.order) (cid : Cid) (verdict : BundleVerdict) :
    (cache.set maxEntries cid verdict).order = (FifoOp.put cid).next maxEntries cache.order ∧
      Enumerates (cache.set maxEntries cid verdict).byCid.has
        (cache.set maxEntries cid verdict).order := by
  refine h.put cid (fun hthere => ?_) fun hnew => ?_
  · rw [set, if_pos hthere]
    exact ⟨rfl, rfl⟩
  · rw [set, if_neg (Bool.eq_false_iff.mp hnew)]
    exact trim_spec (h.set hnew verdict)

end VerdictCache

/-- The verdict cache: the list is `order`, what it names is in `byCid`. -/
def verdictFifo (maxEntries : ℕ) : KeyedFifo VerdictCache VerdictCacheOp Cid where
  init := .empty
  step := VerdictCache.perform maxEntries
  has := fun cache => cache.byCid.has
  order := VerdictCache.order
  effect := VerdictCacheOp.effect

/-- The verdict cache keeps its list in step. -/
lemma lawful_verdictFifo (maxEntries : ℕ) : (verdictFifo maxEntries).Lawful maxEntries where
  init_order := rfl
  init_has := fun _ => rfl
  order_step := fun cache op h => by
    cases op with
    | get cid => rfl
    | set cid verdict => exact (VerdictCache.set_spec h cid verdict).1
    | has cid => rfl
  enumerates_step := fun cache op h => by
    cases op with
    | get cid => exact h
    | set cid verdict => exact (VerdictCache.set_spec h cid verdict).2
    | has cid => exact h

/-! ### The dedup of accepted votes -/

/-- An operation on the dedup. -/
inductive AcceptedDedupOp where
  | isResignDuplicate (bundle : VotesBundle)
  | record (bundle : VotesBundle)

section

variable (C : Codecs) (bm : BucketMath)

/-- The votes of a bundle have a canonical form, so its key can be computed. -/
def keyed (bundle : VotesBundle) : Bool := (C.encodeCanonical (votesValue bundle.votes)).isSome

/-- What an operation does to the queue of keys: where the key throws, nothing is recorded. -/
def AcceptedDedupOp.effect : AcceptedDedupOp → FifoOp DedupKey
  | .isResignDuplicate _ => .keep
  | .record bundle => if keyed C bundle then .put (keyFor C bm bundle) else .keep

/-- Perform an operation. -/
def performDedup (maxEntries : ℕ) (seen : FifoSet DedupKey) : AcceptedDedupOp → FifoSet DedupKey
  | .isResignDuplicate _ => seen
  | .record bundle => if keyed C bundle then recordAccepted C bm maxEntries seen bundle else seen

/-- The dedup: the list is `order`, what it names is in `keys`. -/
def acceptedFifo (maxEntries : ℕ) : KeyedFifo (FifoSet DedupKey) AcceptedDedupOp DedupKey where
  init := .empty
  step := performDedup C bm maxEntries
  has := FifoSet.has
  order := FifoSet.order
  effect := AcceptedDedupOp.effect C bm

variable {C bm}

/-- An operation of the dedup does to the list what it does to a queue. -/
lemma performDedup_spec {maxEntries : ℕ} {seen : FifoSet DedupKey}
    (h : Enumerates seen.has seen.order) (op : AcceptedDedupOp) :
    (performDedup C bm maxEntries seen op).order = (op.effect C bm).next maxEntries seen.order ∧
      Enumerates (performDedup C bm maxEntries seen op).has
        (performDedup C bm maxEntries seen op).order := by
  cases op with
  | isResignDuplicate bundle => exact ⟨rfl, h⟩
  | record bundle =>
      rw [performDedup, AcceptedDedupOp.effect]
      by_cases hkeyed : keyed C bundle = true
      · rw [if_pos hkeyed, if_pos hkeyed]
        exact FifoSet.record_spec h (keyFor C bm bundle)
      · rw [if_neg hkeyed, if_neg hkeyed]
        exact ⟨rfl, h⟩

/-- The dedup keeps its list in step. -/
lemma lawful_acceptedFifo (maxEntries : ℕ) : (acceptedFifo C bm maxEntries).Lawful maxEntries where
  init_order := rfl
  init_has := fun _ => rfl
  order_step := fun _ op h => (performDedup_spec h op).1
  enumerates_step := fun _ op h => (performDedup_spec h op).2

end

/-! ### All three -/

/-- **The bounded first-in-first-out structures**: after any sequence of operations on the in-memory
rule cache, with whatever numbers as epochs, on the verdict cache, and on the dedup of accepted
votes, the list of keys is a duplicate-free enumeration of what is stored and the list of a queue
after the same operations, so it is ordered by the latest entry of each key, and is within the
bound; the next operation, if it puts a key, stores it unless the bound is zero, and makes a key
leave only if it is a purge the key falls under, or if at least `maxEntries` other keys entered
after it. -/
theorem fifoCaches_sound {N : Type} (J : JsNumbers N) (C : Codecs) (bm : BucketMath)
    (maxEntries : ℕ) :
    (∀ ops, (memoryFifo J maxEntries).Sound maxEntries ops) ∧
      (∀ ops, (verdictFifo maxEntries).Sound maxEntries ops) ∧
        ∀ ops, (acceptedFifo C bm maxEntries).Sound maxEntries ops :=
  ⟨(lawful_memoryFifo J maxEntries).sound, (lawful_verdictFifo maxEntries).sound,
    (lawful_acceptedFifo maxEntries).sound⟩

/-- Three entries memoised, the last of them in an earlier epoch, which is purged. -/
def memoisedOps : List (MemoryCacheOp ℕ) :=
  [.set (JsString.ofString "a") 1 [], .set (JsString.ofString "b") 1 [],
    .set (JsString.ofString "c") 0 [], .purgeBelow 1 none]

/-- Three passing verdicts cached. -/
def cachedOps : List VerdictCacheOp := [.set [1] (.ok ∅), .set [2] (.ok ∅), .set [3] (.ok ∅)]

/-- Three bundles accepted: two choices in one bucket and one in the next. -/
def acceptedOps : List AcceptedDedupOp :=
  [.record (ballotAt [] 10), .record (ballotAt shortKeyVote 11), .record (ballotAt [] 20)]

/-- With room for two, the third entry evicts the first, and the purge leaves the second. -/
theorem fifoCaches_sound_evicting :
    ((memoryFifo naturals 2).Sound 2 memoisedOps
      ∧ ((memoryFifo naturals 2).run memoisedOps).order
        = [naturals.entryKey (JsString.ofString "b") 1])
    ∧ ((verdictFifo 2).Sound 2 cachedOps ∧ ((verdictFifo 2).run cachedOps).order = [[2], [3]])
    ∧ (acceptedFifo .reference tenBlocks 2).Sound 2 acceptedOps
    ∧ ((acceptedFifo .reference tenBlocks 2).run acceptedOps).order
        = [keyFor .reference tenBlocks (ballotAt shortKeyVote 11),
          keyFor .reference tenBlocks (ballotAt [] 20)] := by
  have hsound := fifoCaches_sound naturals .reference tenBlocks 2
  exact ⟨⟨hsound.1 _, by decide +kernel⟩, ⟨hsound.2.1 _, by decide +kernel⟩, hsound.2.2 _,
    by decide +kernel⟩

end PubsubVoting
