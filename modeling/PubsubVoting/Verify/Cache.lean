import PubsubVoting.Crdt.Codec
import PubsubVoting.Lib.JsMap
import PubsubVoting.Verify.Constraints

/-!
Full verdicts and the bounded cache of the terminal ones.

* `BundleVerdict`, `isCacheableVerdict`: a passing verdict carries the names it resolved; only an
  accept or a provable reject is terminal.
* `VerdictCache.set`: the first verdict of an address stays; over the bound the oldest leaves.
* `get?_set_of_has`, `VerdictCache.get?_set_eq_some`: setting changes no cached verdict and adds at
  most the one given.
-/

namespace PubsubVoting

/-- The names of a bundle with the keys they resolved to. -/
abbrev ResolvedNames := JsMap JsString JsString

/-- The verdict of the full pipeline. -/
abbrev BundleVerdict := Except VerifyFail ResolvedNames

/-- The verdict is valid. -/
def BundleVerdict.valid : BundleVerdict → Bool
  | .ok _ => true
  | .error _ => false

/-- Only an accept or a provable reject may be cached. -/
def isCacheableVerdict : BundleVerdict → Bool
  | .ok _ => true
  | .error fail => decide (fail.disposition = .reject)

/-- Verdicts by address, and the order they were set in. -/
structure VerdictCache where
  byCid : JsMap Cid BundleVerdict
  order : List Cid

namespace VerdictCache

/-- Nothing cached. -/
def empty : VerdictCache := ⟨∅, []⟩

/-- The cached verdict of an address. -/
def get? (cache : VerdictCache) (cid : Cid) : Option BundleVerdict := cache.byCid.get? cid

/-- Drop the oldest verdict once there are more than the bound. -/
def trim (maxEntries : ℕ) (cache : VerdictCache) : VerdictCache :=
  if cache.order.length > maxEntries then
    match cache.order with
    | [] => cache
    | evicted :: order => ⟨cache.byCid.delete evicted, order⟩
  else cache

/-- Cache a verdict; an address that has one keeps it. -/
def set (maxEntries : ℕ) (cache : VerdictCache) (cid : Cid) (verdict : BundleVerdict) :
    VerdictCache :=
  if cache.byCid.has cid then cache
  else trim maxEntries ⟨cache.byCid.set cid verdict, cache.order ++ [cid]⟩

lemma get?_trim_eq_some {maxEntries : ℕ} {cache : VerdictCache} {cid : Cid} {v : BundleVerdict}
    (h : (trim maxEntries cache).get? cid = some v) : cache.get? cid = some v := by
  rw [trim] at h
  split_ifs at h
  · cases horder : cache.order with
    | nil => rwa [horder] at h
    | cons evicted order =>
        rw [horder] at h
        simp only [get?, JsMap.get?_delete] at h
        split_ifs at h
        exact h
  · exact h

/-- A verdict found after setting one was there before or is the one that was set. -/
lemma get?_set_eq_some {maxEntries : ℕ} {cache : VerdictCache} {cid cid' : Cid}
    {v v' : BundleVerdict} (h : (cache.set maxEntries cid v).get? cid' = some v') :
    cache.get? cid' = some v' ∨ cid' = cid ∧ v' = v ∧ cache.get? cid = none := by
  rw [set] at h
  split_ifs at h with hhas
  · exact Or.inl h
  · have hget := get?_trim_eq_some h
    simp only [get?, JsMap.get?_set] at hget
    split_ifs at hget with hcid
    · refine Or.inr ⟨hcid, (Option.some.inj hget).symm, ?_⟩
      rw [get?, JsMap.get?_eq_none_iff, ← JsMap.has_iff]
      exact hhas
    · exact Or.inl hget

end VerdictCache

end PubsubVoting
