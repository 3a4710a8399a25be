import PubsubVoting.Client.Checks
import PubsubVoting.Crdt.Prune

/-!
What an engine holds of its contest: the working set and the check state, changed side by side.

* `Holdings` and its operations: every way the engine changes either map.
* `served`: the fully verified, unexpired winners, which the checkpoint is made of.
* `served_perm_pruned`: a prune that drops none of them leaves them as they are.
* `served_forget`: so does forgetting the checks of bundles that are gone.
-/

namespace PubsubVoting

/-- The working set and the deferred-check state. -/
structure Holdings where
  crdt : Bundles
  checks : Checks

namespace Holdings

/-- Nothing held. -/
def empty : Holdings := ⟨∅, ∅⟩

variable (h : Holdings)

/-- `#isPending`: admitted, with a deferred check unsettled. -/
def isPending (cid : Cid) : Bool := (h.checks.get? cid).any fun c => !c.settled

/-- `#isFullyVerified`: admitted, with every deferred check settled. -/
def isFullyVerified (cid : Cid) : Bool := (h.checks.get? cid).any fun c => c.settled

/-- `#hasUnsettledChecks` -/
def hasUnsettledChecks : Bool := h.checks.values.any fun c => !c.settled

/-- `crdt.merge` of one address whose block is in the store. -/
def merge (cid : Cid) (bundle : VotesBundle) : Holdings :=
  { h with crdt := integrate h.crdt cid bundle }

/-- `crdt.add` -/
def put (cid : Cid) (bundle : VotesBundle) : Holdings := { h with crdt := h.crdt.set cid bundle }

/-- `#recordChecks` -/
def record (e : Entry) (settled nameSettled : Bool) : Holdings :=
  { h with checks := recordChecks h.checks e settled nameSettled }

/-- `#settleCheck` -/
def settle (cid : Cid) (key : CheckKey) : Holdings :=
  { h with checks := settleCheck h.checks cid key }

/-- `#evictBundle` -/
def evict (cid : Cid) : Holdings := ⟨remove h.crdt cid, h.checks.delete cid⟩

variable (deps : CrdtDeps)

/-- The bundles `#pruneDecayed` drops. -/
def pruned (currentBucket : ℕ) : List Cid := (prune deps h.isPending h.crdt currentBucket).2

/-- The first half of `#pruneDecayed`: the working set. -/
def pruneCrdt (currentBucket : ℕ) : Holdings :=
  { h with crdt := (prune deps h.isPending h.crdt currentBucket).1 }

/-- Its second half, an await later: the check state of what was dropped. -/
def forget (cids : List Cid) : Holdings := { h with checks := cids.foldl JsMap.delete h.checks }

/-- What the checkpoint serves at a bucket. -/
def served (bucket : ℕ) : List Entry := currentEntries deps h.crdt bucket h.isFullyVerified

end Holdings

section

variable {h : Holdings} {deps : CrdtDeps} {e : Entry} {bucket : ℕ}

/-! ### What is served -/

lemma Holdings.mem_served_iff : e ∈ h.served deps bucket ↔
    Wins h.crdt h.isFullyVerified e ∧ isExpired deps e.bundle bucket = false :=
  mem_currentEntries_iff_wins

lemma Holdings.nodup_wallets_served :
    ((h.served deps bucket).map Entry.wallet).Nodup := nodup_wallets_currentEntries

/-- Two engines that serve the same entries serve them in some order. -/
lemma Holdings.served_perm {h h' : Holdings}
    (heq : ∀ e, e ∈ h'.served deps bucket ↔ e ∈ h.served deps bucket) :
    (h'.served deps bucket).Perm (h.served deps bucket) :=
  (List.perm_ext_iff_of_nodup nodup_currentEntries nodup_currentEntries).mpr heq

lemma mem_pruned_iff {currentBucket : ℕ} {cid : Cid} :
    cid ∈ h.pruned deps currentBucket ↔
      ∃ e ∈ h.crdt.list, isPruned deps h.isPending h.crdt currentBucket e = true ∧ e.cid = cid := by
  simp only [Holdings.pruned, prune, List.mem_map, List.mem_filter, and_assoc]

/-- Dropping only entries that are not served leaves what is served. -/
lemma mem_currentEntries_of_subset {m m' : Bundles} {eligible : Cid → Bool}
    (hsub : ∀ e ∈ m'.list, e ∈ m.list)
    (hkept : ∀ e ∈ currentEntries deps m bucket eligible, e ∈ m'.list) :
    e ∈ currentEntries deps m' bucket eligible ↔ e ∈ currentEntries deps m bucket eligible := by
  constructor
  · intro hmem
    obtain ⟨hwins, hlive⟩ := mem_currentEntries_iff_wins.mp hmem
    have hmem' : e ∈ m.eligible eligible := ⟨hsub e hwins.1.1, hwins.1.2⟩
    -- the winner of the wallet is unexpired as the entry is, so it stayed and is the entry
    cases hget : (winnersByWallet eligible m).get? e.wallet with
    | none =>
        exact absurd rfl (get?_winnersByWallet_eq_none_iff.mp hget e hmem'.1 hmem'.2)
    | some w =>
        obtain ⟨hw, hwallet, hmax⟩ := get?_winnersByWallet_iff.mp hget
        have hle : e.rank ≤ w.rank := hmax e hmem'.1 hmem'.2 rfl
        have hwlive : isExpired deps w.bundle bucket = false := by
          by_contra hdead
          have hdead : e.Expired deps bucket :=
            isExpired_diesDown e w hwallet.symm hle (Bool.eq_true_of_not_eq_false hdead)
          rw [Entry.Expired, hlive] at hdead
          cases hdead
        have hwcur : w ∈ currentEntries deps m bucket eligible :=
          mem_currentEntries_iff.mpr ⟨hwallet ▸ hget, hwlive⟩
        have hrank : w.rank ≤ e.rank := hwins.2 w ⟨hkept w hwcur, hw.2⟩ hwallet
        have heq : e = w :=
          wins_unique hmem'.1 hw.1 (le_antisymm hle hrank)
        exact heq ▸ hwcur
  · intro hmem
    obtain ⟨hwins, hlive⟩ := mem_currentEntries_iff_wins.mp hmem
    refine mem_currentEntries_iff_wins.mpr ⟨⟨⟨hkept e hmem, hwins.1.2⟩, fun x hx => ?_⟩, hlive⟩
    exact hwins.2 x ⟨hsub x hx.1, hx.2⟩

/-- **A prune that drops nothing served leaves what is served**, at whatever bucket. -/
lemma served_perm_pruned {currentBucket : ℕ}
    (hspared : ∀ e ∈ h.served deps bucket, e.cid ∉ h.pruned deps currentBucket) :
    ((h.pruneCrdt deps currentBucket).served deps bucket).Perm (h.served deps bucket) := by
  refine Holdings.served_perm fun e => mem_currentEntries_of_subset
    (fun e he => (mem_list_prune.mp he).1) fun e he => ?_
  have hin : e ∈ h.crdt.list := (mem_currentEntries_iff_wins.mp he).1.1.1
  refine mem_list_prune.mpr ⟨hin, ?_⟩
  by_contra hpruned
  exact hspared e he (mem_pruned_iff.mpr ⟨e, hin, Bool.eq_true_of_not_eq_false hpruned, rfl⟩)

lemma get?_forget {cids : List Cid} {cid : Cid} :
    (h.forget cids).checks.get? cid = if cid ∈ cids then none else h.checks.get? cid := by
  rw [Holdings.forget]
  induction cids generalizing h with
  | nil => simp
  | cons c cids ih =>
      have := ih (h := ⟨h.crdt, h.checks.delete c⟩)
      simp only [List.foldl_cons, List.mem_cons] at this ⊢
      rw [this, JsMap.get?_delete]
      by_cases hc : cid = c <;> by_cases hcids : cid ∈ cids <;> simp [hc, hcids]

/-- **Forgetting the checks of bundles that are gone** changes nothing that is served. -/
lemma served_forget {cids : List Cid} (hgone : ∀ cid ∈ cids, h.crdt.has cid = false) :
    (h.forget cids).served deps bucket = h.served deps bucket := by
  unfold Holdings.served currentEntries winnersByWallet
  have hlist : (h.forget cids).crdt = h.crdt := rfl
  rw [hlist]
  congr 3
  refine List.filter_congr fun e he => ?_
  rw [Holdings.isFullyVerified, Holdings.isFullyVerified, get?_forget, if_neg]
  intro hmem
  have hget := mem_list_iff.mp he
  have hnone := hgone _ hmem
  rw [← Bool.not_eq_true, JsMap.has_iff, ← JsMap.get?_eq_none_iff, hget] at hnone
  cases hnone

end

end PubsubVoting
