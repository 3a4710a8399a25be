import PubsubVoting.Crdt.Crdt

/-!
Pruning the working set: what it drops never shows in a reduction.

* `Wins`, `mem_currentEntries_iff_wins`: an entry is read exactly if it outranks the eligible
  entries of its wallet and is unexpired.
* `isExpired_diesDown`: an older entry of a wallet expires no later.
* `covers_prune`: every entry that is dropped is expired, or outranked by an eligible one that
  stays.
* `Spares`, `Wins.applyChange`: the changes of the working set that leave the winner of a wallet.
* `prune_invisible`: both reductions read the same entries after a prune, possibly in another order;
  and the predecessor of a provisional winner comes back when that leaves.
-/

namespace PubsubVoting

/-! ### The entries a reduction reads -/

/-- The eligible entries of the working set. -/
def Bundles.eligible (m : Bundles) (eligible : Cid → Bool) : Set Entry :=
  {e | e ∈ m.list ∧ eligible e.cid = true}

/-- The entry outranks the eligible entries of its wallet. -/
abbrev Wins (m : Bundles) (eligible : Cid → Bool) : Entry → Prop :=
  Lww.Top Entry.wallet Entry.rank (m.eligible eligible)

section

variable {m : Bundles} {eligible : Cid → Bool} {deps : CrdtDeps} {currentBucket : ℕ} {e : Entry}

lemma wins_iff : Wins m eligible e ↔ (winnersByWallet eligible m).get? e.wallet = some e := by
  rw [get?_winnersByWallet_iff]
  constructor
  · rintro ⟨hmem, hmax⟩
    exact ⟨hmem, rfl, fun x hx hel hwallet => hmax x ⟨hx, hel⟩ hwallet⟩
  · rintro ⟨hmem, -, hmax⟩
    exact ⟨hmem, fun x hx hwallet => hmax x hx.1 hx.2 hwallet⟩

/-- **What a reduction reads**: the unexpired winners. -/
lemma mem_currentEntries_iff_wins :
    e ∈ currentEntries deps m currentBucket eligible ↔
      Wins m eligible e ∧ isExpired deps e.bundle currentBucket = false := by
  rw [mem_currentEntries_iff, wins_iff]

/-- One entry per wallet. -/
lemma nodup_wallets_currentEntries :
    ((currentEntries deps m currentBucket eligible).map Entry.wallet).Nodup := by
  have hkeys : (winnersByWallet eligible m).values.map Entry.wallet
      = (winnersByWallet eligible m).keys := by
    rw [JsMap.values, JsMap.keys, List.map_map]
    refine List.map_congr_left fun p hp => ?_
    exact (get?_winnersByWallet_iff.mp (JsMap.get?_eq_some_iff.mpr hp)).2.1
  refine (List.filter_sublist.map Entry.wallet).nodup ?_
  rw [hkeys]
  exact (winnersByWallet eligible m).nodup

lemma nodup_currentEntries : (currentEntries deps m currentBucket eligible).Nodup :=
  List.Nodup.of_map _ nodup_wallets_currentEntries

/-- The entry has expired at the bucket. -/
def Entry.Expired (deps : CrdtDeps) (currentBucket : ℕ) (e : Entry) : Prop :=
  isExpired deps e.bundle currentBucket = true

lemma isExpired_iff {bundle : VotesBundle} :
    isExpired deps bundle currentBucket = true ↔
      deps.bucketMath.bucketForBlock bundle.blockNumber + deps.voteExpiryBuckets
        < currentBucket := by
  rw [isExpired, decide_eq_true_iff]

/-- What has expired stays expired. -/
lemma isExpired_mono {bundle : VotesBundle} {b b' : ℕ} (h : b ≤ b')
    (hexpired : isExpired deps bundle b = true) : isExpired deps bundle b' = true := by
  rw [isExpired_iff] at hexpired ⊢
  omega

/-- **An older entry of a wallet expires no later.** -/
lemma isExpired_diesDown :
    Lww.DiesDown Entry.wallet Entry.rank (Entry.Expired deps currentBucket) := by
  intro x y _ hle hexpired
  have hbucket := deps.bucketMath.bucketForBlock_mono (blockNumber_le_of_rank_le hle)
  rw [Entry.Expired, isExpired_iff] at hexpired ⊢
  omega

/-! ### What pruning drops -/

variable {isProvisional : Cid → Bool}

lemma mem_list_prune :
    e ∈ (prune deps isProvisional m currentBucket).1.list ↔
      e ∈ m.list ∧ isPruned deps isProvisional m currentBucket e = false := by
  rw [mem_list_iff, mem_list_iff, prune, JsMap.get?_filter, Option.filter_eq_some_iff]
  simp

lemma isWinner_iff : isWinner m e = true ↔ Wins m everyCid e := by
  rw [isWinner, decide_eq_true_iff, wins_iff]

/-- Every wallet with an entry has a winner. -/
lemma exists_wins (hmem : e ∈ m.list) :
    ∃ w, Wins m everyCid w ∧ w.wallet = e.wallet
      ∧ (winnersByWallet everyCid m).get? e.wallet = some w := by
  cases hget : (winnersByWallet everyCid m).get? e.wallet with
  | none => exact absurd rfl (get?_winnersByWallet_eq_none_iff.mp hget e hmem rfl)
  | some w =>
      have hwallet := (get?_winnersByWallet_iff.mp hget).2.1
      exact ⟨w, wins_iff.mpr (hwallet ▸ hget), hwallet, rfl⟩

/-- **What pruning drops** is expired, or superseded by a winner with no check pending. -/
lemma expired_or_superseded_of_isPruned (hmem : e ∈ m.list)
    (hpruned : isPruned deps isProvisional m currentBucket e = true) :
    isExpired deps e.bundle currentBucket = true
      ∨ ∃ w, Wins m everyCid w ∧ w.wallet = e.wallet ∧ isProvisional w.cid = false := by
  cases hexpired : isExpired deps e.bundle currentBucket with
  | true => exact Or.inl rfl
  | false =>
      obtain ⟨w, hwins, hwallet, hget⟩ := exists_wins hmem
      refine Or.inr ⟨w, hwins, hwallet, ?_⟩
      cases hwinner : isWinner m e with
      | true => simp [isPruned, hexpired, hwinner] at hpruned
      | false => simpa [isPruned, hexpired, hwinner, hasProvisionalWinner, hget] using hpruned

/-- A winner stays until it expires. -/
lemma isPruned_of_wins (hwins : Wins m everyCid e)
    (hexpired : isExpired deps e.bundle currentBucket = false) :
    isPruned deps isProvisional m currentBucket e = false := by
  simp [isPruned, hexpired, isWinner_iff.mpr hwins]

/-- **Pruning keeps what a reduction needs**: an eligible entry that is dropped has expired, or an
eligible entry that outranks it stays. The reduction is one that no winner without a pending check
is left out of. -/
lemma covers_prune (hprov : ∀ cid, isProvisional cid = false → eligible cid = true) {b : ℕ}
    (hb : currentBucket ≤ b) :
    Lww.Covers Entry.wallet Entry.rank (Entry.Expired deps b) (m.eligible eligible)
      ((prune deps isProvisional m currentBucket).1.eligible eligible) := by
  refine ⟨fun x hx => ⟨(mem_list_prune.mp hx.1).1, hx.2⟩, fun x hx => ?_⟩
  cases hpruned : isPruned deps isProvisional m currentBucket x with
  | false => exact Or.inr ⟨x, ⟨mem_list_prune.mpr ⟨hx.1, hpruned⟩, hx.2⟩, rfl, le_rfl⟩
  | true =>
      rcases expired_or_superseded_of_isPruned hx.1 hpruned with hexpired | ⟨w, hwins, hwallet, hw⟩
      · exact Or.inl (isExpired_mono hb hexpired)
      · have hle : x.rank ≤ w.rank := hwins.2 x ⟨hx.1, rfl⟩ hwallet.symm
        cases hexpired : isExpired deps w.bundle currentBucket with
        | true =>
            exact Or.inl (isExpired_diesDown x w hwallet.symm hle (isExpired_mono hb hexpired))
        | false =>
            have hstays : w ∈ (prune deps isProvisional m currentBucket).1.list :=
              mem_list_prune.mpr ⟨hwins.1.1, isPruned_of_wins hwins hexpired⟩
            exact Or.inr ⟨w, ⟨hstays, hprov _ hw⟩, hwallet, hle⟩

lemma wins_unique {x y : Entry} (hx : x ∈ m.list) (hy : y ∈ m.list) (h : x.rank = y.rank) : x = y :=
  eq_of_cid_eq hx hy (Entry.cid_eq_of_rank_eq h)

/-- A reduction reads the same entries after a prune at an earlier bucket. -/
lemma mem_currentEntries_prune (hprov : ∀ cid, isProvisional cid = false → eligible cid = true)
    {b : ℕ} (hb : currentBucket ≤ b) :
    e ∈ currentEntries deps (prune deps isProvisional m currentBucket).1 b eligible ↔
      e ∈ currentEntries deps m b eligible := by
  rw [mem_currentEntries_iff_wins, mem_currentEntries_iff_wins]
  refine and_congr_left fun hlive => ?_
  have hcovers : Lww.Covers Entry.wallet Entry.rank (Entry.Expired deps b) (m.eligible eligible)
      ((prune deps isProvisional m currentBucket).1.eligible eligible) := covers_prune hprov hb
  have hnot : ¬ Entry.Expired deps b e := by simp [Entry.Expired, hlive]
  constructor
  · exact hcovers.top isExpired_diesDown hnot
  · intro hwins
    obtain ⟨y, hy, -, hrank⟩ := hcovers.exists_top hnot hwins
    rwa [wins_unique (hcovers.subset hy.1).1 hwins.1.1 hrank] at hy

lemma perm_currentEntries_prune (hprov : ∀ cid, isProvisional cid = false → eligible cid = true)
    {b : ℕ} (hb : currentBucket ≤ b) :
    (currentEntries deps (prune deps isProvisional m currentBucket).1 b eligible).Perm
      (currentEntries deps m b eligible) :=
  (List.perm_ext_iff_of_nodup nodup_currentEntries nodup_currentEntries).mpr
    fun _ => mem_currentEntries_prune hprov hb

/-- The newest eligible entry of its wallet among those unexpired at a bucket. -/
structure NewestEligible (deps : CrdtDeps) (eligible : Cid → Bool) (m : Bundles) (b : ℕ)
    (e : Entry) : Prop where
  mem : e ∈ m.list
  is_eligible : eligible e.cid = true
  live : isExpired deps e.bundle b = false
  newest : ∀ x ∈ m.list, eligible x.cid = true → isExpired deps x.bundle b = false →
    x.wallet = e.wallet → x.rank ≤ e.rank

lemma NewestEligible.wins {b : ℕ} (h : NewestEligible deps eligible m b e) : Wins m eligible e := by
  refine ⟨⟨h.mem, h.is_eligible⟩, fun x hx hwallet => ?_⟩
  cases hexpired : isExpired deps x.bundle b with
  | false => exact h.newest x hx.1 hx.2 hexpired hwallet
  | true =>
      by_contra hlt
      have := isExpired_diesDown e x hwallet.symm (not_le.mp hlt).le hexpired
      rw [Entry.Expired, h.live] at this
      cases this

/-- What may happen to the working set between a prune and a removal. -/
inductive Change where
  | prune (bucket : ℕ)
  | integrate (entry : Entry)
  | remove (cid : Cid)

/-- The working set after a change. -/
def applyChange (deps : CrdtDeps) (isProvisional : Cid → Bool) (m : Bundles) : Change → Bundles
  | .prune bucket => (prune deps isProvisional m bucket).1
  | .integrate entry => integrate m entry.cid entry.bundle
  | .remove cid => remove m cid

/-- The change neither removes the entry nor brings an eligible one of its wallet that outranks it,
and prunes at no later bucket. -/
def Spares (eligible : Cid → Bool) (b : ℕ) (e : Entry) : Change → Prop
  | .prune bucket => bucket ≤ b
  | .integrate x => eligible x.cid = true → x.wallet = e.wallet → x.rank ≤ e.rank
  | .remove cid => cid ≠ e.cid

/-- A change that spares the winner of a wallet leaves it the winner. -/
lemma Wins.applyChange (hprov : ∀ cid, isProvisional cid = false → eligible cid = true) {b : ℕ}
    (hlive : isExpired deps e.bundle b = false) (h : Wins m eligible e) {change : Change}
    (hspares : Spares eligible b e change) :
    Wins (applyChange deps isProvisional m change) eligible e := by
  cases change with
  | prune bucket =>
      have hread := mem_currentEntries_iff_wins.mpr ⟨h, hlive⟩
      exact (mem_currentEntries_iff_wins.mp ((mem_currentEntries_prune hprov hspares).mpr hread)).1
  | integrate x =>
      refine ⟨⟨mem_list_integrate.mpr (Or.inl h.1.1), h.1.2⟩, fun y hy hwallet => ?_⟩
      rcases mem_list_integrate.mp hy.1 with hmem | ⟨-, rfl⟩
      · exact h.2 y ⟨hmem, hy.2⟩ hwallet
      · exact hspares hy.2 hwallet
  | remove cid =>
      refine ⟨⟨mem_list_remove.mpr ⟨hspares.symm, h.1.1⟩, h.1.2⟩, fun y hy hwallet => ?_⟩
      exact h.2 y ⟨(mem_list_remove.mp hy.1).2, hy.2⟩ hwallet

lemma Wins.foldl_applyChange (hprov : ∀ cid, isProvisional cid = false → eligible cid = true)
    {b : ℕ} (hlive : isExpired deps e.bundle b = false) {changes : List Change}
    (h : Wins m eligible e) (hspares : ∀ change ∈ changes, Spares eligible b e change) :
    Wins (changes.foldl (PubsubVoting.applyChange deps isProvisional) m) eligible e := by
  induction changes generalizing m with
  | nil => exact h
  | cons change changes ih =>
      rw [List.forall_mem_cons] at hspares
      exact ih (h.applyChange hprov hlive hspares.1) hspares.2

/-- **Pruning is invisible.** Where exactly the ineligible entries are provisional, both reductions
read the same entries after a prune as before, in some order. Once the provisional winner of a
wallet is removed, be it later, its newest eligible predecessor from before the prune is read by the
eligible reduction, and by the unrestricted one too if nothing else outranks it. -/
theorem prune_invisible (deps : CrdtDeps) (m : Bundles) {eligible isProvisional : Cid → Bool}
    (hprov : ∀ cid, isProvisional cid = !eligible cid) {b₀ b : ℕ} (hb : b₀ ≤ b) :
    (currentEntries deps (prune deps isProvisional m b₀).1 b everyCid).Perm
        (currentEntries deps m b everyCid)
      ∧ (currentEntries deps (prune deps isProvisional m b₀).1 b eligible).Perm
        (currentEntries deps m b eligible)
      ∧ ∀ w e, Wins m everyCid w → isProvisional w.cid = true → w.wallet = e.wallet →
        NewestEligible deps eligible m b e →
        ∀ changes : List Change, (∀ change ∈ changes, Spares eligible b e change) →
        ∀ later, changes.foldl (applyChange deps isProvisional)
            (prune deps isProvisional m b₀).1 = later →
          e ∈ currentEntries deps (remove later w.cid) b eligible
          ∧ ((∀ x ∈ later.list, x.wallet = e.wallet → e.rank < x.rank → x = w) →
            e ∈ currentEntries deps (remove later w.cid) b everyCid) := by
  have heligible : ∀ cid, isProvisional cid = false → eligible cid = true := by
    intro cid hcid
    rw [hprov, Bool.not_eq_false'] at hcid
    exact hcid
  refine ⟨perm_currentEntries_prune (fun _ _ => rfl) hb, perm_currentEntries_prune heligible hb, ?_⟩
  rintro w e hw hpending hwallet he changes hspares later rfl
  have hpruned : Wins (prune deps isProvisional m b₀).1 eligible e :=
    Wins.applyChange heligible he.live he.wins (show Spares eligible b e (.prune b₀) from hb)
  have hlater := hpruned.foldl_applyChange heligible he.live hspares
  have hne : w.cid ≠ e.cid := by
    intro heq
    rw [hprov, heq, he.is_eligible] at hpending
    cases hpending
  have hremoved : Wins (applyChange deps isProvisional _ (.remove w.cid)) eligible e :=
    hlater.applyChange heligible he.live (show Spares eligible b e (.remove w.cid) from hne)
  refine ⟨mem_currentEntries_iff_wins.mpr ⟨hremoved, he.live⟩, fun honly => ?_⟩
  refine mem_currentEntries_iff_wins.mpr ⟨⟨⟨hremoved.1.1, rfl⟩, fun x hx hxwallet => ?_⟩, he.live⟩
  obtain ⟨hxne, hxmem⟩ := mem_list_remove.mp hx.1
  by_contra hlt
  exact hxne (congrArg Entry.cid (honly x hxmem hxwallet (not_le.mp hlt)))

end

/-! ### A prune that shows -/

/-- A ballot of a wallet, signed at a block. -/
def bareBallot (account : UInt8) (blockNumber : ℕ) : VotesBundle :=
  { withdrawal with
    address := bytesToHex (List.replicate 20 account)
    blockNumber := blockNumber }

example : (encodeBundle .reference (bareBallot 1 1)).bind (decodeBundle .reference) =
    some (bareBallot 1 1) := by decide +kernel

/-- Its entry. -/
def bareEntry (account : UInt8) (blockNumber : ℕ) : Entry :=
  ⟨(bundleCid .reference (bareBallot account blockNumber)).getD [], bareBallot account blockNumber⟩

/-- Ballots in the order they came in. -/
def ballotsOf (entries : List Entry) : Bundles :=
  entries.foldl (fun m e => m.set e.cid e.bundle) ∅

/-- One block a bucket, ten buckets until expiry. -/
def tenBuckets : CrdtDeps := ⟨⟨1, Nat.one_pos⟩, 10⟩

/-- A wallet that voted, another one that did, and the first one again. -/
def revote : Bundles := ballotsOf [bareEntry 1 1, bareEntry 2 1, bareEntry 1 2]

/-- A verified ballot of a wallet, and two newer ones. -/
def twicePending : Bundles := ballotsOf [bareEntry 1 1, bareEntry 1 2, bareEntry 1 3]

/-- A verified ballot of a wallet, and a newer one. -/
def oncePending : Bundles := ballotsOf [bareEntry 1 1, bareEntry 1 3]

/-- Every ballot but one is provisional. -/
def allBut (verified : Entry) (cid : Cid) : Bool := !decide (cid = verified.cid)

/-- The pending ballot leaves, and the verified one is read again. -/
theorem prune_invisible_oncePending :
    bareEntry 1 1 ∈ currentEntries tenBuckets
      (remove (prune tenBuckets (allBut (bareEntry 1 1)) oncePending 1).1 (bareEntry 1 3).cid) 1
        everyCid := by
  have hprov : ∀ cid, allBut (bareEntry 1 1) cid = !decide (cid = (bareEntry 1 1).cid) :=
    fun _ => rfl
  have hwins : Wins oncePending everyCid (bareEntry 1 3) := wins_iff.mpr (by decide +kernel)
  have hfallback := (prune_invisible tenBuckets oncePending hprov (le_refl 1)).2.2
    (bareEntry 1 3) (bareEntry 1 1) hwins (by decide +kernel) (by decide +kernel)
    ⟨by decide +kernel, by decide +kernel, by decide +kernel, by decide +kernel⟩ [] (by simp) _ rfl
  exact hfallback.2 (by decide +kernel)

/-- The prune changes the order in which the winners are read, and with two ballots pending the
newer one gives way to the other, not to the verified one. -/
theorem currentEntries_prune_ne :
    currentEntries tenBuckets (prune tenBuckets (fun _ => false) revote 1).1 1 everyCid
        ≠ currentEntries tenBuckets revote 1 everyCid
      ∧ (currentEntries tenBuckets
          (remove (prune tenBuckets (allBut (bareEntry 1 1)) twicePending 1).1
            (bareEntry 1 3).cid) 1 everyCid).map Entry.cid = [(bareEntry 1 2).cid] := by
  decide +kernel

end PubsubVoting
