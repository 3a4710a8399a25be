import Mathlib.Data.List.Lex
import Mathlib.Data.Prod.Lex
import PubsubVoting.Chain.Bucket
import PubsubVoting.Crdt.Codec
import PubsubVoting.Lib.Lww

/-!
The state-based grow-only set of bundles, last write wins per voting wallet.

* `compareCid`, `lwwResolve`, `winnersByWallet`, `currentEntries`: the reduction.
* `add`, `integrate`, `remove`, `prune`: the operations on the working set.
* `Entry.rank`: the linear order behind the pairwise rule (`resolveEntry_follows`): higher block
  number first, then the lower content address.
* `get?_winnersByWallet_iff`: a wallet's winner is its highest-ranked eligible entry.
* `mem_currentEntries_iff`: the entries read at a bucket are the unexpired winners.
-/

namespace PubsubVoting

/-- A bundle with its content address. -/
structure Entry where
  cid : Cid
  bundle : VotesBundle
  deriving DecidableEq

/-- The key of the reduction: the lower-cased address. -/
def VotesBundle.wallet (b : VotesBundle) : JsString := b.address.toLowerCase

/-- `wallet` of an entry. -/
def Entry.wallet (e : Entry) : JsString := e.bundle.wallet

/-! ### The pairwise rule -/

/-- Byte-lexicographic comparison of two addresses: negative, zero or positive. -/
def compareCid : Cid → Cid → ℤ
  | x :: xs, y :: ys => if x ≠ y then (x.toNat : ℤ) - y.toNat else compareCid xs ys
  | xs, ys => (xs.length : ℤ) - ys.length

/-- Highest block number wins, the lowest address on a tie. -/
def lwwResolve (a b : Entry) : Cid :=
  if a.bundle.blockNumber ≠ b.bundle.blockNumber then
    if a.bundle.blockNumber > b.bundle.blockNumber then a.cid else b.cid
  else if compareCid a.cid b.cid ≤ 0 then a.cid else b.cid

/-- The entry the rule names. -/
def resolveEntry (prev entry : Entry) : Entry :=
  if lwwResolve prev entry = prev.cid then prev else entry

/-- The order behind the rule. -/
def Entry.rank (e : Entry) : ℕ ×ₗ (List ℕ)ᵒᵈ :=
  toLex (e.bundle.blockNumber, OrderDual.toDual (e.cid.map UInt8.toNat))

lemma cons_le_cons_iff {a b : ℕ} {x y : List ℕ} : a :: x ≤ b :: y ↔ a < b ∨ a = b ∧ x ≤ y := by
  have h : b :: y < a :: x ↔ b < a ∨ b = a ∧ y < x := List.cons_lex_cons_iff
  rw [← not_lt, ← not_lt (a := y), h]
  rcases lt_trichotomy a b with hab | hab | hab
  · simp [hab, hab.ne', hab.le]
  · simp [hab]
  · simp [hab, hab.not_gt, hab.ne']

/-- The comparison is that of the lexicographic order on the bytes. -/
lemma compareCid_nonpos_iff (x y : Cid) :
    compareCid x y ≤ 0 ↔ x.map UInt8.toNat ≤ y.map UInt8.toNat := by
  induction x generalizing y with
  | nil =>
      have hle : ([] : List ℕ) ≤ y.map UInt8.toNat := not_lt.mp List.not_lex_nil
      have hneg : compareCid [] y ≤ 0 := by cases y <;> simp [compareCid]
      exact iff_of_true hneg hle
  | cons a x ih =>
      cases y with
      | nil =>
          have hlt : ([] : List ℕ) < (a :: x).map UInt8.toNat := List.Lex.nil
          have hpos : ¬ compareCid (a :: x) [] ≤ 0 := by simp [compareCid]
          exact iff_of_false hpos (not_le.mpr hlt)
      | cons b y =>
          rw [compareCid, List.map_cons, List.map_cons, cons_le_cons_iff, ← ih]
          by_cases hab : a = b
          · subst hab
            simp
          · have hne : a.toNat ≠ b.toNat := fun h => hab (UInt8.toNat_inj.mp h)
            simp only [ne_eq, hab, not_false_eq_true, if_true, hne, false_and, or_false]
            omega

lemma Entry.rank_le_rank_iff (a b : Entry) :
    b.rank ≤ a.rank ↔ b.bundle.blockNumber < a.bundle.blockNumber
      ∨ b.bundle.blockNumber = a.bundle.blockNumber ∧ compareCid a.cid b.cid ≤ 0 := by
  rw [Entry.rank, Entry.rank, Prod.Lex.toLex_le_toLex, OrderDual.toDual_le_toDual,
    compareCid_nonpos_iff]

lemma blockNumber_le_of_rank_le {x y : Entry} (h : x.rank ≤ y.rank) :
    x.bundle.blockNumber ≤ y.bundle.blockNumber := by
  rcases (Entry.rank_le_rank_iff y x).mp h with hlt | ⟨heq, -⟩
  · exact hlt.le
  · exact heq.le

lemma Entry.cid_eq_of_rank_eq {a b : Entry} (h : a.rank = b.rank) : a.cid = b.cid := by
  have h' : a.cid.map UInt8.toNat = b.cid.map UInt8.toNat :=
    OrderDual.toDual_inj.mp (Prod.mk.inj (toLex.injective h)).2
  exact List.map_injective_iff.mpr (fun x y => UInt8.toNat_inj.mp) h'

/-- The pairwise rule keeps the entry of higher rank. -/
lemma resolveEntry_eq {prev entry : Entry} (h : prev.cid = entry.cid → prev = entry) :
    resolveEntry prev entry = if entry.rank ≤ prev.rank then prev else entry := by
  by_cases hcid : prev.cid = entry.cid
  · obtain rfl := h hcid
    simp [resolveEntry]
  · have hkeep : lwwResolve prev entry = prev.cid ↔ entry.rank ≤ prev.rank := by
      rw [Entry.rank_le_rank_iff, lwwResolve]
      by_cases hblock : prev.bundle.blockNumber = entry.bundle.blockNumber
      · by_cases hcmp : compareCid prev.cid entry.cid ≤ 0
        · simp [hblock, hcmp]
        · simp [hblock, hcmp, Ne.symm hcid]
      · by_cases hgt : prev.bundle.blockNumber > entry.bundle.blockNumber
        · simp [hblock, hgt]
        · simp only [ne_eq, hblock, not_false_eq_true, if_true, hgt, if_false, Ne.symm hcid,
            false_iff]
          rintro (h | ⟨h, -⟩) <;> omega
    simp only [resolveEntry, hkeep]

/-- On entries with distinct addresses the rule follows the order. -/
lemma resolveEntry_follows {es : List Entry} (h : ∀ x ∈ es, ∀ y ∈ es, x.cid = y.cid → x = y) :
    Lww.Follows resolveEntry Entry.rank es :=
  fun x hx y hy => resolveEntry_eq (h x hx y hy)

/-! ### The working set -/

/-- What the set is built with. -/
structure CrdtDeps where
  bucketMath : BucketMath
  voteExpiryBuckets : ℕ

/-- The working set of integrated bundles. -/
abbrev Bundles := JsMap Cid VotesBundle

/-- Its entries, in order of integration. -/
def Bundles.list (m : Bundles) : List Entry := m.entries.map fun e => ⟨e.1, e.2⟩

/-- The bundle is past its expiry window. -/
def isExpired (deps : CrdtDeps) (bundle : VotesBundle) (currentBucket : ℕ) : Bool :=
  decide (currentBucket >
    deps.bucketMath.bucketForBlock bundle.blockNumber + deps.voteExpiryBuckets)

/-- Integrate a bundle fetched under an address; an address that is there stays as it is. -/
def integrate (m : Bundles) (cid : Cid) (bundle : VotesBundle) : Bundles :=
  if m.has cid then m else m.set cid bundle

/-- Store a locally produced bundle; `none` where it cannot be encoded. -/
def add (C : Codecs) (m : Bundles) (bundle : VotesBundle) : Option (Cid × Bundles) :=
  (bundleCid C bundle).map fun cid => (cid, m.set cid bundle)

/-- Drop one bundle. -/
def remove (m : Bundles) (cid : Cid) : Bundles := m.delete cid

/-- No predicate: the reduction over everything. -/
def everyCid : Cid → Bool := fun _ => true

/-- The winner of each wallet among the eligible entries. -/
def winnersByWallet (eligible : Cid → Bool) (m : Bundles) : JsMap JsString Entry :=
  Lww.winners Entry.wallet resolveEntry (m.list.filter fun e => eligible e.cid)

/-- The unexpired winners. -/
def currentEntries (deps : CrdtDeps) (m : Bundles) (currentBucket : ℕ)
    (eligible : Cid → Bool) : List Entry :=
  (winnersByWallet eligible m).values.filter fun e => !isExpired deps e.bundle currentBucket

/-- The entry is the winner of its wallet. -/
def isWinner (m : Bundles) (e : Entry) : Bool :=
  decide ((winnersByWallet everyCid m).get? e.wallet = some e)

/-- The winner of the entry's wallet still has deferred checks pending. -/
def hasProvisionalWinner (isProvisional : Cid → Bool) (m : Bundles) (e : Entry) : Bool :=
  ((winnersByWallet everyCid m).get? e.wallet).any fun winner => isProvisional winner.cid

/-- `prune` drops the entry: superseded or expired, and not kept as the fallback of a provisional
winner. -/
def isPruned (deps : CrdtDeps) (isProvisional : Cid → Bool) (m : Bundles) (currentBucket : ℕ)
    (e : Entry) : Bool :=
  let expired := isExpired deps e.bundle currentBucket
  (!isWinner m e || expired)
    && !(!isWinner m e && !expired && hasProvisionalWinner isProvisional m e)

/-- Drop what is superseded or expired, and say what was dropped. -/
def prune (deps : CrdtDeps) (isProvisional : Cid → Bool) (m : Bundles) (currentBucket : ℕ) :
    Bundles × List Cid :=
  (m.filter fun e => !isPruned deps isProvisional m currentBucket ⟨e.1, e.2⟩,
    (m.list.filter (isPruned deps isProvisional m currentBucket)).map Entry.cid)

/-! ### The reduction -/

section

variable {m : Bundles} {e : Entry} {eligible : Cid → Bool}

lemma mem_list_iff : e ∈ m.list ↔ m.get? e.cid = some e.bundle := by
  rw [JsMap.get?_eq_some_iff, Bundles.list, List.mem_map]
  constructor
  · rintro ⟨p, hp, rfl⟩
    exact hp
  · intro h
    exact ⟨(e.cid, e.bundle), h, rfl⟩

lemma eq_of_cid_eq {x y : Entry} (hx : x ∈ m.list) (hy : y ∈ m.list) (h : x.cid = y.cid) :
    x = y := by
  rw [mem_list_iff] at hx hy
  rw [h, hy] at hx
  cases x
  cases y
  simp_all

lemma mem_list_integrate {cid : Cid} {bundle : VotesBundle} :
    e ∈ (integrate m cid bundle).list ↔ e ∈ m.list ∨ cid ∉ m.keys ∧ e = ⟨cid, bundle⟩ := by
  rw [integrate]
  split_ifs with h
  · simp [JsMap.has_iff.mp h]
  · have hnot : cid ∉ m.keys := fun hmem => h (JsMap.has_iff.mpr hmem)
    have hnone := JsMap.get?_eq_none_iff.mpr hnot
    rw [mem_list_iff, mem_list_iff, JsMap.get?_set]
    obtain ⟨c, b⟩ := e
    by_cases hc : c = cid
    · subst hc
      simp [hnot, hnone, eq_comm]
    · simp [hc]

lemma mem_list_set {cid : Cid} {bundle : VotesBundle} :
    e ∈ Bundles.list (m.set cid bundle) ↔ e = ⟨cid, bundle⟩ ∨ e.cid ≠ cid ∧ e ∈ m.list := by
  rw [mem_list_iff, mem_list_iff, JsMap.get?_set]
  obtain ⟨c, b⟩ := e
  by_cases hc : c = cid
  · subst hc
    simp [eq_comm]
  · simp [hc]

lemma mem_list_remove {cid : Cid} : e ∈ (remove m cid).list ↔ e.cid ≠ cid ∧ e ∈ m.list := by
  rw [mem_list_iff, mem_list_iff, remove, JsMap.get?_delete]
  by_cases hc : e.cid = cid <;> simp [hc]

/-- **The winner of a wallet** is its highest-ranked eligible entry. -/
theorem get?_winnersByWallet_iff {wallet : JsString} :
    (winnersByWallet eligible m).get? wallet = some e ↔
      (e ∈ m.list ∧ eligible e.cid = true) ∧ e.wallet = wallet
        ∧ ∀ x ∈ m.list, eligible x.cid = true → x.wallet = wallet → x.rank ≤ e.rank := by
  have hcid : ∀ x ∈ m.list.filter fun e => eligible e.cid,
      ∀ y ∈ m.list.filter fun e => eligible e.cid,
      x.cid = y.cid → x = y := fun x hx y hy =>
    eq_of_cid_eq (List.mem_filter.mp hx).1 (List.mem_filter.mp hy).1
  rw [winnersByWallet, Lww.get?_winners_eq_some_iff (resolveEntry_follows hcid)
    fun x hx y hy h => hcid x hx y hy (Entry.cid_eq_of_rank_eq h)]
  simp only [List.mem_filter, and_imp]

lemma get?_winnersByWallet_eq_none_iff {wallet : JsString} :
    (winnersByWallet eligible m).get? wallet = none ↔
      ∀ x ∈ m.list, eligible x.cid = true → x.wallet ≠ wallet := by
  rw [winnersByWallet, Lww.get?_winners_eq_none_iff]
  simp only [List.mem_filter, and_imp]

/-- What is read at a bucket are the unexpired winners. -/
lemma mem_currentEntries_iff {deps : CrdtDeps} {currentBucket : ℕ} :
    e ∈ currentEntries deps m currentBucket eligible ↔
      (winnersByWallet eligible m).get? e.wallet = some e
        ∧ isExpired deps e.bundle currentBucket = false := by
  rw [currentEntries, List.mem_filter, Bool.not_eq_true']
  refine and_congr_left fun _ => ?_
  rw [JsMap.values, List.mem_map]
  constructor
  · rintro ⟨⟨wallet, e'⟩, hmem, rfl⟩
    have hget := JsMap.get?_eq_some_iff.mpr hmem
    rw [(get?_winnersByWallet_iff.mp hget).2.1]
    exact hget
  · intro h
    exact ⟨_, JsMap.get?_eq_some_iff.mp h, rfl⟩

end

end PubsubVoting
