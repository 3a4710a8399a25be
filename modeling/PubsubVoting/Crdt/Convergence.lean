import PubsubVoting.Crdt.Prune
import PubsubVoting.Crdt.RoundTrip

/-!
Convergence: two replicas that integrated the same bundles read the same winners, whatever they
pruned on the way.

* `BundleAt`: a bundle under the address of a block it decodes from or encodes to.
* `CrdtOp`, `Replica`, `Replica.run`: adds, merges and prunes of one replica, and what it has
  integrated so far.
* `Replica.Inv`: the working set stands for everything integrated; `Replica.Inv.apply` is the step.
* `mem_currentEntries_run_iff`: a replica reads the unexpired winners of everything it integrated.
* `crdt_converges`: so two replicas read the same.
-/

namespace PubsubVoting

open Cbor

/-! ### Bundles and their addresses -/

/-- The bundle belongs to the block with that address: it was decoded from the block, or encoded to
it. The store of a voter decodes, the store in memory keeps what was encoded. -/
def BundleAt (C : Codecs) (blocks : Set Bytes) (cid : Cid) (bundle : VotesBundle) : Prop :=
  ∃ x ∈ blocks, bundleCidForBytes C x = cid
    ∧ (decodeBundle C x = some bundle ∨ encodeBundle C bundle = some x)

section

variable {C : Codecs} {blocks : Set Bytes} {cid : Cid}

/-- Decoding the block gives the wallet and the block number of its bundle. -/
lemma BundleAt.decode (hB : Base58Canonical C) {bundle : VotesBundle}
    (h : BundleAt C blocks cid bundle) :
    ∃ x ∈ blocks, bundleCidForBytes C x = cid ∧ ∃ decoded, decodeBundle C x = some decoded
      ∧ decoded.wallet = bundle.wallet ∧ decoded.blockNumber = bundle.blockNumber := by
  obtain ⟨x, hx, hcid, hdecode | hencode⟩ := h
  · exact ⟨x, hx, hcid, bundle, hdecode, rfl, rfl⟩
  · exact ⟨x, hx, hcid, canonicalBundle bundle, decodeBundle_encodeBundle hB hencode,
      wallet_canonicalBundle bundle, rfl⟩

/-- **One address, one vote**: what counts in the reduction is a function of the address. -/
lemma wallet_rank_eq_of_cid_eq (hB : Base58Canonical C) (hfree : CollisionFreeOn C blocks)
    {e e' : Entry} (h : BundleAt C blocks e.cid e.bundle) (h' : BundleAt C blocks e'.cid e'.bundle)
    (hcid : e.cid = e'.cid) : e.wallet = e'.wallet ∧ e.rank = e'.rank := by
  obtain ⟨x, hx, hxcid, decoded, hdecode, hwallet, hblock⟩ := h.decode hB
  obtain ⟨y, hy, hycid, decoded', hdecode', hwallet', hblock'⟩ := h'.decode hB
  obtain rfl := hfree.eq_of_cid_eq hx hy (hxcid.trans (hcid.trans hycid.symm))
  obtain rfl := Option.some.inj (hdecode.symm.trans hdecode')
  refine ⟨hwallet.symm.trans hwallet', ?_⟩
  rw [Entry.rank, Entry.rank, ← hblock, ← hblock', hcid]

end

/-! ### Replicas -/

/-- One call on a replica. -/
inductive CrdtOp where
  | add (bundle : VotesBundle)
  | merge (cids : List Cid)
  | prune (currentBucket : ℕ)

/-- The working set, and every entry integrated so far. -/
structure Replica where
  bundles : Bundles
  integrated : List Entry

section

variable (C : Codecs) (deps : CrdtDeps) (store : Cid → Option VotesBundle)

/-- `merge`: one address after the other, up to the first that the store does not have. -/
def mergeCids (r : Replica) : List Cid → Replica
  | [] => r
  | cid :: cids =>
    if r.bundles.has cid then mergeCids r cids
    else
      match store cid with
      | none => r
      | some bundle =>
        mergeCids ⟨integrate r.bundles cid bundle, ⟨cid, bundle⟩ :: r.integrated⟩ cids

/-- One call. An `add` of a bundle that cannot be encoded throws before anything happens. -/
def Replica.apply (r : Replica) : CrdtOp → Replica
  | .add bundle =>
    match PubsubVoting.add C r.bundles bundle with
    | none => r
    | some (cid, bundles) => ⟨bundles, ⟨cid, bundle⟩ :: r.integrated⟩
  | .merge cids => mergeCids store r cids
  | .prune currentBucket =>
    ⟨(PubsubVoting.prune deps (fun _ => false) r.bundles currentBucket).1, r.integrated⟩

/-- A replica from nothing, after some calls. -/
def Replica.run (ops : List CrdtOp) : Replica :=
  ops.foldl (Replica.apply C deps store) ⟨∅, []⟩

/-- The store serves bundles of the blocks at hand, each under the address of its block. -/
def Serves (blocks : Set Bytes) : Prop :=
  ∀ cid bundle, store cid = some bundle → BundleAt C blocks cid bundle

/-- The call stays within the blocks at hand and prunes at no later bucket. -/
def CrdtOp.Within (blocks : Set Bytes) (b : ℕ) : CrdtOp → Prop
  | .add bundle => ∀ x, encodeBundle C bundle = some x → x ∈ blocks
  | .merge _ => True
  | .prune currentBucket => currentBucket ≤ b

end

/-- Everything integrated carries its address, and the working set stands for all of it. -/
structure Replica.Inv (C : Codecs) (deps : CrdtDeps) (blocks : Set Bytes) (b : ℕ) (r : Replica) :
    Prop where
  addressed : ∀ e ∈ r.integrated, BundleAt C blocks e.cid e.bundle
  covers : Lww.Covers Entry.wallet Entry.rank (Entry.Expired deps b) {e | e ∈ r.integrated}
    (r.bundles.eligible everyCid)

section

variable {C : Codecs} {deps : CrdtDeps} {blocks : Set Bytes} {b : ℕ} {r : Replica}
  {store : Cid → Option VotesBundle}

/-- Setting an entry keeps the invariant: one that it replaces is its like. -/
lemma Replica.Inv.set (hB : Base58Canonical C) (hfree : CollisionFreeOn C blocks)
    (h : r.Inv C deps blocks b) {e : Entry} (he : BundleAt C blocks e.cid e.bundle) :
    Replica.Inv C deps blocks b ⟨r.bundles.set e.cid e.bundle, e :: r.integrated⟩ := by
  have hmem : e ∈ Bundles.list (r.bundles.set e.cid e.bundle) := mem_list_set.mpr (Or.inl rfl)
  refine ⟨List.forall_mem_cons.mpr ⟨he, h.addressed⟩, fun x hx => ?_, fun x hx => ?_⟩
  · rcases mem_list_set.mp hx.1 with rfl | ⟨-, hold⟩
    · exact List.mem_cons_self
    · exact List.mem_cons_of_mem _ (h.covers.subset ⟨hold, rfl⟩)
  · rcases List.mem_cons.mp hx with rfl | hx
    · exact Or.inr ⟨x, ⟨hmem, rfl⟩, rfl, le_rfl⟩
    · rcases h.covers.covers x hx with hdead | ⟨y, hy, hkey, hle⟩
      · exact Or.inl hdead
      · by_cases hcid : y.cid = e.cid
        · obtain ⟨hwallet, hrank⟩ := wallet_rank_eq_of_cid_eq hB hfree
            (h.addressed y (h.covers.subset hy)) he hcid
          exact Or.inr ⟨e, ⟨hmem, rfl⟩, hwallet.symm.trans hkey, hle.trans_eq hrank⟩
        · exact Or.inr ⟨y, ⟨mem_list_set.mpr (Or.inr ⟨hcid, hy.1⟩), rfl⟩, hkey, hle⟩

lemma Replica.Inv.mergeCids (hB : Base58Canonical C) (hfree : CollisionFreeOn C blocks)
    (hstore : Serves C store blocks) (h : r.Inv C deps blocks b) (cids : List Cid) :
    (PubsubVoting.mergeCids store r cids).Inv C deps blocks b := by
  induction cids generalizing r with
  | nil => exact h
  | cons cid cids ih =>
      rw [PubsubVoting.mergeCids]
      cases hhas : r.bundles.has cid with
      | true => exact ih h
      | false =>
          cases hget : store cid with
          | none => exact h
          | some bundle =>
              have hset := h.set hB hfree (e := ⟨cid, bundle⟩) (hstore cid bundle hget)
              rw [if_neg Bool.false_ne_true]
              refine ih ?_
              rwa [integrate, hhas, if_neg Bool.false_ne_true]

/-- **One call keeps the invariant.** -/
lemma Replica.Inv.apply (hB : Base58Canonical C) (hfree : CollisionFreeOn C blocks)
    (hstore : Serves C store blocks) (h : r.Inv C deps blocks b) {op : CrdtOp}
    (hop : op.Within C blocks b) : (r.apply C deps store op).Inv C deps blocks b := by
  cases op with
  | add bundle =>
      cases hencode : encodeBundle C bundle with
      | none =>
          have hadd : PubsubVoting.add C r.bundles bundle = none := by
            rw [PubsubVoting.add, bundleCid, hencode, Option.map_none, Option.map_none]
          rw [Replica.apply, hadd]
          exact h
      | some x =>
          have hat : BundleAt C blocks (bundleCidForBytes C x) bundle :=
            ⟨x, hop x hencode, rfl, Or.inr hencode⟩
          have hadd : PubsubVoting.add C r.bundles bundle = some (bundleCidForBytes C x,
              r.bundles.set (bundleCidForBytes C x) bundle) := by
            rw [PubsubVoting.add, bundleCid, hencode, Option.map_some, Option.map_some]
          rw [Replica.apply, hadd]
          exact h.set hB hfree (e := ⟨bundleCidForBytes C x, bundle⟩) hat
  | merge cids => exact h.mergeCids hB hfree hstore cids
  | prune currentBucket =>
      exact ⟨h.addressed, h.covers.trans isExpired_diesDown (covers_prune (fun _ _ => rfl) hop)⟩

lemma Replica.inv_run (hB : Base58Canonical C) (hfree : CollisionFreeOn C blocks)
    (hstore : Serves C store blocks) {ops : List CrdtOp} (hops : ∀ op ∈ ops, op.Within C blocks b) :
    (Replica.run C deps store ops).Inv C deps blocks b := by
  induction ops using List.reverseRecOn with
  | nil =>
      refine ⟨fun e he => absurd he List.not_mem_nil, fun e he => ?_, fun e he => ?_⟩
      · exact absurd he.1 List.not_mem_nil
      · exact absurd he List.not_mem_nil
  | append_singleton ops op ih =>
      rw [List.forall_mem_append, List.forall_mem_singleton] at hops
      rw [Replica.run, List.foldl_append]
      exact (ih hops.1).apply hB hfree hstore hops.2

/-! ### What is read -/

/-- The entry is the winner of its wallet among everything integrated, and unexpired. -/
def LiveMaximum (deps : CrdtDeps) (b : ℕ) (integrated : List Entry) (e : Entry) : Prop :=
  e ∈ integrated ∧ (∀ x ∈ integrated, x.wallet = e.wallet → x.rank ≤ e.rank)
    ∧ isExpired deps e.bundle b = false

lemma isExpired_eq_of_rank_eq {e e' : Entry} (h : e.rank = e'.rank) :
    isExpired deps e.bundle b = isExpired deps e'.bundle b := by
  have hblock : e.bundle.blockNumber = e'.bundle.blockNumber :=
    le_antisymm (blockNumber_le_of_rank_le h.le) (blockNumber_le_of_rank_le h.ge)
  rw [isExpired, isExpired, hblock]

/-- **A replica reads the unexpired winners of everything it integrated.** -/
theorem Replica.Inv.mem_currentEntries_iff (h : r.Inv C deps blocks b) {cid : Cid} :
    cid ∈ (currentEntries deps r.bundles b everyCid).map Entry.cid ↔
      ∃ e, LiveMaximum deps b r.integrated e ∧ e.cid = cid := by
  rw [List.mem_map]
  constructor
  · rintro ⟨e, he, rfl⟩
    obtain ⟨hwins, hlive⟩ := mem_currentEntries_iff_wins.mp he
    obtain ⟨hmem, hmax⟩ := h.covers.top isExpired_diesDown (by simp [Entry.Expired, hlive]) hwins
    exact ⟨e, ⟨hmem, hmax, hlive⟩, rfl⟩
  · rintro ⟨e, ⟨hmem, hmax, hlive⟩, rfl⟩
    obtain ⟨y, hwins, -, hrank⟩ := h.covers.exists_top (e := e) (by simp [Entry.Expired, hlive])
      ⟨hmem, hmax⟩
    refine ⟨y, mem_currentEntries_iff_wins.mpr ⟨hwins, ?_⟩, Entry.cid_eq_of_rank_eq hrank⟩
    rw [isExpired_eq_of_rank_eq hrank, hlive]

/-- What is live and maximal depends on the addresses integrated only. -/
lemma liveMaximum_congr (hB : Base58Canonical C) (hfree : CollisionFreeOn C blocks) {r' : Replica}
    (h : r.Inv C deps blocks b) (h' : r'.Inv C deps blocks b)
    (hsame : ∀ cid ∈ r.integrated.map Entry.cid, cid ∈ r'.integrated.map Entry.cid)
    (hsame' : ∀ cid ∈ r'.integrated.map Entry.cid, cid ∈ r.integrated.map Entry.cid) {e : Entry}
    (he : LiveMaximum deps b r.integrated e) :
    ∃ e', LiveMaximum deps b r'.integrated e' ∧ e'.cid = e.cid := by
  obtain ⟨hmem, hmax, hlive⟩ := he
  obtain ⟨e', hmem', hcid⟩ := List.mem_map.mp (hsame _ (List.mem_map_of_mem hmem))
  obtain ⟨hwallet, hrank⟩ := wallet_rank_eq_of_cid_eq hB hfree (h'.addressed e' hmem')
    (h.addressed e hmem) hcid
  refine ⟨e', ⟨hmem', fun x hx hxwallet => ?_, ?_⟩, hcid⟩
  · obtain ⟨y, hy, hycid⟩ := List.mem_map.mp (hsame' _ (List.mem_map_of_mem hx))
    obtain ⟨hywallet, hyrank⟩ := wallet_rank_eq_of_cid_eq hB hfree (h.addressed y hy)
      (h'.addressed x hx) hycid
    rw [← hyrank, hrank]
    exact hmax y hy (hywallet.trans (hxwallet.trans hwallet))
  · rw [isExpired_eq_of_rank_eq hrank, hlive]

/-- **Convergence.** Two replicas that integrated the same addresses, by any adds and merges among
any prunes at buckets up to `b`, read the same addresses at `b`: one entry per wallet, the winner of
everything integrated where that is unexpired. -/
theorem crdt_converges (hB : Base58Canonical C) (hfree : CollisionFreeOn C blocks)
    {store' : Cid → Option VotesBundle} (hstore : Serves C store blocks)
    (hstore' : Serves C store' blocks) {ops ops' : List CrdtOp}
    (hops : ∀ op ∈ ops, op.Within C blocks b) (hops' : ∀ op ∈ ops', op.Within C blocks b)
    (hsame : ∀ cid, cid ∈ (Replica.run C deps store ops).integrated.map Entry.cid ↔
      cid ∈ (Replica.run C deps store' ops').integrated.map Entry.cid) :
    (∀ cid, cid ∈ (currentEntries deps (Replica.run C deps store ops).bundles b everyCid).map
        Entry.cid ↔
      cid ∈ (currentEntries deps (Replica.run C deps store' ops').bundles b everyCid).map Entry.cid)
    ∧ ((currentEntries deps (Replica.run C deps store ops).bundles b everyCid).map
        Entry.wallet).Nodup
    ∧ ∀ cid, cid ∈ (currentEntries deps (Replica.run C deps store ops).bundles b everyCid).map
        Entry.cid ↔
      ∃ e, LiveMaximum deps b (Replica.run C deps store ops).integrated e ∧ e.cid = cid := by
  have hinv : (Replica.run C deps store ops).Inv C deps blocks b :=
    Replica.inv_run hB hfree hstore hops
  have hinv' : (Replica.run C deps store' ops').Inv C deps blocks b :=
    Replica.inv_run hB hfree hstore' hops'
  refine ⟨fun cid => ?_, nodup_wallets_currentEntries, fun cid => hinv.mem_currentEntries_iff⟩
  rw [hinv.mem_currentEntries_iff, hinv'.mem_currentEntries_iff]
  constructor
  · rintro ⟨e, he, rfl⟩
    exact liveMaximum_congr hB hfree hinv hinv' (fun cid => (hsame cid).mp)
      (fun cid => (hsame cid).mpr) he
  · rintro ⟨e, he, rfl⟩
    exact liveMaximum_congr hB hfree hinv' hinv (fun cid => (hsame cid).mpr)
      (fun cid => (hsame cid).mp) he

end

/-! ### Two replicas of one wallet -/

/-- The withdrawal of the wallet again, five blocks later. -/
def laterWithdrawal : VotesBundle := { withdrawal with blockNumber := 5 }

/-- The blocks of the two. -/
def withdrawalBlocks : List Bytes :=
  ([withdrawal, laterWithdrawal].mapM (encodeBundle .reference)).getD []

/-- A store that holds both. -/
def withdrawalStore (cid : Cid) : Option VotesBundle :=
  (withdrawalBlocks.find? fun x => decide (bundleCidForBytes .reference x = cid)).bind
    (decodeBundle .reference)

/-- One replica adds the older ballot, prunes and adds the newer one; the other merges the newer one
first and the older one twice. -/
theorem crdt_converges_withdrawals :
    {cid | cid ∈ (currentEntries tenBuckets (Replica.run .reference tenBuckets (fun _ => none)
        [.add withdrawal, .prune 5, .add laterWithdrawal]).bundles 5 everyCid).map Entry.cid} =
      {cid | cid ∈ (currentEntries tenBuckets (Replica.run .reference tenBuckets withdrawalStore
        [.merge (withdrawalBlocks.reverse.map (bundleCidForBytes .reference)), .prune 3,
          .add withdrawal]).bundles 5 everyCid).map Entry.cid} := by
  have hfree : CollisionFreeOn .reference {x | x ∈ withdrawalBlocks} := fun x hx y hy h =>
    List.inj_on_of_nodup_map (f := Codecs.reference.sha256)
      (show (withdrawalBlocks.map Codecs.reference.sha256).Nodup by decide +kernel) hx hy h
  have hadd : ∀ x, encodeBundle .reference withdrawal = some x → x ∈ withdrawalBlocks := by
    decide +kernel
  have hadd' : ∀ x, encodeBundle .reference laterWithdrawal = some x → x ∈ withdrawalBlocks := by
    decide +kernel
  have hstore : Serves .reference withdrawalStore {x | x ∈ withdrawalBlocks} := by
    intro cid bundle hget
    obtain ⟨x, hfind, hdecode⟩ := Option.bind_eq_some_iff.mp hget
    exact ⟨x, List.mem_of_find?_eq_some hfind, by simpa using List.find?_some hfind,
      Or.inl hdecode⟩
  have hsame : (Replica.run .reference tenBuckets (fun _ => none)
      [.add withdrawal, .prune 5, .add laterWithdrawal]).integrated.map Entry.cid
        = withdrawalBlocks.reverse.map (bundleCidForBytes .reference) := by decide +kernel
  have hsame' : (Replica.run .reference tenBuckets withdrawalStore
      [.merge (withdrawalBlocks.reverse.map (bundleCidForBytes .reference)), .prune 3,
        .add withdrawal]).integrated.map Entry.cid
        = (withdrawalBlocks.take 1 ++ withdrawalBlocks).map (bundleCidForBytes .reference) := by
    decide +kernel
  have hops : ∀ op ∈ [CrdtOp.add withdrawal, .prune 5, .add laterWithdrawal],
      op.Within .reference {x | x ∈ withdrawalBlocks} 5 := by
    simpa [CrdtOp.Within] using ⟨hadd, hadd'⟩
  have hops' : ∀ op ∈ [CrdtOp.merge (withdrawalBlocks.reverse.map (bundleCidForBytes .reference)),
      .prune 3, .add withdrawal], op.Within .reference {x | x ∈ withdrawalBlocks} 5 := by
    simpa [CrdtOp.Within] using hadd
  have hcids : ∀ cid, cid ∈ (Replica.run .reference tenBuckets (fun _ => none)
      [.add withdrawal, .prune 5, .add laterWithdrawal]).integrated.map Entry.cid ↔
        cid ∈ (Replica.run .reference tenBuckets withdrawalStore
          [.merge (withdrawalBlocks.reverse.map (bundleCidForBytes .reference)), .prune 3,
            .add withdrawal]).integrated.map Entry.cid := by
    intro cid
    rw [hsame, hsame']
    simp only [List.map_append, List.map_reverse, List.mem_append, List.mem_reverse, List.mem_map]
    constructor
    · exact Or.inr
    · rintro (⟨x, hx, rfl⟩ | h)
      · exact ⟨x, List.mem_of_mem_take hx, rfl⟩
      · exact h
  have hconverges := (crdt_converges base58Canonical_reference hfree (fun _ _ h => by cases h)
    hstore
    hops hops' hcids).1
  ext cid
  exact hconverges cid

end PubsubVoting
