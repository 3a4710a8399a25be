import PubsubVoting.Crdt.Crdt
import PubsubVoting.Signer.Eip712

/-!
Publishing: a wallet signs its votes for the boundary block of the current bucket and adds the
bundle to its working set.

* `signVote`: what publishing does to the working set.
* `PublishRun`: the states a wallet's publishes lead through, other wallets' bundles arriving in
  between; `PublishRun.Inv` is what they keep.
* `currentEntries_lastPublish_iff`: the latest ballot is the wallet's entry exactly if no earlier
  ballot of the same bucket has a lower address.
-/

namespace PubsubVoting

open Cbor

/-- What a contest is signed with. -/
structure SigningContext where
  codecs : Codecs
  deps : CrdtDeps
  criteriaCid : Bytes
  chainId : ℕ

/-- Sign the votes at a chain head and add the bundle; `none` where the source throws. -/
def signVote (ctx : SigningContext) (m : Bundles) (votes : List Vote) (signer : VoteSigner)
    (head : ℕ) : Option (Entry × Bundles) := do
  let bucket := ctx.deps.bucketMath.bucketForBlock head
  let blockNumber := ctx.deps.bucketMath.sampleBlockForBucket bucket
  let typedData := ballotTypedData ctx.criteriaCid ctx.chainId votes blockNumber
  let signature := signer.signBallot typedData
  let bundle ← VotesBundle.parse ctx.codecs ⟨signer.address, votes, blockNumber, signature⟩
  let (cid, m) ← add ctx.codecs m bundle
  return (⟨cid, bundle⟩, m)

/-- What a publish leaves behind: a bundle of the wallet, stamped with the boundary block, set under
its address. -/
lemma signVote_eq_some {ctx : SigningContext} {m m' : Bundles} {votes : List Vote}
    {signer : VoteSigner} {head : ℕ} {e : Entry}
    (h : signVote ctx m votes signer head = some (e, m')) :
    e.bundle.address = signer.address ∧ e.bundle.votes = votes
      ∧ e.bundle.blockNumber
        = ctx.deps.bucketMath.sampleBlockForBucket (ctx.deps.bucketMath.bucketForBlock head)
      ∧ m' = m.set e.cid e.bundle := by
  simp only [signVote, add, Option.bind_eq_bind, Option.bind_eq_some_iff, VotesBundle.parse_eq_some,
    Option.map_eq_some_iff, Option.pure_def, Option.some.injEq, Prod.mk.injEq] at h
  obtain ⟨bundle, ⟨-, rfl⟩, ⟨cid, m''⟩, ⟨_, -, hadd⟩, rfl, rfl⟩ := h
  obtain ⟨rfl, rfl⟩ := Prod.mk.inj hadd
  exact ⟨rfl, rfl, rfl, rfl⟩

/-- The working set, the ballots one wallet has published so far, the newest first, and the last
chain head, after any number of publishes at non-decreasing heads; in between, bundles of other
wallets arrive and go. -/
inductive PublishRun (ctx : SigningContext) (wallet : JsString) : Bundles → List Entry → ℕ → Prop
  | start {m : Bundles} (h : ∀ e ∈ m.list, e.wallet ≠ wallet) : PublishRun ctx wallet m [] 0
  | publish {m m' : Bundles} {published : List Entry} {head head' : ℕ} {votes : List Vote}
      {signer : VoteSigner} {e : Entry} (run : PublishRun ctx wallet m published head)
      (hhead : head ≤ head') (hsigner : signer.address.toLowerCase = wallet)
      (h : signVote ctx m votes signer head' = some (e, m')) :
      PublishRun ctx wallet m' (e :: published) head'
  | integrate {m : Bundles} {published : List Entry} {head : ℕ} {e : Entry}
      (run : PublishRun ctx wallet m published head) (h : e.wallet ≠ wallet) :
      PublishRun ctx wallet (integrate m e.cid e.bundle) published head
  | remove {m : Bundles} {published : List Entry} {head : ℕ} {e : Entry}
      (run : PublishRun ctx wallet m published head) (hmem : e ∈ m.list) (h : e.wallet ≠ wallet) :
      PublishRun ctx wallet (remove m e.cid) published head

/-- What publishing keeps: the wallet's entries are ballots it published; the newest ballot is among
them and stamped with the boundary block of its head; every ballot's address holds it or a newer
ballot; every ballot is stamped with a boundary block, none later than the newest. -/
structure PublishRun.Inv (ctx : SigningContext) (wallet : JsString) (m : Bundles)
    (published : List Entry) (head : ℕ) : Prop where
  entries : ∀ e ∈ m.list, e.wallet = wallet → e ∈ published
  wallet : ∀ e ∈ published, e.wallet = wallet
  latest : ∀ e ∈ published.head?, e ∈ m.list ∧ e.bundle.blockNumber
    = ctx.deps.bucketMath.sampleBlockForBucket (ctx.deps.bucketMath.bucketForBlock head)
  addresses : ∀ e ∈ published, ∃ e' ∈ published, e' ∈ m.list ∧ e'.cid = e.cid
    ∧ e.bundle.blockNumber ≤ e'.bundle.blockNumber
  stamped : ∀ e ∈ published, e.bundle.blockNumber
    ≤ ctx.deps.bucketMath.sampleBlockForBucket (ctx.deps.bucketMath.bucketForBlock head)
  boundary : ∀ e ∈ published, ∃ bucket,
    e.bundle.blockNumber = ctx.deps.bucketMath.sampleBlockForBucket bucket

section

variable {ctx : SigningContext} {wallet : JsString} {m m' : Bundles} {published : List Entry}
  {head head' : ℕ} {e : Entry}

lemma inv_publish (inv : PublishRun.Inv ctx wallet m published head) {votes : List Vote}
    {signer : VoteSigner} (hhead : head ≤ head') (hsigner : signer.address.toLowerCase = wallet)
    (h : signVote ctx m votes signer head' = some (e, m')) :
    PublishRun.Inv ctx wallet m' (e :: published) head' := by
  obtain ⟨haddress, -, hblock, rfl⟩ := signVote_eq_some h
  have hwallet : e.wallet = wallet := by
    rw [Entry.wallet, VotesBundle.wallet, haddress, hsigner]
  have hstamped : ∀ x ∈ published, x.bundle.blockNumber ≤ e.bundle.blockNumber := by
    intro x hx
    rw [hblock]
    exact (inv.stamped x hx).trans (ctx.deps.bucketMath.sampleBlockForBucket_mono
      (ctx.deps.bucketMath.bucketForBlock_mono hhead))
  refine ⟨?_, ?_, ?_, ?_, ?_, List.forall_mem_cons.mpr ⟨⟨_, hblock⟩, inv.boundary⟩⟩
  · intro x hx hxw
    rcases mem_list_set.mp hx with rfl | ⟨-, hx⟩
    · simp
    · exact List.mem_cons_of_mem _ (inv.entries x hx hxw)
  · exact List.forall_mem_cons.mpr ⟨hwallet, inv.wallet⟩
  · intro x hx
    obtain rfl := Option.some.inj hx
    exact ⟨mem_list_set.mpr (Or.inl rfl), hblock⟩
  · intro x hx
    rcases List.mem_cons.mp hx with rfl | hx
    · exact ⟨x, by simp, mem_list_set.mpr (Or.inl rfl), rfl, le_rfl⟩
    · obtain ⟨y, hy, hym, hcid, hle⟩ := inv.addresses x hx
      by_cases hnew : y.cid = e.cid
      · exact ⟨e, by simp, mem_list_set.mpr (Or.inl rfl), hnew ▸ hcid, hle.trans (hstamped y hy)⟩
      · exact ⟨y, by simp [hy], mem_list_set.mpr (Or.inr ⟨hnew, hym⟩), hcid, hle⟩
  · rw [← hblock]
    exact List.forall_mem_cons.mpr ⟨le_rfl, hstamped⟩

lemma inv_integrate (inv : PublishRun.Inv ctx wallet m published head)
    (h : e.wallet ≠ wallet) :
    PublishRun.Inv ctx wallet (integrate m e.cid e.bundle) published head where
  entries x hx hxw := by
    rcases mem_list_integrate.mp hx with hx | ⟨-, rfl⟩
    · exact inv.entries x hx hxw
    · exact absurd hxw h
  wallet := inv.wallet
  latest x hx := ⟨mem_list_integrate.mpr (Or.inl (inv.latest x hx).1), (inv.latest x hx).2⟩
  addresses x hx := by
    obtain ⟨y, hy, hym, hcid, hle⟩ := inv.addresses x hx
    exact ⟨y, hy, mem_list_integrate.mpr (Or.inl hym), hcid, hle⟩
  stamped := inv.stamped
  boundary := inv.boundary

lemma inv_remove (inv : PublishRun.Inv ctx wallet m published head) (hmem : e ∈ m.list)
    (h : e.wallet ≠ wallet) : PublishRun.Inv ctx wallet (remove m e.cid) published head := by
  have hkeep : ∀ x ∈ m.list, x.wallet = wallet → x ∈ (remove m e.cid).list := by
    intro x hx hxw
    have hne : x.cid ≠ e.cid := fun hcid => h (eq_of_cid_eq hx hmem hcid ▸ hxw)
    exact mem_list_remove.mpr ⟨hne, hx⟩
  refine ⟨fun x hx => inv.entries x (mem_list_remove.mp hx).2, inv.wallet, ?_, ?_, inv.stamped,
    inv.boundary⟩
  · intro x hx
    have hxp : x ∈ published := List.mem_of_mem_head? hx
    exact ⟨hkeep x (inv.latest x hx).1 (inv.wallet x hxp), (inv.latest x hx).2⟩
  · intro x hx
    obtain ⟨y, hy, hym, hcid, hle⟩ := inv.addresses x hx
    exact ⟨y, hy, hkeep y hym (inv.wallet y hy), hcid, hle⟩

/-- Every run keeps the invariant. -/
theorem PublishRun.inv (run : PublishRun ctx wallet m published head) :
    PublishRun.Inv ctx wallet m published head := by
  induction run with
  | start h =>
      exact ⟨fun e he hw => absurd hw (h e he), by simp, by simp, by simp, by simp, by simp⟩
  | publish _ hhead hsigner h ih => exact inv_publish ih hhead hsigner h
  | integrate _ h ih => exact inv_integrate ih h
  | remove _ hmem h ih => exact inv_remove ih hmem h

/-- The newest ballot is the wallet's winner exactly if no earlier ballot with its block number has
a lower address. -/
lemma get?_winnersByWallet_lastPublish_iff (run : PublishRun ctx wallet m (e :: published) head) :
    (winnersByWallet everyCid m).get? wallet = some e ↔
      ∀ e' ∈ published,
        e'.bundle.blockNumber = e.bundle.blockNumber → compareCid e.cid e'.cid ≤ 0 := by
  have inv := run.inv
  obtain ⟨hmem, hblock⟩ := inv.latest e rfl
  rw [get?_winnersByWallet_iff]
  constructor
  · rintro ⟨-, -, hmax⟩ e' he' heq
    obtain ⟨y, hy, hym, hcid, hle⟩ := inv.addresses e' (by simp [he'])
    have hyblock : y.bundle.blockNumber = e.bundle.blockNumber := by
      have := inv.stamped y hy
      omega
    rcases (Entry.rank_le_rank_iff e y).mp (hmax y hym rfl (inv.wallet y hy)) with h | ⟨-, h⟩
    · omega
    · rwa [← hcid]
  · intro h
    refine ⟨⟨hmem, rfl⟩, inv.wallet e (by simp), fun x hx _ hxw => ?_⟩
    rw [Entry.rank_le_rank_iff]
    have hle := inv.stamped x (inv.entries x hx hxw)
    rcases List.mem_cons.mp (inv.entries x hx hxw) with rfl | hxp
    · exact Or.inr ⟨rfl, by simp [compareCid_nonpos_iff]⟩
    · rcases lt_or_eq_of_le (hblock ▸ hle) with hlt | heq
      · exact Or.inl hlt
      · exact Or.inr ⟨heq, h x hxp heq⟩

/-- **Last publish wins**: while the newest ballot is unexpired it is the one entry of its wallet,
exactly if no earlier ballot of the same bucket has a lower address. -/
theorem currentEntries_lastPublish_iff (run : PublishRun ctx wallet m (e :: published) head)
    {currentBucket : ℕ} (hexpired : isExpired ctx.deps e.bundle currentBucket = false) :
    (∀ x, x ∈ currentEntries ctx.deps m currentBucket everyCid ∧ x.wallet = wallet ↔ x = e) ↔
      ∀ e' ∈ published, ctx.deps.bucketMath.bucketForBlock e'.bundle.blockNumber
        = ctx.deps.bucketMath.bucketForBlock e.bundle.blockNumber →
          compareCid e.cid e'.cid ≤ 0 := by
  have inv := run.inv
  have hwallet := inv.wallet e (by simp)
  have hentry :
      (∀ x, x ∈ currentEntries ctx.deps m currentBucket everyCid ∧ x.wallet = wallet ↔ x = e) ↔
      (winnersByWallet everyCid m).get? wallet = some e := by
    constructor
    · intro h
      have hmem := ((h e).mpr rfl).1
      rw [mem_currentEntries_iff, hwallet] at hmem
      exact hmem.1
    · intro h x
      rw [mem_currentEntries_iff]
      constructor
      · rintro ⟨⟨hx, -⟩, hxw⟩
        rw [hxw, h] at hx
        exact (Option.some.inj hx).symm
      · rintro rfl
        exact ⟨⟨hwallet.symm ▸ h, hexpired⟩, hwallet⟩
  -- two boundary blocks of one bucket are the same block
  have hbucket : ∀ e' ∈ published, ctx.deps.bucketMath.bucketForBlock e'.bundle.blockNumber
      = ctx.deps.bucketMath.bucketForBlock e.bundle.blockNumber ↔
        e'.bundle.blockNumber = e.bundle.blockNumber := by
    intro e' he'
    obtain ⟨b, hb⟩ := inv.boundary e (by simp)
    obtain ⟨b', hb'⟩ := inv.boundary e' (by simp [he'])
    constructor
    · intro h
      rw [hb, hb', BucketMath.bucketForBlock_sampleBlockForBucket,
        BucketMath.bucketForBlock_sampleBlockForBucket] at h
      rw [hb, hb', h]
    · intro h
      rw [h]
  rw [hentry, get?_winnersByWallet_lastPublish_iff run]
  exact forall₂_congr fun e' he' => by rw [hbucket e' he']

end

/-! ### Two ballots in one bucket -/

/-- The wallet of the zero address, whose signatures are one byte repeated. -/
def zeroSigner (byte : UInt8) : VoteSigner where
  address := bytesToHex (List.replicate 20 0)
  signBallot := fun _ => ⟨bytesToHex (List.replicate 65 byte), eip712SignatureType⟩

/-- Buckets of ten blocks, valid for one more bucket. -/
def tenBlockContext : SigningContext where
  codecs := .reference
  deps := ⟨⟨10, by decide⟩, 1⟩
  criteriaCid := [0x01, 0x71]
  chainId := 1

/-- One vote for the shortest key. -/
def oneVote : List Vote := [⟨⟨none, JsString.ofString "11"⟩, 1⟩]

/-- The wallet votes at block 12 and withdraws at block 17; the entries of bucket 1 afterwards are
as a test says. -/
lemma exists_voteThenWithdraw (byte : UInt8) (p : Entry → Entry → List Entry → Bool)
    (h : (signVote tenBlockContext ∅ oneVote (zeroSigner byte) 12).any (fun vote =>
      (signVote tenBlockContext vote.2 [] (zeroSigner byte) 17).any fun withdrawal =>
        p vote.1 withdrawal.1
          (currentEntries tenBlockContext.deps withdrawal.2 1 everyCid)) = true) :
    ∃ vote withdrawal m, PublishRun tenBlockContext (zeroSigner byte).address.toLowerCase m
        [withdrawal, vote] 17
      ∧ withdrawal.bundle.votes = [] ∧ withdrawal.bundle.blockNumber = 10
      ∧ p vote withdrawal (currentEntries tenBlockContext.deps m 1 everyCid) = true := by
  obtain ⟨⟨vote, m⟩, hvote, h⟩ := (Option.any_eq_true _ _).mp h
  obtain ⟨⟨withdrawal, m'⟩, hwithdrawal, h⟩ := (Option.any_eq_true _ _).mp h
  obtain ⟨-, hvotes, hblock, -⟩ := signVote_eq_some hwithdrawal
  have hempty : ∀ e ∈ Bundles.list (∅ : JsMap Cid VotesBundle),
      e.wallet ≠ (zeroSigner byte).address.toLowerCase := by
    intro e he
    cases he
  refine ⟨vote, withdrawal, m', ?_, hvotes, hblock, h⟩
  exact .publish (.publish (.start hempty) (Nat.zero_le _) rfl hvote) (by norm_num) rfl hwithdrawal

/-- A withdrawal published after a vote, which does not remove it. -/
theorem withdrawal_superseded :
    ∃ vote withdrawal m, PublishRun tenBlockContext (zeroSigner 0).address.toLowerCase m
        [withdrawal, vote] 17
      ∧ withdrawal.bundle.votes = [] ∧ isExpired tenBlockContext.deps withdrawal.bundle 1 = false
      ∧ vote.bundle.votes = oneVote ∧ currentEntries tenBlockContext.deps m 1 everyCid = [vote]
      ∧ withdrawal ≠ vote := by
  obtain ⟨vote, withdrawal, m, run, hvotes, hblock, h⟩ := exists_voteThenWithdraw 0
    (fun vote withdrawal entries => decide (vote.bundle.votes = oneVote ∧ entries = [vote]
      ∧ withdrawal ≠ vote)) (by decide +kernel)
  obtain ⟨hvote, hentries, hne⟩ := of_decide_eq_true h
  refine ⟨vote, withdrawal, m, run, hvotes, ?_, hvote, hentries, hne⟩
  rw [isExpired, hblock]
  decide

theorem currentEntries_lastPublish_iff_withdrawal :
    ∃ vote withdrawal m, PublishRun tenBlockContext (zeroSigner 3).address.toLowerCase m
        [withdrawal, vote] 17
      ∧ ∀ x, x ∈ currentEntries tenBlockContext.deps m 1 everyCid
          ∧ x.wallet = (zeroSigner 3).address.toLowerCase ↔ x = withdrawal := by
  obtain ⟨vote, withdrawal, m, run, hvotes, hblock, h⟩ := exists_voteThenWithdraw 3
    (fun vote withdrawal _ => decide (compareCid withdrawal.cid vote.cid ≤ 0)) (by decide +kernel)
  have hexpired : isExpired tenBlockContext.deps withdrawal.bundle 1 = false := by
    rw [isExpired, hblock]
    decide
  refine ⟨vote, withdrawal, m, run, (currentEntries_lastPublish_iff run hexpired).mpr ?_⟩
  intro e' he' _
  rw [List.mem_singleton.mp he']
  exact of_decide_eq_true h

end PubsubVoting
