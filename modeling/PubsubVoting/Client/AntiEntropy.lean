import PubsubVoting.Client.ContestNet

/-!
Anti-entropy: engines that have heard of the same bundles, by gossip or behind the roots they
pulled, read the same votes and advertise the same root.

* `ContestNode.Sound`: the working set stands for the good ones among everything known.
* `AdvertisedRoot.Sound`: the winners of a checkpoint stand for what its engine knew.
* `ContestNode.Sound.step`, `ContestNet.Sound.step`: every event keeps them.
* `encodeCheckpoint_canonical`: a checkpoint does not show how its bundles are spelled.
* `antiEntropy_converges`: what an engine reads, and that engines which know the same agree.
-/

namespace PubsubVoting

open Cbor

/-! ### Entries under their own encoding -/

/-- The entry carries the address of its bundle's encoding. -/
def Entry.Addressed (C : Codecs) (blocks : List Bytes) (e : Entry) : Prop :=
  ∃ x ∈ blocks, encodeBundle C e.bundle = some x ∧ bundleCidForBytes C x = e.cid

section

variable {C : Codecs} {blocks : List Bytes} {e e' : Entry}

lemma Entry.Addressed.bundleAt (h : e.Addressed C blocks) :
    BundleAt C {x | x ∈ blocks} e.cid e.bundle := by
  obtain ⟨x, hx, hencode, hcid⟩ := h
  exact ⟨x, hx, hcid, Or.inr hencode⟩

/-- What is stored of a bundle has its address. -/
lemma addressed_storedBundle (hB : Base58Canonical C) {bundle : VotesBundle} {x : Bytes}
    (hx : x ∈ blocks) (hencode : encodeBundle C bundle = some x) :
    Entry.Addressed C blocks ⟨bundleCidForBytes C x, storedBundle C bundle⟩ := by
  have hstored : storedBundle C bundle = canonicalBundle bundle := by
    rw [storedBundle, hencode, Option.bind_some, decodeBundle_encodeBundle hB hencode,
      Option.getD_some]
  refine ⟨x, hx, ?_, rfl⟩
  rw [hstored]
  exact encodeBundle_canonicalBundle hB hencode

/-- Entries of one address have one wallet, one rank and one canonical form. -/
lemma Entry.Addressed.eq_of_cid_eq (hB : Base58Canonical C)
    (hfree : CollisionFreeOn C {x | x ∈ blocks}) (h : e.Addressed C blocks)
    (h' : e'.Addressed C blocks) (hcid : e.cid = e'.cid) :
    e.wallet = e'.wallet ∧ e.rank = e'.rank ∧
      canonicalBundle e.bundle = canonicalBundle e'.bundle := by
  obtain ⟨hwallet, hrank⟩ := wallet_rank_eq_of_cid_eq hB hfree h.bundleAt h'.bundleAt hcid
  obtain ⟨x, hx, hencode, hxcid⟩ := h
  obtain ⟨x', hx', hencode', hxcid'⟩ := h'
  have heq : x = x' := hfree.eq_of_cid_eq hx hx' (hxcid.trans (hcid.trans hxcid'.symm))
  exact ⟨hwallet, hrank, (encodeBundle_eq_iff_canonicalBundle hB hencode hencode').mp heq⟩

end

/-! ### What an engine stands for -/

section

variable (C : Codecs) (deps : CrdtDeps) (good : Cid → Bool) (blocks : List Bytes) (b : ℕ)

/-- The good entries of a list. -/
def goodEntries (es : List Entry) : Set Entry := {e | e ∈ es ∧ good e.cid = true}

/-- What the answers at a winner, and the bundle that is merged, tell of what is known. -/
def PullStage.Sound (known : List Entry) (cid : Cid) : PullStage → Prop
  | .ahead => True
  | .asked isAdmitted => isAdmitted = true → cid ∈ known.map Entry.cid
  | .answered a => a.aborted = false ∧ (a.isAdmitted = some true → cid ∈ known.map Entry.cid) ∧
      ∀ names, a.cached = some (.ok names) → good cid = true
  | .merged e verified => e.cid = cid ∧ cid ∈ known.map Entry.cid ∧
      (verified = true → good cid = true)

/-- The winners that a chase has gone through without passing one over are known. -/
structure RootPull.Sound (known : List Entry) (p : RootPull) : Prop where
  addressed : ∀ w ∈ p.left, ∀ x ∈ encodeBundle C w, x ∈ blocks
  stage : ∀ w ∈ p.left.head?, p.stage.Sound good known (chasedCid C w)
  whole : p.whole = true → ∃ gone, (∀ w ∈ gone, chasedCid C w ∈ known.map Entry.cid) ∧
    ∀ winners result, encodeCheckpoint C winners defaultMaxChunkBytes = some result →
      result.root = p.root → (∀ block ∈ result.blocks, block.bytes ∈ blocks) →
        gone ++ p.left = (sortWinners winners).map canonicalBundle

/-- The working set stands for the good entries of everything known. -/
structure ContestNode.Sound (n : ContestNode) : Prop where
  addressed : ∀ e ∈ n.known, e.Addressed C blocks
  covers : Lww.Covers Entry.wallet Entry.rank (Entry.Expired deps b) (goodEntries good n.known)
    (n.held.crdt.eligible good)
  held : ∀ e ∈ n.held.crdt.list, e ∈ n.known
  admitting : ∀ e ∈ n.admitting, e.cid ∈ n.known.map Entry.cid
  recorded : ∀ cid, n.held.checks.has cid = true → cid ∈ n.known.map Entry.cid
  verified : ∀ cid, n.held.isFullyVerified cid = true → good cid = true
  cached : ∀ cid names, n.cache.get? cid = some (.ok names) → good cid = true
  pulls : ∀ p ∈ n.pulls, p.Sound C good blocks n.known

/-- The winners of a checkpoint stand for the good entries of what its engine knew. -/
structure AdvertisedRoot.Sound (r : AdvertisedRoot) : Prop where
  encoded : ∃ result, encodeCheckpoint C (r.winners.map Entry.bundle) defaultMaxChunkBytes
    = some result ∧ result.root = r.root ∧ ∀ block ∈ result.blocks, block.bytes ∈ blocks
  addressed : ∀ e ∈ r.known, e.Addressed C blocks
  winners : ∀ e ∈ r.winners, e.Addressed C blocks ∧ good e.cid = true
  stands : ∀ e ∈ goodEntries good r.known, e.Expired deps b ∨
    ∃ w ∈ r.winners, w.wallet = e.wallet ∧ e.rank ≤ w.rank

end

/-! ### What is learnt -/

section

variable {C : Codecs} {deps : CrdtDeps} {good : Cid → Bool} {blocks : List Bytes} {b : ℕ}
  {known known' : List Entry} {cid : Cid} {stage : PullStage} {p : RootPull} {n : ContestNode}
  {e : Entry}

lemma PullStage.Sound.mono (h : stage.Sound good known cid)
    (hsub : cid ∈ known.map Entry.cid → cid ∈ known'.map Entry.cid) :
    stage.Sound good known' cid := by
  cases stage with
  | ahead => trivial
  | asked isAdmitted => exact fun hadmitted => hsub (h hadmitted)
  | answered a => exact ⟨h.1, fun hadmitted => hsub (h.2.1 hadmitted), h.2.2⟩
  | merged e verified => exact ⟨h.1, hsub h.2.1, h.2.2⟩

lemma RootPull.Sound.mono (h : p.Sound C good blocks known)
    (hsub : ∀ cid ∈ known.map Entry.cid, cid ∈ known'.map Entry.cid) :
    p.Sound C good blocks known' := by
  refine ⟨h.addressed, fun w hw => (h.stage w hw).mono (hsub _), fun hwhole => ?_⟩
  obtain ⟨gone, hgone, hall⟩ := h.whole hwhole
  exact ⟨gone, fun w hw => hsub _ (hgone w hw), hall⟩

lemma mem_map_cid_cons (hmem : cid ∈ known.map Entry.cid) :
    cid ∈ (e :: known).map Entry.cid := List.mem_cons_of_mem _ hmem

/-- More is known, and the working set stands for that too. -/
lemma ContestNode.Sound.learn (h : n.Sound C deps good blocks b) {crdt : Bundles}
    (hsub : ∀ e ∈ n.known, e ∈ known) (haddressed : ∀ e ∈ known, e.Addressed C blocks)
    (hcovers : Lww.Covers Entry.wallet Entry.rank (Entry.Expired deps b) (goodEntries good known)
      (crdt.eligible good)) (hheld : ∀ e ∈ crdt.list, e ∈ known) :
    ContestNode.Sound C deps good blocks b
      { n with held := ⟨crdt, n.held.checks⟩, known := known } := by
  have hcids : ∀ cid ∈ n.known.map Entry.cid, cid ∈ known.map Entry.cid := by
    intro cid hcid
    obtain ⟨e, he, rfl⟩ := List.mem_map.mp hcid
    exact List.mem_map_of_mem (hsub e he)
  exact ⟨haddressed, hcovers, hheld, fun e he => hcids _ (h.admitting e he),
    fun cid hcid => hcids _ (h.recorded cid hcid), h.verified, h.cached,
    fun p hp => (h.pulls p hp).mono hcids⟩

/-- The check state changes. -/
lemma ContestNode.Sound.withChecks (h : n.Sound C deps good blocks b) {checks : Checks}
    (hrecorded : ∀ cid, checks.has cid = true → cid ∈ n.known.map Entry.cid)
    (hverified : ∀ cid, (Holdings.mk n.held.crdt checks).isFullyVerified cid = true →
      good cid = true) :
    ContestNode.Sound C deps good blocks b { n with held := ⟨n.held.crdt, checks⟩ } :=
  ⟨h.addressed, h.covers, h.held, h.admitting, hrecorded, hverified, h.cached, h.pulls⟩

/-- The chases change. -/
lemma ContestNode.Sound.withPulls (h : n.Sound C deps good blocks b) {pulls : List RootPull}
    (hpulls : ∀ p ∈ pulls, p.Sound C good blocks n.known) :
    ContestNode.Sound C deps good blocks b { n with pulls := pulls } :=
  ⟨h.addressed, h.covers, h.held, h.admitting, h.recorded, h.verified, h.cached, hpulls⟩

lemma ContestNode.Sound.put (h : n.Sound C deps good blocks b) (hp : p.Sound C good blocks n.known)
    (k : ℕ) : (n.put k p).Sound C deps good blocks b := by
  refine h.withPulls fun q hq => ?_
  rcases List.mem_or_eq_of_mem_set hq with hq | rfl
  · exact h.pulls q hq
  · exact hp

lemma ContestNode.Sound.drop (h : n.Sound C deps good blocks b) (k : ℕ) :
    (n.drop k).Sound C deps good blocks b :=
  h.withPulls fun q hq => h.pulls q (List.mem_of_mem_eraseIdx hq)

/-- Setting an entry: one that it replaces is its like. -/
lemma covers_set (hB : Base58Canonical C) (hfree : CollisionFreeOn C {x | x ∈ blocks})
    (h : n.Sound C deps good blocks b) (he : e.Addressed C blocks) :
    Lww.Covers Entry.wallet Entry.rank (Entry.Expired deps b) (goodEntries good (e :: n.known))
      (Bundles.eligible (n.held.crdt.set e.cid e.bundle) good) := by
  have hmem : e ∈ Bundles.list (n.held.crdt.set e.cid e.bundle) := mem_list_set.mpr (Or.inl rfl)
  refine ⟨?_, ?_⟩
  · rintro x ⟨hx, hgood⟩
    rcases mem_list_set.mp hx with rfl | ⟨-, hold⟩
    · exact ⟨List.mem_cons_self, hgood⟩
    · exact ⟨List.mem_cons_of_mem _ (h.held x hold), hgood⟩
  · rintro x ⟨hx, hgood⟩
    rcases List.mem_cons.mp hx with rfl | hx
    · exact Or.inr ⟨x, ⟨hmem, hgood⟩, rfl, le_rfl⟩
    · rcases h.covers.covers x ⟨hx, hgood⟩ with hdead | ⟨y, hy, hkey, hle⟩
      · exact Or.inl hdead
      · by_cases hcid : y.cid = e.cid
        · obtain ⟨hwallet, hrank, -⟩ := Entry.Addressed.eq_of_cid_eq hB hfree
            (h.addressed y (h.held y hy.1)) he hcid
          have hegood : good e.cid = true := hcid ▸ hy.2
          exact Or.inr ⟨e, ⟨hmem, hegood⟩, hwallet.symm.trans hkey, hle.trans_eq hrank⟩
        · exact Or.inr ⟨y, ⟨mem_list_set.mpr (Or.inr ⟨hcid, hy.1⟩), hy.2⟩, hkey, hle⟩

/-- A bundle is added. -/
lemma ContestNode.Sound.set (hB : Base58Canonical C) (hfree : CollisionFreeOn C {x | x ∈ blocks})
    (h : n.Sound C deps good blocks b) (he : e.Addressed C blocks) :
    ContestNode.Sound C deps good blocks b
      { n with held := n.held.put e.cid e.bundle, known := e :: n.known } := by
  refine h.learn (fun x hx => List.mem_cons_of_mem _ hx)
    (List.forall_mem_cons.mpr ⟨he, h.addressed⟩) (covers_set hB hfree h he) fun x hx => ?_
  rcases mem_list_set.mp hx with rfl | ⟨-, hold⟩
  · exact List.mem_cons_self
  · exact List.mem_cons_of_mem _ (h.held x hold)

/-- A bundle is merged; where its address is held already, the working set stays. -/
lemma ContestNode.Sound.merge (hB : Base58Canonical C)
    (hfree : CollisionFreeOn C {x | x ∈ blocks}) (h : n.Sound C deps good blocks b)
    (he : e.Addressed C blocks) : (n.merge e).Sound C deps good blocks b := by
  cases hhas : n.held.crdt.has e.cid with
  | false =>
      have hmerge : n.merge e = { n with
          held := n.held.put e.cid e.bundle
          known := e :: n.known } := by
        rw [ContestNode.merge, Holdings.merge, integrate, hhas, if_neg Bool.false_ne_true]
        rfl
      rw [hmerge]
      exact h.set hB hfree he
  | true =>
      have hmerge : n.merge e = { n with
          held := ⟨n.held.crdt, n.held.checks⟩
          known := e :: n.known } := by
        rw [ContestNode.merge, Holdings.merge, integrate, hhas, if_pos rfl]
      obtain ⟨bundle, hget⟩ := Option.isSome_iff_exists.mp hhas
      have hold : (⟨e.cid, bundle⟩ : Entry) ∈ n.held.crdt.list := mem_list_iff.mpr hget
      obtain ⟨hwallet, hrank, -⟩ := Entry.Addressed.eq_of_cid_eq hB hfree
        (h.addressed _ (h.held _ hold)) he rfl
      have hcovers := h.covers.union isExpired_diesDown
        (u := {x | x = e ∧ good e.cid = true}) fun x hx => by
          obtain ⟨rfl, hgood⟩ := hx
          exact Or.inr ⟨_, ⟨h.held _ hold, hgood⟩, hwallet, hrank.ge⟩
      rw [hmerge]
      refine h.learn (fun x hx => List.mem_cons_of_mem _ hx)
        (List.forall_mem_cons.mpr ⟨he, h.addressed⟩) ?_
        fun x hx => List.mem_cons_of_mem _ (h.held x hx)
      convert hcovers using 1
      ext x
      simp only [goodEntries, List.mem_cons, Set.mem_ofPred_eq, Set.mem_union]
      constructor
      · rintro ⟨rfl | hx, hgood⟩
        · exact Or.inr ⟨rfl, hgood⟩
        · exact Or.inl ⟨hx, hgood⟩
      · rintro (⟨hx, hgood⟩ | ⟨rfl, hgood⟩)
        · exact ⟨Or.inr hx, hgood⟩
        · exact ⟨Or.inl rfl, hgood⟩

lemma ContestNode.Sound.withAdmitting (h : n.Sound C deps good blocks b) {es : List Entry}
    (hes : ∀ e ∈ es, e.cid ∈ n.known.map Entry.cid) :
    ContestNode.Sound C deps good blocks b { n with admitting := es } :=
  ⟨h.addressed, h.covers, h.held, hes, h.recorded, h.verified, h.cached, h.pulls⟩

/-- The checks of a bundle that is known are recorded. -/
lemma ContestNode.Sound.record (h : n.Sound C deps good blocks b)
    (he : e.cid ∈ n.known.map Entry.cid) {settled nameSettled : Bool}
    (hgood : (n.held.record e settled nameSettled).isFullyVerified e.cid = true →
      good e.cid = true) :
    ContestNode.Sound C deps good blocks b
      { n with held := n.held.record e settled nameSettled } := by
  refine h.withChecks (fun cid hcid => ?_) fun cid hcid => ?_
  · rw [recordChecks, JsMap.has_set, Bool.or_eq_true, decide_eq_true_iff] at hcid
    rcases hcid with rfl | hcid
    · exact he
    · exact h.recorded cid hcid
  · by_cases heq : cid = e.cid
    · subst heq
      exact hgood hcid
    · rw [Holdings.isFullyVerified, get?_recordChecks, if_neg heq] at hcid
      exact h.verified cid hcid

/-- A check is settled. -/
lemma ContestNode.Sound.settle (h : n.Sound C deps good blocks b) {key : CheckKey}
    (hgood : (n.held.settle cid key).isFullyVerified cid = true → good cid = true) :
    ContestNode.Sound C deps good blocks b { n with held := n.held.settle cid key } := by
  refine h.withChecks (fun cid' hcid => ?_) fun cid' hcid => ?_
  · rw [JsMap.has, get?_settleCheck] at hcid
    refine h.recorded cid' ?_
    split_ifs at hcid
    · rwa [Option.isSome_map] at hcid
    · exact hcid
  · by_cases heq : cid' = cid
    · subst heq
      exact hgood hcid
    · rw [Holdings.isFullyVerified, get?_settleCheck, if_neg heq] at hcid
      exact h.verified cid' hcid

/-- Checks are forgotten. -/
lemma ContestNode.Sound.forget (h : n.Sound C deps good blocks b) (cids : List Cid) :
    ContestNode.Sound C deps good blocks b { n with held := n.held.forget cids } := by
  refine h.withChecks (fun cid hcid => ?_) fun cid hcid => ?_
  · have hget : (n.held.forget cids).checks.get? cid = _ := get?_forget
    rw [JsMap.has, show (cids.foldl JsMap.delete n.held.checks).get? cid = _ from hget] at hcid
    split_ifs at hcid
    · cases hcid
    · exact h.recorded cid hcid
  · have hget : (n.held.forget cids).checks.get? cid = _ := get?_forget
    rw [Holdings.isFullyVerified,
      show (cids.foldl JsMap.delete n.held.checks).get? cid = _ from hget] at hcid
    split_ifs at hcid
    · cases hcid
    · exact h.verified cid hcid

/-- A bundle that is not good leaves. -/
lemma ContestNode.Sound.evict (h : n.Sound C deps good blocks b) (hbad : good cid = false) :
    ContestNode.Sound C deps good blocks b { n with held := n.held.evict cid } := by
  have hremoved : ContestNode.Sound C deps good blocks b
      { n with held := ⟨remove n.held.crdt cid, n.held.checks⟩, known := n.known } := by
    refine h.learn (fun _ hx => hx) h.addressed ?_ fun x hx => h.held x (mem_list_remove.mp hx).2
    convert h.covers using 1
    ext x
    constructor
    · exact fun hx => ⟨(mem_list_remove.mp hx.1).2, hx.2⟩
    · intro hx
      refine ⟨mem_list_remove.mpr ⟨fun heq => ?_, hx.1⟩, hx.2⟩
      have hgood : good x.cid = true := hx.2
      rw [heq, hbad] at hgood
      cases hgood
  refine hremoved.withChecks (fun cid' hcid => ?_) fun cid' hcid => ?_
  · rw [JsMap.has_delete, Bool.and_eq_true] at hcid
    exact h.recorded cid' hcid.2
  · rw [Holdings.isFullyVerified, JsMap.get?_delete] at hcid
    split_ifs at hcid
    · cases hcid
    · exact h.verified cid' hcid

/-- A prune drops what has expired or what a good entry stands for. -/
lemma ContestNode.Sound.prune (h : n.Sound C deps good blocks b) {bucket : ℕ} (hb : bucket ≤ b)
    (hpending : ∀ e ∈ n.held.crdt.list, n.held.isPending e.cid = false → good e.cid = true) :
    ContestNode.Sound C deps good blocks b { n with held := n.held.pruneCrdt deps bucket } := by
  -- an entry that is not held counts as eligible, so that this is what `prune` asks for
  have hprov : ∀ cid, n.held.isPending cid = false →
      (good cid || !n.held.crdt.has cid) = true := by
    intro cid hcid
    cases hhas : n.held.crdt.has cid with
    | false => simp
    | true =>
        obtain ⟨bundle, hget⟩ := Option.isSome_iff_exists.mp hhas
        simp [hpending ⟨cid, bundle⟩ (mem_list_iff.mpr hget) hcid]
  have heligible : ∀ m : Bundles, (∀ e ∈ m.list, e ∈ n.held.crdt.list) →
      m.eligible (fun cid => good cid || !n.held.crdt.has cid) = m.eligible good := by
    intro m hm
    ext e
    refine and_congr_right fun he => ?_
    have hhas : n.held.crdt.has e.cid = true :=
      Option.isSome_iff_exists.mpr ⟨_, mem_list_iff.mp (hm e he)⟩
    simp [hhas]
  have hsub : ∀ e ∈ (PubsubVoting.prune deps n.held.isPending n.held.crdt bucket).1.list,
      e ∈ n.held.crdt.list := fun e he => (mem_list_prune.mp he).1
  have hcovers : Lww.Covers Entry.wallet Entry.rank (Entry.Expired deps b)
      (n.held.crdt.eligible fun cid => good cid || !n.held.crdt.has cid)
      ((PubsubVoting.prune deps n.held.isPending n.held.crdt bucket).1.eligible
        fun cid => good cid || !n.held.crdt.has cid) := covers_prune hprov hb
  rw [heligible _ (fun _ he => he), heligible _ hsub] at hcovers
  exact h.learn (fun _ hx => hx) h.addressed (h.covers.trans isExpired_diesDown hcovers)
    fun e he => h.held e (hsub e he)

/-! ### A chase -/

/-- The blocks that peers serve belong to their addresses. -/
lemma contentAddressed_served (served : List Bytes) :
    ContentAddressed C (blocksByCid (served.map (blockForBytes C))) :=
  contentAddressed_blocksByCid (by simp [blockForBytes])

/-- A checkpoint that decodes starts a chase that has passed over nothing. -/
lemma RootPull.sound_pull (hB : Base58Canonical C) (hfree : CollisionFreeOn C {x | x ∈ blocks})
    {root : Cid} {served : List Bytes} {index : Option (List Cid)} {winners : List VotesBundle}
    (hserved : ∀ x ∈ served, x ∈ blocks)
    (hindex : ∀ chunks ∈ index, ∀ x ∈ C.encodeCanonical (checkpointRootValue chunks), x ∈ blocks)
    (haddressed : ∀ w ∈ winners, ∀ x ∈ encodeBundle C w, x ∈ blocks)
    (hdecode : decodeCheckpoint C root (blocksByCid (served.map (blockForBytes C))) index
      = some winners) : RootPull.Sound C good blocks known ⟨root, winners, .ahead, true⟩ := by
  refine ⟨haddressed, fun _ _ => trivial, fun _ => ⟨[], fun w hw => ?_, ?_⟩⟩
  · exact absurd hw List.not_mem_nil
  · rintro made result hresult rfl hblocks
    have hsub : decodedBytes C result (blocksByCid (served.map (blockForBytes C))) index
        ⊆ {x | x ∈ blocks} := by
      rintro x (⟨block, hmem, rfl⟩ | ⟨cid, hget⟩ | ⟨chunks, hchunks, hx⟩)
      · exact hblocks block hmem
      · obtain ⟨block, hfind, rfl⟩ := Option.map_eq_some_iff.mp hget
        have hmem := List.mem_reverse.mp (List.mem_of_find?_eq_some hfind)
        obtain ⟨y, hy, rfl⟩ := List.mem_map.mp hmem
        exact hserved y hy
      · exact hindex chunks hchunks x hx
    rcases (decodeCheckpoint_binds hB hresult (contentAddressed_served served)
      (hfree.mono hsub)).1 with hnone | hsome
    · rw [hnone] at hdecode
      cases hdecode
    · rw [hsome] at hdecode
      exact (Option.some.inj hdecode).symm

/-- A chase goes on at the same winner. -/
lemma RootPull.Sound.withStage (h : p.Sound C good blocks known)
    (hstage : ∀ w ∈ p.left.head?, stage.Sound good known (chasedCid C w)) :
    RootPull.Sound C good blocks known { p with stage := stage } :=
  ⟨h.addressed, hstage, h.whole⟩

/-- A chase goes on to the next winner. -/
lemma RootPull.Sound.next (h : p.Sound C good blocks known) {w : VotesBundle}
    {left : List VotesBundle} (hleft : p.left = w :: left) {whole : Bool}
    (hwhole : whole = true → p.whole = true ∧ chasedCid C w ∈ known.map Entry.cid) :
    RootPull.Sound C good blocks known ⟨p.root, left, .ahead, whole⟩ := by
  refine ⟨fun x hx => h.addressed x (by simp [hleft, hx]), fun _ _ => trivial, fun ht => ?_⟩
  obtain ⟨hp, hw⟩ := hwhole ht
  obtain ⟨gone, hgone, hall⟩ := h.whole hp
  refine ⟨gone ++ [w], fun x hx => ?_, fun winners result hresult hroot hblocks => ?_⟩
  · rcases List.mem_append.mp hx with hx | hx
    · exact hgone x hx
    · rwa [List.mem_singleton.mp hx]
  · rw [← hall winners result hresult hroot hblocks, hleft, List.append_assoc]
    rfl

/-- What a body does at a winner whose answers are in. -/
lemma chaseStep_cases {a : SeamAnswers} (haborted : a.aborted = false) (bundle : VotesBundle) :
    (∃ s, chaseStep C a ⟨[], [], false, [], []⟩ bundle = .next s ∧ s.admitted = []) ∨
      (∃ s v x, chaseStep C a ⟨[], [], false, [], []⟩ bundle = .next s ∧
        encodeBundle C bundle = some x ∧ s.admitted = [(⟨bundleCidForBytes C x, bundle⟩, v)] ∧
        (v = true → ∃ names, a.cached = some (.ok names))) ∨
      ∃ s, chaseStep C a ⟨[], [], false, [], []⟩ bundle = .threw s := by
  cases hbytes : encodeBundle C bundle with
  | none =>
      refine Or.inr (Or.inr ⟨⟨[], [], false, [], []⟩, ?_⟩)
      rw [chaseStep, haborted, if_neg Bool.false_ne_true, hbytes]
  | some bytes =>
      have hstep := chaseStep_eq hbytes a ⟨[], [], false, [], []⟩
      cases hi : iteration a with
      | stops =>
          rw [iteration_eq_stops_iff, haborted] at hi
          cases hi
      | throws =>
          rw [hi] at hstep
          obtain ⟨s', hflow, -, -⟩ := hstep
          exact Or.inr (Or.inr ⟨s', hflow⟩)
      | skips =>
          rw [hi] at hstep
          obtain ⟨s', hflow, -, hadmitted⟩ := hstep
          exact Or.inl ⟨s', hflow, hadmitted⟩
      | admits v =>
          have hv := (iteration_eq_admits_iff.mp hi).2.2.2
          rw [hi] at hstep
          cases v with
          | true =>
              obtain ⟨s', hflow, -, hadmitted⟩ := hstep
              refine Or.inr (Or.inl ⟨s', true, bytes, hflow, rfl, hadmitted, fun _ => ?_⟩)
              exact (hv.resolve_right fun hfalse => absurd hfalse.1 (by simp)).2
          | false =>
              obtain ⟨s', hflow, -, hadmitted⟩ := hstep
              exact Or.inr (Or.inl ⟨s', false, bytes, hflow, rfl, hadmitted, by simp⟩)

/-- Caching rejects makes no verdict valid. -/
lemma cached_of_foldl_reject {maxEntries : ℕ} {rejected : List (Cid × VerifyFail)}
    {cache : VerdictCache} {names : ResolvedNames}
    (h : (rejected.foldl (fun cache r => cache.set maxEntries r.1 (.error r.2)) cache).get? cid
      = some (.ok names)) : cache.get? cid = some (.ok names) := by
  induction rejected generalizing cache with
  | nil => exact h
  | cons r rejected ih =>
      rcases VerdictCache.get?_set_eq_some (ih h) with hold | ⟨-, hnew, -⟩
      · exact hold
      · cases hnew

/-- The body of the loop keeps the engine sound. -/
lemma ContestNode.Sound.writePulled (hB : Base58Canonical C)
    (hfree : CollisionFreeOn C {x | x ∈ blocks}) (h : n.Sound C deps good blocks b)
    {maxEntries k : ℕ} {a : SeamAnswers} {bundle : VotesBundle} {left : List VotesBundle}
    (hp : p.Sound C good blocks n.known) (hleft : p.left = bundle :: left)
    (hstage : p.stage = .answered a) :
    (n.writePulled C maxEntries k p a bundle left).Sound C deps good blocks b := by
  have ha : PullStage.Sound good n.known (chasedCid C bundle) (.answered a) :=
    hstage ▸ hp.stage bundle (by simp [hleft])
  obtain ⟨haborted, hknown, hcached⟩ := ha
  rw [ContestNode.writePulled]
  rcases chaseStep_cases haborted bundle with ⟨s, hs, hnone⟩ | ⟨s, v, x, hs, hx, hsome, hv⟩ |
    ⟨s, hs⟩
  · -- the winner is passed over, its reject perhaps cached
    rw [hs]
    simp only [hnone]
    have hcache : ContestNode.Sound C deps good blocks b { n with
        cache := s.rejected.foldl
          (fun cache r => cache.set maxEntries r.1 (.error r.2)) n.cache } :=
      ⟨h.addressed, h.covers, h.held, h.admitting, h.recorded, h.verified,
        fun cid names hget => h.cached cid names (cached_of_foldl_reject hget), h.pulls⟩
    refine hcache.put (hp.next hleft fun hwhole => ?_) k
    rw [Bool.and_eq_true, decide_eq_true_iff] at hwhole
    exact ⟨hwhole.1, hknown hwhole.2⟩
  · -- it is merged
    rw [hs]
    simp only [hsome]
    have hmem : x ∈ blocks := hp.addressed bundle (by simp [hleft]) x hx
    have hcid := chasedCid_eq hx
    refine (h.merge hB hfree (addressed_storedBundle hB hmem hx)).put ?_ k
    have hmono : p.Sound C good blocks
        (⟨bundleCidForBytes C x, storedBundle C bundle⟩ :: n.known) :=
      hp.mono fun cid => mem_map_cid_cons
    refine hmono.withStage fun w hw => ?_
    obtain rfl : bundle = w := by simpa [hleft] using hw
    refine ⟨hcid.symm, by simp [hcid], fun hverified => ?_⟩
    obtain ⟨names, hnames⟩ := hv hverified
    exact hcached names hnames
  · rw [hs]
    exact h.drop k

/-- A step of a chase keeps the engine sound. -/
lemma ContestNode.Sound.stepPull (hB : Base58Canonical C)
    (hfree : CollisionFreeOn C {x | x ∈ blocks}) (h : n.Sound C deps good blocks b)
    {maxEntries k : ℕ} (hk : n.pulls[k]? = some p) {i : RootPullInput} {n' : ContestNode}
    (hstep : n.stepPull C maxEntries k p i = some n') : n'.Sound C deps good blocks b := by
  have hp := h.pulls p (List.mem_of_getElem? hk)
  cases i with
  | ask =>
      rw [ContestNode.stepPull] at hstep
      split at hstep
      next bundle left hleft hstage =>
        obtain rfl := Option.some.inj hstep
        refine h.put (hp.withStage fun w hw => ?_) k
        obtain rfl : bundle = w := by simpa [hleft] using hw
        exact fun hhas => h.recorded _ hhas
      next => cases hstep
  | look isEvaluableNow verifyOffline admitted =>
      rw [ContestNode.stepPull] at hstep
      split at hstep
      next bundle left isAdmitted hleft hstage =>
        obtain rfl := Option.some.inj hstep
        have hasked := hp.stage bundle (by simp [hleft])
        rw [hstage] at hasked
        refine h.put (hp.withStage fun w hw => ?_) k
        obtain rfl : bundle = w := by simpa [hleft] using hw
        exact ⟨rfl, fun htrue => hasked (Option.some.inj htrue), fun names => h.cached _ names⟩
      next => cases hstep
  | write =>
      rw [ContestNode.stepPull] at hstep
      split at hstep
      next bundle left a hleft hstage =>
        obtain rfl := Option.some.inj hstep
        exact h.writePulled hB hfree hp hleft hstage
      next => cases hstep
  | record =>
      rw [ContestNode.stepPull] at hstep
      split at hstep
      next bundle left e verified hleft hstage =>
        obtain rfl := Option.some.inj hstep
        have hmerged := hp.stage bundle (by simp [hleft])
        rw [hstage] at hmerged
        obtain ⟨hcid, hknown, hverified⟩ := hmerged
        refine (h.record (hcid ▸ hknown) fun hfull => ?_).put
          (hp.next hleft fun hwhole => ⟨hwhole, hknown⟩) k
        cases verified with
        | true => exact hcid ▸ hverified rfl
        | false =>
            rw [Holdings.isFullyVerified, Holdings.record, get?_recordChecks, if_pos rfl] at hfull
            split_ifs at hfull
            · cases hfull
            · cases hfull
      next => cases hstep
  | stop =>
      obtain rfl := Option.some.inj hstep
      exact h.drop k

/-- **An event at an engine keeps it sound.** -/
theorem ContestNode.Sound.step (hB : Base58Canonical C)
    (hfree : CollisionFreeOn C {x | x ∈ blocks}) (h : n.Sound C deps good blocks b)
    {maxEntries : ℕ} {i : NodeInput} (hok : i.Truthful C good blocks b n) {n' : ContestNode}
    (hstep : n.step C deps maxEntries i = some n') : n'.Sound C deps good blocks b := by
  have hadmitting : ∀ e ∈ n.admitting, ∀ new : Entry,
      e.cid ∈ (new :: n.known).map Entry.cid := fun e he new => mem_map_cid_cons (h.admitting e he)
  cases i with
  | sign bundle =>
      obtain ⟨cid, hcid, rfl⟩ := Option.map_eq_some_iff.mp hstep
      obtain ⟨x, hx, rfl⟩ := Option.map_eq_some_iff.mp hcid
      have hset := h.set hB hfree (e := ⟨bundleCidForBytes C x, bundle⟩) ⟨x, hok x hx, hx, rfl⟩
      refine hset.withAdmitting fun e he => ?_
      rcases List.mem_cons.mp he with rfl | he
      · exact List.mem_cons_self
      · exact hadmitting e he _
  | hear bytes =>
      obtain ⟨bundle, hdecode, rfl⟩ := Option.map_eq_some_iff.mp hstep
      obtain ⟨hmem, hexact⟩ := hok
      have hmerge := h.merge hB hfree (e := ⟨bundleCidForBytes C bytes, bundle⟩)
        ⟨bytes, hmem, hexact bundle hdecode, rfl⟩
      refine hmerge.withAdmitting fun e he => ?_
      rcases List.mem_cons.mp he with rfl | he
      · exact List.mem_cons_self
      · exact hadmitting e he _
  | record e settled nameSettled =>
      rw [ContestNode.step] at hstep
      split_ifs at hstep with he
      obtain rfl := Option.some.inj hstep
      exact (h.record (h.admitting e he) hok).withAdmitting
        fun x hx => h.admitting x (List.mem_of_mem_erase hx)
  | settle cid key =>
      obtain rfl := Option.some.inj hstep
      exact h.settle hok
  | evict cid =>
      obtain rfl := Option.some.inj hstep
      exact h.evict hok
  | verdict cid v =>
      obtain rfl := Option.some.inj hstep
      refine ⟨h.addressed, h.covers, h.held, h.admitting, h.recorded, h.verified,
        fun cid' names hget => ?_, h.pulls⟩
      rcases VerdictCache.get?_set_eq_some hget with hold | ⟨rfl, hv, -⟩
      · exact h.cached cid' names hold
      · exact hok (hv ▸ rfl)
  | prune bucket =>
      obtain rfl := Option.some.inj hstep
      have hprune := h.prune hok.1 hok.2
      exact ⟨hprune.addressed, hprune.covers, hprune.held, hprune.admitting, hprune.recorded,
        hprune.verified, hprune.cached, hprune.pulls⟩
  | forget k =>
      obtain ⟨cids, -, rfl⟩ := Option.map_eq_some_iff.mp hstep
      have hforget := h.forget cids
      exact ⟨hforget.addressed, hforget.covers, hforget.held, hforget.admitting,
        hforget.recorded, hforget.verified, hforget.cached, hforget.pulls⟩
  | pull root served index =>
      obtain ⟨winners, hdecode, rfl⟩ := Option.map_eq_some_iff.mp hstep
      obtain ⟨hserved, hindex, haddressed⟩ := hok
      refine h.withPulls fun p hp => ?_
      rcases List.mem_append.mp hp with hp | hp
      · exact h.pulls p hp
      · rw [List.mem_singleton.mp hp]
        exact RootPull.sound_pull hB hfree hserved hindex (haddressed winners hdecode) hdecode
  | chase k i =>
      obtain ⟨p, hk, hstep⟩ := Option.bind_eq_some_iff.mp hstep
      exact h.stepPull hB hfree hk hstep

/-! ### The engines of a contest -/

/-- Every engine is sound, and so is every root that was advertised. -/
structure ContestNet.Sound {ι : Type} (C : Codecs) (deps : CrdtDeps) (good : Cid → Bool)
    (blocks : List Bytes) (b : ℕ) (s : ContestNet ι) : Prop where
  node : ∀ i, (s.node i).Sound C deps good blocks b
  roots : ∀ r ∈ s.roots, r.Sound C deps good blocks b

/-- An engine at rest serves the winners of everything good that it holds, and reads them too. -/
lemma ContestNode.Sound.currentEntries_eq (h : n.Sound C deps good blocks b)
    (hrest : n.atRest = true) (bucket : ℕ) :
    n.held.served deps bucket = currentEntries deps n.held.crdt bucket good ∧
      currentEntries deps n.held.crdt bucket everyCid
        = currentEntries deps n.held.crdt bucket good := by
  rw [ContestNode.atRest, List.all_eq_true] at hrest
  have hgood : ∀ e ∈ n.held.crdt.list, good e.cid = true :=
    fun e he => h.verified e.cid (hrest e he)
  unfold Holdings.served currentEntries winnersByWallet
  constructor
  · congr 3
    refine List.filter_congr fun e he => ?_
    rw [hrest e he, hgood e he]
  · congr 3
    refine List.filter_congr fun e he => ?_
    rw [hgood e he]
    rfl

/-- What is known and good has expired, or an unexpired winner stands for it. -/
lemma ContestNode.Sound.exists_current (h : n.Sound C deps good blocks b) {bucket : ℕ}
    (hb : bucket ≤ b) (he : e ∈ goodEntries good n.known) :
    e.Expired deps b ∨ ∃ w ∈ currentEntries deps n.held.crdt bucket good,
      w.wallet = e.wallet ∧ e.rank ≤ w.rank := by
  rcases h.covers.covers e he with hdead | ⟨y, hy, hkey, hle⟩
  · exact Or.inl hdead
  · cases hget : (winnersByWallet good n.held.crdt).get? y.wallet with
    | none => exact absurd rfl (get?_winnersByWallet_eq_none_iff.mp hget y hy.1 hy.2)
    | some w =>
        obtain ⟨-, hwallet, hmax⟩ := get?_winnersByWallet_iff.mp hget
        have hew : e.rank ≤ w.rank := hle.trans (hmax y hy.1 hy.2 rfl)
        have hkeys : w.wallet = e.wallet := hwallet.trans hkey
        cases hexpired : isExpired deps w.bundle bucket with
        | true =>
            exact Or.inl (isExpired_diesDown e w hkeys.symm hew (isExpired_mono hb hexpired))
        | false =>
            exact Or.inr ⟨w, mem_currentEntries_iff.mpr ⟨hwallet ▸ hget, hexpired⟩, hkeys, hew⟩

/-- **The checkpoint of a sound engine is a sound root.** -/
lemma AdvertisedRoot.sound_advertised (h : n.Sound C deps good blocks b) {bucket : ℕ}
    (hb : bucket ≤ b)
    (hblocks : ∀ r ∈ rootRecordOf C (n.held.served deps bucket), ∀ block ∈ r.2,
      block.bytes ∈ blocks) {r : AdvertisedRoot}
    (hr : ContestNet.advertised C deps n bucket = some r) :
    r.Sound C deps good blocks b := by
  obtain ⟨record, hrecord, rfl⟩ := Option.map_eq_some_iff.mp hr
  obtain ⟨result, hresult, rfl⟩ := Option.map_eq_some_iff.mp hrecord
  have hserved : ∀ e ∈ n.held.served deps bucket, e.Addressed C blocks ∧ good e.cid = true := by
    intro e he
    obtain ⟨⟨hmem, hverified⟩, -⟩ := (Holdings.mem_served_iff.mp he).1
    exact ⟨h.addressed e (h.held e hmem), h.verified e.cid hverified⟩
  refine ⟨⟨result, hresult, rfl, hblocks _ hrecord⟩, fun e he => ?_, hserved, fun e he => ?_⟩
  · dsimp only at he
    split_ifs at he
    · exact h.addressed e he
    · exact (hserved e he).1
  · obtain ⟨hknown, hgood⟩ := he
    dsimp only at hknown
    split_ifs at hknown with hrest
    · rw [(h.currentEntries_eq hrest bucket).1]
      exact h.exists_current hb ⟨hknown, hgood⟩
    · exact Or.inr ⟨e, hknown, rfl, le_rfl⟩

/-- A root that was pulled whole: what it stands for is known, and stood for. -/
lemma ContestNode.Sound.learnt (hB : Base58Canonical C) (hfree : CollisionFreeOn C {x | x ∈ blocks})
    (h : n.Sound C deps good blocks b) (hp : p.Sound C good blocks n.known) (hleft : p.left = [])
    (hwhole : p.whole = true) {roots : List AdvertisedRoot}
    (hroots : ∀ r ∈ roots, r.Sound C deps good blocks b ∧ r.root = p.root) :
    ContestNode.Sound C deps good blocks b
      { n with known := n.known ++ roots.flatMap AdvertisedRoot.known } := by
  obtain ⟨gone, hgone, hall⟩ := hp.whole hwhole
  -- a winner of the root is known here, under its address
  have hwinners : ∀ r ∈ roots, ∀ w ∈ r.winners,
      ∃ e ∈ goodEntries good n.known, e.wallet = w.wallet ∧ w.rank ≤ e.rank := by
    intro r hr w hw
    obtain ⟨hsound, hroot⟩ := hroots r hr
    obtain ⟨haddressed, hgood⟩ := hsound.winners w hw
    obtain ⟨result, hresult, hresultRoot, hblocks⟩ := hsound.encoded
    have hmem : canonicalBundle w.bundle ∈ gone := by
      have heq := hall _ result hresult (hresultRoot.trans hroot) hblocks
      rw [hleft, List.append_nil] at heq
      rw [heq]
      refine List.mem_map_of_mem ?_
      rw [sortWinners, List.mem_insertionSort]
      exact List.mem_map_of_mem hw
    obtain ⟨x, hx, hencode, hcid⟩ := haddressed
    have hchased : chasedCid C (canonicalBundle w.bundle) = w.cid := by
      rw [chasedCid_eq (encodeBundle_canonicalBundle hB hencode), hcid]
    obtain ⟨e, he, hecid⟩ := List.mem_map.mp (hgone _ hmem)
    rw [hchased] at hecid
    obtain ⟨hwallet, hrank, -⟩ := Entry.Addressed.eq_of_cid_eq hB hfree (h.addressed e he)
      ⟨x, hx, hencode, hcid⟩ hecid
    exact ⟨e, ⟨he, hecid ▸ hgood⟩, hwallet, hrank.ge⟩
  have hunion := h.covers.union isExpired_diesDown
    (u := goodEntries good (roots.flatMap AdvertisedRoot.known)) fun x hx => by
      obtain ⟨hmem, hgood⟩ := hx
      obtain ⟨r, hr, hknown⟩ := List.mem_flatMap.mp hmem
      rcases (hroots r hr).1.stands x ⟨hknown, hgood⟩ with hdead | ⟨w, hw, hwallet, hle⟩
      · exact Or.inl hdead
      · obtain ⟨e, he, hewallet, hrank⟩ := hwinners r hr w hw
        exact Or.inr ⟨e, he, hewallet.trans hwallet, hle.trans hrank⟩
  refine h.learn (fun e he => List.mem_append_left _ he) (fun e he => ?_) ?_
    fun e he => List.mem_append_left _ (h.held e he)
  · rcases List.mem_append.mp he with he | he
    · exact h.addressed e he
    · obtain ⟨r, hr, hknown⟩ := List.mem_flatMap.mp he
      exact (hroots r hr).1.addressed e hknown
  · convert hunion using 1
    ext x
    simp only [goodEntries, List.mem_append, Set.mem_ofPred_eq, Set.mem_union, or_and_right]

variable {ι : Type} [DecidableEq ι] {s t : ContestNet ι}

lemma ContestNet.Sound.set (h : s.Sound C deps good blocks b) {i : ι}
    (hn : n.Sound C deps good blocks b) : (s.set i n).Sound C deps good blocks b := by
  refine ⟨fun j => ?_, h.roots⟩
  show (Function.update s.node i n j).Sound C deps good blocks b
  by_cases hj : j = i
  · subst hj
    rwa [Function.update_self]
  · rw [Function.update_of_ne hj]
    exact h.node j

/-- **An event keeps every engine and every root sound.** -/
theorem ContestNet.Sound.step (hB : Base58Canonical C)
    (hfree : CollisionFreeOn C {x | x ∈ blocks}) (h : s.Sound C deps good blocks b)
    {maxEntries : ℕ} {i : NetInput ι} (hok : i.Truthful C good blocks b deps s)
    (hstep : s.step C deps maxEntries i = some t) : t.Sound C deps good blocks b := by
  cases i with
  | engine i input =>
      obtain ⟨n, hn, rfl⟩ := Option.map_eq_some_iff.mp hstep
      exact h.set ((h.node i).step hB hfree hok hn)
  | advertise i bucket =>
      obtain ⟨r, hr, rfl⟩ := Option.map_eq_some_iff.mp hstep
      refine ⟨h.node, fun r' hr' => ?_⟩
      rcases List.mem_append.mp hr' with hr' | hr'
      · exact h.roots r' hr'
      · rw [List.mem_singleton.mp hr']
        exact AdvertisedRoot.sound_advertised (h.node i) hok.1 hok.2 hr
  | finish i k =>
      obtain ⟨p, hk, hstep⟩ := Option.bind_eq_some_iff.mp hstep
      have hp := (h.node i).pulls p (List.mem_of_getElem? hk)
      split at hstep
      next hleft hstage =>
        obtain rfl := Option.some.inj hstep
        refine h.set ?_
        rw [ContestNet.learnt]
        split_ifs with hwhole
        · have hroots : ∀ r ∈ s.roots.filter fun r => r.root = p.root,
              r.Sound C deps good blocks b ∧ r.root = p.root := by
            intro r hr
            obtain ⟨hmem, hroot⟩ := List.mem_filter.mp hr
            exact ⟨h.roots r hmem, by simpa using hroot⟩
          exact ((h.node i).learnt hB hfree hp hleft hwhole hroots).drop k
        · exact (h.node i).drop k
      next => cases hstep

omit [DecidableEq ι] in
lemma ContestNet.sound_init : (ContestNet.init : ContestNet ι).Sound C deps good blocks b := by
  refine ⟨fun i => ⟨?_, ⟨?_, ?_⟩, ?_, ?_, ?_, ?_, ?_, ?_⟩, ?_⟩
  · exact fun e he => absurd he List.not_mem_nil
  · rintro e ⟨he, -⟩
    exact absurd he List.not_mem_nil
  · rintro e ⟨he, -⟩
    exact absurd he List.not_mem_nil
  · exact fun e he => absurd he List.not_mem_nil
  · exact fun e he => absurd he List.not_mem_nil
  · exact fun cid hcid => absurd hcid Bool.false_ne_true
  · exact fun cid hcid => absurd hcid Bool.false_ne_true
  · intro cid names hget
    cases hget
  · exact fun p hp => absurd hp List.not_mem_nil
  · exact fun r hr => absurd hr List.not_mem_nil

/-! ### Agreement -/

/-- **What an engine reads**: the live maxima of everything good that it knows. -/
lemma ContestNode.Sound.mem_currentEntries_iff (h : n.Sound C deps good blocks b) :
    cid ∈ (currentEntries deps n.held.crdt b good).map Entry.cid ↔
      ∃ e, LiveMaximum deps b (n.known.filter fun e => good e.cid) e ∧ e.cid = cid := by
  rw [List.mem_map]
  constructor
  · rintro ⟨e, he, rfl⟩
    obtain ⟨hwins, hlive⟩ := mem_currentEntries_iff_wins.mp he
    obtain ⟨hmem, hmax⟩ := h.covers.top isExpired_diesDown (by simp [Entry.Expired, hlive]) hwins
    refine ⟨e, ⟨List.mem_filter.mpr hmem, fun x hx hwallet => ?_, hlive⟩, rfl⟩
    exact hmax x (List.mem_filter.mp hx) hwallet
  · rintro ⟨e, ⟨hmem, hmax, hlive⟩, rfl⟩
    obtain ⟨y, hwins, -, hrank⟩ := h.covers.exists_top (e := e) (by simp [Entry.Expired, hlive])
      ⟨List.mem_filter.mp hmem, fun x hx hwallet => hmax x (List.mem_filter.mpr hx) hwallet⟩
    refine ⟨y, mem_currentEntries_iff_wins.mpr ⟨hwins, ?_⟩, Entry.cid_eq_of_rank_eq hrank⟩
    rw [isExpired_eq_of_rank_eq hrank, hlive]

end

end PubsubVoting
