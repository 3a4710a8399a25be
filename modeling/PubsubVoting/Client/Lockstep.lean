import PubsubVoting.Client.RootRecord

/-!
Membership and check state in lockstep: an admission merges its bundle and records its checks an
await later, a prune drops bundles and forgets their checks an await later, and an eviction does
both at once.

* `Lockstep`: the engine with its admissions between merge and record.
* `Lockstep.InOrder`: what the gaps must not see.
* `Lockstep.Paired`: the two maps agree up to the admissions and prunes under way.
* `mem_crdt_of_fallback`: the predecessor of a bundle that is evicted is not pruned before.
* `lockstep_held`: in a run in order both hold; `lockstep_broken`: out of order neither does.
-/

namespace PubsubVoting

/-! ### The engine and its admissions -/

/-- Two spellings of one vote: what ranking and expiry look at is the same. -/
def SameVote (b b' : VotesBundle) : Prop := b.wallet = b'.wallet ∧ b.blockNumber = b'.blockNumber

/-- The entry an address stands for. -/
def votedAt (bundleAt : Cid → VotesBundle) (cid : Cid) : Entry := ⟨cid, bundleAt cid⟩

lemma SameVote.wallet_eq {e : Entry} {bundleAt : Cid → VotesBundle}
    (h : SameVote e.bundle (bundleAt e.cid)) : e.wallet = (votedAt bundleAt e.cid).wallet := h.1

lemma SameVote.rank_eq {e : Entry} {bundleAt : Cid → VotesBundle}
    (h : SameVote e.bundle (bundleAt e.cid)) : e.rank = (votedAt bundleAt e.cid).rank := by
  rw [Entry.rank, Entry.rank, h.2]
  rfl

lemma SameVote.isExpired_eq {b b' : VotesBundle} (h : SameVote b b') (deps : CrdtDeps)
    (bucket : ℕ) : isExpired deps b bucket = isExpired deps b' bucket := by
  rw [isExpired, isExpired, h.2]

/-- Every address stands for one vote. -/
def RootInput.Addressed (C : Codecs) (bundleAt : Cid → VotesBundle) : RootInput → Prop
  | .merge cid bundle => SameVote bundle (bundleAt cid)
  | .add bundle => ∀ cid, bundleCid C bundle = some cid → SameVote bundle (bundleAt cid)
  | _ => True

/-- The winners of the working set with no check pending: for these a prune drops what they
supersede. -/
def Holdings.unshielding (h : Holdings) : List Cid :=
  ((winnersByWallet everyCid h.crdt).values.filter fun w => !h.isPending w.cid).map Entry.cid

/-- An engine, and its admissions between merge and record. -/
structure Lockstep extends RootState where
  merged : List Cid
  /-- the bundles some prune found as winners with no check pending -/
  unshielding : List Cid

namespace Lockstep

/-- An engine that holds nothing. -/
def init : Lockstep := ⟨.init, [], []⟩

section

variable (C : Codecs) (deps : CrdtDeps)

/-- An admission records the checks of what it merged. -/
def follows (s : Lockstep) : RootInput → Bool
  | .record e _ _ => decide (e.cid ∈ s.merged)
  | _ => true

/-- The admissions between merge and record, after a step. -/
def mergedAfter (s : Lockstep) : RootInput → List Cid
  | .merge cid _ => s.merged ++ [cid]
  | .add bundle => s.merged ++ (bundleCid C bundle).toList
  | .record e _ _ => s.merged.erase e.cid
  | _ => s.merged

/-- The winners found with no check pending, after a step. -/
def unshieldingAfter (s : Lockstep) : RootInput → List Cid
  | .prune _ => s.unshielding ++ s.held.unshielding
  | _ => s.unshielding

/-- One step. -/
def step (s : Lockstep) (i : RootInput) : Option Lockstep :=
  if s.follows i then
    (s.toRootState.step C deps i).map fun r => ⟨r, s.mergedAfter C i, s.unshieldingAfter i⟩
  else none

end

/-- A step in order. An admission that records its checks still has its bundle in the working set,
or a prune that dropped it has yet to forget it; a prune forgets no bundle that is back, unless an
admission of it has yet to record; and no bundle is evicted that a prune found as a winner with no
check pending. -/
def InOrder (s : Lockstep) : RootInput → Prop
  | .record e _ _ => s.held.crdt.has e.cid = true ∨ ∃ p ∈ s.prunes, e.cid ∈ p.cids
  | .forget p => ∀ cid ∈ p.cids, s.held.crdt.has cid = true → cid ∈ s.merged
  | .evict cid => cid ∉ s.unshielding
  | _ => True

instance (s : Lockstep) (i : RootInput) : Decidable (s.InOrder i) := by
  cases i <;> unfold InOrder <;> infer_instance

/-- The two maps agree, up to the admissions and the prunes under way; and every entry is a vote its
address stands for. -/
structure Paired (bundleAt : Cid → VotesBundle) (s : Lockstep) : Prop where
  unrecorded : ∀ cid, s.held.crdt.has cid = true → s.held.checks.has cid = false → cid ∈ s.merged
  unforgotten : ∀ cid, s.held.checks.has cid = true → s.held.crdt.has cid = false →
    ∃ p ∈ s.prunes, cid ∈ p.cids
  addressed : ∀ e ∈ s.held.crdt.list, SameVote e.bundle (bundleAt e.cid)

end Lockstep

/-! ### What the operations do to the two maps -/

section

variable {h : Holdings} {cid x : Cid}

lemma has_merge {bundle : VotesBundle} :
    (h.merge cid bundle).crdt.has x = (decide (x = cid) || h.crdt.has x) := by
  unfold Holdings.merge integrate
  simp only
  split_ifs with hhas
  · by_cases hx : x = cid
    · subst hx
      simp [hhas]
    · simp [hx]
  · exact JsMap.has_set _ _ _ _

lemma has_recordChecks {checks : Checks} {e : Entry} {settled nameSettled : Bool} :
    (recordChecks checks e settled nameSettled).has x = (decide (x = e.cid) || checks.has x) :=
  JsMap.has_set _ _ _ _

lemma has_settleCheck {checks : Checks} {key : CheckKey} :
    (settleCheck checks cid key).has x = checks.has x := by
  rw [JsMap.has, JsMap.has, get?_settleCheck]
  by_cases hx : x = cid
  · subst hx
    rw [if_pos rfl, Option.isSome_map]
  · rw [if_neg hx]

lemma has_forget {cids : List Cid} :
    (h.forget cids).checks.has x = (decide (x ∉ cids) && h.checks.has x) := by
  rw [JsMap.has, JsMap.has, get?_forget]
  by_cases hx : x ∈ cids <;> simp [hx]

lemma has_crdt_iff {m : Bundles} : m.has x = true ↔ ∃ e ∈ m.list, e.cid = x := by
  rw [JsMap.has, Option.isSome_iff_exists]
  constructor
  · rintro ⟨bundle, hget⟩
    exact ⟨⟨x, bundle⟩, mem_list_iff.mpr hget, rfl⟩
  · rintro ⟨e, he, rfl⟩
    exact ⟨e.bundle, mem_list_iff.mp he⟩

variable {deps : CrdtDeps} {bucket : ℕ}

/-- A prune drops an entry or keeps it. -/
lemma has_pruneCrdt : (h.pruneCrdt deps bucket).crdt.has x = true ↔
    h.crdt.has x = true ∧ x ∉ h.pruned deps bucket := by
  rw [has_crdt_iff, has_crdt_iff]
  constructor
  · rintro ⟨e, he, rfl⟩
    obtain ⟨hin, hkept⟩ := mem_list_prune.mp he
    refine ⟨⟨e, hin, rfl⟩, fun hmem => ?_⟩
    obtain ⟨e', he', hdropped, hcid⟩ := mem_pruned_iff.mp hmem
    rw [eq_of_cid_eq he' hin hcid, hkept] at hdropped
    cases hdropped
  · rintro ⟨⟨e, hin, rfl⟩, hnot⟩
    refine ⟨e, mem_list_prune.mpr ⟨hin, ?_⟩, rfl⟩
    by_contra hdropped
    exact hnot (mem_pruned_iff.mpr ⟨e, hin, Bool.eq_true_of_not_eq_false hdropped, rfl⟩)

/-- **What a prune drops unexpired** is superseded by a winner with no check pending. -/
lemma exists_unshielding_of_pruned {e : Entry} (he : e ∈ h.crdt.list)
    (hpruned : e.cid ∈ h.pruned deps bucket)
    (hlive : isExpired deps e.bundle bucket = false) :
    ∃ w ∈ h.crdt.list, w.cid ∈ h.unshielding ∧ w.wallet = e.wallet ∧ e.rank < w.rank ∧
      Wins h.crdt everyCid w := by
  obtain ⟨e', he', hdropped, hcid⟩ := mem_pruned_iff.mp hpruned
  obtain rfl := eq_of_cid_eq he' he hcid
  rcases expired_or_superseded_of_isPruned he hdropped with hexpired | ⟨w, hwins, hwallet, hw⟩
  · rw [hlive] at hexpired
    cases hexpired
  · have hle : e'.rank ≤ w.rank := hwins.2 e' ⟨he, rfl⟩ hwallet.symm
    have hne : e'.rank ≠ w.rank := by
      intro heq
      obtain rfl := wins_unique he hwins.1.1 heq
      rw [isPruned_of_wins hwins hlive] at hdropped
      cases hdropped
    refine ⟨w, hwins.1.1, ?_, hwallet, lt_of_le_of_ne hle hne, hwins⟩
    refine List.mem_map.mpr ⟨w, List.mem_filter.mpr ⟨?_, by simp [hw]⟩, rfl⟩
    exact List.mem_map.mpr ⟨(w.wallet, w), JsMap.get?_eq_some_iff.mp (wins_iff.mp hwins), rfl⟩

end

namespace Lockstep

variable {C : Codecs} {deps : CrdtDeps} {bundleAt : Cid → VotesBundle} {s s' : Lockstep}

/-! ### One step -/

lemma paired_init : init.Paired bundleAt where
  unrecorded := fun _ h => nomatch h
  unforgotten := fun _ h => nomatch h
  addressed := fun _ h => nomatch h

/-- A step that changes neither map. -/
lemma Paired.of_eq (h : s.Paired bundleAt) (hcrdt : s'.held.crdt = s.held.crdt)
    (hchecks : ∀ cid, s'.held.checks.has cid = s.held.checks.has cid)
    (hmerged : s.merged ⊆ s'.merged) (hprunes : s'.prunes = s.prunes) : s'.Paired bundleAt where
  unrecorded := fun cid hin hout => by
    rw [hcrdt] at hin
    rw [hchecks] at hout
    exact hmerged (h.unrecorded cid hin hout)
  unforgotten := fun cid hin hout => by
    rw [hchecks] at hin
    rw [hcrdt] at hout
    rw [hprunes]
    exact h.unforgotten cid hin hout
  addressed := fun e he => h.addressed e (hcrdt ▸ he)

/-- A bundle that is merged, its checks still to be recorded. -/
lemma Paired.merged {bundle : VotesBundle} {cid : Cid} {crdt : Bundles} (h : s.Paired bundleAt)
    (hsame : SameVote bundle (bundleAt cid))
    (hhas : ∀ x, crdt.has x = (decide (x = cid) || s.held.crdt.has x))
    (hlist : ∀ e ∈ crdt.list, e ∈ s.held.crdt.list ∨ e = ⟨cid, bundle⟩)
    (hcrdt : s'.held.crdt = crdt) (hchecks : s'.held.checks = s.held.checks)
    (hmerged : s'.merged = s.merged ++ [cid]) (hprunes : s'.prunes = s.prunes) :
    s'.Paired bundleAt where
  unrecorded := fun x hin hout => by
    rw [hcrdt, hhas, Bool.or_eq_true, decide_eq_true_iff] at hin
    rw [hchecks] at hout
    rw [hmerged, List.mem_append, List.mem_singleton]
    exact hin.symm.imp_left fun hin => h.unrecorded x hin hout
  unforgotten := fun x hin hout => by
    rw [hcrdt, hhas, Bool.or_eq_false_iff] at hout
    rw [hchecks] at hin
    rw [hprunes]
    exact h.unforgotten x hin hout.2
  addressed := fun e he => by
    rcases hlist e (hcrdt ▸ he) with he | rfl
    · exact h.addressed e he
    · exact hsame

lemma toRootState_of_step {i : RootInput} (hstep : s.step C deps i = some s') :
    s.follows i = true ∧ s.toRootState.step C deps i = some s'.toRootState ∧
      s'.merged = s.mergedAfter C i ∧ s'.unshielding = s.unshieldingAfter i := by
  rw [Lockstep.step] at hstep
  split_ifs at hstep with hfollows
  obtain ⟨r, hr, rfl⟩ := Option.map_eq_some_iff.mp hstep
  exact ⟨hfollows, hr, rfl, rfl⟩

/-- Checks that are recorded: their bundle is in the working set, or a prune that dropped it has yet
to forget it. -/
lemma Paired.recorded {cid : Cid} (h : s.Paired bundleAt)
    (horder : s.held.crdt.has cid = true ∨ ∃ p ∈ s.prunes, cid ∈ p.cids)
    (hcrdt : s'.held.crdt = s.held.crdt)
    (hchecks : ∀ x, s'.held.checks.has x = (decide (x = cid) || s.held.checks.has x))
    (hmerged : s'.merged = s.merged.erase cid) (hprunes : s'.prunes = s.prunes) :
    s'.Paired bundleAt where
  unrecorded := fun x hin hout => by
    rw [hchecks, Bool.or_eq_false_iff, decide_eq_false_iff_not] at hout
    rw [hmerged]
    exact (List.mem_erase_of_ne hout.1).mpr (h.unrecorded x (hcrdt ▸ hin) hout.2)
  unforgotten := fun x hin hout => by
    rw [hchecks, Bool.or_eq_true, decide_eq_true_iff] at hin
    rw [hcrdt] at hout
    rw [hprunes]
    rcases hin with rfl | hin
    · rcases horder with hhas | hpruned
      · exact Bool.noConfusion (hout.symm.trans hhas)
      · exact hpruned
    · exact h.unforgotten x hin hout
  addressed := fun e he => h.addressed e (hcrdt ▸ he)

/-- An eviction takes an address out of both maps. -/
lemma Paired.evicted (h : s.Paired bundleAt) (cid : Cid)
    (hcrdt : ∀ x, s'.held.crdt.has x = (decide (x ≠ cid) && s.held.crdt.has x))
    (hchecks : ∀ x, s'.held.checks.has x = (decide (x ≠ cid) && s.held.checks.has x))
    (hlist : ∀ e ∈ s'.held.crdt.list, e ∈ s.held.crdt.list)
    (hmerged : s'.merged = s.merged) (hprunes : s'.prunes = s.prunes) : s'.Paired bundleAt where
  unrecorded := fun x hin hout => by
    rw [hcrdt, Bool.and_eq_true] at hin
    rw [hchecks, hin.1, Bool.true_and] at hout
    rw [hmerged]
    exact h.unrecorded x hin.2 hout
  unforgotten := fun x hin hout => by
    rw [hchecks, Bool.and_eq_true] at hin
    rw [hcrdt, hin.1, Bool.true_and] at hout
    rw [hprunes]
    exact h.unforgotten x hin.2 hout
  addressed := fun e he => h.addressed e (hlist e he)

/-- A prune drops bundles whose checks it has yet to forget. -/
lemma Paired.pruned (h : s.Paired bundleAt) (heartbeat : Bool)
    (hheld : s'.held = s.held.pruneCrdt deps s.currentBucket) (hmerged : s'.merged = s.merged)
    (hprunes : s'.prunes = s.prunes ++ [⟨s.held.pruned deps s.currentBucket, heartbeat⟩]) :
    s'.Paired bundleAt where
  unrecorded := fun x hin hout => by
    rw [hheld] at hin hout
    rw [hmerged]
    exact h.unrecorded x (has_pruneCrdt.mp hin).1 hout
  unforgotten := fun x hin hout => by
    rw [hheld] at hin hout
    rw [hprunes]
    -- it was not held before, or this prune dropped it
    by_cases hhad : s.held.crdt.has x = true
    · refine ⟨_, List.mem_append_right _ List.mem_cons_self, ?_⟩
      by_contra hnot
      exact Bool.noConfusion (hout.symm.trans (has_pruneCrdt.mpr ⟨hhad, hnot⟩))
    · obtain ⟨p, hp, hx⟩ := h.unforgotten x hin (Bool.eq_false_of_not_eq_true hhad)
      exact ⟨p, List.mem_append_left _ hp, hx⟩
  addressed := fun e he => by
    rw [hheld] at he
    exact h.addressed e (mem_list_prune.mp he).1

/-- A prune forgets the checks of what it dropped, none of which is back for good. -/
lemma Paired.forgotten {p : PruneHalf} (h : s.Paired bundleAt)
    (horder : ∀ cid ∈ p.cids, s.held.crdt.has cid = true → cid ∈ s.merged)
    (hcrdt : s'.held.crdt = s.held.crdt)
    (hchecks : ∀ x, s'.held.checks.has x = (decide (x ∉ p.cids) && s.held.checks.has x))
    (hmerged : s'.merged = s.merged) (hprunes : s'.prunes = s.prunes.erase p) :
    s'.Paired bundleAt where
  unrecorded := fun x hin hout => by
    rw [hcrdt] at hin
    rw [hmerged]
    by_cases hx : x ∈ p.cids
    · exact horder x hx hin
    · rw [hchecks, decide_eq_true hx, Bool.true_and] at hout
      exact h.unrecorded x hin hout
  unforgotten := fun x hin hout => by
    rw [hchecks, Bool.and_eq_true, decide_eq_true_iff] at hin
    rw [hcrdt] at hout
    obtain ⟨q, hq, hx⟩ := h.unforgotten x hin.2 hout
    have hne : q ≠ p := fun heq => hin.1 (heq ▸ hx)
    rw [hprunes]
    exact ⟨q, (List.mem_erase_of_ne hne).mpr hq, hx⟩
  addressed := fun e he => h.addressed e (hcrdt ▸ he)

/-- **A step in order keeps the two maps paired.** -/
theorem Paired.step (h : s.Paired bundleAt) {i : RootInput} (horder : s.InOrder i)
    (haddr : i.Addressed C bundleAt) (hstep : s.step C deps i = some s') : s'.Paired bundleAt := by
  obtain ⟨hfollows, hroot, hmerged, -⟩ := toRootState_of_step hstep
  have hstays : s'.held = s.held → s'.prunes = s.prunes → s'.merged = s.merged →
      s'.Paired bundleAt := by
    intro hheld hprunes hmerged
    refine h.of_eq (by rw [hheld]) (fun _ => by rw [hheld]) ?_ hprunes
    rw [hmerged]
    exact List.Subset.refl _
  cases i with
  | merge cid bundle =>
      have hs' := Option.some.inj hroot
      refine h.merged haddr (fun x => has_merge) (fun e he => ?_) (by rw [← hs'])
        (by rw [← hs']; rfl) hmerged (by rw [← hs'])
      exact (mem_list_integrate.mp he).imp_right And.right
  | add bundle =>
      obtain ⟨cid, hcid, hs'⟩ := Option.map_eq_some_iff.mp hroot
      have hcrdt : s'.held.crdt = s.held.crdt.set cid bundle := by rw [← hs']; rfl
      refine h.merged (haddr cid hcid) (fun x => JsMap.has_set _ _ _ _) (fun e he => ?_) hcrdt
        (by rw [← hs']; rfl) ?_ (by rw [← hs'])
      · exact (mem_list_set.mp he).symm.imp_left And.right
      · rw [hmerged, mergedAfter, hcid]
        rfl
  | record e settled nameSettled =>
      have hs' := Option.some.inj hroot
      refine h.recorded horder (by rw [← hs']; rfl) (fun x => ?_) hmerged (by rw [← hs'])
      rw [← hs']
      exact has_recordChecks
  | mark =>
      have hs' := Option.some.inj hroot
      exact hstays (by rw [← hs']; rfl) (by rw [← hs']; rfl) hmerged
  | settle cid key =>
      simp only [RootState.step] at hroot
      split_ifs at hroot
      · have hs' := Option.some.inj hroot
        refine h.of_eq (by rw [← hs']; rfl) (fun x => ?_) ?_ (by rw [← hs']; rfl)
        · rw [← hs']
          exact has_settleCheck
        · rw [hmerged]
          exact List.Subset.refl _
      · have hs' := Option.some.inj hroot
        exact hstays (by rw [← hs']) (by rw [← hs']) hmerged
  | evict cid =>
      have hs' := Option.some.inj hroot
      refine h.evicted cid (fun x => ?_) (fun x => ?_) (fun e he => ?_) hmerged (by rw [← hs']; rfl)
      · rw [← hs']
        exact JsMap.has_delete _ _ _
      · rw [← hs']
        exact JsMap.has_delete _ _ _
      · rw [← hs'] at he
        exact (mem_list_remove.mp he).2
  | head bucket =>
      have hs' := Option.some.inj hroot
      exact hstays (by rw [← hs']) (by rw [← hs']) hmerged
  | prune heartbeat =>
      have hs' := Option.some.inj hroot
      refine h.pruned heartbeat (by rw [← hs']; rfl) hmerged ?_
      rw [← hs']
      rfl
  | forget p =>
      simp only [RootState.step] at hroot
      split_ifs at hroot with hp
      have hs' := Option.some.inj hroot
      refine h.forgotten horder (by rw [← hs']; rfl) (fun x => ?_) hmerged (by rw [← hs']; rfl)
      rw [← hs']
      exact has_forget
  | rejoin =>
      have hs' := Option.some.inj hroot
      exact hstays (by rw [← hs']) (by rw [← hs']) hmerged
  | call k =>
      obtain ⟨hheld, hprunes⟩ := RootState.frame_of_isCall rfl hroot
      exact hstays hheld hprunes hmerged
  | headRead k bucket =>
      obtain ⟨hheld, hprunes⟩ := RootState.frame_of_isCall rfl hroot
      exact hstays hheld hprunes hmerged
  | resume k =>
      obtain ⟨hheld, hprunes⟩ := RootState.frame_of_isCall rfl hroot
      exact hstays hheld hprunes hmerged
  | finish k =>
      obtain ⟨hheld, hprunes⟩ := RootState.frame_of_isCall rfl hroot
      exact hstays hheld hprunes hmerged

/-! ### The predecessor of a bundle that is evicted -/

/-- A step on which `g` is the only bundle held that supersedes `a`, and `a` neither expires nor is
evicted itself. -/
def Fallback (deps : CrdtDeps) (bundleAt : Cid → VotesBundle) (a g : Cid) (s : Lockstep)
    (i : RootInput) : Prop :=
  (∀ e ∈ s.held.crdt.list, e.wallet = (votedAt bundleAt a).wallet →
    (votedAt bundleAt a).rank < e.rank → e.cid = g) ∧
  isExpired deps (bundleAt a) s.currentBucket = false ∧ i ≠ .evict a

/-- What the working set holds stays in it, but for evictions and prunes. -/
lemma has_crdt_step {i : RootInput} {a : Cid} (hhas : s.held.crdt.has a = true)
    (hevict : i ≠ .evict a) (hstep : s.step C deps i = some s') :
    s'.held.crdt.has a = true ∨
      a ∈ s.held.pruned deps s.currentBucket ∧ ∃ heartbeat, i = .prune heartbeat := by
  obtain ⟨-, hroot, -, -⟩ := toRootState_of_step hstep
  cases i with
  | merge cid bundle =>
      have hs' := Option.some.inj hroot
      refine .inl ?_
      rw [← hs', has_merge, hhas, Bool.or_true]
  | add bundle =>
      obtain ⟨cid, hcid, hs'⟩ := Option.map_eq_some_iff.mp hroot
      refine .inl ?_
      rw [← hs']
      exact (JsMap.has_set _ _ _ _).trans (by rw [hhas, Bool.or_true])
  | settle cid key =>
      simp only [RootState.step] at hroot
      split_ifs at hroot
      · have hs' := Option.some.inj hroot
        exact .inl (by rw [← hs']; exact hhas)
      · have hs' := Option.some.inj hroot
        exact .inl (by rw [← hs']; exact hhas)
  | evict cid =>
      have hs' := Option.some.inj hroot
      have hne : a ≠ cid := fun heq => hevict (heq ▸ rfl)
      refine .inl ?_
      rw [← hs']
      exact (JsMap.has_delete _ _ _).trans (by simp [hne, hhas])
  | prune heartbeat =>
      have hs' := Option.some.inj hroot
      by_cases hpruned : a ∈ s.held.pruned deps s.currentBucket
      · exact .inr ⟨hpruned, heartbeat, rfl⟩
      · exact .inl (by rw [← hs']; exact has_pruneCrdt.mpr ⟨hhas, hpruned⟩)
  | forget p =>
      simp only [RootState.step] at hroot
      split_ifs at hroot
      have hs' := Option.some.inj hroot
      exact .inl (by rw [← hs']; exact hhas)
  | call k => exact .inl ((RootState.frame_of_isCall rfl hroot).1 ▸ hhas)
  | headRead k bucket => exact .inl ((RootState.frame_of_isCall rfl hroot).1 ▸ hhas)
  | resume k => exact .inl ((RootState.frame_of_isCall rfl hroot).1 ▸ hhas)
  | finish k => exact .inl ((RootState.frame_of_isCall rfl hroot).1 ▸ hhas)
  | _ =>
      have hs' := Option.some.inj hroot
      exact .inl (by rw [← hs']; exact hhas)

/-- A prune that drops an unexpired bundle found the winner of its wallet with no check pending. -/
lemma Paired.exists_unshielding (h : s.Paired bundleAt) {a : Cid} (hhas : s.held.crdt.has a = true)
    (hpruned : a ∈ s.held.pruned deps s.currentBucket)
    (hlive : isExpired deps (bundleAt a) s.currentBucket = false) :
    ∃ w ∈ s.held.crdt.list, w.cid ∈ s.held.unshielding ∧
      w.wallet = (votedAt bundleAt a).wallet ∧ (votedAt bundleAt a).rank < w.rank ∧
      Wins s.held.crdt everyCid w := by
  obtain ⟨e, he, rfl⟩ := has_crdt_iff.mp hhas
  have hsame := h.addressed e he
  rw [← hsame.isExpired_eq] at hlive
  rw [← hsame.wallet_eq, ← hsame.rank_eq]
  exact exists_unshielding_of_pruned he hpruned hlive

/-- **The predecessor of a bundle that is evicted in order is still held then.** -/
theorem mem_crdt_of_fallback {a g : Cid} {t : Lockstep} (h : s.Paired bundleAt)
    (hhas : s.held.crdt.has a = true)
    (hrun : Reaches (Lockstep.step C deps) (fun t i => t.InOrder i ∧ i.Addressed C bundleAt ∧
      t.Fallback deps bundleAt a g i) s t)
    (hevict : t.InOrder (.evict g)) : t.held.crdt.has a = true := by
  have hinv : t.Paired bundleAt ∧ (t.held.crdt.has a = true ∨ g ∈ t.unshielding) := by
    refine hrun.invariant (P := fun t => t.Paired bundleAt ∧
      (t.held.crdt.has a = true ∨ g ∈ t.unshielding)) ⟨h, .inl hhas⟩ ?_
    rintro t i t' ⟨hpaired, hheld⟩ ⟨horder, haddr, honly, hlive, hnot⟩ hstep
    refine ⟨hpaired.step horder haddr hstep, ?_⟩
    obtain ⟨-, -, -, hunshielding⟩ := toRootState_of_step hstep
    have hgrows : t.unshielding ⊆ t'.unshielding := by
      rw [hunshielding]
      cases i with
      | prune heartbeat => exact List.subset_append_left _ _
      | _ => exact List.Subset.refl _
    rcases hheld with hheld | hg
    · rcases has_crdt_step hheld hnot hstep with hstays | ⟨hpruned, heartbeat, rfl⟩
      · exact .inl hstays
      · obtain ⟨w, hw, hfound, hwallet, hrank, -⟩ := hpaired.exists_unshielding hheld hpruned hlive
        refine .inr ?_
        rw [hunshielding, ← honly w hw hwallet hrank]
        exact List.mem_append_right _ hfound
    · exact .inr (hgrows hg)
  exact hinv.2.resolve_right hevict

end Lockstep

open Lockstep

/-- **In a run in order membership and check state stay in lockstep.** With no admission between its
merge and its record, and no prune between its halves, checks are recorded of exactly the bundles
held. And from whatever state on, an unexpired bundle whose only superseder is evicted in the end is
still held, with its checks, when that happens. -/
theorem lockstep_held {C : Codecs} {deps : CrdtDeps} {bundleAt : Cid → VotesBundle} {s : Lockstep}
    (h : Reaches (step C deps) (fun s i => s.InOrder i ∧ i.Addressed C bundleAt) init s) :
    (s.merged = [] → s.prunes = [] → ∀ cid, s.held.checks.has cid = s.held.crdt.has cid) ∧
    ∀ a g t, s.held.crdt.has a = true →
      Reaches (step C deps) (fun t i => t.InOrder i ∧ i.Addressed C bundleAt ∧
        t.Fallback deps bundleAt a g i) s t →
      t.InOrder (.evict g) →
      t.held.crdt.has a = true ∧ (a ∉ t.merged → t.held.checks.has a = true) := by
  have hpaired : s.Paired bundleAt :=
    h.invariant (P := fun s => s.Paired bundleAt) paired_init
      fun _ _ _ hs hok hstep => hs.step hok.1 hok.2 hstep
  refine ⟨fun hmerged hprunes cid => ?_, fun a g t hhas hrun hevict => ?_⟩
  · rw [Bool.eq_iff_iff]
    constructor
    · intro hchecks
      by_contra hcrdt
      obtain ⟨p, hp, -⟩ := hpaired.unforgotten cid hchecks (Bool.eq_false_of_not_eq_true hcrdt)
      rw [hprunes] at hp
      cases hp
    · intro hcrdt
      by_contra hchecks
      have := hpaired.unrecorded cid hcrdt (Bool.eq_false_of_not_eq_true hchecks)
      rw [hmerged] at this
      cases this
  · have hlater : t.Paired bundleAt :=
      hrun.invariant (P := fun t => t.Paired bundleAt) hpaired
        fun _ _ _ ht hok hstep => ht.step hok.1 hok.2.1 hstep
    have hheld := mem_crdt_of_fallback hpaired hhas hrun hevict
    refine ⟨hheld, fun hmerged => ?_⟩
    by_contra hchecks
    exact hmerged (hlater.unrecorded a hheld (Bool.eq_false_of_not_eq_true hchecks))

/-! ### A fallback that is kept, and one that is dropped -/

/-- The ballot of a wallet at a block. -/
def ballotEntry (account : UInt8) (blockNumber : ℕ) : Entry :=
  let bundle := { winnerOf account none with blockNumber }
  ⟨(bundleCid .reference bundle).getD [], bundle⟩

/-- The older ballot of a wallet. -/
def firstBallot : Entry := ballotEntry 1 10

/-- The newer ballot of the same wallet. -/
def secondBallot : Entry := ballotEntry 1 11

/-- The votes the two addresses stand for. -/
def ballotAtCid (cid : Cid) : VotesBundle :=
  if cid = firstBallot.cid then firstBallot.bundle else secondBallot.bundle

/-- What comes in is the very bundle that its address stands for. -/
def RootInput.bears (C : Codecs) (bundleAt : Cid → VotesBundle) : RootInput → Bool
  | .merge cid bundle => decide (bundle = bundleAt cid)
  | .add bundle => (bundleCid C bundle).all fun cid => decide (bundle = bundleAt cid)
  | _ => true

lemma RootInput.addressed_of_bears {C : Codecs} {bundleAt : Cid → VotesBundle} {i : RootInput}
    (h : i.bears C bundleAt = true) : i.Addressed C bundleAt := by
  cases i with
  | merge cid bundle =>
      obtain rfl := of_decide_eq_true h
      exact ⟨rfl, rfl⟩
  | add bundle =>
      intro cid hcid
      simp only [bears, hcid, Option.all_some, decide_eq_true_iff] at h
      rw [← h]
      exact ⟨rfl, rfl⟩
  | _ => trivial

/-- What comes in is one of the two. -/
def RootInput.bearsBallot (i : RootInput) : Bool := i.bears .reference ballotAtCid

/-- A step on which nothing but the two ballots is held, and the first neither expires nor is
evicted. -/
def Lockstep.holdsBallots (s : Lockstep) (i : RootInput) : Bool :=
  s.held.crdt.list.all (fun e => e = firstBallot ∨ e.cid = secondBallot.cid) &&
  !isExpired tenBuckets firstBallot.bundle s.currentBucket &&
  match i with
  | .evict cid => decide (cid ≠ firstBallot.cid)
  | _ => true

lemma ballotAtCid_first : ballotAtCid firstBallot.cid = firstBallot.bundle := by
  rw [ballotAtCid, if_pos rfl]

lemma Lockstep.fallback_of_holdsBallots {s : Lockstep} {i : RootInput}
    (h : s.holdsBallots i = true) :
    s.Fallback tenBuckets ballotAtCid firstBallot.cid secondBallot.cid i := by
  simp only [holdsBallots, Bool.and_eq_true, List.all_eq_true, Bool.not_eq_true'] at h
  obtain ⟨⟨hheld, hlive⟩, hevict⟩ := h
  have hvoted : votedAt ballotAtCid firstBallot.cid = firstBallot := by
    rw [votedAt, ballotAtCid_first]
  refine ⟨fun e he _ hrank => ?_, ?_, ?_⟩
  · rcases of_decide_eq_true (hheld e he) with rfl | hcid
    · rw [hvoted] at hrank
      exact absurd hrank (lt_irrefl _)
    · exact hcid
  · rw [ballotAtCid_first]
    exact hlive
  · rintro rfl
    exact of_decide_eq_true hevict rfl

/-- The first ballot is admitted, fully verified. -/
def admitsFirst : List RootInput :=
  [.merge firstBallot.cid firstBallot.bundle, .record firstBallot true true, .mark]

/-- The second is admitted behind it with its checks pending, and a prune runs. -/
def admitsSecond : List RootInput :=
  [.merge secondBallot.cid secondBallot.bundle, .record secondBallot false false, .mark,
    .prune true, .forget ⟨[], true⟩]

/-- The prune spares the first ballot, so it is held when the second is evicted. -/
theorem lockstep_held_firstBallot : ∃ t : Lockstep,
    t.held.crdt.has secondBallot.cid = true ∧ t.InOrder (.evict secondBallot.cid) ∧
    t.held.crdt.has firstBallot.cid = true ∧ t.held.checks.has firstBallot.cid = true := by
  have heval : ((runIf (Lockstep.step .reference tenBuckets)
      (fun s i => s.InOrder i ∧ i.bearsBallot = true) admitsFirst init).bind fun s =>
        (runIf (Lockstep.step .reference tenBuckets)
          (fun t i => (t.InOrder i ∧ i.bearsBallot = true) ∧ t.holdsBallots i = true)
          admitsSecond s).map fun t =>
            s.held.crdt.has firstBallot.cid && t.held.crdt.has secondBallot.cid &&
              decide (t.unshielding = []) && decide (t.merged = [])) = some true := by
    decide +kernel
  obtain ⟨s, hs, heval⟩ := Option.bind_eq_some_iff.mp heval
  obtain ⟨t, ht, heval⟩ := Option.map_eq_some_iff.mp heval
  simp only [Bool.and_eq_true, decide_eq_true_iff] at heval
  obtain ⟨⟨⟨hfirst, hsecond⟩, hunshielding⟩, hmerged⟩ := heval
  have horder : t.InOrder (.evict secondBallot.cid) := by
    rw [InOrder, hunshielding]
    exact List.not_mem_nil
  have hrun : Reaches (Lockstep.step .reference tenBuckets)
      (fun s i => s.InOrder i ∧ i.Addressed .reference ballotAtCid) init s :=
    (reaches_of_runIf hs).mono fun _ _ h => ⟨h.1, RootInput.addressed_of_bears h.2⟩
  obtain ⟨hheld, hchecks⟩ := (lockstep_held hrun).2 firstBallot.cid secondBallot.cid t hfirst
    ((reaches_of_runIf ht).mono fun _ _ h =>
      ⟨h.1.1, RootInput.addressed_of_bears h.1.2, fallback_of_holdsBallots h.2⟩) horder
  refine ⟨t, hsecond, horder, hheld, hchecks ?_⟩
  rw [hmerged]
  exact List.not_mem_nil

/-- A ballot is evicted between the merge and the record of its second admission. -/
def evictedInGap : List RootInput :=
  [.merge secondBallot.cid secondBallot.bundle, .record secondBallot false false, .mark,
    .merge secondBallot.cid secondBallot.bundle, .evict secondBallot.cid,
    .record secondBallot false false, .mark]

/-- A prune runs between the merge and the record of the second ballot. -/
def prunedInGap : List RootInput :=
  [.merge secondBallot.cid secondBallot.bundle, .prune true, .record secondBallot false false,
    .mark, .forget ⟨[firstBallot.cid], true⟩]

/-- **Out of order neither part holds**: an admission leaves checks of a bundle that an eviction
removed meanwhile, and a prune that meets an unrecorded winner drops the fully verified ballot that
the winner, evicted later, was to give way to. -/
theorem lockstep_broken :
    (∃ s : Lockstep, Reaches (Lockstep.step .reference tenBuckets)
        (fun _ i => i.Addressed .reference ballotAtCid) init s ∧ s.merged = [] ∧ s.prunes = [] ∧
        s.held.checks.has secondBallot.cid ≠ s.held.crdt.has secondBallot.cid) ∧
    ∃ s t : Lockstep, Reaches (Lockstep.step .reference tenBuckets)
        (fun _ i => i.Addressed .reference ballotAtCid) init s ∧
      s.held.crdt.has firstBallot.cid = true ∧ s.held.isFullyVerified firstBallot.cid = true ∧
      Reaches (Lockstep.step .reference tenBuckets) (fun t i => i.Addressed .reference ballotAtCid ∧
        t.Fallback tenBuckets ballotAtCid firstBallot.cid secondBallot.cid i) s t ∧
      t.held.crdt.has secondBallot.cid = true ∧ t.merged = [] ∧ t.prunes = [] ∧
      t.held.crdt.has firstBallot.cid = false := by
  constructor
  · have heval : (runIf (Lockstep.step .reference tenBuckets) (fun _ i => i.bearsBallot = true)
        evictedInGap init).map (fun s => decide (s.merged = []) && decide (s.prunes = []) &&
          s.held.checks.has secondBallot.cid && !s.held.crdt.has secondBallot.cid) = some true := by
      decide +kernel
    obtain ⟨s, hs, heval⟩ := Option.map_eq_some_iff.mp heval
    simp only [Bool.and_eq_true, Bool.not_eq_true', decide_eq_true_iff] at heval
    obtain ⟨⟨⟨hmerged, hprunes⟩, hchecks⟩, hcrdt⟩ := heval
    refine ⟨s, (reaches_of_runIf hs).mono fun _ _ h => RootInput.addressed_of_bears h,
      hmerged, hprunes, ?_⟩
    rw [hchecks, hcrdt]
    exact Bool.noConfusion
  · have heval : ((runIf (Lockstep.step .reference tenBuckets) (fun _ i => i.bearsBallot = true)
        admitsFirst init).bind fun s =>
          (runIf (Lockstep.step .reference tenBuckets)
            (fun t i => i.bearsBallot = true ∧ t.holdsBallots i = true) prunedInGap s).map fun t =>
              s.held.crdt.has firstBallot.cid && s.held.isFullyVerified firstBallot.cid &&
                t.held.crdt.has secondBallot.cid && decide (t.merged = []) &&
                decide (t.prunes = []) && !t.held.crdt.has firstBallot.cid) = some true := by
      decide +kernel
    obtain ⟨s, hs, heval⟩ := Option.bind_eq_some_iff.mp heval
    obtain ⟨t, ht, heval⟩ := Option.map_eq_some_iff.mp heval
    simp only [Bool.and_eq_true, Bool.not_eq_true', decide_eq_true_iff] at heval
    obtain ⟨⟨⟨⟨⟨hfirst, hverified⟩, hsecond⟩, hmerged⟩, hprunes⟩, hdropped⟩ := heval
    exact ⟨s, t, (reaches_of_runIf hs).mono fun _ _ h => RootInput.addressed_of_bears h,
      hfirst, hverified,
      (reaches_of_runIf ht).mono fun _ _ h =>
        ⟨RootInput.addressed_of_bears h.1, fallback_of_holdsBallots h.2⟩,
      hsecond, hmerged, hprunes, hdropped⟩

end PubsubVoting
