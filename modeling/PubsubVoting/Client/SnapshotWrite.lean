import PubsubVoting.Client.SnapshotState

/-!
What a snapshot write may lose, and what it cannot.

* `SnapshotState.Kept`: a bundle that no step in order loses (`Kept.follow`): it is held, or
  supplanted by one that no eviction in order removes, or it is expired, refused or evicted.
* `SnapshotState.Unwritten`: before the first write, what the blob has and the engine has not is in
  the hands of every restore.
* `SnapshotState.Inv`, `Inv.step`: these hold of every record and blob, and a younger record has
  what an older one has, unless it was in doubt when its winners were taken.
* `snapshotWrite_lossless_iff`: a write is lossless exactly if nothing was in doubt then.
* `snapshotWrite_lossy`: in the window of a restore it is not.
-/

namespace PubsubVoting

/-! ### What supplants a bundle -/

section

variable {deps : CrdtDeps} {a e g w : Entry}

lemma Entry.Supplants.refl (a : Entry) : a.Supplants a := ⟨rfl, le_rfl⟩

lemma Entry.Supplants.trans (h : w.Supplants g) (h' : g.Supplants a) : w.Supplants a :=
  ⟨h.1.trans h'.1, h'.2.trans h.2⟩

/-- What expires takes with it what it supplants. -/
lemma Entry.Supplants.isExpired {bucket : ℕ} (h : w.Supplants a)
    (hw : isExpired deps w.bundle bucket = true) : isExpired deps a.bundle bucket = true :=
  isExpired_diesDown a w h.1.symm h.2 hw

lemma SameVote.supplants {bundleAt : Cid → VotesBundle} (h : SameVote e.bundle (bundleAt e.cid))
    (h' : SameVote a.bundle (bundleAt a.cid)) (hcid : e.cid = a.cid) : e.Supplants a := by
  constructor
  · rw [h.wallet_eq, h'.wallet_eq, hcid]
  · rw [h.rank_eq, h'.rank_eq, hcid]

/-- A wallet with an eligible bundle has a winner that supplants it. -/
lemma exists_wins_of_eligible {m : Bundles} {eligible : Cid → Bool} (he : e ∈ m.list)
    (heligible : eligible e.cid = true) : ∃ w, Wins m eligible w ∧ w.Supplants e := by
  cases hget : (winnersByWallet eligible m).get? e.wallet with
  | none => exact absurd rfl (get?_winnersByWallet_eq_none_iff.mp hget e he heligible)
  | some w =>
      obtain ⟨hw, hwallet, hmax⟩ := get?_winnersByWallet_iff.mp hget
      exact ⟨w, wins_iff.mpr (hwallet ▸ hget), hwallet, hmax e he heligible rfl⟩

/-- What is held stays held, or something that supplants it is: something that a prune found as a
winner with no check pending. -/
lemma Lockstep.Paired.exists_supplants {C : Codecs} {bundleAt : Cid → VotesBundle}
    {s s' : Lockstep} {i : RootInput} (h : s.Paired bundleAt) (h' : s'.Paired bundleAt)
    (hg : g ∈ s.held.crdt.list) (hlive : isExpired deps g.bundle s.currentBucket = false)
    (hevict : i ≠ .evict g.cid) (hstep : s.step C deps i = some s') :
    ∃ w ∈ s'.held.crdt.list, w.Supplants g ∧ (w.cid = g.cid ∨ w.cid ∈ s'.unshielding) := by
  have hhas : s.held.crdt.has g.cid = true := has_crdt_iff.mpr ⟨g, hg, rfl⟩
  rcases has_crdt_step hhas hevict hstep with hstays | ⟨hpruned, heartbeat, rfl⟩
  · obtain ⟨w, hw, hcid⟩ := has_crdt_iff.mp hstays
    exact ⟨w, hw, (h'.addressed w hw).supplants (h.addressed g hg) hcid, .inl hcid⟩
  · obtain ⟨w, hw, hfound, hwallet, hrank, hwins⟩ := exists_unshielding_of_pruned hg hpruned hlive
    have hsupplants : w.Supplants g := ⟨hwallet, hrank.le⟩
    have hwlive : isExpired deps w.bundle s.currentBucket = false := by
      by_contra hdead
      have := hsupplants.isExpired (Bool.eq_true_of_not_eq_false hdead)
      rw [hlive] at this
      cases this
    obtain ⟨-, hroot, -, hunshielding⟩ := toRootState_of_step hstep
    have hs' := Option.some.inj hroot
    refine ⟨w, ?_, hsupplants, .inr ?_⟩
    · rw [← hs']
      exact mem_list_prune.mpr ⟨hw, isPruned_of_wins hwins hwlive⟩
    · rw [hunshielding]
      exact List.mem_append_right _ hfound

lemma Lockstep.unshielding_subset {C : Codecs} {s s' : Lockstep} {i : RootInput}
    (hstep : s.step C deps i = some s') : s.unshielding ⊆ s'.unshielding := by
  obtain ⟨-, -, -, hunshielding⟩ := toRootState_of_step hstep
  rw [hunshielding]
  cases i with
  | prune heartbeat => exact List.subset_append_left _ _
  | _ => exact List.Subset.refl _

end

namespace SnapshotState

section

variable (C : Codecs) (deps : CrdtDeps) (verifyOffline : VotesBundle → Bool)
  (bundleAt : Cid → VotesBundle)

/-! ### What is never lost -/

/-- Held, or supplanted by something that no eviction in order removes. -/
def Covered (s : SnapshotState) (a : Entry) : Prop :=
  ∃ g ∈ s.held.crdt.list, g.Supplants a ∧ (g.cid = a.cid ∨ g.cid ∈ s.unshielding)

/-- Covered, or of no account since winners were taken for the `n`-th time. -/
def Kept (s : SnapshotState) (n : ℕ) (a : Entry) : Prop :=
  s.Covered a ∨ s.Exempt deps verifyOffline n a

/-- The records that a write may still persist: of an encode, of the cache, or of a write. -/
def Taken (s : SnapshotState) (x : Persisted) : Prop :=
  (∃ k e, s.calls.get? k = some (.encoding e) ∧ x = ⟨e.winners, s.takenBy k⟩) ∨
  (∃ c, s.cache = some c ∧ x = ⟨c.winners, s.cachedTake⟩) ∨
  ∃ w retry, s.writes.get? w = some ⟨.setting x, retry⟩

/-- One of these, or the blob. -/
def Known (s : SnapshotState) (x : Persisted) : Prop := s.Taken x ∨ s.blob = some x

/-- Nothing is written yet: what the blob has and the engine has not, the restores still bring. -/
structure Unwritten (s : SnapshotState) (y : Persisted) : Prop where
  addressed : ∀ a ∈ y.winners,
    bundleCid C a.bundle = some a.cid ∧ SameVote a.bundle (bundleAt a.cid)
  whole : ∀ a ∈ y.winners, s.Kept deps verifyOffline 0 a ∨ s.unread = true ∨
    a.bundle ∈ s.restoring
  /-- every restore that has read the blob brings all of it -/
  each : ∀ r x, s.restores.get? r = some x → x.place.isReading = false → ∀ a ∈ y.winners,
    s.Kept deps verifyOffline 0 a ∨ a.bundle ∈ x.hands
  backlog : s.restoreBacklog = [] ∨ ∀ a ∈ y.winners,
    s.Kept deps verifyOffline 0 a ∨ a.bundle ∈ s.restoreBacklog

/-- A record that was taken by this engine. -/
structure Recorded (s : SnapshotState) (x : Persisted) : Prop where
  number_le : x.take.number ≤ s.takes
  served : ∃ bucket, x.winners = x.take.held.served deps bucket
  kept : ∀ a ∈ x.winners, s.Kept deps verifyOffline x.take.number a

/-- The invariant of runs in order. -/
structure Inv (s : SnapshotState) : Prop where
  paired : s.toLockstep.Paired bundleAt
  current : s.currentBucket ≤ s.maxBucket
  read : ∀ k bucket, s.calls.get? k = some (.read bucket) → bucket ≤ s.maxBucket
  /-- what a prune dropped and has yet to forget -/
  halves : ∀ p ∈ s.prunes, ∀ a : Entry, SameVote a.bundle (bundleAt a.cid) → a.cid ∈ p.cids →
    s.Kept deps verifyOffline 0 a
  taken : ∀ x, s.Taken x → 0 < x.take.number
  recorded : ∀ x, s.Known x → 0 < x.take.number → s.Recorded deps verifyOffline x
  /-- a younger record has what an older one has -/
  pairs : ∀ x y, s.Taken x → s.Known y → y.take.number ≤ x.take.number → ∀ a ∈ y.winners,
    x.Has a ∨ x.take.Doubtful a ∨ s.Exempt deps verifyOffline y.take.number a
  unwritten : ∀ y, s.blob = some y → y.take.number = 0 →
    s.Unwritten C deps verifyOffline bundleAt y

end

variable {C : Codecs} {deps : CrdtDeps} {verifyOffline : VotesBundle → Bool}
  {bundleAt : Cid → VotesBundle} {s s' : SnapshotState}

lemma advance_eq_some_iff {i : RootInput} : s.advance C deps i = some s' ↔
    ∃ l, s.toLockstep.step C deps i = some l ∧ s' = s.follow l i := by
  rw [advance, Option.map_eq_some_iff]
  simp only [eq_comm]

lemma Exempt.mono {n m : ℕ} {a : Entry} (h : s.Exempt deps verifyOffline n a)
    (hbucket : s.maxBucket ≤ s'.maxBucket) (hevicted : s.evicted ⊆ s'.evicted) (hm : m ≤ n) :
    s'.Exempt deps verifyOffline m a := by
  rcases h with hexpired | hrefused | ⟨k, hmem, hk⟩
  · exact .inl (isExpired_mono hbucket hexpired)
  · exact .inr (.inl hrefused)
  · exact .inr (.inr ⟨k, hevicted hmem, hm.trans hk⟩)

lemma evicted_subset_follow {l : Lockstep} {i : RootInput} :
    s.evicted ⊆ (s.follow l i).evicted := by
  cases i with
  | evict cid => exact List.subset_append_left _ _
  | _ => exact List.Subset.refl _

lemma Exempt.follow {n : ℕ} {a : Entry} {l : Lockstep} {i : RootInput}
    (h : s.Exempt deps verifyOffline n a) : (s.follow l i).Exempt deps verifyOffline n a :=
  h.mono (le_max_left _ _) evicted_subset_follow le_rfl

/-- **What is kept stays kept**, through every step in order. -/
lemma Kept.follow {n : ℕ} {a : Entry} {l : Lockstep} {i : RootInput}
    (h : s.Kept deps verifyOffline n a) (hinv : s.toLockstep.Paired bundleAt)
    (hinv' : l.Paired bundleAt) (hcurrent : s.currentBucket ≤ s.maxBucket) (hn : n ≤ s.takes)
    (horder : s.toLockstep.InOrder i) (hstep : s.toLockstep.step C deps i = some l) :
    (s.follow l i).Kept deps verifyOffline n a := by
  rcases h with ⟨g, hg, hsupplants, hsafe⟩ | hexempt
  · by_cases hlive : isExpired deps g.bundle s.currentBucket = true
    · -- a supplanter that expired takes the bundle with it
      have hexpired := isExpired_mono hcurrent (hsupplants.isExpired hlive)
      exact .inr (.inl (isExpired_mono (le_max_left _ _) hexpired))
    by_cases hevict : i = .evict g.cid
    · subst hevict
      rcases hsafe with hcid | hshield
      · exact .inr (.inr (.inr ⟨s.takes, List.mem_append_right _ (by rw [hcid]; simp), hn⟩))
      · exact absurd hshield horder
    · obtain ⟨w, hw, hwg, hwsafe⟩ := hinv.exists_supplants hinv' hg
        (Bool.eq_false_of_not_eq_true hlive) hevict hstep
      refine .inl ⟨w, hw, hwg.trans hsupplants, ?_⟩
      rcases hwsafe with hcid | hshield
      · rw [hcid]
        exact hsafe.imp_right fun hshield => Lockstep.unshielding_subset hstep hshield
      · exact .inr hshield
  · exact .inr hexempt.follow

/-- What is served of what is held now, or in doubt. -/
lemma has_or_doubtful {n bucket : ℕ} {a : Entry} (hbucket : bucket ≤ s.maxBucket)
    (h : s.Kept deps verifyOffline n a ∨ s.unread = true ∨ a.bundle ∈ s.restoring) :
    (⟨s.held.served deps bucket, s.take⟩ : Persisted).Has a ∨ s.take.Doubtful a ∨
      s.Exempt deps verifyOffline n a := by
  by_cases hverified : s.take.Verified a
  · obtain ⟨g, hg, hsupplants, hverified⟩ := hverified
    obtain ⟨w, hwins, hwg⟩ := exists_wins_of_eligible hg hverified
    have hwa := hwg.trans hsupplants
    by_cases hlive : isExpired deps w.bundle bucket = true
    · exact .inr (.inr (.inl (isExpired_mono hbucket (hwa.isExpired hlive))))
    · have hserved : w ∈ s.held.served deps bucket :=
        Holdings.mem_served_iff.mpr ⟨hwins, Bool.eq_false_of_not_eq_true hlive⟩
      exact .inl ⟨w, hserved, hwa⟩
  · rcases h with (⟨g, hg, hsupplants, -⟩ | hexempt) | hunread | hrestoring
    · exact .inr (.inl ⟨hverified, .inr (.inr ⟨g, hg, hsupplants⟩)⟩)
    · exact .inr (.inr hexempt)
    · exact .inr (.inl ⟨hverified, .inl hunread⟩)
    · exact .inr (.inl ⟨hverified, .inr (.inl hrestoring)⟩)

/-! ### Steps of the engine -/

/-- The record that a step takes. -/
def TakesRecord (s : SnapshotState) (l : Lockstep) (i : RootInput) (x : Persisted) : Prop :=
  ∃ k e, l.takesFor i = some k ∧ l.calls.get? k = some (.encoding e) ∧ x = ⟨e.winners, s.take⟩

lemma TakesRecord.unique {l : Lockstep} {i : RootInput} {x y : Persisted}
    (hx : s.TakesRecord l i x) (hy : s.TakesRecord l i y) : x = y := by
  obtain ⟨k, e, htakes, hget, rfl⟩ := hx
  obtain ⟨k', e', htakes', hget', rfl⟩ := hy
  obtain rfl := Option.some.inj (htakes.symm.trans htakes')
  obtain rfl := RootCall.encoding.inj (Option.some.inj (hget.symm.trans hget'))
  rfl

/-- **A step of the engine takes one record at most**, and keeps those it had. -/
lemma Taken.of_follow {l : Lockstep} {i : RootInput} {x : Persisted}
    (hstep : s.toLockstep.step C deps i = some l) (h : (s.follow l i).Taken x) :
    s.Taken x ∨ s.TakesRecord l i x := by
  obtain ⟨-, hroot, -, -⟩ := Lockstep.toRootState_of_step hstep
  rcases h with ⟨k, e, hget, rfl⟩ | ⟨c, hc, rfl⟩ | hwrite
  · have htakenBy : ∀ j, l.takesFor i = some j →
        (s.follow l i).takenBy k = ((s.taken.set j s.take).get? k).getD initialTake := by
      intro j hj
      simp only [takenBy, SnapshotState.follow, takenAfter, hj]
    rcases RootState.encoding_step hroot hget with ⟨htakes, -⟩ | ⟨htakes, hold⟩
    · refine .inr ⟨k, e, htakes, hget, ?_⟩
      rw [htakenBy k htakes, JsMap.get?_set, if_pos rfl, Option.getD_some]
    · refine .inl (.inl ⟨k, e, hold, ?_⟩)
      cases hother : l.takesFor i with
      | none => simp only [takenBy, SnapshotState.follow, takenAfter, hother]
      | some j =>
          have hne : k ≠ j := fun heq => htakes (heq ▸ hother)
          rw [htakenBy j hother, JsMap.get?_set, if_neg hne, takenBy]
  · rcases RootState.cache_step hroot hc with ⟨k, rfl, hget⟩ | ⟨hnot, hold⟩
    · exact .inl (.inl ⟨k, c.toRootEncode, hget, rfl⟩)
    · refine .inl (.inr (.inl ⟨c, hold, ?_⟩))
      cases i with
      | finish k => exact absurd rfl (hnot k)
      | _ => rfl
  · exact .inl (.inr (.inr hwrite))

/-- A record that is taken is what is served of what is held. -/
lemma TakesRecord.eq_served (h : s.currentBucket ≤ s.maxBucket)
    (hread : ∀ k bucket, s.calls.get? k = some (.read bucket) → bucket ≤ s.maxBucket)
    {l : Lockstep} {i : RootInput} {x : Persisted}
    (hstep : s.toLockstep.step C deps i = some l) (hx : s.TakesRecord l i x) :
    l.held = s.held ∧ (s.follow l i).takes = s.takes + 1 ∧
      ∃ bucket ≤ s.maxBucket, x = ⟨s.held.served deps bucket, s.take⟩ := by
  obtain ⟨-, hroot, -, -⟩ := Lockstep.toRootState_of_step hstep
  obtain ⟨k, e, htakes, hget, rfl⟩ := hx
  refine ⟨(RootState.frame_of_isCall (RootState.isCall_of_takesFor htakes) hroot).1, ?_, ?_⟩
  · simp only [SnapshotState.follow, htakes, Option.toList_some, List.length_singleton]
  · rcases RootState.encoding_step hroot hget with ⟨-, hwinners, hbucket⟩ | ⟨hnot, -⟩
    · refine ⟨e.bucket, ?_, by rw [hwinners]⟩
      rcases hbucket with hbucket | hbucket
      · exact hbucket ▸ h
      · exact hread k _ hbucket
    · exact absurd htakes hnot

/-- The restores go on bringing what the engine has not. -/
lemma Unwritten.follow {y : Persisted} {l : Lockstep} {i : RootInput}
    (h : s.Unwritten C deps verifyOffline bundleAt y)
    (hkept : ∀ a, s.Kept deps verifyOffline 0 a → (s.follow l i).Kept deps verifyOffline 0 a) :
    (s.follow l i).Unwritten C deps verifyOffline bundleAt y where
  addressed := h.addressed
  whole := fun a ha => (h.whole a ha).imp_left (hkept a)
  each := fun r x hx hread a ha => (h.each r x hx hread a ha).imp_left (hkept a)
  backlog := h.backlog.imp_right fun hall a ha => (hall a ha).imp_left (hkept a)

/-- **A step of the engine in order keeps the invariant.** -/
theorem Inv.follow (h : s.Inv C deps verifyOffline bundleAt) {l : Lockstep} {i : RootInput}
    (horder : s.toLockstep.InOrder i) (haddr : i.Addressed C bundleAt)
    (hstep : s.toLockstep.step C deps i = some l) :
    (s.follow l i).Inv C deps verifyOffline bundleAt := by
  have hpaired : l.Paired bundleAt := h.paired.step horder haddr hstep
  obtain ⟨-, hroot, -, -⟩ := Lockstep.toRootState_of_step hstep
  have hkept : ∀ n a, n ≤ s.takes → s.Kept deps verifyOffline n a →
      (s.follow l i).Kept deps verifyOffline n a :=
    fun n a hn ha => ha.follow h.paired hpaired h.current hn horder hstep
  have htakes : s.takes ≤ (s.follow l i).takes := Nat.le_add_right _ _
  have hknown : ∀ x, (s.follow l i).Known x → s.Known x ∨ s.TakesRecord l i x := by
    rintro x (hx | hx)
    · exact (Taken.of_follow hstep hx).imp_left .inl
    · exact .inl (.inr hx)
  have hnew : ∀ x, s.TakesRecord l i x → l.held = s.held ∧ (s.follow l i).takes = s.takes + 1 ∧
      ∃ bucket ≤ s.maxBucket, x = ⟨s.held.served deps bucket, s.take⟩ :=
    fun x hx => hx.eq_served h.current h.read hstep
  constructor
  case paired => exact hpaired
  case current =>
    exact (RootState.currentBucket_step hroot).trans (max_le_max_right _ h.current)
  case read =>
    intro k bucket hget
    rcases RootState.get?_calls_step hroot hget with ⟨_, -, hcall, -⟩ | ⟨-, hcall⟩ |
      ⟨b, rfl, hcall⟩ | ⟨-, -, hget⟩
    · cases hcall
    · cases hcall
    · obtain rfl := RootCall.read.inj hcall
      exact le_max_right _ _
    · exact (h.read k bucket hget).trans (le_max_left _ _)
  case halves =>
    intro p hp a ha hmem
    refine hkept 0 a (Nat.zero_le _) ?_
    rcases RootState.prunes_step hroot hp with hold | ⟨hcids, -⟩
    · exact h.halves p hold a ha hmem
    · rw [hcids] at hmem
      obtain ⟨e, he, -, hcid⟩ := mem_pruned_iff.mp hmem
      exact .inl ⟨e, he, (h.paired.addressed e he).supplants ha hcid, .inl hcid⟩
  case taken =>
    intro x hx
    rcases Taken.of_follow hstep hx with hold | hnewx
    · exact h.taken x hold
    · obtain ⟨-, -, bucket, -, rfl⟩ := hnew x hnewx
      exact Nat.succ_pos _
  case recorded =>
    intro x hx hpos
    rcases hknown x hx with hold | hnewx
    · obtain ⟨hle, hserved, hall⟩ := h.recorded x hold hpos
      exact ⟨hle.trans htakes, hserved, fun a ha => hkept _ a hle (hall a ha)⟩
    · obtain ⟨hheld, hcount, bucket, -, rfl⟩ := hnew x hnewx
      refine ⟨hcount.ge, ⟨bucket, rfl⟩, fun a ha => .inl ⟨a, ?_, .refl a, .inl rfl⟩⟩
      have hmem : a ∈ s.held.crdt.list := (Holdings.mem_served_iff.mp ha).1.1.1
      exact hheld ▸ hmem
  case pairs =>
    intro x y hx hy hle a ha
    rcases Taken.of_follow hstep hx with holdx | hnewx
    · rcases hknown y hy with holdy | hnewy
      · exact (h.pairs x y holdx holdy hle a ha).imp_right (Or.imp_right Exempt.follow)
      · -- an old record is not younger than a new one
        obtain ⟨-, -, bucket, -, rfl⟩ := hnew y hnewy
        have hlex := (h.recorded x (.inl holdx) (h.taken x holdx)).number_le
        simp only [take] at hle
        omega
    · rcases hknown y hy with holdy | hnewy
      · obtain ⟨-, -, bucket, hbucket, rfl⟩ := hnew x hnewx
        refine (has_or_doubtful hbucket ?_).imp_right (Or.imp_right Exempt.follow)
        rcases Nat.eq_zero_or_pos y.take.number with hzero | hpos
        · rcases holdy with htaken | hblob
          · exact absurd (h.taken y htaken) (by omega)
          · rw [hzero]
            exact (h.unwritten y hblob hzero).whole a ha
        · exact .inl ((h.recorded y holdy hpos).kept a ha)
      · obtain rfl := hnewx.unique hnewy
        exact .inl ⟨a, ha, .refl a⟩
  case unwritten =>
    intro y hblob hzero
    exact (h.unwritten y hblob hzero).follow fun a => hkept 0 a (Nat.zero_le _)

/-! ### Steps of restores and writes -/

/-- A step that only restores and timers see. -/
lemma Inv.of_restores (h : s.Inv C deps verifyOffline bundleAt) (joined timer retry : Bool)
    (failures : ℕ) (backlog : List VotesBundle) (restores : JsMap ℕ Restore)
    (hunwritten : ∀ y, s.blob = some y → y.take.number = 0 →
      s.Unwritten C deps verifyOffline bundleAt y →
        ({ s with
            joined := joined, snapshotTimer := timer, restoreTimer := retry
            snapshotWriteFailures := failures, restoreBacklog := backlog, restores := restores } :
          SnapshotState).Unwritten C deps verifyOffline bundleAt y) :
    ({ s with
        joined := joined, snapshotTimer := timer, restoreTimer := retry
        snapshotWriteFailures := failures, restoreBacklog := backlog, restores := restores } :
      SnapshotState).Inv C deps verifyOffline bundleAt where
  paired := h.paired
  current := h.current
  read := h.read
  halves := h.halves
  taken := h.taken
  recorded := fun x hx hpos =>
    let hrec := h.recorded x hx hpos
    ⟨hrec.number_le, hrec.served, hrec.kept⟩
  pairs := h.pairs
  unwritten := fun y hy hzero => hunwritten y hy hzero (h.unwritten y hy hzero)

/-- A step that only timers see. -/
lemma Inv.of_timers (h : s.Inv C deps verifyOffline bundleAt) (timer retry : Bool)
    (failures : ℕ) :
    ({ s with snapshotTimer := timer, restoreTimer := retry, snapshotWriteFailures := failures } :
      SnapshotState).Inv C deps verifyOffline bundleAt :=
  h.of_restores s.joined timer retry failures s.restoreBacklog s.restores fun _ _ _ hun =>
    ⟨hun.addressed, hun.whole, hun.each, hun.backlog⟩

lemma mem_restoring {r : ℕ} {x : Restore} {bundle : VotesBundle} (hx : s.restores.get? r = some x)
    (h : bundle ∈ x.hands) : bundle ∈ s.restoring :=
  List.mem_append_right _ (List.mem_flatMap.mpr ⟨x, JsMap.mem_values_of_get? hx, h⟩)

/-- A restore that has the blob in hand goes on. -/
lemma Unwritten.setRestore {y : Persisted} (h : s.Unwritten C deps verifyOffline bundleAt y)
    {r : ℕ} {x : Restore}
    (hhands : ∀ a ∈ y.winners, s.Kept deps verifyOffline 0 a ∨ a.bundle ∈ x.hands) :
    (s.setRestore r x).Unwritten C deps verifyOffline bundleAt y where
  addressed := h.addressed
  whole := fun a ha => by
    have hget : (s.setRestore r x).restores.get? r = some x := by
      simp [SnapshotState.setRestore]
    exact (hhands a ha).imp_right fun hmem => .inr (mem_restoring hget hmem)
  each := fun r' x' hx' hread' a ha => by
    simp only [SnapshotState.setRestore, JsMap.get?_set] at hx'
    split_ifs at hx' with hr
    · obtain rfl := Option.some.inj hx'
      exact hhands a ha
    · exact h.each r' x' hx' hread' a ha
  backlog := h.backlog

lemma Inv.setRestore (h : s.Inv C deps verifyOffline bundleAt) {r : ℕ} {x : Restore}
    (hhands : ∀ y, s.blob = some y → y.take.number = 0 →
      s.Unwritten C deps verifyOffline bundleAt y → ∀ a ∈ y.winners,
        s.Kept deps verifyOffline 0 a ∨ a.bundle ∈ x.hands) :
    (s.setRestore r x).Inv C deps verifyOffline bundleAt :=
  h.of_restores s.joined s.snapshotTimer s.restoreTimer s.snapshotWriteFailures s.restoreBacklog
    (s.restores.set r x) fun y hy hzero hun => hun.setRestore (hhands y hy hzero hun)

/-- A restore goes on with what it had, but for bundles that are kept. -/
lemma Inv.setRestore_of_hands (h : s.Inv C deps verifyOffline bundleAt) {r : ℕ} {x x' : Restore}
    (hx : s.restores.get? r = some x) (hread : x.place.isReading = false)
    (hhands : ∀ a : Entry, bundleCid C a.bundle = some a.cid → SameVote a.bundle (bundleAt a.cid) →
      a.bundle ∈ x.hands → s.Kept deps verifyOffline 0 a ∨ a.bundle ∈ x'.hands) :
    (s.setRestore r x').Inv C deps verifyOffline bundleAt := by
  refine h.setRestore fun y _ _ hun a ha => ?_
  obtain ⟨hcid, hvote⟩ := hun.addressed a ha
  rcases hun.each r x hx hread a ha with hkept | hmem
  · exact .inl hkept
  · exact hhands a hcid hvote hmem

lemma Inv.keep (h : s.Inv C deps verifyOffline bundleAt) {r : ℕ} {x x' : Restore}
    {bundle : VotesBundle} (hx : s.restores.get? r = some x) (hread : x.place.isReading = false)
    (hhands : ∀ b ∈ x.hands, b = bundle ∨ b ∈ x'.winners ∨ b ∈ x'.backlog) :
    (s.keep r x' bundle).Inv C deps verifyOffline bundleAt := by
  refine h.setRestore_of_hands hx hread fun a _ _ hmem => .inr ?_
  simp only [Restore.hands, RestorePlace.current, List.nil_append, List.mem_append,
    List.mem_singleton]
  have := hhands a.bundle hmem
  tauto

/-- A bundle with recorded checks is kept. -/
lemma Inv.kept_of_has (h : s.Inv C deps verifyOffline bundleAt) {a : Entry}
    (hvote : SameVote a.bundle (bundleAt a.cid)) (hhas : s.held.checks.has a.cid = true) :
    s.Kept deps verifyOffline 0 a := by
  by_cases hcrdt : s.held.crdt.has a.cid = true
  · obtain ⟨e, he, hcid⟩ := has_crdt_iff.mp hcrdt
    exact .inl ⟨e, he, (h.paired.addressed e he).supplants hvote hcid, .inl hcid⟩
  · obtain ⟨p, hp, hmem⟩ := h.paired.unforgotten a.cid hhas (Bool.eq_false_of_not_eq_true hcrdt)
    exact h.halves p hp a hvote hmem

/-- A step that only calls and writes see: a write may persist what was taken. -/
lemma Inv.of_writes (h : s.Inv C deps verifyOffline bundleAt) (calls : JsMap ℕ RootCall)
    (writes : JsMap ℕ SnapshotWrite) (blob : Option Persisted) (timer : Bool) (failures : ℕ)
    (hcalls : ∀ k c, calls.get? k = some c → s.calls.get? k = some c)
    (hwrites : ∀ w x retry, writes.get? w = some ⟨.setting x, retry⟩ → s.Taken x)
    (hblob : blob = s.blob ∨ ∃ x, blob = some x ∧ s.Taken x) :
    ({ s with
        calls := calls, writes := writes, blob := blob, snapshotTimer := timer
        snapshotWriteFailures := failures } : SnapshotState).Inv C deps verifyOffline bundleAt := by
  have htaken : ∀ x, ({ s with
      calls := calls, writes := writes, blob := blob, snapshotTimer := timer
      snapshotWriteFailures := failures } : SnapshotState).Taken x → s.Taken x := by
    rintro x (⟨k, e, hget, hx⟩ | hcache | ⟨w, retry, hget⟩)
    · exact .inl ⟨k, e, hcalls k _ hget, hx⟩
    · exact .inr (.inl hcache)
    · exact hwrites w x retry hget
  have hknown : ∀ x, ({ s with
      calls := calls, writes := writes, blob := blob, snapshotTimer := timer
      snapshotWriteFailures := failures } : SnapshotState).Known x → s.Known x := by
    rintro x (hx | hx)
    · exact .inl (htaken x hx)
    · rcases hblob with hsame | ⟨x', hx', htaken'⟩
      · exact .inr (hsame ▸ hx)
      · obtain rfl : x' = x := Option.some.inj (hx'.symm.trans hx)
        exact .inl htaken'
  exact
    { paired := ⟨h.paired.unrecorded, h.paired.unforgotten, h.paired.addressed⟩
      current := h.current
      read := fun k bucket hget => h.read k bucket (hcalls k _ hget)
      halves := h.halves
      taken := fun x hx => h.taken x (htaken x hx)
      recorded := fun x hx hpos =>
        let hrec := h.recorded x (hknown x hx) hpos
        ⟨hrec.number_le, hrec.served, hrec.kept⟩
      pairs := fun x y hx hy => h.pairs x y (htaken x hx) (hknown y hy)
      unwritten := fun y hy hzero => by
        rcases hblob with hsame | ⟨x, hx, htaken'⟩
        · have hun := h.unwritten y (hsame ▸ hy) hzero
          exact ⟨hun.addressed, hun.whole, hun.each, hun.backlog⟩
        · obtain rfl : x = y := Option.some.inj (hx.symm.trans hy)
          exact absurd (h.taken x htaken') (by omega) }

lemma Inv.advance (h : s.Inv C deps verifyOffline bundleAt) {i : RootInput}
    (horder : s.toLockstep.InOrder i) (haddr : i.Addressed C bundleAt)
    (hstep : s.advance C deps i = some s') : s'.Inv C deps verifyOffline bundleAt := by
  obtain ⟨l, hl, rfl⟩ := advance_eq_some_iff.mp hstep
  exact h.follow horder haddr hl

/-- Restores are not the engine's business. -/
lemma restores_of_advance {i : RootInput} (hstep : s.advance C deps i = some s') :
    s'.restores = s.restores ∧ s'.writes = s.writes := by
  obtain ⟨l, -, rfl⟩ := advance_eq_some_iff.mp hstep
  exact ⟨rfl, rfl⟩

/-- A join begins a restore that has yet to read the blob. -/
lemma Inv.join (h : s.Inv C deps verifyOffline bundleAt) (r : ℕ) :
    ({ s with joined := true, restores := s.restores.set r ⟨.reading, [], [], []⟩ } :
      SnapshotState).Inv C deps verifyOffline bundleAt := by
  refine h.of_restores true s.snapshotTimer s.restoreTimer s.snapshotWriteFailures s.restoreBacklog
    (s.restores.set r ⟨.reading, [], [], []⟩) fun y _ _ hun => ?_
  have hget : (s.restores.set r ⟨.reading, [], [], []⟩).get? r = some ⟨.reading, [], [], []⟩ := by
    simp
  refine ⟨hun.addressed, fun a _ => .inr (.inl ?_), fun r' x hx hread a ha => ?_, hun.backlog⟩
  · rw [unread, Bool.or_eq_true, List.any_eq_true]
    exact .inr ⟨_, JsMap.mem_values_of_get? hget, rfl⟩
  · rw [JsMap.get?_set] at hx
    split_ifs at hx
    · obtain rfl := Option.some.inj hx
      cases hread
    · exact hun.each r' x hx hread a ha

/-- The contest is left, and the backlog with it. -/
lemma Inv.leave (h : s.Inv C deps verifyOffline bundleAt) :
    ({ s with
        joined := false, restoreTimer := false, restoreBacklog := [], snapshotWriteFailures := 0 } :
      SnapshotState).Inv C deps verifyOffline bundleAt := by
  refine h.of_restores false s.snapshotTimer false 0 [] s.restores fun y _ _ hun => ?_
  exact ⟨hun.addressed, fun a _ => .inr (.inl rfl), hun.each, .inl rfl⟩

lemma Inv.stepBlobRead (h : s.Inv C deps verifyOffline bundleAt) {r : ℕ} {x : Restore}
    (hstep : s.stepBlobRead r x = some s') : s'.Inv C deps verifyOffline bundleAt := by
  rw [SnapshotState.stepBlobRead] at hstep
  split at hstep
  · obtain rfl := Option.some.inj hstep
    split
    · rename_i b hblob
      refine h.setRestore fun y hy _ _ a ha => .inr ?_
      obtain rfl : b = y := Option.some.inj (hblob.symm.trans hy)
      simp only [Restore.hands, RestorePlace.current, List.nil_append, List.append_nil]
      exact List.mem_map_of_mem ha
    · rename_i hblob
      refine h.of_restores s.joined s.snapshotTimer s.restoreTimer s.snapshotWriteFailures
        s.restoreBacklog (s.restores.delete r) fun y hy _ _ => ?_
      rw [hblob] at hy
      cases hy
  · cases hstep

lemma Inv.stepNext (h : s.Inv C deps verifyOffline bundleAt) {r : ℕ} {x : Restore}
    (hx : s.restores.get? r = some x) (hstep : s.stepNext C r x = some s') :
    s'.Inv C deps verifyOffline bundleAt := by
  obtain ⟨place, todo, backlog, pending⟩ := x
  rw [SnapshotState.stepNext] at hstep
  split at hstep
  · rename_i bundle winners hplace hwinners
    obtain rfl : place = .looping := hplace
    obtain rfl : todo = bundle :: winners := hwinners
    obtain rfl := Option.some.inj hstep
    have hhands : ∀ b ∈ (⟨.looping, bundle :: winners, backlog, pending⟩ : Restore).hands,
        b = bundle ∨ b ∈ winners ∨ b ∈ backlog := by
      intro b hb
      simpa [Restore.hands, RestorePlace.current, or_assoc] using hb
    cases hcid : bundleCid C bundle with
    | none => exact h.keep hx rfl hhands
    | some cid =>
        simp only
        split_ifs with hhas
        · -- admitted already, or dropped by a prune that has yet to forget it
          refine h.setRestore_of_hands hx rfl fun a ha hvote hmem => ?_
          rcases hhands a.bundle hmem with hb | hrest
          · rw [hb, hcid] at ha
            obtain rfl := Option.some.inj ha
            exact .inl (h.kept_of_has hvote hhas)
          · exact .inr (by simpa [Restore.hands, RestorePlace.current] using hrest)
        · refine h.setRestore_of_hands hx rfl fun a _ _ hmem => .inr ?_
          simpa [Restore.hands, RestorePlace.current] using hhands a.bundle hmem
  · cases hstep

lemma Inv.stepEvaluated (h : s.Inv C deps verifyOffline bundleAt) {r : ℕ} {x : Restore}
    {answer : Option Bool} (hx : s.restores.get? r = some x)
    (hstep : s.stepEvaluated r x answer = some s') : s'.Inv C deps verifyOffline bundleAt := by
  obtain ⟨place, winners, backlog, pending⟩ := x
  cases place with
  | evaluating e =>
      obtain rfl := Option.some.inj hstep
      have hkeep : (s.keep r ⟨.evaluating e, winners, backlog, pending⟩ e.bundle).Inv C deps
          verifyOffline bundleAt := by
        refine h.keep hx rfl fun b hb => ?_
        simpa [Restore.hands, RestorePlace.current, or_assoc] using hb
      rcases answer with _ | _ | _
      · exact hkeep
      · exact hkeep
      · exact h.setRestore_of_hands hx rfl fun a _ _ hmem => .inr hmem
  | _ => cases hstep

lemma Inv.stepVerified (h : s.Inv C deps verifyOffline bundleAt) {r : ℕ} {x : Restore}
    {throws : Bool} (hx : s.restores.get? r = some x)
    (hstep : s.stepVerified verifyOffline r x throws = some s') :
    s'.Inv C deps verifyOffline bundleAt := by
  obtain ⟨place, winners, backlog, pending⟩ := x
  cases place with
  | verifying e =>
      obtain rfl := Option.some.inj hstep
      split_ifs with hthrows hvalid
      · refine h.keep hx rfl fun b hb => ?_
        simpa [Restore.hands, RestorePlace.current, or_assoc] using hb
      · exact h.setRestore_of_hands hx rfl fun a _ _ hmem => .inr hmem
      · -- refused: a verdict on the bundle
        refine h.setRestore_of_hands hx rfl fun a _ _ hmem => ?_
        simp only [Restore.hands, RestorePlace.current, List.cons_append, List.nil_append,
          List.mem_cons] at hmem ⊢
        rcases hmem with hb | hrest
        · exact .inl (.inr (.inr (.inl (hb ▸ Bool.eq_false_of_not_eq_true hvalid))))
        · exact .inr hrest
  | _ => cases hstep

lemma Inv.stepAdded (h : s.Inv C deps verifyOffline bundleAt) {r : ℕ} {x : Restore}
    {stored : Bool} (hx : s.restores.get? r = some x)
    (horder : s.InOrder C bundleAt (.added r stored))
    (hstep : s.stepAdded C deps r x stored = some s') : s'.Inv C deps verifyOffline bundleAt := by
  obtain ⟨place, winners, backlog, pending⟩ := x
  cases place with
  | adding e =>
      have hinner : s.inner (.added r stored) = some (.add e.bundle) := by
        simp [inner, hx]
      obtain ⟨hin, haddr⟩ := horder _ hinner
      simp only [SnapshotState.stepAdded] at hstep
      split_ifs at hstep with hstored
      · obtain ⟨t, ht, rfl⟩ := Option.map_eq_some_iff.mp hstep
        have hinv := h.advance hin haddr ht
        rw [← (restores_of_advance ht).1] at hx
        refine hinv.setRestore_of_hands hx rfl fun a ha hvote hmem => ?_
        simp only [Restore.hands, RestorePlace.current, List.cons_append, List.nil_append,
          List.mem_cons] at hmem ⊢
        rcases hmem with hb | hrest
        · -- the bundle is in the working set now
          obtain ⟨l, hl, rfl⟩ := advance_eq_some_iff.mp ht
          obtain ⟨-, hroot, -, -⟩ := Lockstep.toRootState_of_step hl
          obtain ⟨cid, hcid, hl'⟩ := Option.map_eq_some_iff.mp hroot
          rw [hb, hcid] at ha
          obtain rfl := Option.some.inj ha
          have hhas : l.held.crdt.has a.cid = true := by
            rw [← hl']
            exact (JsMap.has_set _ _ _ _).trans (by simp)
          obtain ⟨w, hw, hwcid⟩ := has_crdt_iff.mp hhas
          exact .inl (.inl ⟨w, hw, (hinv.paired.addressed w hw).supplants hvote hwcid, .inl hwcid⟩)
        · exact .inr hrest
      · obtain rfl := Option.some.inj hstep
        refine h.keep hx rfl fun b hb => ?_
        simpa [Restore.hands, RestorePlace.current, or_assoc] using hb
  | _ => cases hstep

lemma Inv.stepRecorded (h : s.Inv C deps verifyOffline bundleAt) {r : ℕ} {x : Restore}
    (hx : s.restores.get? r = some x) (horder : s.InOrder C bundleAt (.recorded r))
    (hstep : s.stepRecorded C deps r x = some s') : s'.Inv C deps verifyOffline bundleAt := by
  obtain ⟨place, winners, backlog, pending⟩ := x
  cases place with
  | recording e =>
      have hinner : s.inner (.recorded r) = some (.record e false false) := by
        simp [inner, hx]
      obtain ⟨hin, haddr⟩ := horder _ hinner
      obtain ⟨t, ht, rfl⟩ := Option.map_eq_some_iff.mp hstep
      rw [← (restores_of_advance ht).1] at hx
      exact (h.advance hin haddr ht).setRestore_of_hands hx rfl fun a _ _ hmem => .inr hmem
  | _ => cases hstep

lemma Inv.rearm (h : s.Inv C deps verifyOffline bundleAt) (backlog : List VotesBundle)
    (wasIncomplete : Bool) : (s.rearm backlog wasIncomplete).Inv C deps verifyOffline bundleAt := by
  rw [SnapshotState.rearm]
  split_ifs
  · exact h.of_timers (s.snapshotTimer || s.joined) s.restoreTimer s.snapshotWriteFailures
  · exact h
  · exact h.of_timers s.snapshotTimer (s.restoreTimer || s.joined) s.snapshotWriteFailures

/-- A restore ends: what it leaves behind is its backlog. -/
lemma Inv.endRestore (h : s.Inv C deps verifyOffline bundleAt) {r : ℕ} {backlog : List VotesBundle}
    {pending : List Cid} (hx : s.restores.get? r = some ⟨.looping, [], backlog, pending⟩) :
    (s.endRestore r ⟨.looping, [], backlog, pending⟩).Inv C deps verifyOffline bundleAt := by
  refine h.of_restores s.joined s.snapshotTimer s.restoreTimer s.snapshotWriteFailures backlog
    (s.restores.delete r) fun y _ _ hun => ?_
  have hall : ∀ a ∈ y.winners, s.Kept deps verifyOffline 0 a ∨ a.bundle ∈ backlog :=
    hun.each r _ hx rfl
  refine ⟨hun.addressed, fun a ha => ?_, fun r' x hx' hread a ha => ?_, .inr hall⟩
  · exact (hall a ha).imp_right fun hmem => .inr (List.mem_append_left _ hmem)
  · rw [JsMap.get?_delete] at hx'
    split_ifs at hx'
    exact hun.each r' x hx' hread a ha

lemma Inv.stepRestored (h : s.Inv C deps verifyOffline bundleAt) {r : ℕ} {x : Restore}
    (hx : s.restores.get? r = some x) (hstep : s.stepRestored C deps r x = some s') :
    s'.Inv C deps verifyOffline bundleAt := by
  obtain ⟨place, winners, backlog, pending⟩ := x
  rw [SnapshotState.stepRestored] at hstep
  split at hstep
  · rename_i hplace hwinners
    obtain rfl : place = .looping := hplace
    obtain rfl : winners = [] := hwinners
    obtain ⟨t, ht, rfl⟩ := Option.map_eq_some_iff.mp hstep
    have hend := h.endRestore hx
    split_ifs at ht
    · obtain rfl := Option.some.inj ht
      exact hend.rearm _ _
    · exact (hend.advance (i := .mark) trivial trivial ht).rearm _ _
  · cases hstep

lemma Inv.stepRetryRestore (h : s.Inv C deps verifyOffline bundleAt) {r : ℕ}
    (hstep : s.stepRetryRestore r = some s') : s'.Inv C deps verifyOffline bundleAt := by
  rw [SnapshotState.stepRetryRestore] at hstep
  split_ifs at hstep with hready hidle
  · obtain rfl := Option.some.inj hstep
    exact h.of_timers s.snapshotTimer false s.snapshotWriteFailures
  · obtain rfl := Option.some.inj hstep
    have hretry := h.of_timers s.snapshotTimer false s.snapshotWriteFailures
    refine hretry.setRestore fun y _ _ hun a ha => ?_
    simp only [Bool.or_eq_true, List.isEmpty_iff, not_or] at hidle
    refine (hun.backlog.resolve_left hidle.1 a ha).imp_right fun hmem => ?_
    simpa [Restore.hands, RestorePlace.current] using hmem

lemma Inv.stepWrite (h : s.Inv C deps verifyOffline bundleAt) {w k : ℕ} {retry : Bool}
    (hstep : s.stepWrite C deps w k retry = some s') : s'.Inv C deps verifyOffline bundleAt := by
  unfold SnapshotState.stepWrite SnapshotState.writeSnapshot at hstep
  have htimer := h.of_timers false s.restoreTimer s.snapshotWriteFailures
  split_ifs at hstep
  · obtain rfl := Option.some.inj hstep
    exact htimer
  · obtain ⟨t, ht, rfl⟩ := Option.map_eq_some_iff.mp hstep
    have hinv := htimer.advance (i := .call k) trivial trivial ht
    refine hinv.of_writes t.calls (t.writes.set w ⟨.encoding k, retry⟩) t.blob t.snapshotTimer
      t.snapshotWriteFailures (fun _ _ hget => hget) (fun w' x retry' hget => ?_) (.inl rfl)
    rw [JsMap.get?_set] at hget
    split_ifs at hget
    · cases hget
    · exact .inr (.inr ⟨w', retry', hget⟩)

lemma Inv.stepEncoded (h : s.Inv C deps verifyOffline bundleAt) {w : ℕ} {write : SnapshotWrite}
    (hstep : s.stepEncoded w write = some s') : s'.Inv C deps verifyOffline bundleAt := by
  obtain ⟨place, retry⟩ := write
  cases place with
  | encoding k =>
      simp only [SnapshotState.stepEncoded] at hstep
      split_ifs at hstep
      obtain rfl := Option.some.inj hstep
      cases hcache : s.cache with
      | none =>
          refine h.of_writes s.calls (s.writes.delete w) s.blob s.snapshotTimer
            s.snapshotWriteFailures (fun _ _ hget => hget) (fun w' x retry' hget => ?_) (.inl rfl)
          rw [JsMap.get?_delete] at hget
          split_ifs at hget
          exact .inr (.inr ⟨w', retry', hget⟩)
      | some c =>
          refine h.of_writes s.calls (s.writes.set w ⟨.setting ⟨c.winners, s.cachedTake⟩, retry⟩)
            s.blob s.snapshotTimer s.snapshotWriteFailures (fun _ _ hget => hget)
            (fun w' x retry' hget => ?_) (.inl rfl)
          rw [JsMap.get?_set] at hget
          split_ifs at hget
          · simp only [Option.some.injEq, SnapshotWrite.mk.injEq, WritePlace.setting.injEq] at hget
            exact .inr (.inl ⟨c, hcache, hget.1.symm⟩)
          · exact .inr (.inr ⟨w', retry', hget⟩)
  | setting x => cases hstep

lemma Inv.stepEncodeFails (h : s.Inv C deps verifyOffline bundleAt) {w : ℕ}
    {write : SnapshotWrite} (hstep : s.stepEncodeFails w write = some s') :
    s'.Inv C deps verifyOffline bundleAt := by
  obtain ⟨place, retry⟩ := write
  have hdrops : ∀ k timer failures, ({ s with
      calls := s.calls.delete k, writes := s.writes.delete w, blob := s.blob
      snapshotTimer := timer, snapshotWriteFailures := failures } : SnapshotState).Inv C deps
        verifyOffline bundleAt := by
    intro k timer failures
    refine h.of_writes (s.calls.delete k) (s.writes.delete w) s.blob timer failures
      (fun j c hget => ?_) (fun w' x retry' hget => ?_) (.inl rfl)
    · rw [JsMap.get?_delete] at hget
      split_ifs at hget
      exact hget
    · rw [JsMap.get?_delete] at hget
      split_ifs at hget
      exact .inr (.inr ⟨w', retry', hget⟩)
  cases place with
  | encoding k =>
      simp only [SnapshotState.stepEncodeFails] at hstep
      split_ifs at hstep
      · obtain rfl := Option.some.inj hstep
        exact hdrops k (s.snapshotTimer || s.joined) (s.snapshotWriteFailures + 1)
      · obtain rfl := Option.some.inj hstep
        exact hdrops k s.snapshotTimer 0
  | setting x => cases hstep

lemma stepSet_eq_some_iff {w : ℕ} {write : SnapshotWrite} : s.stepSet w write = some s' ↔
    ∃ x, write.place = .setting x ∧ s' =
      { s with writes := s.writes.delete w, blob := some x, snapshotWriteFailures := 0 } := by
  obtain ⟨place, retry⟩ := write
  cases place with
  | encoding k => simp [SnapshotState.stepSet]
  | setting x => simp [SnapshotState.stepSet, eq_comm]

lemma Inv.stepSet (h : s.Inv C deps verifyOffline bundleAt) {w : ℕ} {write : SnapshotWrite}
    (hw : s.writes.get? w = some write) (hstep : s.stepSet w write = some s') :
    s'.Inv C deps verifyOffline bundleAt := by
  obtain ⟨x, hplace, rfl⟩ := stepSet_eq_some_iff.mp hstep
  obtain ⟨place, retry⟩ := write
  obtain rfl : place = .setting x := hplace
  refine h.of_writes s.calls (s.writes.delete w) (some x) s.snapshotTimer 0
    (fun _ _ hget => hget) (fun w' x' retry' hget => ?_) (.inr ⟨x, rfl, .inr (.inr ⟨w, retry, hw⟩)⟩)
  rw [JsMap.get?_delete] at hget
  split_ifs at hget
  exact .inr (.inr ⟨w', retry', hget⟩)

/-- **A step in order keeps the invariant.** -/
theorem Inv.step (h : s.Inv C deps verifyOffline bundleAt) {i : SnapshotInput}
    (horder : s.InOrder C bundleAt i) (hstep : s.step C deps verifyOffline i = some s') :
    s'.Inv C deps verifyOffline bundleAt := by
  cases i with
  | engine j =>
      obtain ⟨hin, haddr⟩ := horder j rfl
      exact h.advance hin haddr hstep
  | join r =>
      simp only [SnapshotState.step] at hstep
      split_ifs at hstep
      obtain rfl := Option.some.inj hstep
      exact h.join r
  | leave =>
      obtain rfl := Option.some.inj hstep
      exact h.leave
  | blobRead r =>
      obtain ⟨x, -, hstep⟩ := Option.bind_eq_some_iff.mp hstep
      exact h.stepBlobRead hstep
  | next r =>
      obtain ⟨x, hx, hstep⟩ := Option.bind_eq_some_iff.mp hstep
      exact h.stepNext hx hstep
  | evaluated r answer =>
      obtain ⟨x, hx, hstep⟩ := Option.bind_eq_some_iff.mp hstep
      exact h.stepEvaluated hx hstep
  | verified r throws =>
      obtain ⟨x, hx, hstep⟩ := Option.bind_eq_some_iff.mp hstep
      exact h.stepVerified hx hstep
  | added r stored =>
      obtain ⟨x, hx, hstep⟩ := Option.bind_eq_some_iff.mp hstep
      exact h.stepAdded hx horder hstep
  | recorded r =>
      obtain ⟨x, hx, hstep⟩ := Option.bind_eq_some_iff.mp hstep
      exact h.stepRecorded hx horder hstep
  | restored r =>
      obtain ⟨x, hx, hstep⟩ := Option.bind_eq_some_iff.mp hstep
      exact h.stepRestored hx hstep
  | retryRestore r => exact h.stepRetryRestore hstep
  | write w k => exact h.stepWrite hstep
  | flush w k => exact h.stepWrite hstep
  | encoded w =>
      obtain ⟨write, -, hstep⟩ := Option.bind_eq_some_iff.mp hstep
      exact h.stepEncoded hstep
  | encodeFails w =>
      obtain ⟨write, -, hstep⟩ := Option.bind_eq_some_iff.mp hstep
      exact h.stepEncodeFails hstep
  | set w =>
      obtain ⟨write, hw, hstep⟩ := Option.bind_eq_some_iff.mp hstep
      exact h.stepSet hw hstep

/-- An engine that holds nothing, before its first join. -/
lemma inv_init {winners : Option (List VotesBundle)}
    (haddr : ∀ bundles ∈ winners, ∀ bundle ∈ bundles, ∀ cid, bundleCid C bundle = some cid →
      SameVote bundle (bundleAt cid)) :
    (init C winners).Inv C deps verifyOffline bundleAt := by
  have htaken : ∀ x, ¬ (init C winners).Taken x := by
    rintro x (⟨k, e, hget, -⟩ | ⟨c, hc, -⟩ | ⟨w, retry, hget⟩)
    · simp [init, Lockstep.init, RootState.init] at hget
    · simp [init, Lockstep.init, RootState.init] at hc
    · simp [init] at hget
  have hblob : ∀ x, (init C winners).blob = some x → ∃ bundles ∈ winners, x =
      ⟨bundles.filterMap fun bundle => (bundleCid C bundle).map fun cid => ⟨cid, bundle⟩,
        initialTake⟩ := by
    intro x hx
    obtain ⟨bundles, hbundles, rfl⟩ := Option.map_eq_some_iff.mp hx
    exact ⟨bundles, hbundles, rfl⟩
  refine
    { paired := Lockstep.paired_init
      current := le_rfl
      read := fun k bucket hget => by simp [init, Lockstep.init, RootState.init] at hget
      halves := fun p hp => absurd hp List.not_mem_nil
      taken := fun x hx => absurd hx (htaken x)
      recorded := fun x hx hpos => ?_
      pairs := fun x y hx => absurd hx (htaken x)
      unwritten := fun y hy _ => ⟨fun a ha => ?_, fun a _ => .inr (.inl rfl),
        fun r x hx => by simp [init] at hx, .inl rfl⟩ }
  · rcases hx with hx | hx
    · exact absurd hx (htaken x)
    · obtain ⟨bundles, -, rfl⟩ := hblob x hx
      exact absurd hpos (lt_irrefl 0)
  · obtain ⟨bundles, hbundles, rfl⟩ := hblob y hy
    obtain ⟨bundle, hmem, hbundle⟩ := List.mem_filterMap.mp ha
    obtain ⟨cid, hcid, rfl⟩ := Option.map_eq_some_iff.mp hbundle
    exact ⟨hcid, haddr bundles hbundles bundle hmem cid hcid⟩

end SnapshotState

open SnapshotState

/-- **A write is lossless exactly if nothing was in doubt when its winners were taken.** In a run
that keeps membership and check state in lockstep, a write whose record is not older than the blob
it replaces has every bundle of that blob, or a fully verified one that supersedes it, but for what
is expired, refused or evicted since: exactly if, when the winners of the record were taken, no
other bundle of that blob was still in the hands of a restore, or held unverified. -/
theorem snapshotWrite_lossless_iff {C : Codecs} {deps : CrdtDeps}
    {verifyOffline : VotesBundle → Bool} {bundleAt : Cid → VotesBundle}
    {winners : Option (List VotesBundle)}
    (haddr : ∀ bundles ∈ winners, ∀ bundle ∈ bundles, ∀ cid, bundleCid C bundle = some cid →
      SameVote bundle (bundleAt cid)) {s s' : SnapshotState}
    (hrun : Reaches (step C deps verifyOffline) (InOrder C bundleAt) (init C winners) s) {w : ℕ}
    (hset : s.step C deps verifyOffline (.set w) = some s') {x y : Persisted}
    (hy : s.blob = some y) (hx : s'.blob = some x) (hage : y.take.number ≤ x.take.number) :
    s.Lossless deps verifyOffline y x ↔
      ∀ a ∈ y.winners, ¬ s.Exempt deps verifyOffline y.take.number a → ¬ x.take.Doubtful a := by
  have hinv : s.Inv C deps verifyOffline bundleAt :=
    hrun.invariant (inv_init haddr) fun _ _ _ h horder hstep => h.step horder hstep
  -- what the write persists was taken by this engine
  have htaken : s.Taken x := by
    obtain ⟨write, hwrite, hset⟩ := Option.bind_eq_some_iff.mp hset
    obtain ⟨x', hplace, rfl⟩ := stepSet_eq_some_iff.mp hset
    obtain rfl : x' = x := Option.some.inj hx
    obtain ⟨place, retry⟩ := write
    obtain rfl : place = .setting x' := hplace
    exact .inr (.inr ⟨w, retry, hwrite⟩)
  constructor
  · rintro hlossless a ha hnot ⟨hunverified, -⟩
    obtain ⟨g, hg, hsupplants⟩ := (hlossless a ha).resolve_right hnot
    obtain ⟨bucket, hserved⟩ := (hinv.recorded x (.inl htaken) (hinv.taken x htaken)).served
    rw [hserved] at hg
    obtain ⟨hwins, -⟩ := Holdings.mem_served_iff.mp hg
    exact hunverified ⟨g, hwins.1.1, hsupplants, hwins.1.2⟩
  · intro hsure a ha
    by_cases hexempt : s.Exempt deps verifyOffline y.take.number a
    · exact .inr hexempt
    · rcases hinv.pairs x y htaken (.inr hy) hage a ha with hhas | hdoubtful | hexempt'
      · exact .inl hhas
      · exact absurd hdoubtful (hsure a ha hexempt)
      · exact .inr hexempt'

/-! ### A write behind a restore, and one in its window -/

/-- The ballot of another wallet. -/
def otherBallot : Entry := ballotEntry 2 10

/-- The votes that the two addresses stand for. -/
def walletAtCid (cid : Cid) : VotesBundle :=
  if cid = firstBallot.cid then firstBallot.bundle else otherBallot.bundle

/-- An input that can be checked to be in order. -/
def SnapshotState.keepsOrder (s : SnapshotState) (i : SnapshotInput) : Bool :=
  (s.inner i).all fun j => decide (s.toLockstep.InOrder j) && j.bears .reference walletAtCid

lemma SnapshotState.inOrder_of_keepsOrder {s : SnapshotState} {i : SnapshotInput}
    (h : s.keepsOrder i = true) : s.InOrder .reference walletAtCid i := by
  intro j hj
  rw [Option.mem_def] at hj
  simp only [keepsOrder, hj, Option.all_some, Bool.and_eq_true, decide_eq_true_iff] at h
  exact ⟨h.1, RootInput.addressed_of_bears h.2⟩

/-- Every bundle passes the offline checks. -/
def passesOffline (_ : VotesBundle) : Bool := true

/-- Gossip admits the other ballot, fully verified. -/
def admitsOther : List SnapshotInput :=
  [.engine (.merge otherBallot.cid otherBallot.bundle), .engine (.record otherBallot true true),
    .engine .mark]

/-- The timer fires, and the write encodes. -/
def writesRecord : List SnapshotInput :=
  [.write 0 0, .engine (.headRead 0 0), .engine (.resume 0), .engine (.finish 0), .encoded 0]

/-- The restore admits the first ballot, and its check settles. -/
def restoresFirst : List SnapshotInput :=
  [.join 0, .blobRead 0, .next 0, .evaluated 0 (some true), .verified 0 false, .added 0 true,
    .recorded 0, .restored 0, .engine (.settle firstBallot.cid .chainVerified)]

/-- The states around a write that replaces a blob, and the two blobs. -/
def writtenBlobs (is : List SnapshotInput) :
    Option (SnapshotState × SnapshotState × Persisted × Persisted) :=
  (runIf (step .reference tenBuckets passesOffline) (fun s i => s.keepsOrder i = true) is
    (init .reference (some [firstBallot.bundle]))).bind fun s =>
      (s.step .reference tenBuckets passesOffline (.set 0)).bind fun s' =>
        s.blob.bind fun y => s'.blob.map fun x => (s, s', y, x)

lemma writtenBlobs_eq_some {is : List SnapshotInput} {s s' : SnapshotState} {y x : Persisted}
    (h : writtenBlobs is = some (s, s', y, x)) :
    Reaches (step .reference tenBuckets passesOffline) (InOrder .reference walletAtCid)
        (init .reference (some [firstBallot.bundle])) s ∧
      s.step .reference tenBuckets passesOffline (.set 0) = some s' ∧
      s.blob = some y ∧ s'.blob = some x := by
  obtain ⟨t, ht, h⟩ := Option.bind_eq_some_iff.mp h
  obtain ⟨t', ht', h⟩ := Option.bind_eq_some_iff.mp h
  obtain ⟨u, hu, h⟩ := Option.bind_eq_some_iff.mp h
  obtain ⟨v, hv, h⟩ := Option.map_eq_some_iff.mp h
  simp only [Prod.mk.injEq] at h
  obtain ⟨rfl, rfl, rfl, rfl⟩ := h
  exact ⟨(reaches_of_runIf ht).mono fun _ _ h => inOrder_of_keepsOrder h, ht', hu, hv⟩

/-- Behind the restore the write has both ballots. -/
theorem snapshotWrite_lossless_iff_restored : ∃ (s : SnapshotState) (y x : Persisted),
    y.winners = [firstBallot] ∧ x.winners.length = 2 ∧
      s.Lossless tenBuckets passesOffline y x := by
  have heval : (writtenBlobs (restoresFirst ++ admitsOther ++ writesRecord)).map
      (fun (_, _, y, x) => decide (y.winners = [firstBallot]) && decide (x.winners.length = 2) &&
        decide (y.take.number ≤ x.take.number) && decide (firstBallot ∈ x.take.held.crdt.list) &&
        x.take.held.isFullyVerified firstBallot.cid) = some true := by
    decide +kernel
  obtain ⟨⟨s, s', y, x⟩, hwritten, heval⟩ := Option.map_eq_some_iff.mp heval
  obtain ⟨hrun, hset, hy, hx⟩ := writtenBlobs_eq_some hwritten
  simp only [Bool.and_eq_true, decide_eq_true_iff] at heval
  obtain ⟨⟨⟨⟨hwinners, hlength⟩, hage⟩, hheld⟩, hverified⟩ := heval
  have haddr : ∀ bundles ∈ some [firstBallot.bundle], ∀ bundle ∈ bundles, ∀ cid,
      bundleCid .reference bundle = some cid → SameVote bundle (walletAtCid cid) := by
    rintro bundles ⟨⟩ bundle hbundle cid hcid
    obtain rfl := List.mem_singleton.mp hbundle
    have hfirst : bundleCid .reference firstBallot.bundle = some firstBallot.cid := by
      decide +kernel
    rw [hfirst, Option.some.injEq] at hcid
    rw [← hcid, walletAtCid, if_pos rfl]
    exact ⟨rfl, rfl⟩
  refine ⟨s, y, x, hwinners, hlength,
    (snapshotWrite_lossless_iff haddr hrun hset hy hx hage).mpr fun a ha _ hdoubtful => ?_⟩
  rw [hwinners, List.mem_singleton] at ha
  subst ha
  exact hdoubtful.1 ⟨firstBallot, hheld, .refl _, hverified⟩

/-- **In the window of the restore the write loses a ballot**: the restore awaits its head read, the
other ballot comes in by gossip, and the timer fires. -/
theorem snapshotWrite_lossy : ∃ (s s' : SnapshotState) (y x : Persisted),
    Reaches (step .reference tenBuckets passesOffline) (InOrder .reference walletAtCid)
        (init .reference (some [firstBallot.bundle])) s ∧
      s.step .reference tenBuckets passesOffline (.set 0) = some s' ∧
      s.blob = some y ∧ s'.blob = some x ∧ y.take.number ≤ x.take.number ∧
      ¬ s.Lossless tenBuckets passesOffline y x := by
  have heval : (writtenBlobs ([.join 0, .blobRead 0, .next 0] ++ admitsOther ++ writesRecord)).map
      (fun (s, _, y, x) => decide (y.winners = [firstBallot]) &&
        decide (x.winners = [otherBallot]) && decide (y.take.number ≤ x.take.number) &&
        decide (s.evicted = []) && !isExpired tenBuckets firstBallot.bundle s.maxBucket)
      = some true := by
    decide +kernel
  obtain ⟨⟨s, s', y, x⟩, hwritten, heval⟩ := Option.map_eq_some_iff.mp heval
  obtain ⟨hrun, hset, hy, hx⟩ := writtenBlobs_eq_some hwritten
  simp only [Bool.and_eq_true, decide_eq_true_iff, Bool.not_eq_true'] at heval
  obtain ⟨⟨⟨⟨hwinners, hlost⟩, hage⟩, hevicted⟩, hlive⟩ := heval
  refine ⟨s, s', y, x, hrun, hset, hy, hx, hage, fun hlossless => ?_⟩
  rcases hlossless firstBallot (by rw [hwinners]; exact List.mem_singleton_self _) with
    ⟨w, hw, hwallet, -⟩ | hexpired | hrefused | ⟨n, hmem, -⟩
  · rw [hlost, List.mem_singleton] at hw
    subst hw
    exact absurd hwallet (by decide +kernel)
  · rw [hlive] at hexpired
    cases hexpired
  · cases hrefused
  · rw [hevicted] at hmem
    cases hmem

end PubsubVoting
