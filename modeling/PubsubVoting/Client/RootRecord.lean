import PubsubVoting.Checkpoint.Encode
import PubsubVoting.Client.Holdings
import PubsubVoting.Lib.Transition
import PubsubVoting.Transport.Messages

/-!
The root record of a contest, encoded on demand and cached until the winners change or the bucket
advances.

* `RootState.step`: concurrent calls of `rootRecord`, between everything that changes what the
  engine holds.
* `RootState.CallStep`: what a step of a call does (`callStep_of_ofCall`).
* `RootState.InOrder`: no encode overwrites the record of a younger one, and no prune that nothing
  marks drops what the record serves.
* `RootState.Fresh`: the flag is set, or the cache or an encode under way is of the current winners.
* `rootRecord_fresh`: in a run in order, the next call returns the record of the current winners.
* `rootRecord_stale`: out of order it returns the record of winners that are superseded.
-/

namespace PubsubVoting

/-! ### The record of a winner set -/

/-- `ROOT_RECORD_VERSION` -/
def rootRecordVersion : ℕ := 1

/-- The record that advertises the winners, and the blocks it refers to. -/
def rootRecordOf (C : Codecs) (winners : List Entry) :
    Option (FetchRootRecord × List CheckpointBlock) :=
  (encodeCheckpoint C (winners.map Entry.bundle) defaultMaxChunkBytes).map fun e =>
    ({ version := rootRecordVersion
       root := e.root
       count := winners.length
       sizeBytes := (e.blocks.map fun block => block.bytes.length).sum
       chunks := e.chunks }, e.blocks)

/-- With one winner per wallet their order does not show in the record. -/
lemma rootRecordOf_perm {C : Codecs} {winners winners' : List Entry}
    (hnodup : (winners.map Entry.wallet).Nodup) (h : winners'.Perm winners) :
    rootRecordOf C winners' = rootRecordOf C winners := by
  have hkeys : ((winners.map Entry.bundle).map fun b => b.address.toLowerCase).Nodup := by
    rw [List.map_map]
    exact hnodup
  have hsort := sortWinners_perm hkeys (h.map Entry.bundle)
  rw [rootRecordOf, rootRecordOf, encodeCheckpoint, encodeCheckpoint, hsort, h.length_eq]

/-! ### The engine -/

/-- An encode, from the moment it took the winners. -/
structure RootEncode where
  bucket : ℕ
  winners : List Entry
  /-- how many changes had been marked -/
  since : ℕ

/-- The cached record. -/
structure CachedRoot extends RootEncode where
  record : FetchRootRecord
  blocks : List CheckpointBlock

/-- Where a call of `rootRecord` is. -/
inductive RootCall where
  /-- it awaits the head -/
  | heading
  /-- the head is read, the call not resumed -/
  | read (bucket : ℕ)
  /-- it awaits the encode and the puts -/
  | encoding (e : RootEncode)

/-- A prune whose check state is not forgotten yet; the heartbeat's marks a change afterwards. -/
structure PruneHalf where
  cids : List Cid
  heartbeat : Bool
  deriving DecidableEq

/-- What a call returned. -/
structure RootAnswer where
  call : ℕ
  bucket : ℕ
  record : FetchRootRecord

/-- The parts of an engine its root record depends on. -/
structure RootState where
  held : Holdings
  currentBucket : ℕ
  /-- `#checkpointDirty` -/
  dirty : Bool
  /-- `#rootRecordCache` -/
  cache : Option CachedRoot
  calls : JsMap ℕ RootCall
  prunes : List PruneHalf
  answers : List RootAnswer
  /-- the changes marked so far -/
  marks : ℕ
  /-- something changed, and its mark is still to come -/
  owed : Bool

/-- What happens to an engine. -/
inductive RootInput where
  /-- `crdt.merge` of an admission -/
  | merge (cid : Cid) (bundle : VotesBundle)
  /-- `crdt.add` of an admission -/
  | add (bundle : VotesBundle)
  /-- `#recordChecks` of an admission -/
  | record (e : Entry) (settled nameSettled : Bool)
  /-- `#markStateChanged` -/
  | mark
  | settle (cid : Cid) (key : CheckKey)
  | evict (cid : Cid)
  /-- a head that something else read -/
  | head (bucket : ℕ)
  /-- the first half of `#pruneDecayed` -/
  | prune (heartbeat : Bool)
  /-- its second half -/
  | forget (p : PruneHalf)
  /-- the top of `join` -/
  | rejoin
  | call (k : ℕ)
  | headRead (k : ℕ) (bucket : ℕ)
  | resume (k : ℕ)
  | finish (k : ℕ)

/-- The steps of one call. -/
def RootInput.ofCall (k : ℕ) : RootInput → Bool
  | .call j => j = k
  | .headRead j _ => j = k
  | .resume j => j = k
  | .finish j => j = k
  | _ => false

/-- The steps of the calls of `rootRecord`. -/
def RootInput.isCall : RootInput → Bool
  | .call _ => true
  | .headRead _ _ => true
  | .resume _ => true
  | .finish _ => true
  | _ => false

namespace RootState

/-- An engine that holds nothing. -/
def init : RootState := ⟨.empty, 0, true, none, ∅, [], [], 0, false⟩

/-- `#markStateChanged` -/
def marked (s : RootState) : RootState :=
  { s with dirty := true, marks := s.marks + 1, owed := false }

section

variable (C : Codecs) (deps : CrdtDeps)

/-- A call with its bucket: the cached record, or a new encode. The flag is consumed as the winners
are taken. -/
def serve (s : RootState) (k bucket : ℕ) : RootState :=
  match (if s.dirty then none else s.cache.filter fun c => c.bucket = bucket) with
  | some c =>
    { s with
      calls := s.calls.delete k
      answers := s.answers ++ [⟨k, bucket, c.record⟩] }
  | none =>
    { s with
      dirty := false
      calls := s.calls.set k (.encoding ⟨bucket, s.held.served deps bucket, s.marks⟩) }

/-- The head a call awaits. -/
def stepHeadRead (s : RootState) (k bucket : ℕ) : RootCall → Option RootState
  | .heading => some { s with currentBucket := bucket, calls := s.calls.set k (.read bucket) }
  | _ => none

/-- A call that has its bucket. -/
def stepResume (s : RootState) (k : ℕ) : RootCall → Option RootState
  | .read bucket => some (s.serve deps k bucket)
  | _ => none

/-- The end of an encode: the cache is overwritten. -/
def stepFinish (s : RootState) (k : ℕ) : RootCall → Option RootState
  | .encoding e => (rootRecordOf C e.winners).map fun r =>
    { s with
      calls := s.calls.delete k
      cache := some ⟨e, r.1, r.2⟩
      answers := s.answers ++ [⟨k, e.bucket, r.1⟩] }
  | _ => none

/-- The halves of a prune. -/
def stepPrune (s : RootState) (heartbeat : Bool) : RootState :=
  let p : PruneHalf := ⟨s.held.pruned deps s.currentBucket, heartbeat⟩
  { s with
    held := s.held.pruneCrdt deps s.currentBucket
    prunes := s.prunes ++ [p]
    owed := s.owed || heartbeat && !p.cids.isEmpty }

@[inherit_doc stepPrune]
def stepForget (s : RootState) (p : PruneHalf) : RootState :=
  { s with
    held := s.held.forget p.cids
    prunes := s.prunes.erase p
    owed := s.owed || p.heartbeat && !p.cids.isEmpty }

/-- One step; `none` where the input does not come. No encode fails. -/
def step (s : RootState) : RootInput → Option RootState
  | .merge cid bundle => some { s with held := s.held.merge cid bundle, owed := true }
  | .add bundle => (bundleCid C bundle).map fun cid =>
    { s with held := s.held.put cid bundle, owed := true }
  | .record e settled nameSettled =>
    some { s with held := s.held.record e settled nameSettled, owed := true }
  | .mark => some s.marked
  | .settle cid key =>
    if s.held.checks.has cid then some { s with held := s.held.settle cid key }.marked else some s
  | .evict cid => some { s with held := s.held.evict cid }.marked
  | .head bucket => some { s with currentBucket := bucket }
  | .prune heartbeat => some (s.stepPrune deps heartbeat)
  | .forget p => if p ∈ s.prunes then some (s.stepForget p) else none
  | .rejoin => some { s with dirty := true, cache := none }
  | .call k =>
    if s.calls.has k then none
    else if s.held.crdt.entries.isEmpty then some (s.serve deps k s.currentBucket)
    else some { s with calls := s.calls.set k .heading }
  | .headRead k bucket => (s.calls.get? k).bind (s.stepHeadRead k bucket)
  | .resume k => (s.calls.get? k).bind (s.stepResume deps k)
  | .finish k => (s.calls.get? k).bind (s.stepFinish C k)

end

/-! ### The steps of a call -/

/-- What a step of call `k` does: the call gets its bucket, asks for the head, reads it, or ends its
encode. -/
inductive CallStep (C : Codecs) (deps : CrdtDeps) (s : RootState) (k : ℕ) :
    RootInput → RootState → Prop
  | serves (i : RootInput) (bucket : ℕ)
      (hi : i = .call k ∧ bucket = s.currentBucket ∨
        i = .resume k ∧ s.calls.get? k = some (.read bucket))
      (hnot : ∀ e, s.calls.get? k ≠ some (.encoding e)) :
      CallStep C deps s k i (s.serve deps k bucket)
  | asks (hnot : ∀ e, s.calls.get? k ≠ some (.encoding e)) :
      CallStep C deps s k (.call k) { s with calls := s.calls.set k .heading }
  | reads (bucket : ℕ) (hnot : ∀ e, s.calls.get? k ≠ some (.encoding e)) :
      CallStep C deps s k (.headRead k bucket)
        { s with currentBucket := bucket, calls := s.calls.set k (.read bucket) }
  | finishes (e : RootEncode) (record : FetchRootRecord) (blocks : List CheckpointBlock)
      (hcall : s.calls.get? k = some (.encoding e))
      (hrecord : rootRecordOf C e.winners = some (record, blocks)) :
      CallStep C deps s k (.finish k)
        { s with
          calls := s.calls.delete k
          cache := some ⟨e, record, blocks⟩
          answers := s.answers ++ [⟨k, e.bucket, record⟩] }

section

variable {C : Codecs} {deps : CrdtDeps} {s s' : RootState} {i : RootInput} {k : ℕ}

lemma not_encoding_of_not_has (h : ¬ s.calls.has k = true) (e : RootEncode) :
    s.calls.get? k ≠ some (.encoding e) := by
  rw [JsMap.has_iff, ← JsMap.get?_eq_none_iff] at h
  rw [h]
  exact fun h => nomatch h

/-- **The steps of a call do no more than that.** -/
lemma callStep_of_ofCall (hof : i.ofCall k = true) (hstep : s.step C deps i = some s') :
    s.CallStep C deps k i s' := by
  cases i with
  | call j =>
      obtain rfl := of_decide_eq_true hof
      simp only [RootState.step] at hstep
      split_ifs at hstep with hhas hempty
      · obtain rfl := Option.some.inj hstep
        exact .serves _ _ (.inl ⟨rfl, rfl⟩) (not_encoding_of_not_has hhas)
      · obtain rfl := Option.some.inj hstep
        exact .asks (not_encoding_of_not_has hhas)
  | headRead j bucket =>
      obtain rfl := of_decide_eq_true hof
      obtain ⟨call, hcall, hstep⟩ := Option.bind_eq_some_iff.mp hstep
      cases call with
      | heading =>
          obtain rfl := Option.some.inj hstep
          exact .reads bucket (by simp [hcall])
      | read b => cases hstep
      | encoding e => cases hstep
  | resume j =>
      obtain rfl := of_decide_eq_true hof
      obtain ⟨call, hcall, hstep⟩ := Option.bind_eq_some_iff.mp hstep
      cases call with
      | heading => cases hstep
      | read bucket =>
          obtain rfl := Option.some.inj hstep
          exact .serves _ bucket (.inr ⟨rfl, hcall⟩) (by simp [hcall])
      | encoding e => cases hstep
  | finish j =>
      obtain rfl := of_decide_eq_true hof
      obtain ⟨call, hcall, hstep⟩ := Option.bind_eq_some_iff.mp hstep
      cases call with
      | heading => cases hstep
      | read bucket => cases hstep
      | encoding e =>
          obtain ⟨⟨record, blocks⟩, hrecord, rfl⟩ := Option.map_eq_some_iff.mp hstep
          exact .finishes e record blocks hcall hrecord
  | _ => cases hof

lemma exists_callStep (hcall : i.isCall = true) (hstep : s.step C deps i = some s') :
    ∃ k, s.CallStep C deps k i s' := by
  cases i with
  | call k => exact ⟨k, callStep_of_ofCall (decide_eq_true rfl) hstep⟩
  | headRead k bucket => exact ⟨k, callStep_of_ofCall (decide_eq_true rfl) hstep⟩
  | resume k => exact ⟨k, callStep_of_ofCall (decide_eq_true rfl) hstep⟩
  | finish k => exact ⟨k, callStep_of_ofCall (decide_eq_true rfl) hstep⟩
  | _ => cases hcall

/-- A call that gets its bucket changes the places of the calls and the answers. -/
lemma serve_frame (s : RootState) (deps : CrdtDeps) (k bucket : ℕ) :
    (s.serve deps k bucket).held = s.held ∧ (s.serve deps k bucket).prunes = s.prunes ∧
      (s.serve deps k bucket).cache = s.cache ∧
        (s.serve deps k bucket).currentBucket = s.currentBucket := by
  rw [serve]
  split
  · exact ⟨rfl, rfl, rfl, rfl⟩
  · exact ⟨rfl, rfl, rfl, rfl⟩

/-- The steps of the calls change nothing that is held. -/
lemma frame_of_isCall (hcall : i.isCall = true) (hstep : s.step C deps i = some s') :
    s'.held = s.held ∧ s'.prunes = s.prunes := by
  obtain ⟨k, hk⟩ := exists_callStep hcall hstep
  cases hk with
  | serves _ bucket =>
      obtain ⟨hheld, hprunes, -⟩ := serve_frame s deps k bucket
      exact ⟨hheld, hprunes⟩
  | asks => exact ⟨rfl, rfl⟩
  | reads => exact ⟨rfl, rfl⟩
  | finishes => exact ⟨rfl, rfl⟩

end

/-! ### Runs in order -/

/-- The call `k` encodes winners that were taken after every change marked so far. -/
def Encodes (s : RootState) (k bucket : ℕ) : Prop :=
  ∃ e, s.calls.get? k = some (.encoding e) ∧ e.bucket = bucket ∧ e.since = s.marks

/-- A record of this bucket that nothing marked is cached or under way. -/
def Watched (s : RootState) (bucket : ℕ) : Prop :=
  (∃ c ∈ s.cache, c.bucket = bucket ∧ c.since = s.marks) ∨ ∃ k, s.Encodes k bucket

/-- A step in order. An encode that ends with the flag clear took its winners after every marked
change, or one that did has yet to end. A prune that marks nothing, with no mark owed, drops nothing
that a watched record serves, and what it dropped does not come back before it is forgotten. -/
def InOrder (deps : CrdtDeps) (s : RootState) : RootInput → Prop
  | .finish k => s.dirty = true ∨ (∃ bucket, s.Encodes k bucket) ∨
      ∃ j ≠ k, ∃ bucket, s.Encodes j bucket
  | .prune heartbeat => s.owed = true ∨ heartbeat = true ∨ ∀ bucket, s.Watched bucket →
      ∀ e ∈ s.held.served deps bucket, e.cid ∉ s.held.pruned deps s.currentBucket
  | .forget p => s.owed = true ∨ p.heartbeat = true ∨ ∀ cid ∈ p.cids, s.held.crdt.has cid = false
  | _ => True

/-- The flag is set, or the cache or an encode under way holds the winners of now. -/
structure Fresh (C : Codecs) (deps : CrdtDeps) (s : RootState) : Prop where
  /-- nothing is younger than the last mark -/
  cache_since : ∀ c ∈ s.cache, c.since ≤ s.marks
  call_since : ∀ k e, s.calls.get? k = some (.encoding e) → e.since ≤ s.marks
  /-- the record is that of the winners it was made from -/
  encoded : ∀ c ∈ s.cache, rootRecordOf C c.winners = some (c.record, c.blocks)
  /-- winners taken after the last mark are those of now, unless a mark is owed -/
  cached : ∀ c ∈ s.cache, c.since = s.marks → s.owed = false →
    c.winners.Perm (s.held.served deps c.bucket)
  taken : ∀ k e, s.calls.get? k = some (.encoding e) → e.since = s.marks → s.owed = false →
    e.winners.Perm (s.held.served deps e.bucket)
  current : s.dirty = true ∨ (∃ c ∈ s.cache, c.since = s.marks) ∨ ∃ k bucket, s.Encodes k bucket

section

variable {C : Codecs} {deps : CrdtDeps} {s s' : RootState}

lemma fresh_init : init.Fresh C deps where
  cache_since := fun c hc => nomatch hc
  call_since := fun k e h => by simp [init] at h
  encoded := fun c hc => nomatch hc
  cached := fun c hc => nomatch hc
  taken := fun k e h => by simp [init] at h
  current := .inl rfl

/-- A step that touches neither flag, cache nor calls, and owes a mark or changes no watched
bucket. -/
lemma Fresh.of_held (h : s.Fresh C deps) (hmarks : s'.marks = s.marks) (hdirty : s'.dirty = s.dirty)
    (hcache : s'.cache = s.cache) (hcalls : s'.calls = s.calls)
    (hserved : s'.owed = false → s.owed = false ∧ ∀ bucket, s.Watched bucket →
      (s.held.served deps bucket).Perm (s'.held.served deps bucket)) : s'.Fresh C deps where
  cache_since := by rw [hcache, hmarks]; exact h.cache_since
  call_since := by rw [hcalls, hmarks]; exact h.call_since
  encoded := by rw [hcache]; exact h.encoded
  cached := by
    rw [hcache, hmarks]
    intro c hc hsince howed
    obtain ⟨howed, hperm⟩ := hserved howed
    exact (h.cached c hc hsince howed).trans (hperm _ (.inl ⟨c, hc, rfl, hsince⟩))
  taken := by
    rw [hcalls, hmarks]
    intro k e he hsince howed
    obtain ⟨howed, hperm⟩ := hserved howed
    exact (h.taken k e he hsince howed).trans (hperm _ (.inr ⟨k, e, he, rfl, hsince⟩))
  current := by
    simp only [Encodes, hdirty, hcache, hcalls, hmarks]
    exact h.current

/-- A mark outdates everything that was taken. -/
lemma Fresh.marked (h : s.Fresh C deps) : s.marked.Fresh C deps where
  cache_since := fun c hc => (h.cache_since c hc).trans (Nat.le_succ _)
  call_since := fun k e he => (h.call_since k e he).trans (Nat.le_succ _)
  encoded := h.encoded
  cached := fun c hc hsince => by
    have := h.cache_since c hc
    simp only [RootState.marked] at hsince
    omega
  taken := fun k e he hsince => by
    have := h.call_since k e he
    simp only [RootState.marked] at hsince
    omega
  current := .inl rfl

/-- A change with its mark in one step. -/
lemma Fresh.marked_of_held (h : s.Fresh C deps) (held : Holdings) :
    ({ s with held } : RootState).marked.Fresh C deps :=
  ⟨h.marked.cache_since, h.marked.call_since, h.encoded,
    fun c hc hsince => by
      have := h.cache_since c hc
      simp only [RootState.marked] at hsince
      omega,
    fun k e he hsince => by
      have := h.call_since k e he
      simp only [RootState.marked] at hsince
      omega,
    .inl rfl⟩

/-- The calls that await an encode are the same. -/
lemma Fresh.of_encoding (h : s.Fresh C deps) {calls : JsMap ℕ RootCall}
    (hget : ∀ j e, calls.get? j = some (.encoding e) ↔ s.calls.get? j = some (.encoding e))
    (b : ℕ) (answers : List RootAnswer) :
    ({ s with currentBucket := b, calls, answers } : RootState).Fresh C deps where
  cache_since := h.cache_since
  call_since := fun j e he => h.call_since j e ((hget j e).mp he)
  encoded := h.encoded
  cached := h.cached
  taken := fun j e he => h.taken j e ((hget j e).mp he)
  current := by
    rcases h.current with hdirty | hcached | ⟨j, bucket, e, he, hb⟩
    · exact .inl hdirty
    · exact .inr (.inl hcached)
    · exact .inr (.inr ⟨j, bucket, e, (hget j e).mpr he, hb⟩)

/-- A call that changes its place without encoding. -/
lemma Fresh.set_call (h : s.Fresh C deps) {k : ℕ} {call : RootCall}
    (hnot : ∀ e, s.calls.get? k ≠ some (.encoding e)) (hcall : ∀ e, call ≠ .encoding e) (b : ℕ) :
    ({ s with currentBucket := b, calls := s.calls.set k call } : RootState).Fresh C deps := by
  have hget : ∀ j e, (s.calls.set k call).get? j = some (.encoding e) ↔
      s.calls.get? j = some (.encoding e) := by
    intro j e
    rw [JsMap.get?_set]
    by_cases hj : j = k
    · subst hj
      simp [hcall e, hnot e]
    · simp [hj]
  exact h.of_encoding hget b s.answers

/-- A call that has its bucket. -/
lemma Fresh.serve (h : s.Fresh C deps) {k : ℕ} (hnot : ∀ e, s.calls.get? k ≠ some (.encoding e))
    (bucket : ℕ) : (s.serve deps k bucket).Fresh C deps := by
  have hdelete : ∀ j e, (s.calls.delete k).get? j = some (.encoding e) ↔
      s.calls.get? j = some (.encoding e) := by
    intro j e
    rw [JsMap.get?_delete]
    by_cases hj : j = k
    · subst hj
      simp [hnot e]
    · simp [hj]
  rw [RootState.serve]
  split
  · exact h.of_encoding hdelete s.currentBucket _
  · -- the winners are taken here
    refine ⟨h.cache_since, fun j e he => ?_, h.encoded, h.cached, fun j e he => ?_,
      .inr (.inr ⟨k, bucket, ⟨bucket, s.held.served deps bucket, s.marks⟩, ?_, rfl, rfl⟩)⟩
    · simp only [JsMap.get?_set] at he
      split_ifs at he with hj
      · obtain rfl := RootCall.encoding.inj (Option.some.inj he)
        exact le_rfl
      · exact h.call_since j e he
    · simp only [JsMap.get?_set] at he
      split_ifs at he with hj
      · obtain rfl := RootCall.encoding.inj (Option.some.inj he)
        exact fun _ _ => List.Perm.refl _
      · exact h.taken j e he
    · simp

/-- An encode that ends in order. -/
lemma Fresh.finish (h : s.Fresh C deps) {k : ℕ} {e : RootEncode}
    (hcall : s.calls.get? k = some (.encoding e)) {record : FetchRootRecord}
    {blocks : List CheckpointBlock} (hrecord : rootRecordOf C e.winners = some (record, blocks))
    (horder : s.InOrder deps (.finish k)) (answers : List RootAnswer) :
    ({ s with calls := s.calls.delete k, cache := some ⟨e, record, blocks⟩, answers } :
      RootState).Fresh C deps := by
  have hdelete : ∀ j e', (s.calls.delete k).get? j = some (.encoding e') →
      s.calls.get? j = some (.encoding e') := by
    intro j e' he
    rw [JsMap.get?_delete] at he
    split_ifs at he
    exact he
  refine ⟨?_, fun j e' he => h.call_since j e' (hdelete j e' he), ?_, ?_,
    fun j e' he => h.taken j e' (hdelete j e' he), ?_⟩
  · rintro c ⟨⟩
    exact h.call_since k e hcall
  · rintro c ⟨⟩
    exact hrecord
  · rintro c ⟨⟩
    exact h.taken k e hcall
  · rcases horder with hdirty | ⟨bucket, e', he', -, hsince⟩ | ⟨j, hj, bucket, e', he', hb⟩
    · exact .inl hdirty
    · obtain rfl := RootCall.encoding.inj (Option.some.inj (hcall.symm.trans he'))
      exact .inr (.inl ⟨_, rfl, hsince⟩)
    · refine .inr (.inr ⟨j, bucket, e', ?_, hb⟩)
      rw [JsMap.get?_delete, if_neg hj]
      exact he'

/-- A step of a call, in order. -/
lemma Fresh.callStep (h : s.Fresh C deps) {i : RootInput} {k : ℕ} (horder : s.InOrder deps i)
    (hk : s.CallStep C deps k i s') : s'.Fresh C deps := by
  cases hk with
  | serves _ bucket _ hnot => exact h.serve hnot bucket
  | asks hnot => exact h.set_call hnot (by simp) s.currentBucket
  | reads bucket hnot => exact h.set_call hnot (by simp) bucket
  | finishes e record blocks hcall hrecord => exact h.finish hcall hrecord horder _

/-- **A step in order keeps the cache fresh.** -/
theorem Fresh.step (h : s.Fresh C deps) {i : RootInput} (horder : s.InOrder deps i)
    (hstep : s.step C deps i = some s') : s'.Fresh C deps := by
  cases i with
  | merge cid bundle =>
      obtain rfl := Option.some.inj hstep
      exact h.of_held rfl rfl rfl rfl fun howed => Bool.noConfusion howed
  | add bundle =>
      obtain ⟨cid, -, rfl⟩ := Option.map_eq_some_iff.mp hstep
      exact h.of_held rfl rfl rfl rfl fun howed => Bool.noConfusion howed
  | record e settled nameSettled =>
      obtain rfl := Option.some.inj hstep
      exact h.of_held rfl rfl rfl rfl fun howed => Bool.noConfusion howed
  | mark =>
      obtain rfl := Option.some.inj hstep
      exact h.marked
  | settle cid key =>
      simp only [RootState.step] at hstep
      split_ifs at hstep with hhas
      · obtain rfl := Option.some.inj hstep
        exact h.marked_of_held _
      · obtain rfl := Option.some.inj hstep
        exact h
  | evict cid =>
      obtain rfl := Option.some.inj hstep
      exact h.marked_of_held _
  | head bucket =>
      obtain rfl := Option.some.inj hstep
      exact h.of_held rfl rfl rfl rfl fun howed => ⟨howed, fun _ _ => List.Perm.refl _⟩
  | prune heartbeat =>
      obtain rfl := Option.some.inj hstep
      refine h.of_held rfl rfl rfl rfl fun howed => ?_
      simp only [stepPrune, Bool.or_eq_false_iff] at howed
      refine ⟨howed.1, fun bucket hwatched => (served_perm_pruned fun e he => ?_).symm⟩
      rcases horder with howed' | hheart | hspared
      · exact Bool.noConfusion (howed.1.symm.trans howed')
      · have hempty : s.held.pruned deps s.currentBucket = [] := by simpa [hheart] using howed.2
        rw [hempty]
        exact List.not_mem_nil
      · exact hspared bucket hwatched e he
  | forget p =>
      simp only [RootState.step] at hstep
      split_ifs at hstep with hp
      obtain rfl := Option.some.inj hstep
      refine h.of_held rfl rfl rfl rfl fun howed => ?_
      simp only [stepForget, Bool.or_eq_false_iff] at howed
      refine ⟨howed.1, fun bucket _ => ?_⟩
      have hgone : ∀ cid ∈ p.cids, s.held.crdt.has cid = false := by
        rcases horder with howed' | hheart | hgone
        · exact Bool.noConfusion (howed.1.symm.trans howed')
        · have hempty : p.cids = [] := by simpa [hheart] using howed.2
          rw [hempty]
          exact fun cid hcid => absurd hcid List.not_mem_nil
        · exact hgone
      exact (served_forget hgone).symm ▸ List.Perm.refl _
  | rejoin =>
      obtain rfl := Option.some.inj hstep
      exact
        { cache_since := fun c hc => absurd hc (Option.not_mem_none c)
          call_since := h.call_since
          encoded := fun c hc => absurd hc (Option.not_mem_none c)
          cached := fun c hc => absurd hc (Option.not_mem_none c)
          taken := h.taken
          current := .inl rfl }
  | call k => exact h.callStep horder (callStep_of_ofCall (decide_eq_true rfl) hstep)
  | headRead k bucket => exact h.callStep horder (callStep_of_ofCall (decide_eq_true rfl) hstep)
  | resume k => exact h.callStep horder (callStep_of_ofCall (decide_eq_true rfl) hstep)
  | finish k => exact h.callStep horder (callStep_of_ofCall (decide_eq_true rfl) hstep)

/-! ### The next call -/

/-- What a call that runs alone leaves as it is. -/
structure Alone (C : Codecs) (deps : CrdtDeps) (s : RootState) (k : ℕ) (t : RootState) : Prop where
  held : t.held = s.held
  taken : ∀ e, t.calls.get? k = some (.encoding e) → e.winners = s.held.served deps e.bucket
  cached : t.dirty = true ∨ (∃ e, t.calls.get? k = some (.encoding e)) ∨
    ∃ c ∈ t.cache, rootRecordOf C (s.held.served deps c.bucket) = some (c.record, c.blocks)
  answered : ∀ a ∈ t.answers, a.call = k →
    ∃ blocks, rootRecordOf C (s.held.served deps a.bucket) = some (a.record, blocks)

/-- With no call under way and no mark owed, the flag is set or the cached record is right. -/
lemma Fresh.alone (h : s.Fresh C deps) (hcalls : ∀ j, s.calls.get? j = none)
    (howed : s.owed = false) {k : ℕ} (hnew : ∀ a ∈ s.answers, a.call ≠ k) : s.Alone C deps k s where
  held := rfl
  taken := fun e he => by rw [hcalls] at he; cases he
  answered := fun a ha hk => absurd hk (hnew a ha)
  cached := by
    rcases h.current with hdirty | ⟨c, hc, hsince⟩ | ⟨j, bucket, e, he, -⟩
    · exact .inl hdirty
    · refine .inr (.inr ⟨c, hc, ?_⟩)
      rw [← h.encoded c hc]
      exact (rootRecordOf_perm Holdings.nodup_wallets_served (h.cached c hc hsince howed)).symm
    · rw [hcalls] at he
      cases he

variable {t t' : RootState} {k : ℕ}

/-- A call alone that is answered with the record that is cached. -/
lemma Alone.answer (h : s.Alone C deps k t) {c : CachedRoot}
    (hcached : rootRecordOf C (s.held.served deps c.bucket) = some (c.record, c.blocks)) :
    s.Alone C deps k { t with
      calls := t.calls.delete k
      cache := some c
      answers := t.answers ++ [⟨k, c.bucket, c.record⟩] } := by
  refine ⟨h.held, fun e he => ?_, .inr (.inr ⟨c, rfl, hcached⟩), fun a ha hk => ?_⟩
  · simp only [JsMap.get?_delete, if_true] at he
    cases he
  · rcases List.mem_append.mp ha with ha | ha
    · exact h.answered a ha hk
    · obtain rfl := List.mem_singleton.mp ha
      exact ⟨c.blocks, hcached⟩

/-- A call alone that gets its bucket. -/
lemma Alone.serve (h : s.Alone C deps k t) (hnot : ∀ e, t.calls.get? k ≠ some (.encoding e))
    (bucket : ℕ) : s.Alone C deps k (t.serve deps k bucket) := by
  rw [RootState.serve]
  split
  · rename_i c hc
    -- the cached record is returned
    split_ifs at hc with hdirty
    obtain ⟨hmem, hbucket⟩ := Option.filter_eq_some_iff.mp hc
    obtain rfl := of_decide_eq_true hbucket
    have hcached : rootRecordOf C (s.held.served deps c.bucket) = some (c.record, c.blocks) := by
      rcases h.cached with hdirty' | ⟨e, he⟩ | ⟨c', hc', hrecord⟩
      · exact absurd hdirty' hdirty
      · exact absurd he (hnot e)
      · obtain rfl := Option.some.inj (hmem.symm.trans hc')
        exact hrecord
    have hanswered := h.answer hcached
    rwa [← hmem] at hanswered
  · refine ⟨h.held, fun e he => ?_,
      .inr (.inl ⟨⟨bucket, t.held.served deps bucket, t.marks⟩, by simp⟩), h.answered⟩
    simp only [JsMap.get?_set, if_true] at he
    obtain rfl := RootCall.encoding.inj (Option.some.inj he)
    rw [← h.held]

/-- A call alone that changes its place without encoding. -/
lemma Alone.set_call (h : s.Alone C deps k t) (hnot : ∀ e, t.calls.get? k ≠ some (.encoding e))
    {call : RootCall} (hcall : ∀ e, call ≠ .encoding e) (b : ℕ) :
    s.Alone C deps k { t with currentBucket := b, calls := t.calls.set k call } := by
  refine ⟨h.held, fun e he => ?_, ?_, h.answered⟩
  · simp only [JsMap.get?_set, if_true, Option.some.injEq] at he
    exact absurd he (hcall e)
  · rcases h.cached with hdirty | ⟨e, he⟩ | hcached
    · exact .inl hdirty
    · exact absurd he (hnot e)
    · exact .inr (.inr hcached)

lemma Alone.step (h : s.Alone C deps k t) {i : RootInput} (hof : i.ofCall k = true)
    (hstep : t.step C deps i = some t') : s.Alone C deps k t' := by
  cases callStep_of_ofCall hof hstep with
  | serves _ bucket _ hnot => exact h.serve hnot bucket
  | asks hnot => exact h.set_call hnot (by simp) t.currentBucket
  | reads bucket hnot => exact h.set_call hnot (by simp) bucket
  | finishes e record blocks hcall hrecord =>
      rw [h.taken e hcall] at hrecord
      exact h.answer (c := ⟨e, record, blocks⟩) hrecord

/-- A call that has its bucket is answered, at once or when its encode ends. -/
lemma exists_answered {bucket : ℕ}
    (hencodes : (rootRecordOf C (t.held.served deps bucket)).isSome = true) :
    ∃ t', Reaches (step C deps) (fun _ i => i.ofCall k = true) (t.serve deps k bucket) t' ∧
      ∃ a ∈ t'.answers, a.call = k := by
  obtain ⟨r, hr⟩ := Option.isSome_iff_exists.mp hencodes
  cases hserve : (if t.dirty then none else t.cache.filter fun c => c.bucket = bucket) with
  | some c =>
      refine ⟨_, .refl, ⟨k, bucket, c.record⟩, ?_, rfl⟩
      rw [RootState.serve, hserve]
      exact List.mem_append_right _ List.mem_cons_self
  | none =>
      have hcall : (t.serve deps k bucket).calls.get? k =
          some (.encoding ⟨bucket, t.held.served deps bucket, t.marks⟩) := by
        rw [RootState.serve, hserve]
        simp
      obtain ⟨t', hstep, hanswers⟩ : ∃ t',
          (t.serve deps k bucket).step C deps (.finish k) = some t' ∧
            ⟨k, bucket, r.1⟩ ∈ t'.answers := by
        rw [RootState.step, hcall, Option.bind_some, stepFinish, hr, Option.map_some]
        exact ⟨_, rfl, List.mem_append_right _ List.mem_cons_self⟩
      exact ⟨t', .tail .refl (i := .finish k) (decide_eq_true rfl) hstep, _, hanswers, rfl⟩

/-- A call alone can be completed, at any bucket that the head gives. -/
lemma exists_completed (hcalls : s.calls.get? k = none) {bucket : ℕ}
    (hencodes : (rootRecordOf C (s.held.served deps bucket)).isSome = true) :
    ∃ t, Reaches (step C deps) (fun _ i => i.ofCall k = true) s t ∧
      ∃ a ∈ t.answers, a.call = k := by
  have hhas : ¬ s.calls.has k = true := by
    rw [JsMap.has_iff, ← JsMap.get?_eq_none_iff]
    exact hcalls
  by_cases hempty : s.held.crdt.entries.isEmpty = true
  · -- with nothing held no head is read, and every bucket has the same winners
    have hserved : s.held.served deps s.currentBucket = s.held.served deps bucket := by
      have hnil : s.held.crdt.list = [] := by
        rw [Bundles.list, List.isEmpty_iff.mp hempty, List.map_nil]
      rw [Holdings.served, Holdings.served, currentEntries, currentEntries, winnersByWallet, hnil]
      rfl
    obtain ⟨t, ht, ha⟩ := exists_answered (k := k) (hserved.symm ▸ hencodes)
    have hcall : s.step C deps (.call k) = some (s.serve deps k s.currentBucket) := by
      rw [RootState.step, if_neg hhas, if_pos hempty]
    have hfirst : Reaches (step C deps) (fun _ i => i.ofCall k = true) s
        (s.serve deps k s.currentBucket) :=
      .tail .refl (i := .call k) (decide_eq_true rfl) hcall
    exact ⟨t, hfirst.trans ht, ha⟩
  · set s₁ : RootState := { s with calls := s.calls.set k .heading } with hs₁
    set s₂ : RootState :=
      { s₁ with currentBucket := bucket, calls := s₁.calls.set k (.read bucket) } with hs₂
    have hcall : s.step C deps (.call k) = some s₁ := by
      rw [RootState.step, if_neg hhas, if_neg hempty]
    have hread : s₁.step C deps (.headRead k bucket) = some s₂ := by
      have hget : s₁.calls.get? k = some .heading := by simp [hs₁]
      rw [RootState.step, hget, Option.bind_some, stepHeadRead]
    have hresume : s₂.step C deps (.resume k) = some (s₂.serve deps k bucket) := by
      have hget : s₂.calls.get? k = some (.read bucket) := by simp [hs₂]
      rw [RootState.step, hget, Option.bind_some, stepResume]
    obtain ⟨t, ht, ha⟩ := exists_answered (t := s₂) (k := k) hencodes
    have hhead : Reaches (step C deps) (fun _ i => i.ofCall k = true) s s₂ :=
      (Reaches.refl.tail (i := .call k) (decide_eq_true rfl) hcall).tail (i := .headRead k bucket)
        (decide_eq_true rfl) hread
    have hserve : Reaches (step C deps) (fun _ i => i.ofCall k = true) s
        (s₂.serve deps k bucket) := hhead.tail (i := .resume k) (decide_eq_true rfl) hresume
    exact ⟨t, hserve.trans ht, ha⟩

end

end RootState

open RootState

/-- **In a run in order the cache is never stale.** Once no call is under way and no mark is owed,
the next call, with no change in between, returns the record of the fully verified, unexpired
winners at the bucket it reads; and it can be completed, whatever bucket that is. -/
theorem rootRecord_fresh {C : Codecs} {deps : CrdtDeps} {s : RootState} {k : ℕ}
    (hrun : Reaches (step C deps) (InOrder deps) init s) (hcalls : ∀ j, s.calls.get? j = none)
    (howed : s.owed = false) (hnew : ∀ a ∈ s.answers, a.call ≠ k) :
    (∀ t, Reaches (step C deps) (fun _ i => i.ofCall k = true) s t →
      ∀ a ∈ t.answers, a.call = k →
        ∃ blocks, rootRecordOf C (s.held.served deps a.bucket) = some (a.record, blocks)) ∧
    ∀ bucket, (rootRecordOf C (s.held.served deps bucket)).isSome = true →
      ∃ t, Reaches (step C deps) (fun _ i => i.ofCall k = true) s t ∧
        ∃ a ∈ t.answers, a.call = k := by
  have hfresh : s.Fresh C deps :=
    hrun.invariant fresh_init fun _ _ _ h horder hstep => h.step horder hstep
  refine ⟨fun t halone => ?_, fun bucket hencodes => exists_completed (hcalls k) hencodes⟩
  have hlast : s.Alone C deps k t :=
    halone.invariant (hfresh.alone hcalls howed hnew) fun _ _ _ h hof hstep => h.step hof hstep
  exact hlast.answered

/-! ### Encodes that overtake each other -/

/-- A stricter order that can be computed: an encode ends with the flag set, or took its winners
after every marked change; nothing is pruned. -/
def RootState.keepsPace (s : RootState) : RootInput → Bool
  | .finish k => s.dirty || match s.calls.get? k with
    | some (.encoding e) => decide (e.since = s.marks)
    | _ => false
  | .prune _ => false
  | .forget _ => false
  | _ => true

lemma RootState.inOrder_of_keepsPace {deps : CrdtDeps} {s : RootState} {i : RootInput}
    (h : s.keepsPace i = true) : s.InOrder deps i := by
  cases i with
  | finish k =>
      simp only [keepsPace, Bool.or_eq_true] at h
      refine h.imp_right fun h => .inl ?_
      split at h
      · rename_i e he
        exact ⟨e.bucket, e, he, rfl, of_decide_eq_true h⟩
      · cases h
  | prune heartbeat => cases h
  | forget p => cases h
  | _ => trivial

/-- The entry of a wallet whose bundle claims no name. -/
def walletEntry (account : UInt8) : Entry :=
  ⟨(bundleCid .reference (winnerOf account none)).getD [], winnerOf account none⟩

/-- The gate admits the bundle of a wallet. -/
def gossipOf (account : UInt8) : List RootInput :=
  let e := walletEntry account
  [.merge e.cid e.bundle, .record e true true, .mark]

/-- A call gets as far as its encode. -/
def callEncodes (k : ℕ) : List RootInput := [.call k, .headRead k 0, .resume k]

/-- What is read off the states before and after a call. -/
structure CallSummary where
  underWay : ℕ
  owed : Bool
  served : ℕ
  before : List ℕ
  /-- call, bucket and number of winners of each answer -/
  after : List (ℕ × ℕ × ℕ)
  deriving DecidableEq

/-- The states before and after a call, at bucket `0`. -/
def callSummary (s t : RootState) : CallSummary where
  underWay := s.calls.entries.length
  owed := s.owed
  served := (s.held.served tenBuckets 0).length
  before := s.answers.map RootAnswer.call
  after := t.answers.map fun a => (a.call, a.bucket, a.record.count)

/-- Call `2` runs alone behind some inputs that meet a condition. -/
def thenCall (ok : RootState → RootInput → Bool) (is : List RootInput) : Option CallSummary :=
  (runIf (step .reference tenBuckets) (fun s i => ok s i = true) is init).bind fun s =>
    (runIf (step .reference tenBuckets) (fun _ i => i.ofCall 2 = true) (callEncodes 2) s).map
      (callSummary s)

lemma calls_eq_none {s : RootState} (h : s.calls.entries.length = 0) (j : ℕ) :
    s.calls.get? j = none := by
  rw [JsMap.get?_eq_none_iff, JsMap.keys, List.length_eq_zero_iff.mp h]
  exact List.not_mem_nil

/-- The second bundle is admitted while call `0` encodes; call `1` starts when that is through. -/
def inTurn : List RootInput :=
  gossipOf 1 ++ callEncodes 0 ++ gossipOf 2 ++ [.finish 0] ++ callEncodes 1 ++ [.finish 1]

/-- In turn, the record of both winners is cached, and the next call returns it. -/
theorem rootRecord_fresh_inTurn : ∃ s t : RootState, ∃ a ∈ t.answers, a.call = 2 ∧
    a.record.count = 2 ∧ ∃ blocks,
      rootRecordOf .reference (s.held.served tenBuckets a.bucket) = some (a.record, blocks) := by
  have heval : thenCall keepsPace inTurn
      = some ⟨0, false, 2, [0, 1], [(0, 0, 1), (1, 0, 2), (2, 0, 2)]⟩ := by decide +kernel
  obtain ⟨s, hs, heval⟩ := Option.bind_eq_some_iff.mp heval
  obtain ⟨t, ht, heval⟩ := Option.map_eq_some_iff.mp heval
  simp only [callSummary, CallSummary.mk.injEq] at heval
  obtain ⟨hcalls, howed, -, hbefore, hafter⟩ := heval
  have hnew : ∀ a ∈ s.answers, a.call ≠ 2 := by
    intro a ha h2
    have hmem := List.mem_map_of_mem (f := RootAnswer.call) ha
    rw [hbefore, h2] at hmem
    simp at hmem
  have hmem : (2, 0, 2) ∈ t.answers.map fun a => (a.call, a.bucket, a.record.count) := by
    rw [hafter]
    simp
  obtain ⟨a, ha, heq⟩ := List.mem_map.mp hmem
  simp only [Prod.mk.injEq] at heq
  have horder : Reaches (step .reference tenBuckets) (InOrder tenBuckets) init s :=
    (reaches_of_runIf hs).mono fun _ _ h => inOrder_of_keepsPace h
  have hfresh := (rootRecord_fresh horder (calls_eq_none hcalls) howed hnew).1
  exact ⟨s, t, a, ha, heq.1, heq.2.2, hfresh t (reaches_of_runIf ht) a ha heq.1⟩

/-- Call `1` starts after the second bundle was admitted, and ends before call `0`. -/
def overtaken : List RootInput :=
  gossipOf 1 ++ callEncodes 0 ++ gossipOf 2 ++ callEncodes 1 ++ [.finish 1, .finish 0]

lemma count_of_rootRecordOf {C : Codecs} {winners : List Entry} {record : FetchRootRecord}
    {blocks : List CheckpointBlock} (h : rootRecordOf C winners = some (record, blocks)) :
    record.count = winners.length := by
  obtain ⟨e, -, he⟩ := Option.map_eq_some_iff.mp h
  rw [← (Prod.mk.inj he).1]

/-- **Out of order the cache is stale**: with two winners, the next call returns the record of
one. -/
theorem rootRecord_stale : ∃ s t : RootState,
    Reaches (step .reference tenBuckets) (fun _ _ => True) init s ∧
    (∀ j, s.calls.get? j = none) ∧ s.owed = false ∧ (∀ a ∈ s.answers, a.call ≠ 2) ∧
    Reaches (step .reference tenBuckets) (fun _ i => i.ofCall 2 = true) s t ∧
    ¬ ∀ a ∈ t.answers, a.call = 2 → ∃ blocks,
      rootRecordOf .reference (s.held.served tenBuckets a.bucket) = some (a.record, blocks) := by
  have heval : thenCall (fun _ _ => true) overtaken
      = some ⟨0, false, 2, [1, 0], [(1, 0, 2), (0, 0, 1), (2, 0, 1)]⟩ := by decide +kernel
  obtain ⟨s, hs, heval⟩ := Option.bind_eq_some_iff.mp heval
  obtain ⟨t, ht, heval⟩ := Option.map_eq_some_iff.mp heval
  simp only [callSummary, CallSummary.mk.injEq] at heval
  obtain ⟨hcalls, howed, hserved, hbefore, hafter⟩ := heval
  refine ⟨s, t, (reaches_of_runIf hs).mono fun _ _ _ => trivial, calls_eq_none hcalls, howed,
    fun a ha h2 => ?_, reaches_of_runIf ht, fun hfresh => ?_⟩
  · have hmem := List.mem_map_of_mem (f := RootAnswer.call) ha
    rw [hbefore, h2] at hmem
    simp at hmem
  · have hmem : (2, 0, 1) ∈ t.answers.map fun a => (a.call, a.bucket, a.record.count) := by
      rw [hafter]
      simp
    obtain ⟨a, ha, heq⟩ := List.mem_map.mp hmem
    simp only [Prod.mk.injEq] at heq
    obtain ⟨hcall, hbucket, hcount⟩ := heq
    obtain ⟨blocks, hrecord⟩ := hfresh a ha hcall
    have hlen := count_of_rootRecordOf hrecord
    rw [hbucket, hserved, hcount] at hlen
    cases hlen

end PubsubVoting
