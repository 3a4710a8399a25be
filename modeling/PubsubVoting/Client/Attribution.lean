import PubsubVoting.Client.FailedEncode
import PubsubVoting.Client.Lockstep

/-!
Which peers an engine takes to hold its own bundles, by the checkpoints they advertise.

* `Attribution.step`: heard root records, pulls and chases, between everything an engine does.
* `Attribution.Describes`: what the checkpoints behind the roots of a run contain.
* `Attribution.Covered`: where a heard root is the engine's own, no own bundle that the shortcut is
  about to index was settled too late for it, superseded or expired.
* `Attribution.Founded`: every credit has its checkpoint (`Attribution.Founded.step`).
* `attribution_sound`: in a run whose comparisons are covered, a credited peer advertised a root
  whose checkpoint contains the bundle.
* `attribution_superseded`: where one is not, a superseded bundle is credited to a peer that never
  advertised it.
-/

namespace PubsubVoting

open Cbor

/-- `PEER_ROOTS_MAX` -/
def peerRootsMax : ℕ := 256

/-- `DECODED_ROOTS_MAX` -/
def decodedRootsMax : ℕ := 64

/-- `#OWN_CIDS_MAX` -/
def ownCidsMax : ℕ := 64

/-- An engine, its own bundles, and the roots it knows of. Peers are their `toString()`. -/
structure Attribution where
  engine : RootState
  /-- `#peerRoots`: the latest root of each peer -/
  peerRoots : JsMap JsString Cid
  /-- `#ownPublishes` -/
  ownPublishes : JsMap Cid VotesBundle
  /-- the keys of `#ownCheckpointCbs` -/
  ownCheckpointCbs : List Cid
  /-- `#ownCids`, oldest first -/
  ownCids : List Cid
  /-- `#decodedRoots`: which own bundles a checkpoint contained -/
  decodedRoots : JsMap Cid (List Cid)
  /-- `#ownCheckpointPeers` -/
  ownCheckpointPeers : JsMap Cid (List JsString)
  /-- the roots that are heard and not compared yet, by the call of `rootRecord` they wait for -/
  heard : JsMap ℕ Cid
  /-- every root a peer was seen to advertise -/
  advertised : List (JsString × Cid)
  /-- every own-checkpoint callback that fired, and the peer it fired for -/
  fired : List (Cid × JsString)
  /-- what was held when a call of `rootRecord` took its winners -/
  taken : JsMap ℕ Holdings
  /-- every root of our own, with what was held when its winners were taken, and its bucket -/
  encoded : List (Cid × Holdings × ℕ)

/-- What happens to an engine and its own bundles. -/
inductive AttributionInput where
  /-- anything else an engine does; a settlement, an eviction or a prune may be of an own bundle -/
  | engine (i : FailableInput)
  /-- the rest of `signVote`, once `crdt.add` is through -/
  | signed (e : Entry) (namesSettled callback : Bool)
  /-- `#handleRootRecord`, as far as its call of `rootRecord` -/
  | heard (k : ℕ) (root : Cid) (sender : Option JsString)
  /-- the rest of it, once the call has returned -/
  | compared (k : ℕ)
  /-- a record that a cold-start pull or a bulk answer brought -/
  | pulled (peer : JsString) (root : Cid)
  /-- a chase that decoded its root, and walked as far as its deadline let it -/
  | chased (root : Cid) (getBlock : Cid → Option Bytes) (chunks : Option (List Cid)) (walked : ℕ)
  /-- `trackOwnBundle` -/
  | track (cid : Cid)
  | leave

namespace Attribution

/-- An engine that knows nothing. -/
def init : Attribution := ⟨.init, ∅, ∅, [], [], ∅, ∅, ∅, [], [], ∅, []⟩

variable (C : Codecs) (deps : CrdtDeps) (s : Attribution)

/-! ### The own bundles -/

/-- `#dropOwnTracking` -/
def dropOwnTracking (cid : Cid) : Attribution :=
  { s with ownPublishes := s.ownPublishes.delete cid }

/-- `#forgetOwnBundle` -/
def forgetOwnBundle (cid : Cid) : Attribution :=
  { s.dropOwnTracking cid with
    ownCheckpointCbs := s.ownCheckpointCbs.filter (· ≠ cid)
    ownCids := s.ownCids.filter (· ≠ cid)
    ownCheckpointPeers := s.ownCheckpointPeers.delete cid }

/-- `#evictBundle`, what is left of it once the bundle and its checks are gone. -/
def evictOwn (cid : Cid) : Attribution :=
  let t := { s with
    ownCids := s.ownCids.filter (· ≠ cid)
    ownCheckpointPeers := s.ownCheckpointPeers.delete cid }
  if s.ownPublishes.has cid then t.forgetOwnBundle cid else t

/-- `#ownCids.add` -/
def addOwn (cid : Cid) : Attribution :=
  if cid ∈ s.ownCids then s else { s with ownCids := s.ownCids ++ [cid] }

/-- `trackOwnBundle` -/
def trackOwnBundle (cid : Cid) : Attribution :=
  if cid ∈ s.ownCids then s
  else
    let room := if s.ownCids.length ≥ ownCidsMax then
      match s.ownCids.head? with
      | some oldest => s.forgetOwnBundle oldest
      | none => s
    else s
    room.addOwn cid

/-- `#ownVerifiedCids` -/
def ownVerifiedCids : List Cid := s.ownCids.filter s.engine.held.isFullyVerified

/-- `checkpointPeersFor` -/
def checkpointPeersFor (cid : Cid) : List JsString := (s.ownCheckpointPeers.get? cid).getD []

/-! ### Credit -/

/-- `#onStateChanged` -/
def stateChanged : Attribution := { s with engine := s.engine.marked }

/-- `#creditPeer`, one bundle of a checkpoint; the flag tells that something was new. -/
def creditBundle (peer : JsString) (r : Attribution × Bool) (cid : Cid) : Attribution × Bool :=
  if cid ∉ r.1.ownCids ∨ peer ∈ r.1.checkpointPeersFor cid then r
  else
    let peers := r.1.checkpointPeersFor cid
    let credited := { r.1 with
      ownCheckpointPeers := r.1.ownCheckpointPeers.set cid (peers ++ [peer]) }
    if peers.isEmpty then
      ({ credited with
        fired := if cid ∈ r.1.ownCheckpointCbs then r.1.fired ++ [(cid, peer)] else r.1.fired
        ownCheckpointCbs := r.1.ownCheckpointCbs.filter (· ≠ cid) }, true)
    else (credited, true)

/-- `#creditPeer` -/
def creditPeer (r : Attribution × Bool) (peer : JsString) (mine : List Cid) :
    Attribution × Bool := mine.foldl (creditBundle peer) r

/-- Tell the listeners, if anything was new. -/
def settleCredit (r : Attribution × Bool) : Attribution := if r.2 then r.1.stateChanged else r.1

/-- `#attributeRoot` -/
def attributeRoot (peer : JsString) (root : Cid) : Attribution :=
  match s.decodedRoots.get? root with
  | some mine => settleCredit (creditPeer (s, false) peer mine)
  | none => s

/-- `#notePeerRoot` -/
def notePeerRoot (peer : JsString) (root : Cid) : Attribution :=
  let noted := { s with
    peerRoots := s.peerRoots.setYoungest peerRootsMax peer root
    advertised := s.advertised ++ [(peer, root)] }
  noted.attributeRoot peer root

/-- `#indexRootContents`, one peer: it is credited if the root is its latest. -/
def creditAdvertiser (root : Cid) (mine : List Cid) (r : Attribution × Bool)
    (e : JsString × Cid) : Attribution × Bool :=
  if e.2 = root then creditPeer r e.1 mine else r

/-- `#indexRootContents` -/
def indexRootContents (root : Cid) (mine : List Cid) : Attribution :=
  if mine.isEmpty then s
  else
    let indexed := { s with decodedRoots := s.decodedRoots.setYoungest decodedRootsMax root mine }
    settleCredit (s.peerRoots.entries.foldl (creditAdvertiser root mine) (indexed, false))

/-- `#noteCheckpointContents` -/
def noteCheckpointContents (root : Cid) (cids : List Cid) : Attribution :=
  s.indexRootContents root (cids.filter (· ∈ s.ownCids))

/-! ### The steps -/

/-- A step that brought the engine to `t` may take the winners of an encode. -/
def take (t : RootState) (i : RootInput) : Attribution :=
  match t.takesFor i with
  | some k => { s with taken := s.taken.set k s.engine.held }
  | none => s

/-- What the engine's own bundles notice of a step that brought it to `t`. -/
def follow (t : RootState) : FailableInput → Attribution
  | .engine (.settle cid _) => if t.held.isFullyVerified cid then s.dropOwnTracking cid else s
  | .engine (.evict cid) => s.evictOwn cid
  | .engine (.forget p) => p.cids.foldl forgetOwnBundle s
  | .engine (.finish k) => { s with
      encoded := s.encoded ++ t.cache.toList.filterMap fun c =>
        (s.taken.get? k).map fun held => (c.record.root, held, c.bucket) }
  | .engine i => s.take t i
  | .throws k => { s with heard := s.heard.delete k }

/-- The end of `signVote`. -/
def stepSigned (e : Entry) (namesSettled callback : Bool) : Attribution :=
  let admitted := { s with
    engine := { s.engine with held := s.engine.held.record e false namesSettled }
    ownPublishes := s.ownPublishes.set e.cid e.bundle
    ownCheckpointCbs := if callback then s.ownCheckpointCbs ++ [e.cid] else s.ownCheckpointCbs }
  (admitted.addOwn e.cid).stateChanged

/-- What the call `k` of `rootRecord` returned. -/
def answerOf (k : ℕ) : Option RootAnswer := s.engine.answers.find? fun a => a.call = k

/-- `#handleRootRecord` up to its call of `rootRecord`, which is a new one. -/
def stepHeard (k : ℕ) (root : Cid) (sender : Option JsString) : Option Attribution :=
  if s.heard.has k ∨ (s.answerOf k).isSome then none
  else
    let noted := match sender with
      | some peer => s.notePeerRoot peer root
      | none => s
    (noted.engine.step C deps (.call k)).map fun t =>
      { noted.take t (.call k) with engine := t, heard := noted.heard.set k root }

/-- The rest of it: a root that is our own is indexed with what we hold verified. -/
def stepCompared (k : ℕ) : Option Attribution := do
  let root ← s.heard.get? k
  let own ← s.answerOf k
  let heard := { s with heard := s.heard.delete k }
  return if own.record.root = root then heard.indexRootContents root heard.ownVerifiedCids
    else heard

/-- One step; `none` where the input does not come. -/
def step : AttributionInput → Option Attribution
  | .engine i => (s.engine.stepFailable C deps i).map fun t => { s.follow t i with engine := t }
  | .signed e namesSettled callback => some (s.stepSigned e namesSettled callback)
  | .heard k root sender => s.stepHeard C deps k root sender
  | .compared k => s.stepCompared k
  | .pulled peer root => some (s.notePeerRoot peer root)
  | .chased root getBlock chunks walked => (decodeCheckpoint C root getBlock chunks).map fun ws =>
      s.noteCheckpointContents root ((ws.take walked).filterMap (bundleCid C))
  | .track cid => some (s.trackOwnBundle cid)
  | .leave => some { s with peerRoots := ∅ }

/-! ### What a checkpoint contains -/

/-- A root names one checkpoint: what an encode turned into it, and what a chase decodes behind it,
are the bundles it contains. -/
def Describes (contents : Cid → Set Cid) : AttributionInput → Prop
  | .engine (.engine (.finish k)) => ∀ e record blocks,
      s.engine.calls.get? k = some (.encoding e) →
      rootRecordOf C e.winners = some (record, blocks) →
      ∀ cid, cid ∈ contents record.root ↔ cid ∈ e.winners.map Entry.cid
  | .chased root getBlock chunks _ => ∀ ws, decodeCheckpoint C root getBlock chunks = some ws →
      ∀ cid, cid ∈ contents root ↔ cid ∈ ws.filterMap (bundleCid C)
  | _ => True

/-- A bundle was held and fully verified when the winners for a bucket were taken, no bundle of its
wallet that was too superseded it, and it had not expired by the bucket. -/
structure Timely (held : Holdings) (bucket : ℕ) (cid : Cid) (e : Entry) : Prop where
  cid_eq : e.cid = cid
  mem : e ∈ held.crdt.list
  verified : held.isFullyVerified e.cid = true
  newest : ∀ e' ∈ held.crdt.list, held.isFullyVerified e'.cid = true → e'.wallet = e.wallet →
    e'.rank ≤ e.rank
  live : isExpired deps e.bundle bucket = false

/-- Every encode under way took its winners from what is logged. -/
def Taken (calls : JsMap ℕ RootCall) (taken : JsMap ℕ Holdings) : Prop :=
  ∀ k e, calls.get? k = some (.encoding e) → ∃ held, taken.get? k = some held ∧
    e.winners = held.served deps e.bucket

/-- Where a heard root is our own, none of the own bundles that are fully verified by then was
settled too late for it, superseded or expired. -/
def Covered : AttributionInput → Prop
  | .compared k => ∀ own ∈ s.answerOf k, s.heard.get? k = some own.record.root →
      ∀ cid ∈ s.ownVerifiedCids, ∃ held bucket e,
        (own.record.root, held, bucket) ∈ s.encoded ∧ Timely deps held bucket cid e
  | _ => True

/-- A peer is listed for a bundle, or its callback has fired because of the peer. -/
def Credited (cid : Cid) (peer : JsString) : Prop :=
  peer ∈ s.checkpointPeersFor cid ∨ (cid, peer) ∈ s.fired

/-- A peer advertised some root whose checkpoint contains the bundle. -/
def Advertises (contents : Cid → Set Cid) (cid : Cid) (peer : JsString) : Prop :=
  ∃ root, (peer, root) ∈ s.advertised ∧ cid ∈ contents root

/-! ### Whom a step credits -/

section

variable {C : Codecs} {deps : CrdtDeps} {contents : Cid → Set Cid} {s t : Attribution}

/-- Two states that know the same roots. -/
structure SameRoots (s t : Attribution) : Prop where
  peerRoots : t.peerRoots = s.peerRoots
  decodedRoots : t.decodedRoots = s.decodedRoots
  advertised : t.advertised = s.advertised
  encoded : t.encoded = s.encoded
  calls : t.engine.calls = s.engine.calls
  taken : t.taken = s.taken

lemma SameRoots.refl : SameRoots s s := ⟨rfl, rfl, rfl, rfl, rfl, rfl⟩

lemma SameRoots.trans {u : Attribution} (h : SameRoots s t) (h' : SameRoots t u) :
    SameRoots s u where
  peerRoots := h'.peerRoots.trans h.peerRoots
  decodedRoots := h'.decodedRoots.trans h.decodedRoots
  advertised := h'.advertised.trans h.advertised
  encoded := h'.encoded.trans h.encoded
  calls := h'.calls.trans h.calls
  taken := h'.taken.trans h.taken

lemma mem_checkpointPeersFor_set {cid c : Cid} {peers : List JsString} {peer : JsString}
    {m : JsMap Cid (List JsString)} (h : peer ∈ ((m.set cid peers).get? c).getD []) :
    c = cid ∧ peer ∈ peers ∨ peer ∈ (m.get? c).getD [] := by
  rw [JsMap.get?_set] at h
  split_ifs at h with hc
  · exact .inl ⟨hc, h⟩
  · exact .inr h

/-- One bundle of a checkpoint is credited to one peer. -/
lemma credited_creditBundle (peer p : JsString) (r : Attribution × Bool) (cid c : Cid) :
    SameRoots r.1 (creditBundle peer r cid).1 ∧
    ((creditBundle peer r cid).1.Credited c p → r.1.Credited c p ∨ p = peer ∧ c = cid) := by
  have hlisted : p ∈ ((r.1.ownCheckpointPeers.set cid
      (r.1.checkpointPeersFor cid ++ [peer])).get? c).getD [] →
      p ∈ r.1.checkpointPeersFor c ∨ p = peer ∧ c = cid := by
    intro h
    rcases mem_checkpointPeersFor_set h with ⟨rfl, hp⟩ | hp
    · rcases List.mem_append.mp hp with hp | hp
      · exact .inl hp
      · exact .inr ⟨List.mem_singleton.mp hp, rfl⟩
    · exact .inl hp
  by_cases hskip : cid ∉ r.1.ownCids ∨ peer ∈ r.1.checkpointPeersFor cid
  · rw [creditBundle, if_pos hskip]
    exact ⟨.refl, .inl⟩
  · rw [creditBundle, if_neg hskip]
    by_cases hfirst : (r.1.checkpointPeersFor cid).isEmpty = true
    · rw [if_pos hfirst]
      refine ⟨⟨rfl, rfl, rfl, rfl, rfl, rfl⟩, fun h => ?_⟩
      rcases h with h | h
      · exact (hlisted h).imp_left .inl
      · -- the callback fires for the first peer only
        dsimp only at h
        split_ifs at h
        · rcases List.mem_append.mp h with h | h
          · exact .inl (.inr h)
          · obtain ⟨rfl, rfl⟩ := Prod.mk.inj (List.mem_singleton.mp h)
            exact .inr ⟨rfl, rfl⟩
        · exact .inl (.inr h)
    · rw [if_neg hfirst]
      refine ⟨⟨rfl, rfl, rfl, rfl, rfl, rfl⟩, fun h => ?_⟩
      rcases h with h | h
      · exact (hlisted h).imp_left .inl
      · exact .inl (.inr h)

/-- **A peer is credited with bundles of the checkpoint it is credited for**, and no other peer. -/
lemma credited_creditPeer (peer p : JsString) (mine : List Cid) (r : Attribution × Bool)
    (c : Cid) :
    SameRoots r.1 (creditPeer r peer mine).1 ∧
    ((creditPeer r peer mine).1.Credited c p → r.1.Credited c p ∨ p = peer ∧ c ∈ mine) := by
  rw [creditPeer]
  induction mine generalizing r with
  | nil => exact ⟨.refl, .inl⟩
  | cons cid mine ih =>
      obtain ⟨hroots, hcredit⟩ := credited_creditBundle peer p r cid c
      obtain ⟨hroots', hcredit'⟩ := ih (creditBundle peer r cid)
      refine ⟨hroots.trans hroots', fun h => ?_⟩
      rcases hcredit' h with h | ⟨hp, hc⟩
      · exact (hcredit h).imp_right fun ⟨hp, hc⟩ => ⟨hp, hc ▸ List.mem_cons_self⟩
      · exact .inr ⟨hp, List.mem_cons_of_mem _ hc⟩

/-- Telling the listeners credits nobody. -/
lemma credited_settleCredit {r : Attribution × Bool} :
    SameRoots r.1 (settleCredit r) ∧ ∀ c p, (settleCredit r).Credited c p ↔ r.1.Credited c p := by
  rw [settleCredit]
  split_ifs
  · exact ⟨⟨rfl, rfl, rfl, rfl, rfl, rfl⟩, fun c p => Iff.rfl⟩
  · exact ⟨.refl, fun c p => Iff.rfl⟩

/-- A peer that advertises a root is credited with what is indexed under it. -/
lemma credited_attributeRoot {peer : JsString} {root : Cid} :
    SameRoots s (s.attributeRoot peer root) ∧
    ∀ c p, (s.attributeRoot peer root).Credited c p → s.Credited c p ∨
      p = peer ∧ ∃ mine ∈ s.decodedRoots.get? root, c ∈ mine := by
  rw [attributeRoot]
  cases hmine : s.decodedRoots.get? root with
  | none => exact ⟨.refl, fun c p h => .inl h⟩
  | some mine =>
      have hroots := (credited_creditPeer peer peer mine (s, false) root).1
      refine ⟨hroots.trans credited_settleCredit.1, fun c p h => ?_⟩
      have h' := (credited_settleCredit.2 c p).mp h
      exact ((credited_creditPeer _ _ _ _ _).2 h').imp_right fun ⟨hp, hc⟩ => ⟨hp, mine, rfl, hc⟩

/-- Among peers and their roots, those at a root are credited with what is indexed under it. -/
lemma credited_creditAdvertisers (root : Cid) (mine : List Cid) (es : List (JsString × Cid))
    (r : Attribution × Bool) :
    SameRoots r.1 (es.foldl (creditAdvertiser root mine) r).1 ∧
    ∀ c p, (es.foldl (creditAdvertiser root mine) r).1.Credited c p →
      r.1.Credited c p ∨ c ∈ mine ∧ (p, root) ∈ es := by
  induction es generalizing r with
  | nil => exact ⟨.refl, fun c p h => .inl h⟩
  | cons e es ih =>
      obtain ⟨hroots, hcredit⟩ := ih (creditAdvertiser root mine r e)
      by_cases he : e.2 = root
      · have hfirst : creditAdvertiser root mine r e = creditPeer r e.1 mine := if_pos he
        rw [hfirst] at hroots hcredit
        rw [List.foldl_cons, hfirst]
        refine ⟨(credited_creditPeer e.1 e.1 mine r root).1.trans hroots, fun c p h => ?_⟩
        rcases hcredit c p h with h | ⟨hc, hp⟩
        · rcases (credited_creditPeer _ _ _ _ _).2 h with h | ⟨rfl, hc⟩
          · exact .inl h
          · exact .inr ⟨hc, he ▸ List.mem_cons_self⟩
        · exact .inr ⟨hc, List.mem_cons_of_mem _ hp⟩
      · have hskip : creditAdvertiser root mine r e = r := if_neg he
        rw [hskip] at hroots hcredit
        rw [List.foldl_cons, hskip]
        exact ⟨hroots, fun c p h => (hcredit c p h).imp_right
          fun ⟨hc, hp⟩ => ⟨hc, List.mem_cons_of_mem _ hp⟩⟩

/-- Behind an index, the roots known are those from before and the one that is indexed, and every
peer known to advertise that root is credited with what is indexed under it. -/
lemma credited_indexRootContents (s : Attribution) (root : Cid) (mine : List Cid) :
    (∀ c p, (s.indexRootContents root mine).Credited c p →
      s.Credited c p ∨ c ∈ mine ∧ s.peerRoots.get? p = some root) ∧
    (∀ root' mine', (s.indexRootContents root mine).decodedRoots.get? root' = some mine' →
      root' = root ∧ mine' = mine ∨ s.decodedRoots.get? root' = some mine') ∧
    (s.indexRootContents root mine).peerRoots = s.peerRoots ∧
    (s.indexRootContents root mine).advertised = s.advertised ∧
    (s.indexRootContents root mine).encoded = s.encoded ∧
    (s.indexRootContents root mine).engine.calls = s.engine.calls ∧
    (s.indexRootContents root mine).taken = s.taken := by
  by_cases hmine : mine.isEmpty = true
  · rw [indexRootContents, if_pos hmine]
    exact ⟨fun c p h => .inl h, fun root' mine' h => .inr h, rfl, rfl, rfl, rfl, rfl⟩
  · rw [indexRootContents, if_neg hmine]
    obtain ⟨hroots, hcredit⟩ := credited_creditAdvertisers root mine s.peerRoots.entries
      ({ s with decodedRoots := s.decodedRoots.setYoungest decodedRootsMax root mine }, false)
    have hall := hroots.trans credited_settleCredit.1
    refine ⟨fun c p h => ?_, fun root' mine' h => ?_, hall.peerRoots, hall.advertised,
      hall.encoded, hall.calls, hall.taken⟩
    · exact (hcredit c p ((credited_settleCredit.2 c p).mp h)).imp_right
        fun ⟨hc, hp⟩ => ⟨hc, JsMap.get?_eq_some_iff.mpr hp⟩
    · rw [hall.decodedRoots] at h
      exact JsMap.get?_of_setYoungest h

/-! ### Every credit has its checkpoint -/

/-- What an engine knows of roots is what peers advertised and what their checkpoints contain. -/
structure Founded (deps : CrdtDeps) (contents : Cid → Set Cid) (s : Attribution) : Prop where
  peerRoots : ∀ peer root, s.peerRoots.get? peer = some root → (peer, root) ∈ s.advertised
  decodedRoots : ∀ root mine, s.decodedRoots.get? root = some mine →
    ∀ cid ∈ mine, cid ∈ contents root
  encoded : ∀ root held bucket, (root, held, bucket) ∈ s.encoded →
    ∀ e ∈ held.served deps bucket, e.cid ∈ contents root
  credited : ∀ cid peer, s.Credited cid peer → s.Advertises contents cid peer

lemma founded_init : init.Founded deps contents where
  peerRoots := fun peer root h => by cases h
  decodedRoots := fun root mine h => by cases h
  encoded := fun root held bucket h => by cases h
  credited := fun cid peer h => by rcases h with h | h <;> cases h

/-- A step that learns no root, and credits only peers that advertised the bundle. -/
lemma Founded.of_sameRoots (h : s.Founded deps contents) (hroots : SameRoots s t)
    (hcredit : ∀ cid peer, t.Credited cid peer →
      s.Credited cid peer ∨ s.Advertises contents cid peer) : t.Founded deps contents where
  peerRoots := by
    rw [hroots.peerRoots, hroots.advertised]
    exact h.peerRoots
  decodedRoots := by
    rw [hroots.decodedRoots]
    exact h.decodedRoots
  encoded := by
    rw [hroots.encoded]
    exact h.encoded
  credited := fun cid peer hc => by
    have hbefore : s.Advertises contents cid peer := (hcredit cid peer hc).elim (h.credited _ _) id
    rw [Advertises, hroots.advertised]
    exact hbefore

/-- A step that learns no root and credits nobody. -/
lemma Founded.of_subset (h : s.Founded deps contents) (hroots : SameRoots s t)
    (hcredit : ∀ cid peer, t.Credited cid peer → s.Credited cid peer) : t.Founded deps contents :=
  h.of_sameRoots hroots fun cid peer hc => .inl (hcredit cid peer hc)

/-- A root that a peer advertises. -/
lemma Founded.notePeerRoot (h : s.Founded deps contents) (peer : JsString) (root : Cid) :
    (s.notePeerRoot peer root).Founded deps contents := by
  have hnoted : ({ s with
      peerRoots := s.peerRoots.setYoungest peerRootsMax peer root
      advertised := s.advertised ++ [(peer, root)] } : Attribution).Founded deps contents :=
    { peerRoots := fun p r hget => by
        rcases JsMap.get?_of_setYoungest hget with ⟨rfl, rfl⟩ | hget
        · exact List.mem_append_right _ (List.mem_singleton_self _)
        · exact List.mem_append_left _ (h.peerRoots p r hget)
      decodedRoots := h.decodedRoots
      encoded := h.encoded
      credited := fun cid p hc => by
        obtain ⟨r, hr, hcid⟩ := h.credited cid p hc
        exact ⟨r, List.mem_append_left _ hr, hcid⟩ }
  refine hnoted.of_sameRoots credited_attributeRoot.1 fun cid p hc => ?_
  refine (credited_attributeRoot.2 cid p hc).imp_right ?_
  rintro ⟨rfl, mine, hmine, hcid⟩
  exact ⟨root, List.mem_append_right _ (List.mem_singleton_self _),
    h.decodedRoots root mine hmine cid hcid⟩

/-- A root that is indexed with bundles its checkpoint contains. -/
lemma Founded.indexRootContents (h : s.Founded deps contents) {root : Cid} {mine : List Cid}
    (hmine : ∀ cid ∈ mine, cid ∈ contents root) :
    (s.indexRootContents root mine).Founded deps contents := by
  obtain ⟨hcredit, hdecoded, hpeers, hadvertised, hencoded, -, -⟩ :=
    credited_indexRootContents s root mine
  constructor
  · rw [hpeers, hadvertised]
    exact h.peerRoots
  · intro root' mine' hget
    rcases hdecoded root' mine' hget with ⟨rfl, rfl⟩ | hget
    · exact hmine
    · exact h.decodedRoots root' mine' hget
  · rw [hencoded]
    exact h.encoded
  · intro cid peer hc
    rw [Advertises, hadvertised]
    rcases hcredit cid peer hc with hc | ⟨hcid, hpeer⟩
    · exact h.credited cid peer hc
    · exact ⟨root, h.peerRoots peer root hpeer, hmine cid hcid⟩

/-- Forgetting an own bundle credits nobody. -/
lemma forgetOwnBundle_frame (cid : Cid) :
    SameRoots s (s.forgetOwnBundle cid) ∧
    ∀ c p, (s.forgetOwnBundle cid).Credited c p → s.Credited c p := by
  refine ⟨⟨rfl, rfl, rfl, rfl, rfl, rfl⟩, fun c p h => ?_⟩
  rcases h with h | h
  · rw [checkpointPeersFor, forgetOwnBundle, JsMap.get?_delete] at h
    split_ifs at h
    · cases h
    · exact .inl h
  · exact .inr h

lemma Founded.forgetOwnBundle (h : s.Founded deps contents) (cid : Cid) :
    (s.forgetOwnBundle cid).Founded deps contents :=
  h.of_subset (forgetOwnBundle_frame cid).1 (forgetOwnBundle_frame cid).2

lemma Founded.evictOwn (h : s.Founded deps contents) (cid : Cid) :
    (s.evictOwn cid).Founded deps contents := by
  have hevicted : Founded deps contents { s with
      ownCids := s.ownCids.filter (· ≠ cid)
      ownCheckpointPeers := s.ownCheckpointPeers.delete cid } :=
    h.of_subset ⟨rfl, rfl, rfl, rfl, rfl, rfl⟩ (forgetOwnBundle_frame cid).2
  rw [Attribution.evictOwn]
  split_ifs
  · exact hevicted.forgetOwnBundle cid
  · exact hevicted

lemma Founded.addOwn (h : s.Founded deps contents) (cid : Cid) :
    (s.addOwn cid).Founded deps contents := by
  rw [Attribution.addOwn]
  split_ifs
  · exact h
  · exact h.of_subset ⟨rfl, rfl, rfl, rfl, rfl, rfl⟩ fun _ _ hc => hc

lemma Founded.trackOwnBundle (h : s.Founded deps contents) (cid : Cid) :
    (s.trackOwnBundle cid).Founded deps contents := by
  rw [Attribution.trackOwnBundle]
  split_ifs
  · exact h
  · cases s.ownCids.head? with
    | none => exact h.addOwn cid
    | some oldest => exact (h.forgetOwnBundle oldest).addOwn cid
  · exact h.addOwn cid

/-- The engine's state plays no part. -/
lemma Founded.engine (h : s.Founded deps contents) (r : RootState) :
    ({ s with engine := r } : Attribution).Founded deps contents :=
  ⟨h.peerRoots, h.decodedRoots, h.encoded, h.credited⟩

lemma Founded.take (h : s.Founded deps contents) (r : RootState) (i : RootInput) :
    (s.take r i).Founded deps contents := by
  rw [Attribution.take]
  split
  · exact ⟨h.peerRoots, h.decodedRoots, h.encoded, h.credited⟩
  · exact h

lemma Founded.follow (h : s.Founded deps contents)
    (htaken : Taken deps s.engine.calls s.taken) {i : FailableInput} {r : RootState}
    (hdescribes : s.Describes C contents (.engine i))
    (hstep : s.engine.stepFailable C deps i = some r) : (s.follow r i).Founded deps contents := by
  cases i with
  | throws k => exact h.of_subset ⟨rfl, rfl, rfl, rfl, rfl, rfl⟩ fun _ _ hc => hc
  | engine i =>
      cases i with
      | settle cid key =>
          simp only [Attribution.follow]
          split_ifs
          · exact h.of_subset ⟨rfl, rfl, rfl, rfl, rfl, rfl⟩ fun _ _ hc => hc
          · exact h
      | evict cid => exact h.evictOwn cid
      | forget p =>
          show (p.cids.foldl Attribution.forgetOwnBundle s).Founded deps contents
          clear hdescribes hstep htaken
          induction p.cids generalizing s with
          | nil => exact h
          | cons cid cids ih => exact ih (h.forgetOwnBundle cid)
      | finish k =>
          obtain ⟨call, hcall, hfinish⟩ := Option.bind_eq_some_iff.mp hstep
          cases call with
          | heading => cases hfinish
          | read bucket => cases hfinish
          | encoding e =>
              obtain ⟨⟨record, blocks⟩, hrecord, rfl⟩ := Option.map_eq_some_iff.mp hfinish
              obtain ⟨held, hheld, hwinners⟩ := htaken k e hcall
              refine ⟨h.peerRoots, h.decodedRoots, fun root held' bucket hmem => ?_, h.credited⟩
              rcases List.mem_append.mp hmem with hmem | hmem
              · exact h.encoded root held' bucket hmem
              · obtain ⟨c, hc, hlogged⟩ := List.mem_filterMap.mp hmem
                obtain rfl := List.mem_singleton.mp hc
                rw [hheld, Option.map_some] at hlogged
                obtain ⟨rfl, hrest⟩ := Prod.mk.inj (Option.some.inj hlogged)
                obtain ⟨rfl, rfl⟩ := Prod.mk.inj hrest
                refine fun x hx => (hdescribes e record blocks hcall hrecord x.cid).mpr ?_
                rw [hwinners]
                exact List.mem_map_of_mem hx
      | call k => exact h.take r (.call k)
      | resume k => exact h.take r (.resume k)
      | _ => exact h

/-- A root that is compared is indexed, if it is our own, with own bundles that it contains. -/
lemma stepCompared_eq {k : ℕ} (hstep : s.stepCompared k = some t) : ∃ root own,
    s.heard.get? k = some root ∧ s.answerOf k = some own ∧
    t = if own.record.root = root then
      ({ s with heard := s.heard.delete k } : Attribution).indexRootContents root s.ownVerifiedCids
    else { s with heard := s.heard.delete k } := by
  simp only [Attribution.stepCompared, Option.bind_eq_bind, Option.bind_eq_some_iff,
    Option.pure_def, Option.some.injEq] at hstep
  obtain ⟨root, hroot, own, hown, rfl⟩ := hstep
  exact ⟨root, own, hroot, hown, rfl⟩

/-! ### The winners of an encode -/

lemma taken_init : Taken deps init.engine.calls init.taken := fun k e h => by cases h

/-- A call that takes its winners takes them from what is held. -/
lemma Taken.take (h : Taken deps s.engine.calls s.taken) {i : RootInput} {r : RootState}
    (hstep : s.engine.step C deps i = some r) : Taken deps r.calls (s.take r i).taken := by
  intro k e hget
  rcases RootState.encoding_step hstep hget with ⟨htakes, hwinners, -⟩ | ⟨htakes, hbefore⟩
  · refine ⟨s.engine.held, ?_, hwinners⟩
    rw [Attribution.take, htakes]
    exact (JsMap.get?_set _ _ _ _).trans (if_pos rfl)
  · obtain ⟨held, hheld, hwinners⟩ := h k e hbefore
    refine ⟨held, ?_, hwinners⟩
    rw [Attribution.take]
    split
    · next j hj =>
        have hne : k ≠ j := by
          rintro rfl
          exact htakes hj
        exact ((JsMap.get?_set _ _ _ _).trans (if_neg hne)).trans hheld
    · exact hheld

/-- What the own bundles notice of a step takes no winners but the step's. -/
lemma taken_follow (s : Attribution) (r : RootState) (i : RootInput) :
    (s.follow r (.engine i)).taken = (s.take r i).taken := by
  cases i with
  | settle cid key =>
      simp only [Attribution.follow]
      split_ifs
      · rfl
      · rfl
  | evict cid =>
      show (s.evictOwn cid).taken = s.taken
      rw [Attribution.evictOwn]
      split_ifs
      · rfl
      · rfl
  | forget p =>
      show (p.cids.foldl Attribution.forgetOwnBundle s).taken = s.taken
      induction p.cids generalizing s with
      | nil => rfl
      | cons cid cids ih => exact ih (s.forgetOwnBundle cid)
  | _ => rfl

lemma Taken.of_sameRoots (h : Taken deps s.engine.calls s.taken) (hroots : SameRoots s t) :
    Taken deps t.engine.calls t.taken := by
  rw [hroots.calls, hroots.taken]
  exact h

lemma Taken.notePeerRoot (h : Taken deps s.engine.calls s.taken) (peer : JsString) (root : Cid) :
    Taken deps (s.notePeerRoot peer root).engine.calls (s.notePeerRoot peer root).taken :=
  Taken.of_sameRoots (s := { s with
    peerRoots := s.peerRoots.setYoungest peerRootsMax peer root
    advertised := s.advertised ++ [(peer, root)] }) h credited_attributeRoot.1

lemma Taken.indexRootContents (h : Taken deps s.engine.calls s.taken) (root : Cid)
    (mine : List Cid) : Taken deps (s.indexRootContents root mine).engine.calls
      (s.indexRootContents root mine).taken := by
  obtain ⟨-, -, -, -, -, hcalls, htaken⟩ := credited_indexRootContents s root mine
  rw [hcalls, htaken]
  exact h

lemma sameCalls_addOwn (s : Attribution) (cid : Cid) :
    (s.addOwn cid).engine = s.engine ∧ (s.addOwn cid).taken = s.taken := by
  rw [Attribution.addOwn]
  split_ifs
  · exact ⟨rfl, rfl⟩
  · exact ⟨rfl, rfl⟩

lemma sameCalls_trackOwnBundle (s : Attribution) (cid : Cid) :
    (s.trackOwnBundle cid).engine = s.engine ∧ (s.trackOwnBundle cid).taken = s.taken := by
  rw [Attribution.trackOwnBundle]
  split_ifs
  · exact ⟨rfl, rfl⟩
  · cases s.ownCids.head? with
    | none => exact sameCalls_addOwn s cid
    | some oldest => exact sameCalls_addOwn (s.forgetOwnBundle oldest) cid
  · exact sameCalls_addOwn s cid

/-- Every step takes winners from what is held. -/
lemma Taken.step (h : Taken deps s.engine.calls s.taken) {i : AttributionInput}
    (hstep : s.step C deps i = some t) : Taken deps t.engine.calls t.taken := by
  cases i with
  | engine i =>
      obtain ⟨r, hr, rfl⟩ := Option.map_eq_some_iff.mp hstep
      cases i with
      | engine i =>
          show Taken deps r.calls (s.follow r (.engine i)).taken
          rw [taken_follow]
          exact h.take hr
      | throws k =>
          obtain rfl := RootState.stepThrows_eq hr
          intro j e hget
          rw [JsMap.get?_delete] at hget
          split_ifs at hget
          exact h j e hget
  | signed e namesSettled callback =>
      obtain rfl := Option.some.inj hstep
      have hadded := sameCalls_addOwn { s with
        engine := { s.engine with held := s.engine.held.record e false namesSettled }
        ownPublishes := s.ownPublishes.set e.cid e.bundle
        ownCheckpointCbs := if callback then s.ownCheckpointCbs ++ [e.cid]
          else s.ownCheckpointCbs } e.cid
      show Taken deps (RootState.marked (Attribution.addOwn _ _).engine).calls _
      rw [hadded.1]
      show Taken deps s.engine.calls (Attribution.addOwn _ _).taken
      rw [hadded.2]
      exact h
  | heard k root sender =>
      unfold Attribution.step Attribution.stepHeard at hstep
      dsimp only at hstep
      split_ifs at hstep
      obtain ⟨r, hr, rfl⟩ := Option.map_eq_some_iff.mp hstep
      cases sender with
      | none => exact h.take hr
      | some peer => exact (h.notePeerRoot peer root).take hr
  | compared k =>
      obtain ⟨root, own, hroot, hown, rfl⟩ := stepCompared_eq hstep
      split_ifs
      · exact Taken.indexRootContents (s := { s with heard := s.heard.delete k }) h root _
      · exact h
  | pulled peer root =>
      obtain rfl := Option.some.inj hstep
      exact h.notePeerRoot peer root
  | chased root getBlock chunks walked =>
      obtain ⟨ws, -, rfl⟩ := Option.map_eq_some_iff.mp hstep
      exact h.indexRootContents root _
  | track cid =>
      obtain rfl := Option.some.inj hstep
      obtain ⟨hengine, htaken⟩ := sameCalls_trackOwnBundle s cid
      rw [hengine, htaken]
      exact h
  | leave =>
      obtain rfl := Option.some.inj hstep
      exact h

/-! ### Every step -/

lemma Founded.stepHeard (h : s.Founded deps contents) {k : ℕ} {root : Cid}
    {sender : Option JsString} (hstep : s.stepHeard C deps k root sender = some t) :
    t.Founded deps contents := by
  unfold Attribution.stepHeard at hstep
  split_ifs at hstep
  obtain ⟨r, -, rfl⟩ := Option.map_eq_some_iff.mp hstep
  cases sender with
  | none =>
      have htake := h.take r (.call k)
      exact ⟨htake.peerRoots, htake.decodedRoots, htake.encoded, htake.credited⟩
  | some peer =>
      have htake := (h.notePeerRoot peer root).take r (.call k)
      exact ⟨htake.peerRoots, htake.decodedRoots, htake.encoded, htake.credited⟩

/-- What was held and verified in time, is not superseded and not expired is served. -/
lemma Timely.mem_served {held : Holdings} {bucket : ℕ} {cid : Cid} {e : Entry}
    (h : Timely deps held bucket cid e) : e ∈ held.served deps bucket :=
  Holdings.mem_served_iff.mpr
    ⟨⟨⟨h.mem, h.verified⟩, fun e' he' => h.newest e' he'.1 he'.2⟩, h.live⟩

lemma timely_of_mem_served {held : Holdings} {bucket : ℕ} {e : Entry}
    (h : e ∈ held.served deps bucket) : Timely deps held bucket e.cid e := by
  obtain ⟨⟨⟨hheld, hverified⟩, hnewest⟩, hlive⟩ := Holdings.mem_served_iff.mp h
  exact ⟨rfl, hheld, hverified, fun e' he' hverified' => hnewest e' ⟨he', hverified'⟩, hlive⟩

/-- What the shortcut is about to index is in the checkpoint. -/
lemma Founded.covered (h : s.Founded deps contents) {k : ℕ} {own : RootAnswer}
    (hcovered : s.Covered deps (.compared k)) (hown : s.answerOf k = some own)
    (hroot : s.heard.get? k = some own.record.root) :
    ∀ cid ∈ s.ownVerifiedCids, cid ∈ contents own.record.root := by
  intro cid hcid
  obtain ⟨held, bucket, e, hencoded, htimely⟩ := hcovered own hown hroot cid hcid
  rw [← htimely.cid_eq]
  exact h.encoded _ held bucket hencoded e htimely.mem_served

/-- **A step whose comparison is covered credits no peer with a bundle it did not advertise.** -/
theorem Founded.step (h : s.Founded deps contents) (htaken : Taken deps s.engine.calls s.taken)
    {i : AttributionInput} (hdescribes : s.Describes C contents i) (hcovered : s.Covered deps i)
    (hstep : s.step C deps i = some t) : t.Founded deps contents := by
  cases i with
  | engine i =>
      obtain ⟨r, hr, rfl⟩ := Option.map_eq_some_iff.mp hstep
      exact (h.follow htaken hdescribes hr).engine r
  | signed e namesSettled callback =>
      obtain rfl := Option.some.inj hstep
      refine (Founded.addOwn ?_ e.cid).engine _
      exact h.of_subset ⟨rfl, rfl, rfl, rfl, rfl, rfl⟩ fun _ _ hc => hc
  | heard k root sender => exact h.stepHeard hstep
  | compared k =>
      obtain ⟨root, own, hroot, hown, rfl⟩ := stepCompared_eq hstep
      have hheard : ({ s with heard := s.heard.delete k } : Attribution).Founded deps contents :=
        h.of_subset ⟨rfl, rfl, rfl, rfl, rfl, rfl⟩ fun _ _ hc => hc
      split_ifs with hsame
      · subst hsame
        exact hheard.indexRootContents (h.covered hcovered hown hroot)
      · exact hheard
  | pulled peer root =>
      obtain rfl := Option.some.inj hstep
      exact h.notePeerRoot peer root
  | chased root getBlock chunks walked =>
      obtain ⟨ws, hws, rfl⟩ := Option.map_eq_some_iff.mp hstep
      refine h.indexRootContents fun cid hcid => (hdescribes ws hws cid).mpr ?_
      have hwalked := List.mem_of_mem_filter hcid
      exact (List.take_sublist walked ws).filterMap (bundleCid C) |>.subset hwalked
  | track cid =>
      obtain rfl := Option.some.inj hstep
      exact h.trackOwnBundle cid
  | leave =>
      obtain rfl := Option.some.inj hstep
      exact ⟨fun peer root hget => (by cases hget), h.decodedRoots, h.encoded, h.credited⟩

/-- **A comparison credits only own bundles that our own checkpoint at the heard root contains.** -/
lemma Founded.credited_compared (h : s.Founded deps contents) {k : ℕ}
    (hcovered : s.Covered deps (.compared k))
    (hstep : s.stepCompared k = some t) {cid : Cid} {peer : JsString} (hc : t.Credited cid peer) :
    s.Credited cid peer ∨ cid ∈ s.ownCids ∧ ∃ own ∈ s.answerOf k,
      s.heard.get? k = some own.record.root ∧ cid ∈ contents own.record.root := by
  obtain ⟨root, own, hroot, hown, rfl⟩ := stepCompared_eq hstep
  split_ifs at hc with hsame
  · subst hsame
    rcases (credited_indexRootContents _ _ _).1 cid peer hc with hc | ⟨hcid, -⟩
    · exact .inl hc
    · exact .inr ⟨List.mem_of_mem_filter hcid, own, hown, hroot,
        h.covered hcovered hown hroot cid hcid⟩
  · exact .inl hc

end

end Attribution

open Attribution

/-- **Peer-checkpoint attribution is sound where no comparison meets an own bundle that was settled
too late, superseded or expired.** A peer that is listed for a bundle, or for which its callback has
fired, advertised a root whose checkpoint contains the bundle; and a heard root that is our own
credits only own bundles which our own checkpoint at that root contains. -/
theorem attribution_sound {C : Codecs} {deps : CrdtDeps} {contents : Cid → Set Cid}
    {s : Attribution}
    (hrun : Reaches (step C deps) (fun s i => s.Describes C contents i ∧ s.Covered deps i) init s) :
    (∀ cid peer, s.Credited cid peer → s.Advertises contents cid peer) ∧
    ∀ k t, s.Covered deps (.compared k) → s.step C deps (.compared k) = some t →
      ∀ cid peer, t.Credited cid peer → s.Credited cid peer ∨ cid ∈ s.ownCids ∧
        ∃ own ∈ s.answerOf k, s.heard.get? k = some own.record.root ∧
          cid ∈ contents own.record.root := by
  obtain ⟨hfounded, -⟩ : s.Founded deps contents ∧ Taken deps s.engine.calls s.taken :=
    hrun.invariant (P := fun s => s.Founded deps contents ∧ Taken deps s.engine.calls s.taken)
      ⟨founded_init, taken_init⟩ fun _ _ _ hs hok hstep =>
        ⟨hs.1.step hs.2 hok.1 hok.2 hstep, hs.2.step hstep⟩
  exact ⟨hfounded.credited, fun k t hcovered hstep cid peer hc =>
    hfounded.credited_compared hcovered hstep hc⟩

/-! ### A bundle that is served, and one that is superseded -/

/-- The root that advertises some winners. -/
def rootOf (winners : List Entry) : Cid :=
  ((rootRecordOf .reference winners).map fun r => r.1.root).getD []

/-- The one checkpoint of a run, by its winners. -/
def contentsOf (winners : List Entry) (root : Cid) : Set Cid :=
  {cid | root = rootOf winners ∧ cid ∈ winners.map Entry.cid}

/-- Every encode that ends is of these winners, and nothing is chased. -/
def Attribution.encodesOnly (winners : List Entry) (s : Attribution) : AttributionInput → Bool
  | .engine (.engine (.finish k)) => match s.engine.calls.get? k with
    | some (.encoding e) => decide (e.winners = winners)
    | _ => true
  | .chased _ _ _ _ => false
  | _ => true

lemma Attribution.describes_of_encodesOnly {winners : List Entry} {s : Attribution}
    {i : AttributionInput} (h : s.encodesOnly winners i = true) :
    s.Describes .reference (contentsOf winners) i := by
  cases i with
  | engine i =>
      cases i with
      | throws k => trivial
      | engine i =>
          cases i with
          | finish k =>
              intro e record blocks hcall hrecord cid
              simp only [encodesOnly, hcall, decide_eq_true_iff] at h
              subst h
              have hroot : rootOf e.winners = record.root := by
                rw [rootOf, hrecord]
                rfl
              exact ⟨fun hcid => hcid.2, fun hcid => ⟨hroot.symm, hcid⟩⟩
          | _ => trivial
  | chased root getBlock chunks walked => cases h
  | _ => trivial

/-- Every own bundle that is fully verified when a heard root is compared was served where the
winners of each of our roots were taken. -/
def Attribution.covers (deps : CrdtDeps) (s : Attribution) : AttributionInput → Bool
  | .compared _ => s.engine.answers.all fun a => s.encoded.any fun l =>
      decide (l.1 = a.record.root) && s.ownVerifiedCids.all fun cid =>
        (l.2.1.served deps l.2.2).any fun e => decide (e.cid = cid)
  | _ => true

lemma Attribution.covered_of_covers {deps : CrdtDeps} {s : Attribution} {i : AttributionInput}
    (h : s.covers deps i = true) : s.Covered deps i := by
  cases i with
  | compared k =>
      intro own hown _ cid hcid
      have hanswer := List.all_eq_true.mp h own (List.mem_of_find?_eq_some hown)
      obtain ⟨⟨root, held, bucket⟩, hencoded, hlogged⟩ := List.any_eq_true.mp hanswer
      obtain ⟨hroot, hverified⟩ := Bool.and_eq_true_iff.mp hlogged
      obtain ⟨e, he, hsame⟩ := List.any_eq_true.mp (List.all_eq_true.mp hverified cid hcid)
      obtain rfl := of_decide_eq_true hsame
      obtain rfl := of_decide_eq_true hroot
      exact ⟨held, bucket, e, hencoded, timely_of_mem_served he⟩
  | _ => trivial

/-- A ballot of our own is signed, and its check settles. -/
def publishes (e : Entry) : List AttributionInput :=
  [.engine (.engine (.add e.bundle)), .signed e true true,
    .engine (.engine (.settle e.cid .chainVerified))]

/-- A seeder advertises a root; we encode ours at bucket `11` and compare. -/
def hears (root : Cid) : List AttributionInput :=
  [.heard 0 root (some (JsString.ofString "seeder")), .engine (.engine (.headRead 0 11)),
    .engine (.engine (.resume 0)), .engine (.engine (.finish 0)), .compared 0]

/-- Whether the seeder is listed for a ballot and advertised a root, and how many callbacks
fired. -/
def seederSummary (ballot : Entry) (root : Cid) (s : Attribution) : Bool × Bool × ℕ :=
  (decide (JsString.ofString "seeder" ∈ s.checkpointPeersFor ballot.cid),
    decide (s.advertised = [(JsString.ofString "seeder", root)]), s.fired.length)

/-- A seeder that has converged with us is listed for the ballot we both serve. -/
theorem attribution_sound_converged : ∃ s : Attribution,
    s.Credited firstBallot.cid (JsString.ofString "seeder") ∧
    s.Advertises (contentsOf [firstBallot]) firstBallot.cid (JsString.ofString "seeder") := by
  have heval : (runIf (step .reference tenBuckets)
      (fun s i => s.encodesOnly [firstBallot] i = true ∧ s.covers tenBuckets i = true)
      (publishes firstBallot ++ hears (rootOf [firstBallot])) init).map
        (seederSummary firstBallot (rootOf [firstBallot])) = some (true, true, 1) := by
    decide +kernel
  obtain ⟨s, hs, heval⟩ := Option.map_eq_some_iff.mp heval
  have hlisted : s.Credited firstBallot.cid (JsString.ofString "seeder") :=
    .inl (of_decide_eq_true (Prod.mk.inj heval).1)
  refine ⟨s, hlisted,
    (attribution_sound ((reaches_of_runIf hs).mono fun _ _ h => ?_)).1 _ _ hlisted⟩
  exact ⟨describes_of_encodesOnly h.1, covered_of_covers h.2⟩

/-- **Where a comparison is not covered, the attribution is wrong**: both ballots of our wallet are
verified and not pruned yet, our checkpoint serves the newer one only, and a seeder at our root is
listed for the older one as well. -/
theorem attribution_superseded : ∃ (contents : Cid → Set Cid) (s : Attribution),
    Reaches (step .reference tenBuckets) (fun s i => s.Describes .reference contents i) init s ∧
    ¬ ∀ cid peer, s.Credited cid peer → s.Advertises contents cid peer := by
  have heval : (runIf (step .reference tenBuckets)
      (fun s i => s.encodesOnly [secondBallot] i = true)
      (publishes firstBallot ++ publishes secondBallot ++ hears (rootOf [secondBallot])) init).map
        (seederSummary firstBallot (rootOf [secondBallot])) = some (true, true, 2) := by
    decide +kernel
  obtain ⟨s, hs, heval⟩ := Option.map_eq_some_iff.mp heval
  refine ⟨contentsOf [secondBallot], s,
    (reaches_of_runIf hs).mono fun _ _ h => describes_of_encodesOnly h, fun hall => ?_⟩
  obtain ⟨root, -, hcontents⟩ := hall firstBallot.cid (JsString.ofString "seeder")
    (.inl (of_decide_eq_true (Prod.mk.inj heval).1))
  have hother : firstBallot.cid ∉ [secondBallot].map Entry.cid := by decide +kernel
  exact hother hcontents.2

end PubsubVoting
