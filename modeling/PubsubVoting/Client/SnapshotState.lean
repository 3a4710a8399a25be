import PubsubVoting.Client.Lockstep
import PubsubVoting.Client.RootSteps

/-!
The persisted snapshot of a contest: the debounced write, and the restore at join.

* `SnapshotState.step`: joins and leaves, restores bundle by bundle, their retries, and snapshot
  writes, between everything else that happens to the engine.
* `SnapshotState.Exempt`: what a write may leave out: bundles that are expired, refused or evicted.
* `SnapshotState.Lossless`: a blob stands for every other bundle of the one it replaces.
* `Take.Doubtful`: what the guard of a write is there to wait for.
-/

namespace PubsubVoting

/-! ### Blobs, restores and writes -/

/-- The moment the winners of a record were taken. -/
structure Take where
  /-- how many times winners had been taken, this one included -/
  number : ℕ
  held : Holdings
  /-- the contest is left, or a restore has yet to read the blob -/
  unread : Bool
  /-- what the restores under way and the backlog hold -/
  restoring : List VotesBundle

/-- A blob, by the winners of its record: these are what it restores
(`restoreWinners_snapshotBlob`). -/
structure Persisted where
  winners : List Entry
  take : Take

/-- Where a restore is. -/
inductive RestorePlace where
  /-- it awaits the blob -/
  | reading
  /-- at the head of the loop -/
  | looping
  /-- it awaits `#isEvaluableNow` -/
  | evaluating (e : Entry)
  /-- it awaits `verifyOffline` -/
  | verifying (e : Entry)
  /-- it awaits `crdt.add` -/
  | adding (e : Entry)
  /-- the bundle is added, its checks are not recorded -/
  | recording (e : Entry)

/-- A run of `#restoreSnapshot`, or of `#admitRestored` on a backlog. -/
structure Restore where
  place : RestorePlace
  winners : List VotesBundle
  backlog : List VotesBundle
  pending : List Cid

/-- The bundle a restore is at, until it is added. -/
def RestorePlace.current : RestorePlace → List VotesBundle
  | .evaluating e => [e.bundle]
  | .verifying e => [e.bundle]
  | .adding e => [e.bundle]
  | _ => []

/-- The blob is not read. -/
def RestorePlace.isReading : RestorePlace → Bool
  | .reading => true
  | _ => false

/-- What a restore has yet to admit, or keeps for a retry. -/
def Restore.hands (r : Restore) : List VotesBundle := r.place.current ++ r.winners ++ r.backlog

/-- Where a write is. -/
inductive WritePlace where
  /-- it awaits the call of `rootRecord` -/
  | encoding (call : ℕ)
  /-- it awaits `snapshots.set` -/
  | setting (blob : Persisted)

/-- A run of `#writeSnapshot` behind its guards. -/
structure SnapshotWrite where
  place : WritePlace
  retry : Bool

/-- `SNAPSHOT_WRITE_ATTEMPTS` -/
def snapshotWriteAttempts : ℕ := 3

/-- The engine, its persisted blob, and the restores and writes under way. -/
structure SnapshotState extends Lockstep where
  joined : Bool
  /-- `#snapshotTimer` is armed -/
  snapshotTimer : Bool
  snapshotWriteFailures : ℕ
  restoreBacklog : List VotesBundle
  /-- `#restoreTimer` is armed -/
  restoreTimer : Bool
  restores : JsMap ℕ Restore
  writes : JsMap ℕ SnapshotWrite
  blob : Option Persisted
  /-- how many times winners were taken -/
  takes : ℕ
  /-- when each encode under way took its winners -/
  taken : JsMap ℕ Take
  /-- when those of the cached record were taken -/
  cachedTake : Take
  /-- what was evicted, and how many times winners had been taken then -/
  evicted : List (Cid × ℕ)
  /-- the highest bucket of any head -/
  maxBucket : ℕ

/-- What happens to an engine and its blob. -/
inductive SnapshotInput where
  /-- everything that happens to the engine itself -/
  | engine (i : RootInput)
  /-- the transport of a join has started, and restore `r` begins -/
  | join (r : ℕ)
  /-- `leave`, behind its flush -/
  | leave
  | blobRead (r : ℕ)
  | next (r : ℕ)
  /-- `#isEvaluableNow` answers or throws -/
  | evaluated (r : ℕ) (answer : Option Bool)
  | verified (r : ℕ) (throws : Bool)
  | added (r : ℕ) (stored : Bool)
  | recorded (r : ℕ)
  /-- behind the loop -/
  | restored (r : ℕ)
  | retryRestore (r : ℕ)
  /-- the debounce is over: write `w` calls `rootRecord` as call `k` -/
  | write (w k : ℕ)
  /-- the flush of `leave` -/
  | flush (w k : ℕ)
  | encoded (w : ℕ)
  | encodeFails (w : ℕ)
  | set (w : ℕ)

namespace SnapshotState

/-- Winners taken before anything is known of them. -/
def initialTake : Take := ⟨0, .empty, true, []⟩

/-- An engine that holds nothing, and the winners that its blob restores. -/
def init (C : Codecs) (winners : Option (List VotesBundle)) : SnapshotState where
  toLockstep := .init
  joined := false
  snapshotTimer := false
  snapshotWriteFailures := 0
  restoreBacklog := []
  restoreTimer := false
  restores := ∅
  writes := ∅
  blob := winners.map fun bundles =>
    ⟨bundles.filterMap fun bundle => (bundleCid C bundle).map fun cid => ⟨cid, bundle⟩, initialTake⟩
  takes := 0
  taken := ∅
  cachedTake := initialTake
  evicted := []
  maxBucket := 0

/-! ### The engine, and what is noted of it -/

variable (s : SnapshotState)

/-- The contest is left, or a restore has yet to read the blob. -/
def unread : Bool := !s.joined || s.restores.values.any fun r => r.place.isReading

/-- What the restores under way and the backlog hold. -/
def restoring : List VotesBundle := s.restoreBacklog ++ s.restores.values.flatMap Restore.hands

/-- The next time winners are taken. -/
def take : Take := ⟨s.takes + 1, s.held, s.unread, s.restoring⟩

/-- When the winners of a call were taken. -/
def takenBy (k : ℕ) : Take := (s.taken.get? k).getD initialTake

/-- `#scheduleSnapshotWrite` -/
def scheduleSnapshotWrite : SnapshotState :=
  { s with snapshotTimer := s.snapshotTimer || s.joined }

/-- `#armRestoreRetry` -/
def armRestoreRetry : SnapshotState := { s with restoreTimer := s.restoreTimer || s.joined }

section

variable (C : Codecs) (deps : CrdtDeps) (verifyOffline : VotesBundle → Bool)

/-- When the encodes under way took their winners, after a step. -/
def takenAfter (r : RootState) (i : RootInput) : JsMap ℕ Take :=
  match r.takesFor i with
  | some k => s.taken.set k s.take
  | none => s.taken

/-- When the cached winners were taken, after a step. -/
def cachedTakeAfter : RootInput → Take
  | .finish k => s.takenBy k
  | _ => s.cachedTake

/-- The evictions, after a step. -/
def evictedAfter : RootInput → List (Cid × ℕ)
  | .evict cid => s.evicted ++ [(cid, s.takes)]
  | _ => s.evicted

/-- The engine made a step; a mark schedules a write. -/
def follow (l : Lockstep) (i : RootInput) : SnapshotState :=
  { s with
    toLockstep := l
    snapshotTimer := s.snapshotTimer || s.joined && decide (s.marks < l.marks)
    takes := s.takes + (l.takesFor i).toList.length
    taken := s.takenAfter l.toRootState i
    cachedTake := s.cachedTakeAfter i
    evicted := s.evictedAfter i
    maxBucket := max s.maxBucket i.readBucket }

/-- A step of the engine. -/
def advance (i : RootInput) : Option SnapshotState :=
  (s.toLockstep.step C deps i).map fun l => s.follow l i

/-! ### Restores -/

/-- A restore changes its place. -/
def setRestore (r : ℕ) (restore : Restore) : SnapshotState :=
  { s with restores := s.restores.set r restore }

/-- A bundle is kept for a retry. -/
def keep (r : ℕ) (restore : Restore) (bundle : VotesBundle) : SnapshotState :=
  s.setRestore r { restore with place := .looping, backlog := restore.backlog ++ [bundle] }

/-- The blob is read and decoded. -/
def stepBlobRead (r : ℕ) (restore : Restore) : Option SnapshotState :=
  match restore.place with
  | .reading => some (match s.blob with
    | some x => s.setRestore r ⟨.looping, x.winners.map Entry.bundle, [], []⟩
    | none => { s with restores := s.restores.delete r })
  | _ => none

/-- The next bundle, by its address: it is skipped, or asked about. -/
def stepNext (r : ℕ) (restore : Restore) : Option SnapshotState :=
  match restore.place, restore.winners with
  | .looping, bundle :: winners => some (match bundleCid C bundle with
    | none => s.keep r { restore with winners } bundle
    | some cid => if s.held.checks.has cid then s.setRestore r { restore with winners }
      else s.setRestore r { restore with place := .evaluating ⟨cid, bundle⟩, winners })
  | _, _ => none

/-- Behind `#isEvaluableNow`. -/
def stepEvaluated (r : ℕ) (restore : Restore) (answer : Option Bool) : Option SnapshotState :=
  match restore.place with
  | .evaluating e => some (match answer with
    | some true => s.setRestore r { restore with place := .verifying e }
    | _ => s.keep r restore e.bundle)
  | _ => none

/-- Behind `verifyOffline`. -/
def stepVerified (r : ℕ) (restore : Restore) (throws : Bool) : Option SnapshotState :=
  match restore.place with
  | .verifying e => some (if throws then s.keep r restore e.bundle
    else if verifyOffline e.bundle then s.setRestore r { restore with place := .adding e }
    else s.setRestore r { restore with place := .looping })
  | _ => none

/-- Behind `crdt.add`. -/
def stepAdded (r : ℕ) (restore : Restore) (stored : Bool) : Option SnapshotState :=
  match restore.place with
  | .adding e => if stored then
      (s.advance C deps (.add e.bundle)).map fun t =>
        t.setRestore r { restore with place := .recording e }
    else some (s.keep r restore e.bundle)
  | _ => none

/-- The checks of what was added. -/
def stepRecorded (r : ℕ) (restore : Restore) : Option SnapshotState :=
  match restore.place with
  | .recording e => (s.advance C deps (.record e false false)).map fun t =>
      t.setRestore r { restore with place := .looping, pending := restore.pending ++ [e.cid] }
  | _ => none

/-- The end of a restore: its backlog replaces that of the engine. -/
def endRestore (r : ℕ) (restore : Restore) : SnapshotState :=
  { s with restores := s.restores.delete r, restoreBacklog := restore.backlog }

/-- The timers behind a restore. -/
def rearm (backlog : List VotesBundle) (wasIncomplete : Bool) : SnapshotState :=
  if backlog.isEmpty then (if wasIncomplete then s.scheduleSnapshotWrite else s)
  else s.armRestoreRetry

/-- Behind the loop. -/
def stepRestored (r : ℕ) (restore : Restore) : Option SnapshotState :=
  match restore.place, restore.winners with
  | .looping, [] =>
    (if restore.pending.isEmpty then some (s.endRestore r restore)
      else (s.endRestore r restore).advance C deps .mark).map fun t =>
        t.rearm restore.backlog !s.restoreBacklog.isEmpty
  | _, _ => none

/-- The retry timer. -/
def stepRetryRestore (r : ℕ) : Option SnapshotState :=
  if s.restoreTimer && !s.restores.has r then
    some (if s.restoreBacklog.isEmpty || !s.joined then { s with restoreTimer := false }
      else { s with
        restoreTimer := false
        restores := s.restores.set r ⟨.looping, s.restoreBacklog, [], []⟩ })
  else none

/-! ### Writes -/

/-- `#writeSnapshot`: the guards, and the call of `rootRecord`. -/
def writeSnapshot (w k : ℕ) (retry : Bool) : Option SnapshotState :=
  if s.held.hasUnsettledChecks || !s.restoreBacklog.isEmpty then some s
  else (s.advance C deps (.call k)).map fun t =>
    { t with writes := t.writes.set w ⟨.encoding k, retry⟩ }

/-- The timer of a write is over, or cleared by `leave`. -/
def stepWrite (w k : ℕ) (retry : Bool) : Option SnapshotState :=
  if s.snapshotTimer && !s.writes.has w then
    ({ s with snapshotTimer := false } : SnapshotState).writeSnapshot C deps w k retry
  else none

/-- Behind `rootRecord`: the cached record, whatever it is by now. -/
def stepEncoded (w : ℕ) (write : SnapshotWrite) : Option SnapshotState :=
  match write.place with
  | .encoding k => if s.calls.has k then none else some (match s.cache with
    | some c => { s with
        writes := s.writes.set w { write with place := .setting ⟨c.winners, s.cachedTake⟩ } }
    | none => { s with writes := s.writes.delete w })
  | _ => none

/-- `rootRecord` throws. -/
def stepEncodeFails (w : ℕ) (write : SnapshotWrite) : Option SnapshotState :=
  match write.place with
  | .encoding k => if s.calls.has k then
      let t : SnapshotState := { s with calls := s.calls.delete k, writes := s.writes.delete w }
      let failures := s.snapshotWriteFailures + 1
      some (if write.retry && failures < snapshotWriteAttempts then
        ({ t with snapshotWriteFailures := failures } : SnapshotState).scheduleSnapshotWrite
        else { t with snapshotWriteFailures := 0 })
    else none
  | _ => none

/-- Behind `snapshots.set`. -/
def stepSet (w : ℕ) (write : SnapshotWrite) : Option SnapshotState :=
  match write.place with
  | .setting x => some
    { s with writes := s.writes.delete w, blob := some x, snapshotWriteFailures := 0 }
  | _ => none

/-- One step; `none` where the input does not come. The store itself does not fail. -/
def step (s : SnapshotState) : SnapshotInput → Option SnapshotState
  | .engine i => s.advance C deps i
  | .join r => if s.restores.has r then none
    else some { s with joined := true, restores := s.restores.set r ⟨.reading, [], [], []⟩ }
  | .leave => some
    { s with
      joined := false, restoreTimer := false, restoreBacklog := [], snapshotWriteFailures := 0 }
  | .blobRead r => (s.restores.get? r).bind (s.stepBlobRead r)
  | .next r => (s.restores.get? r).bind (s.stepNext C r)
  | .evaluated r answer => (s.restores.get? r).bind fun x => s.stepEvaluated r x answer
  | .verified r throws => (s.restores.get? r).bind fun x => s.stepVerified verifyOffline r x throws
  | .added r stored => (s.restores.get? r).bind fun x => s.stepAdded C deps r x stored
  | .recorded r => (s.restores.get? r).bind (s.stepRecorded C deps r)
  | .restored r => (s.restores.get? r).bind (s.stepRestored C deps r)
  | .retryRestore r => s.stepRetryRestore r
  | .write w k => s.stepWrite C deps w k true
  | .flush w k => s.stepWrite C deps w k false
  | .encoded w => (s.writes.get? w).bind (s.stepEncoded w)
  | .encodeFails w => (s.writes.get? w).bind (s.stepEncodeFails w)
  | .set w => (s.writes.get? w).bind (s.stepSet w)

/-! ### Runs in order, and what a write may leave out -/

/-- The step of the engine inside a step, where it may be out of order. -/
def inner : SnapshotInput → Option RootInput
  | .engine i => some i
  | .added r _ => (s.restores.get? r).bind fun x => match x.place with
    | .adding e => some (.add e.bundle)
    | _ => none
  | .recorded r => (s.restores.get? r).bind fun x => match x.place with
    | .recording e => some (.record e false false)
    | _ => none
  | _ => none

/-- A step whose step of the engine keeps membership and check state in lockstep. -/
def InOrder (bundleAt : Cid → VotesBundle) (s : SnapshotState) (i : SnapshotInput) : Prop :=
  ∀ j ∈ s.inner i, s.toLockstep.InOrder j ∧ j.Addressed C bundleAt

/-- A bundle was evicted since winners were taken for the `n`-th time. -/
def EvictedSince (n : ℕ) (cid : Cid) : Prop := ∃ m, (cid, m) ∈ s.evicted ∧ n ≤ m

/-- What a write may leave out of the blob whose winners were taken at the `n`-th time: what is
expired at a head that was read, refused by the offline checks, or evicted since. -/
def Exempt (n : ℕ) (a : Entry) : Prop :=
  isExpired deps a.bundle s.maxBucket = true ∨ verifyOffline a.bundle = false ∨
    s.EvictedSince n a.cid

end

end SnapshotState

/-- A bundle of the wallet that is at least as new: the bundle itself, or one that supersedes it. -/
def Entry.Supplants (w a : Entry) : Prop := w.wallet = a.wallet ∧ a.rank ≤ w.rank

/-- The blob has the bundle, or one that supersedes it. -/
def Persisted.Has (x : Persisted) (a : Entry) : Prop := ∃ w ∈ x.winners, w.Supplants a

/-- A fully verified bundle was held that stands for this one. -/
def Take.Verified (t : Take) (a : Entry) : Prop :=
  ∃ w ∈ t.held.crdt.list, w.Supplants a ∧ t.held.isFullyVerified w.cid = true

/-- A restore, or the backlog, had the bundle still in hand; or bundles were held that stand for it,
and none of them fully verified. -/
def Take.Doubtful (t : Take) (a : Entry) : Prop :=
  ¬ t.Verified a ∧
    (t.unread = true ∨ a.bundle ∈ t.restoring ∨ ∃ w ∈ t.held.crdt.list, w.Supplants a)

/-- One blob stands for another: it has all that no write may leave out. -/
def SnapshotState.Lossless (deps : CrdtDeps) (verifyOffline : VotesBundle → Bool)
    (s : SnapshotState) (y x : Persisted) : Prop :=
  ∀ a ∈ y.winners, x.Has a ∨ s.Exempt deps verifyOffline y.take.number a

end PubsubVoting
