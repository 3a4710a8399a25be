import PubsubVoting.Lib.JsMap
import PubsubVoting.Lib.Limiter
import PubsubVoting.Lib.Transition
import PubsubVoting.Transport.Chase

/-!
The chases of one contest side by side (`makeRootChaser`): a flight per advertised root, each begun
when the limiter lets it and pulling through a session seeded with the advertisers of its root.

* `ChaseFlight`: one chase, with its decode, which races against the deadline, and its wants.
* `ChaseEvent`: what the session and the broadcast source of a flight are told, in order.
* `RootChaser.step`: hints, starts, deadlines, answers of the block sources, and the walk over the
  winners.
* `ChaseEvent.MayFollow`, `ChaseFlight.Ordered`: the order of these events, and that every provider
  is handed to the session once.
-/

namespace PubsubVoting

open Cbor

/-! ### The state -/

/-- Where a want stands: `session.get` or `getBlock` is awaited, or it has come back. -/
inductive FetchStatus where
  | session
  | broadcast
  | done (bytes : Option Bytes)
  deriving DecidableEq

/-- One call of `fetchBlock`. -/
structure Fetch where
  cid : Cid
  status : FetchStatus
  deriving DecidableEq

/-- What the session of a flight and its broadcast source are told: the session is opened with the
providers queued so far, asked for a block, told of a late provider, and closed. -/
inductive ChaseEvent where
  | opened (providers : List JsString)
  | wanted (cid : Cid)
  | missed (cid : Cid)
  | addedPeer (peer : JsString)
  | closed
  | broadcast (cid : Cid)
  | aborted
  deriving DecidableEq

/-- What `openSession` does: the seam is absent, or it declines, throws or opens a session. -/
inductive Opening where
  | absent
  | declined
  | threw
  | opened
  deriving DecidableEq

/-- Where `decodeCheckpoint` stands: not called, checking the chunk index, at the root manifest, at
the chunks (whose wants start at a position), or settled. -/
inductive ChaseDecode where
  | idle
  | deriving
  | manifest
  | chunks (base : ℕ)
  | settled
  deriving DecidableEq

/-- Where the run stands: behind the concurrency cap, in the race of the decode against the
deadline, at the winners that are left, or at its end. -/
inductive ChaseRun where
  | queued
  | racing
  | walking (rest : List VotesBundle) (s : ChaseState)
  | ended (outcome : ChaseOutcome)

/-- One chase. `log` is what its block sources were told, `seams` what the seams answered at the
winners so far, and `expired` says that the deadline came before the decode had settled. -/
structure ChaseFlight where
  root : Cid
  knownChunks : Option (List Cid)
  seeded : List JsString
  queued : List JsString
  session : Bool
  started : Bool
  sessionDead : Bool
  aborted : Bool
  decode : ChaseDecode
  run : ChaseRun
  fetches : List Fetch
  log : List ChaseEvent
  seams : List SeamAnswers
  expired : Bool

/-- The state of a chaser: every flight so far, those in `inFlight`, and what `limit` was told and
did, the last call first. -/
structure RootChaser where
  flights : List ChaseFlight
  inFlight : JsMap Cid ℕ
  calls : List (LimiterCall ℕ)

/-- What happens to a chaser. -/
inductive ChaserInput where
  /-- `chase` -/
  | chase (root : Cid) (chunks : Option (List Cid)) (providers : List JsString)
  /-- the limiter lets a flight run -/
  | start (i : ℕ) (opening : Opening)
  /-- the chunk index of a flight has been encoded again -/
  | derived (i : ℕ)
  /-- a call of a block source comes back; a throw brings nothing -/
  | answer (i k : ℕ) (bytes : Option Bytes)
  /-- the loop body at the next winner -/
  | walk (i : ℕ) (a : SeamAnswers)
  | deadline (i : ℕ)
  /-- the limiter hears that a run has settled -/
  | release (i : ℕ)
  /-- `inFlight.delete` -/
  | forget (i : ℕ)

/-! ### One flight -/

/-- A chase that contributes nothing. -/
def ChaseOutcome.nothing : ChaseOutcome := ⟨[], [], [], false⟩

/-- What a loop that was left in a state tells the outside. -/
def ChaseState.outcome (s : ChaseState) : ChaseOutcome :=
  ⟨s.admitted, s.pending, s.contained, s.merged⟩

/-- The loop before the first winner. -/
def ChaseState.init : ChaseState := ⟨[], [], false, [], []⟩

/-- The block a want came back with. -/
def FetchStatus.done? : FetchStatus → Option (Option Bytes)
  | .done bytes => some bytes
  | _ => none

/-- The chunk addresses of a manifest block; `none` where the decode throws. -/
def manifestChunks (C : Codecs) (bytes : Option Bytes) : Option (List Cid) := do
  let rootBytes ← bytes
  let w ← C.dagCborDecode rootBytes
  let chunks ← w.get? "chunks" >>= Value.list?
  chunks.mapM linkOf

/-- The bundles of a chunk block; `none` where the decode throws. -/
def chunkBundles (C : Codecs) (bytes : Option Bytes) : Option (List VotesBundle) := do
  let chunkBytes ← bytes
  let w ← C.dagCborDecode chunkBytes
  let wires ← w.list?
  wires.mapM (fromWireBundle C)

namespace ChaseFlight

variable (C : Codecs) (f : ChaseFlight)

/-- A flight that waits for its turn. -/
def new (root : Cid) (knownChunks : Option (List Cid)) : ChaseFlight :=
  ⟨root, knownChunks, [], [], false, false, false, false, .idle, .queued, [], [], [], false⟩

/-- `addProviders`, at one of them. A late one cannot help a flight without a session. -/
def addProvider (peer : JsString) : ChaseFlight :=
  if peer ∈ f.seeded then f
  else
    let seeded := f.seeded ++ [peer]
    if f.session then { f with seeded := seeded, log := f.log ++ [.addedPeer peer] }
    else if f.started then { f with seeded := seeded }
    else { f with seeded := seeded, queued := f.queued ++ [peer] }

/-- `addProviders` -/
def addProviders (providers : List JsString) : ChaseFlight := providers.foldl addProvider f

/-- The run ends: the timer is cleared, and the session closed. -/
def finish (outcome : ChaseOutcome) : ChaseFlight :=
  { f with
    run := .ended outcome
    log := if f.session then f.log ++ [.closed] else f.log }

/-- The loop goes on, or has passed the last winner. -/
def walkOn (rest : List VotesBundle) (s : ChaseState) : ChaseFlight :=
  match rest with
  | [] => f.finish s.outcome
  | _ :: _ => { f with run := .walking rest s }

/-- The decode settles. If its run still waits for it, that goes on. -/
def decoded (winners : Option (List VotesBundle)) : ChaseFlight :=
  match f.run, winners with
  | .racing, none => { f with decode := .settled }.finish .nothing
  | .racing, some winners => { f with decode := .settled }.walkOn winners .init
  | _, _ => { f with decode := .settled }

/-- `fetchBlock`, as far as its first await. -/
def fetchBlock (cid : Cid) : ChaseFlight :=
  if f.aborted then { f with fetches := f.fetches ++ [⟨cid, .done none⟩] }
  else if f.session ∧ f.sessionDead = false then
    { f with fetches := f.fetches ++ [⟨cid, .session⟩], log := f.log ++ [.wanted cid] }
  else { f with fetches := f.fetches ++ [⟨cid, .broadcast⟩], log := f.log ++ [.broadcast cid] }

/-- The decode at its chunks: it settles once one of them fails, or all have come back. -/
def settleChunks (base : ℕ) : ChaseFlight :=
  let statuses := (f.fetches.drop base).map Fetch.status
  if ∃ bytes ∈ statuses.filterMap FetchStatus.done?, chunkBundles C bytes = none then f.decoded none
  else
    match statuses.mapM FetchStatus.done? with
    | none => f
    | some blocks => f.decoded ((blocks.mapM (chunkBundles C)).map List.flatten)

/-- Ask for all chunks at once. -/
def fetchChunks (cids : List Cid) : ChaseFlight :=
  (cids.foldl fetchBlock { f with decode := .chunks f.fetches.length }).settleChunks C
    f.fetches.length

/-- The decode at a manifest block. -/
def manifestFetched (bytes : Option Bytes) : ChaseFlight :=
  match manifestChunks C bytes with
  | none => f.decoded none
  | some cids => f.fetchChunks C cids

/-- Ask for the root manifest. -/
def fetchManifest : ChaseFlight :=
  let g := { f with decode := .manifest }.fetchBlock f.root
  if f.aborted then g.manifestFetched C none else g

/-- The decode goes on with the block of a want. -/
def decodeOn (bytes : Option Bytes) : ChaseFlight :=
  match f.decode with
  | .manifest => f.manifestFetched C bytes
  | .chunks base => f.settleChunks C base
  | _ => f

/-- A want comes back. -/
def fetched (k : ℕ) (cid : Cid) (bytes : Option Bytes) : ChaseFlight :=
  { f with fetches := f.fetches.set k ⟨cid, .done bytes⟩ }.decodeOn C bytes

/-- A session that brought nothing is dead, and the want goes to everybody. -/
def sessionMissed (k : ℕ) (cid : Cid) : ChaseFlight :=
  let g := { f with sessionDead := true, log := f.log ++ [ChaseEvent.missed cid] }
  if f.aborted then g.fetched C k cid none
  else
    { g with
      fetches := g.fetches.set k ⟨cid, .broadcast⟩
      log := g.log ++ [ChaseEvent.broadcast cid] }

/-- A call of a block source comes back. -/
def answered (k : ℕ) (bytes : Option Bytes) : Option ChaseFlight :=
  match f.fetches[k]? with
  | some ⟨cid, .session⟩ =>
    match bytes with
    | some bytes => some (f.fetched C k cid (some bytes))
    | none => some (f.sessionMissed C k cid)
  | some ⟨cid, .broadcast⟩ => some (f.fetched C k cid bytes)
  | _ => none

/-- `openSession`, which is never called without providers. -/
def openSession (opening : Opening) : ChaseFlight :=
  match f.queued, opening with
  | [], _ => f
  | _ :: _, .absent => f
  | _ :: _, .declined => { f with queued := [] }
  | _ :: _, .threw => { f with queued := [] }
  | _ :: _, .opened =>
    { f with queued := [], session := true, log := f.log ++ [.opened f.queued] }

/-- `runChase`, as far as its first await. -/
def start (opening : Opening) : Option ChaseFlight :=
  match f.run with
  | .queued =>
    let g := { f.openSession opening with started := true, run := .racing }
    match f.knownChunks with
    | none => some (g.fetchManifest C)
    | some _ => some { g with decode := .deriving }
  | _ => none

/-- The index either re-derives the root, or the manifest is needed. -/
def derived : Option ChaseFlight :=
  match f.decode, f.knownChunks with
  | .deriving, some cids =>
    if checkpointRootBlock C cids = some f.root then some (f.fetchChunks C cids)
    else some (f.fetchManifest C)
  | _, _ => none

/-- The loop body at the next winner. -/
def walked (a : SeamAnswers) : Option ChaseFlight :=
  match f.run with
  | .walking (bundle :: rest) s =>
    let a := { a with aborted := f.aborted }
    let g := { f with seams := f.seams ++ [a] }
    match chaseStep C a s bundle with
    | .next s => some (g.walkOn rest s)
    | .stop s => some (g.finish s.outcome)
    | .threw s => some (g.finish ⟨s.admitted, [], [], false⟩)
  | _ => none

/-- The deadline. It ends the race, and stops the loop at its next winner. -/
def expire : Option ChaseFlight :=
  if f.aborted then none
  else
    let g := { f with aborted := true, log := f.log ++ [.aborted] }
    match f.run with
    | .racing => some ({ g with expired := true }.finish .nothing)
    | .walking _ _ => some g
    | _ => none

/-- The run is under way. -/
def underWay : Bool :=
  match f.run with
  | .racing => true
  | .walking _ _ => true
  | _ => false

/-- The promise of the run has settled. -/
def Ended : Prop := ∃ outcome, f.run = .ended outcome

instance : Decidable f.Ended :=
  match h : f.run with
  | .queued => isFalse (by rintro ⟨_, ho⟩; rw [h] at ho; cases ho)
  | .racing => isFalse (by rintro ⟨_, ho⟩; rw [h] at ho; cases ho)
  | .walking _ _ => isFalse (by rintro ⟨_, ho⟩; rw [h] at ho; cases ho)
  | .ended outcome => isTrue ⟨outcome, h⟩

end ChaseFlight

/-! ### The flights side by side -/

namespace RootChaser

variable (C : Codecs) (limit : Limiter ℕ) (s : RootChaser)

/-- Nothing was ever chased. -/
def init : RootChaser := ⟨[], ∅, []⟩

/-- A flight goes on. -/
def onFlight (i : ℕ) (g : ChaseFlight → Option ChaseFlight) : Option RootChaser :=
  (s.flights[i]? >>= g).map fun f => { s with flights := s.flights.set i f }

/-- A root that nobody chases takes off. -/
def takeOff (root : Cid) (chunks : Option (List Cid)) (providers : List JsString) : RootChaser where
  flights := s.flights ++ [(ChaseFlight.new root chunks).addProviders providers]
  inFlight := s.inFlight.set root s.flights.length
  calls := .submit s.flights.length :: s.calls

/-- One step of a chaser; `none` where the input does not come. -/
def step : ChaserInput → Option RootChaser
  | .chase root chunks providers =>
    match s.inFlight.get? root with
    | some i => s.onFlight i fun f => some (f.addProviders providers)
    | none => some (s.takeOff root chunks providers)
  | .start i opening =>
      if limit s.calls i then
        ({ s with calls := .start i :: s.calls } : RootChaser).onFlight i
          (ChaseFlight.start C · opening)
      else none
  | .derived i => s.onFlight i (ChaseFlight.derived C)
  | .answer i k bytes => s.onFlight i (ChaseFlight.answered C · k bytes)
  | .walk i a => s.onFlight i (ChaseFlight.walked C · a)
  | .deadline i => s.onFlight i ChaseFlight.expire
  | .release i =>
    match s.flights[i]? with
    | some f =>
      if f.Ended ∧ i ∈ LimiterCall.running s.calls then
        some { s with calls := .finish i :: s.calls }
      else none
    | none => none
  | .forget i =>
    match s.flights[i]? with
    | some f =>
      if f.Ended ∧ s.inFlight.get? f.root = some i then
        some { s with inFlight := s.inFlight.delete f.root }
      else none
    | none => none

end RootChaser

/-! ### The order of the events -/

namespace ChaseEvent

/-- What may come behind an event: the opening comes first; no block is wanted of a session that is
closed or failed once, none at all behind the deadline; and both come once. -/
def MayFollow : ChaseEvent → ChaseEvent → Prop
  | _, .opened _ => False
  | .closed, .wanted _ => False
  | .closed, .closed => False
  | .missed _, .wanted _ => False
  | .aborted, .wanted _ => False
  | .aborted, .broadcast _ => False
  | .aborted, .aborted => False
  | _, _ => True

/-- The event is one of the session. -/
def ofSession : ChaseEvent → Prop
  | .broadcast _ => False
  | .aborted => False
  | _ => True

/-- The providers a session is handed by an event. -/
def providers : ChaseEvent → List JsString
  | .opened providers => providers
  | .addedPeer peer => [peer]
  | _ => []

variable {e : ChaseEvent} {cid : Cid}

lemma mayFollow_wanted : e.MayFollow (.wanted cid) ↔
    e ≠ .closed ∧ (∀ cid, e ≠ .missed cid) ∧ e ≠ .aborted := by
  cases e <;> simp [MayFollow]

lemma mayFollow_broadcast : e.MayFollow (.broadcast cid) ↔ e ≠ .aborted := by
  cases e <;> simp [MayFollow]

lemma mayFollow_closed : e.MayFollow .closed ↔ e ≠ .closed := by
  cases e <;> simp [MayFollow]

lemma mayFollow_aborted : e.MayFollow .aborted ↔ e ≠ .aborted := by
  cases e <;> simp [MayFollow]

lemma mayFollow_missed : e.MayFollow (.missed cid) := by
  cases e <;> simp [MayFollow]

lemma mayFollow_addedPeer {peer : JsString} : e.MayFollow (.addedPeer peer) := by
  cases e <;> simp [MayFollow]

end ChaseEvent

namespace ChaseFlight

open ChaseEvent

/-- The providers the session of a flight was handed, in order. -/
def handed (f : ChaseFlight) : List JsString := f.log.flatMap providers

/-- The events of a flight are in order, and say where it stands. -/
structure Ordered (f : ChaseFlight) : Prop where
  queued : f.run = .queued → f.log = [] ∧ f.aborted = false ∧ f.session = false ∧
    f.fetches = [] ∧ f.decode = .idle ∧ f.started = false
  ordered : f.log.Pairwise MayFollow
  opened : f.session = true → ∃ ps rest, ps ≠ [] ∧ f.log = .opened ps :: rest
  ofSession : ∀ e ∈ f.log, e.ofSession → f.session = true
  missed : ∀ cid, .missed cid ∈ f.log → f.sessionDead = true
  aborted : .aborted ∈ f.log ↔ f.aborted = true
  closed : .closed ∈ f.log ↔ f.session = true ∧ f.Ended
  settled : f.run ≠ .queued → f.run ≠ .racing → f.aborted = true ∨ f.decode = .settled
  wants : ∀ w ∈ f.fetches, w.status = .session → f.session = true

variable {C : Codecs} {f : ChaseFlight}

lemma ordered_new (root : Cid) (chunks : Option (List Cid)) : (new root chunks).Ordered := by
  constructor <;> simp [new]

/-- One more event is told. -/
lemma Ordered.tell (h : f.Ordered) {g : ChaseFlight} {e : ChaseEvent} (hlog : g.log = f.log ++ [e])
    (hmay : ∀ e' ∈ f.log, e'.MayFollow e) (hopened : ∀ ps, e ≠ .opened ps)
    (hqueued : g.run ≠ .queued) (hsession : g.session = f.session)
    (hof : e.ofSession → f.session = true)
    (hmissed : f.sessionDead = true ∨ (∃ cid, e = .missed cid) → g.sessionDead = true)
    (haborted : g.aborted = true ↔ f.aborted = true ∨ e = .aborted)
    (hclosed : g.session = true ∧ g.Ended ↔ (f.session = true ∧ f.Ended) ∨ e = .closed)
    (hsettled : g.run ≠ .racing → g.aborted = true ∨ g.decode = .settled)
    (hwants : ∀ w ∈ g.fetches, w.status = .session → g.session = true) : g.Ordered where
  queued hrun := absurd hrun hqueued
  ordered := by
    rw [hlog, List.pairwise_append]
    exact ⟨h.ordered, List.pairwise_singleton _ _, by simpa using hmay⟩
  opened hs := by
    obtain ⟨ps, rest, hps, hf⟩ := h.opened (hsession ▸ hs)
    exact ⟨ps, rest ++ [e], hps, by rw [hlog, hf, List.cons_append]⟩
  ofSession e' he' hof' := by
    rw [hlog, List.mem_append, List.mem_singleton] at he'
    rw [hsession]
    rcases he' with he' | rfl
    · exact h.ofSession e' he' hof'
    · exact hof hof'
  missed cid hmem := by
    rw [hlog, List.mem_append, List.mem_singleton] at hmem
    exact hmissed (hmem.imp (h.missed cid) fun heq => ⟨cid, heq.symm⟩)
  aborted := by
    rw [hlog, List.mem_append, List.mem_singleton, h.aborted, haborted, eq_comm (a := e)]
  closed := by rw [hlog, List.mem_append, List.mem_singleton, h.closed, hclosed, eq_comm (a := e)]
  settled _ := hsettled
  wants := hwants

/-- The run has not ended, or its deadline has come. -/
def Live (f : ChaseFlight) : Prop := f.run = .racing ∨ f.aborted = true

lemma Ordered.not_queued (h : f.Ordered) (hlive : f.Live) : f.run ≠ .queued := by
  rcases hlive with hrun | ha
  · rw [hrun]
    exact fun heq => nomatch heq
  · intro hrun
    rw [(h.queued hrun).2.1] at ha
    cases ha

lemma Ordered.fetchBlock (h : f.Ordered) (hlive : f.Live) (cid : Cid) :
    (f.fetchBlock cid).Ordered := by
  have hqueued := h.not_queued hlive
  rw [ChaseFlight.fetchBlock]
  split_ifs with ha hs
  · obtain ⟨h1, h2, h3, h4, h5, h6, h7, h8, h9⟩ := h
    exact ⟨fun hq => absurd hq hqueued, h2, h3, h4, h5, h6, h7, h8,
      by simpa [or_imp, forall_and] using h9⟩
  · have hrun : f.run = .racing := hlive.resolve_right ha
    have hended : ¬ f.Ended := by rintro ⟨o, ho⟩; rw [hrun] at ho; cases ho
    refine h.tell rfl (fun e he => mayFollow_wanted.mpr ⟨?_, ?_, ?_⟩) (by simp) hqueued rfl
      (fun _ => hs.1) (by simp) (by simp) (by simp [Ended]) (by simp [hrun])
      (fun _ _ _ => hs.1)
    · rintro rfl; exact hended (h.closed.mp he).2
    · rintro cid rfl; simpa [hs.2] using h.missed cid he
    · rintro rfl; exact ha (h.aborted.mp he)
  · have hrun : f.run = .racing := hlive.resolve_right ha
    refine h.tell rfl (fun e he => mayFollow_broadcast.mpr ?_) (by simp) hqueued rfl
      (by simp [ChaseEvent.ofSession]) (by simp) (by simp) (by simp [Ended]) (by simp [hrun])
      (by simpa [or_imp, forall_and] using h.wants)
    rintro rfl; exact ha (h.aborted.mp he)

lemma live_fetchBlock {cid : Cid} (hlive : f.Live) : (f.fetchBlock cid).Live := by
  rw [ChaseFlight.fetchBlock]
  split_ifs <;> exact hlive

lemma Ordered.fetchBlocks (h : f.Ordered) (hlive : f.Live) (cids : List Cid) :
    (cids.foldl ChaseFlight.fetchBlock f).Ordered := by
  induction cids generalizing f with
  | nil => exact h
  | cons cid cids ih => exact ih (h.fetchBlock hlive cid) (live_fetchBlock hlive)

lemma live_fetchBlocks (hlive : f.Live) (cids : List Cid) :
    (cids.foldl ChaseFlight.fetchBlock f).Live := by
  induction cids generalizing f with
  | nil => exact hlive
  | cons cid cids ih => exact ih (live_fetchBlock hlive)

/-- The run of a flight that has not ended does, once its decode has settled or its deadline has
come. -/
lemma Ordered.finish (h : f.Ordered) (hended : ¬ f.Ended)
    (hsettled : f.aborted = true ∨ f.decode = .settled) (outcome : ChaseOutcome) :
    (f.finish outcome).Ordered := by
  have hend : (f.finish outcome).Ended := ⟨outcome, rfl⟩
  by_cases hs : f.session = true
  · have hlog : (f.finish outcome).log = f.log ++ [.closed] := if_pos hs
    refine h.tell hlog (fun e he => mayFollow_closed.mpr ?_) (by simp)
      (by simp [ChaseFlight.finish]) rfl
      (fun _ => hs) (by simp [ChaseFlight.finish]) (by simp [ChaseFlight.finish])
      ⟨fun _ => .inr rfl, fun _ => ⟨hs, hend⟩⟩ (fun _ => hsettled) h.wants
    rintro rfl; exact hended (h.closed.mp he).2
  · have hlog : (f.finish outcome).log = f.log := if_neg hs
    obtain ⟨h1, h2, h3, h4, h5, h6, h7, h8, h9⟩ := h
    refine ⟨fun hq => absurd hq (by simp [ChaseFlight.finish]), hlog ▸ h2, hlog ▸ h3, hlog ▸ h4,
      hlog ▸ h5, hlog ▸ h6, ?_,
      fun _ _ => hsettled, h9⟩
    rw [hlog, h7]
    exact ⟨fun h => absurd h.1 hs, fun h => absurd h.1 hs⟩

lemma Ordered.walkOn (h : f.Ordered) (hended : ¬ f.Ended)
    (hsettled : f.aborted = true ∨ f.decode = .settled) (rest : List VotesBundle) (s : ChaseState) :
    (f.walkOn rest s).Ordered := by
  cases rest with
  | nil => exact h.finish hended hsettled _
  | cons b rest =>
      obtain ⟨h1, h2, h3, h4, h5, h6, h7, h8, h9⟩ := h
      refine ⟨fun hq => absurd hq (by simp [ChaseFlight.walkOn]), h2, h3, h4, h5, h6, h7.trans ?_,
        fun _ _ => hsettled, h9⟩
      have hno : ∀ outcome, f.run ≠ .ended outcome := fun outcome ho => hended ⟨outcome, ho⟩
      simp [hno, ChaseFlight.walkOn, Ended]

/-- A decode that settles changes nothing but where its run stands. -/
lemma Ordered.settle (h : f.Ordered) (hqueued : f.run ≠ .queued) :
    ({ f with decode := .settled } : ChaseFlight).Ordered :=
  ⟨fun hrun => absurd hrun hqueued, h.2, h.3, h.4, h.5, h.6, h.7, fun _ _ => .inr rfl, h.9⟩

lemma Ordered.decoded (h : f.Ordered) (hqueued : f.run ≠ .queued)
    (winners : Option (List VotesBundle)) :
    (f.decoded winners).Ordered := by
  unfold ChaseFlight.decoded
  split
  next hrun =>
    exact (h.settle hqueued).finish (by simp [Ended, hrun]) (.inr rfl) _
  next winners hrun =>
    exact (h.settle hqueued).walkOn (by simp [Ended, hrun]) (.inr rfl) _ _
  next => exact h.settle hqueued

lemma Ordered.settleChunks (h : f.Ordered) (hqueued : f.run ≠ .queued) (base : ℕ) :
    (f.settleChunks C base).Ordered := by
  unfold ChaseFlight.settleChunks
  dsimp only
  split_ifs
  · exact h.decoded hqueued _
  · split
    · exact h
    · exact h.decoded hqueued _

lemma Ordered.setDecode (h : f.Ordered) (hlive : f.Live) (decode : ChaseDecode) :
    ({ f with decode := decode } : ChaseFlight).Ordered :=
  ⟨fun hrun => absurd hrun (h.not_queued hlive), h.2, h.3, h.4, h.5, h.6, h.7,
      fun _ hr => .inl (hlive.resolve_left hr), h.9⟩

lemma Ordered.fetchChunks (h : f.Ordered) (hlive : f.Live) (cids : List Cid) :
    (f.fetchChunks C cids).Ordered :=
  have hlive' : ({ f with decode := .chunks f.fetches.length } : ChaseFlight).Live := hlive
  have hwanted := (h.setDecode hlive (.chunks f.fetches.length)).fetchBlocks hlive' cids
  hwanted.settleChunks (hwanted.not_queued (live_fetchBlocks hlive' cids)) _

lemma Ordered.manifestFetched (h : f.Ordered) (hlive : f.Live) (bytes : Option Bytes) :
    (f.manifestFetched C bytes).Ordered := by
  rw [ChaseFlight.manifestFetched]
  split
  · exact h.decoded (h.not_queued hlive) _
  · exact h.fetchChunks hlive _

lemma Ordered.fetchManifest (h : f.Ordered) (hlive : f.Live) : (f.fetchManifest C).Ordered := by
  have hwanted := (h.setDecode hlive .manifest).fetchBlock hlive f.root
  rw [ChaseFlight.fetchManifest]
  split_ifs with ha
  · exact hwanted.manifestFetched (live_fetchBlock (.inr ha)) none
  · exact hwanted

/-- A decode that is under way is waited for, or its deadline has come. -/
lemma Ordered.live (h : f.Ordered) (hqueued : f.run ≠ .queued) (hdecode : f.decode ≠ .settled) :
    f.Live := by
  by_cases hrun : f.run = .racing
  · exact .inl hrun
  · exact .inr ((h.settled hqueued hrun).resolve_right hdecode)

lemma Ordered.decodeOn (h : f.Ordered) (hqueued : f.run ≠ .queued) (bytes : Option Bytes) :
    (f.decodeOn C bytes).Ordered := by
  rw [ChaseFlight.decodeOn]
  split
  next hd => exact h.manifestFetched (h.live hqueued (by simp [hd])) bytes
  next => exact h.settleChunks hqueued _
  next => exact h

lemma Ordered.fetched (h : f.Ordered) (hqueued : f.run ≠ .queued) (k : ℕ) (cid : Cid)
    (bytes : Option Bytes) : (f.fetched C k cid bytes).Ordered := by
  have hset : ({ f with fetches := f.fetches.set k ⟨cid, .done bytes⟩ } : ChaseFlight).Ordered := by
    refine ⟨fun hq => absurd hq hqueued, h.2, h.3, h.4, h.5, h.6, h.7, h.8, fun w hw hstatus => ?_⟩
    rcases List.mem_or_eq_of_mem_set hw with hw | rfl
    · exact h.wants w hw hstatus
    · cases hstatus
  exact hset.decodeOn hqueued bytes

lemma Ordered.sessionMissed (h : f.Ordered) (hqueued : f.run ≠ .queued)
    (hsession : f.session = true) (k : ℕ) (cid : Cid) : (f.sessionMissed C k cid).Ordered := by
  have hmissed : ({ f with sessionDead := true, log := f.log ++ [ChaseEvent.missed cid] } :
      ChaseFlight).Ordered :=
    h.tell rfl (fun _ _ => mayFollow_missed) (by simp) hqueued rfl (fun _ => hsession)
      (fun _ => rfl)
      (by simp) (by simp [Ended]) (h.settled hqueued) h.wants
  rw [ChaseFlight.sessionMissed]
  dsimp only
  split_ifs with ha
  · exact hmissed.fetched hqueued k cid none
  · refine hmissed.tell rfl (fun e he => mayFollow_broadcast.mpr ?_) (by simp) hqueued rfl
      (by simp [ChaseEvent.ofSession]) (by simp) (by simp) (by simp [Ended]) (h.settled hqueued)
      fun _ _ _ => hsession
    rintro rfl; exact ha (hmissed.aborted.mp he)

lemma Ordered.answered (h : f.Ordered) {k : ℕ} {bytes : Option Bytes} {g : ChaseFlight}
    (hstep : f.answered C k bytes = some g) : g.Ordered := by
  have hqueued : f.fetches ≠ [] → f.run ≠ .queued := fun hne hrun => hne (h.queued hrun).2.2.2.1
  rw [ChaseFlight.answered] at hstep
  split at hstep
  next cid hk =>
    have hqueued := hqueued (List.ne_nil_of_mem (List.mem_of_getElem? hk))
    have hsession := h.wants _ (List.mem_of_getElem? hk) rfl
    split at hstep
    · obtain rfl := Option.some.inj hstep
      exact h.fetched hqueued _ _ _
    · obtain rfl := Option.some.inj hstep
      exact h.sessionMissed hqueued hsession _ _
  next cid hk =>
    have hqueued := hqueued (List.ne_nil_of_mem (List.mem_of_getElem? hk))
    obtain rfl := Option.some.inj hstep
    exact h.fetched hqueued _ _ _
  next => cases hstep

/-- A session is opened with the providers that are queued, or the flight goes without. -/
lemma openSession_cases (f : ChaseFlight) (opening : Opening) :
    (f.queued ≠ [] ∧ f.openSession opening =
        { f with queued := [], session := true, log := f.log ++ [.opened f.queued] }) ∨
      ∃ q, q <+: f.queued ∧ f.openSession opening = { f with queued := q } := by
  unfold ChaseFlight.openSession
  split
  next => exact .inr ⟨_, List.prefix_rfl, rfl⟩
  next => exact .inr ⟨_, List.prefix_rfl, rfl⟩
  next => exact .inr ⟨_, List.nil_prefix, rfl⟩
  next => exact .inr ⟨_, List.nil_prefix, rfl⟩
  next hq => exact .inl ⟨by simp [hq], rfl⟩

lemma Ordered.openSession (h : f.Ordered) (hrun : f.run = .queued) (opening : Opening) :
    ({ f.openSession opening with started := true, run := .racing } : ChaseFlight).Ordered := by
  obtain ⟨hlog, haborted, hsession, hfetches, -⟩ := h.queued hrun
  rcases openSession_cases f opening with ⟨hq, hopen⟩ | ⟨q, -, hopen⟩
  · constructor <;> simp [hopen, hlog, haborted, hfetches, Ended, hq]
  · constructor <;> simp [hopen, hlog, haborted, hsession, hfetches, Ended]

lemma Ordered.start (h : f.Ordered) {opening : Opening} {g : ChaseFlight}
    (hstep : f.start C opening = some g) : g.Ordered := by
  rw [ChaseFlight.start] at hstep
  split at hstep
  next hrun =>
    have hopened := h.openSession hrun opening
    dsimp only at hstep
    split at hstep
    · obtain rfl := Option.some.inj hstep
      exact hopened.fetchManifest (.inl rfl)
    · obtain rfl := Option.some.inj hstep
      exact hopened.setDecode (.inl rfl) .deriving
  next => cases hstep

lemma Ordered.derived (h : f.Ordered) {g : ChaseFlight} (hstep : f.derived C = some g) :
    g.Ordered := by
  rw [ChaseFlight.derived] at hstep
  split at hstep
  next hd _ =>
    have hqueued : f.run ≠ .queued := by
      intro hrun
      have hidle := (h.queued hrun).2.2.2.2.1
      rw [hd] at hidle
      cases hidle
    have hlive : f.Live := h.live hqueued (by simp [hd])
    split_ifs at hstep
    · obtain rfl := Option.some.inj hstep
      exact h.fetchChunks hlive _
    · obtain rfl := Option.some.inj hstep
      exact h.fetchManifest hlive
  next => cases hstep

lemma Ordered.walked (h : f.Ordered) {a : SeamAnswers} {g : ChaseFlight}
    (hstep : f.walked C a = some g) : g.Ordered := by
  rw [ChaseFlight.walked] at hstep
  split at hstep
  next bundle rest s hrun =>
    have hended : ¬ f.Ended := by simp [Ended, hrun]
    have hsettled := h.settled (by simp [hrun]) (by simp [hrun])
    have hseams : ({ f with seams := f.seams ++ [{ a with aborted := f.aborted }] } :
        ChaseFlight).Ordered := ⟨h.1, h.2, h.3, h.4, h.5, h.6, h.7, h.8, h.9⟩
    dsimp only at hstep
    split at hstep
    · obtain rfl := Option.some.inj hstep
      exact hseams.walkOn hended hsettled _ _
    · obtain rfl := Option.some.inj hstep
      exact hseams.finish hended hsettled _
    · obtain rfl := Option.some.inj hstep
      exact hseams.finish hended hsettled _
  next => cases hstep

lemma Ordered.expire (h : f.Ordered) {g : ChaseFlight} (hstep : f.expire = some g) : g.Ordered := by
  rw [ChaseFlight.expire] at hstep
  split_ifs at hstep with ha
  have habort : f.run ≠ .queued → ∀ expired,
      ({ f with aborted := true, log := f.log ++ [.aborted], expired := expired } :
        ChaseFlight).Ordered := by
    intro hqueued expired
    refine h.tell rfl (fun e he => mayFollow_aborted.mpr ?_) (by simp) hqueued rfl
      (by simp [ChaseEvent.ofSession]) (by simp) (by simp) (by simp [Ended]) (fun _ => .inl rfl)
      h.wants
    rintro rfl; exact ha (h.aborted.mp he)
  dsimp only at hstep
  split at hstep
  next hrun =>
    obtain rfl := Option.some.inj hstep
    exact (habort (by simp [hrun]) true).finish (by simp [Ended, hrun]) (.inl rfl) _
  next hrun =>
    obtain rfl := Option.some.inj hstep
    exact habort (by simp [hrun]) f.expired
  next => cases hstep

lemma Ordered.addProvider (h : f.Ordered) (peer : JsString) : (f.addProvider peer).Ordered := by
  rw [ChaseFlight.addProvider]
  dsimp only
  split_ifs with hseeded hsession
  · exact h
  · have hqueued : f.run ≠ .queued := by
      intro hrun
      rw [(h.queued hrun).2.2.1] at hsession
      cases hsession
    exact h.tell rfl (fun _ _ => mayFollow_addedPeer) (by simp) hqueued rfl (fun _ => hsession)
      (by simp) (by simp) (by simp [Ended]) (h.settled hqueued) h.wants
  · exact ⟨h.1, h.2, h.3, h.4, h.5, h.6, h.7, h.8, h.9⟩
  · exact ⟨h.1, h.2, h.3, h.4, h.5, h.6, h.7, h.8, h.9⟩

lemma Ordered.addProviders (h : f.Ordered) (providers : List JsString) :
    (f.addProviders providers).Ordered := by
  rw [ChaseFlight.addProviders]
  induction providers generalizing f with
  | nil => exact h
  | cons peer providers ih => exact ih (h.addProvider peer)

end ChaseFlight

/-! ### Steps of a chaser -/

/-- What a step may do to a flight, apart from its start. -/
inductive ChaseStep (C : Codecs) (f : ChaseFlight) : ChaseFlight → Prop
  | hinted (providers : List JsString) : ChaseStep C f (f.addProviders providers)
  | derived {g : ChaseFlight} : f.derived C = some g → ChaseStep C f g
  | answered {k : ℕ} {bytes : Option Bytes} {g : ChaseFlight} : f.answered C k bytes = some g →
      ChaseStep C f g
  | walked {a : SeamAnswers} {g : ChaseFlight} : f.walked C a = some g → ChaseStep C f g
  | expired {g : ChaseFlight} : f.expire = some g → ChaseStep C f g

lemma ChaseFlight.Ordered.step {C : Codecs} {f g : ChaseFlight} (h : f.Ordered)
    (hstep : ChaseStep C f g) : g.Ordered := by
  cases hstep with
  | hinted providers => exact h.addProviders providers
  | derived hstep => exact h.derived hstep
  | answered hstep => exact h.answered hstep
  | walked hstep => exact h.walked hstep
  | expired hstep => exact h.expire hstep

namespace RootChaser

variable {C : Codecs} {limit : Limiter ℕ} {s t : RootChaser}

lemma onFlight_eq_some {i : ℕ} {g : ChaseFlight → Option ChaseFlight}
    (h : s.onFlight i g = some t) :
    ∃ f f', s.flights[i]? = some f ∧ g f = some f' ∧
      t = { s with flights := s.flights.set i f' } := by
  obtain ⟨f', hf', rfl⟩ := Option.map_eq_some_iff.mp h
  obtain ⟨f, hf, hg⟩ := Option.bind_eq_some_iff.mp hf'
  exact ⟨f, f', hf, hg, rfl⟩

/-- **What a step does**: a flight goes on, the limiter starts one, a root takes off, the limiter
hears of an end, or a root is forgotten. -/
theorem step_cases {i : ChaserInput} (h : s.step C limit i = some t) :
    (∃ j f g, s.flights[j]? = some f ∧ ChaseStep C f g ∧
      t = { s with flights := s.flights.set j g }) ∨
    (∃ j f g opening, s.flights[j]? = some f ∧ limit s.calls j = true ∧
      f.start C opening = some g ∧
      t = { s with flights := s.flights.set j g, calls := .start j :: s.calls }) ∨
    (∃ root chunks providers, s.inFlight.get? root = none ∧
      t = s.takeOff root chunks providers) ∨
    (∃ j f, s.flights[j]? = some f ∧ f.Ended ∧ j ∈ LimiterCall.running s.calls ∧
      t = { s with calls := .finish j :: s.calls }) ∨
    (∃ j f, s.flights[j]? = some f ∧ f.Ended ∧ s.inFlight.get? f.root = some j ∧
      t = { s with inFlight := s.inFlight.delete f.root }) := by
  cases i with
  | chase root chunks providers =>
      rw [step] at h
      split at h
      next j hget =>
        obtain ⟨f, g, hf, hg, rfl⟩ := onFlight_eq_some h
        obtain rfl := Option.some.inj hg
        exact .inl ⟨j, f, _, hf, .hinted providers, rfl⟩
      next hget =>
        exact .inr (.inr (.inl ⟨root, chunks, providers, hget, (Option.some.inj h).symm⟩))
  | start j opening =>
      rw [step] at h
      split_ifs at h with hlet
      obtain ⟨f, g, hf, hg, rfl⟩ := onFlight_eq_some h
      exact .inr (.inl ⟨j, f, g, opening, hf, hlet, hg, rfl⟩)
  | derived j =>
      obtain ⟨f, g, hf, hg, rfl⟩ := onFlight_eq_some h
      exact .inl ⟨j, f, g, hf, .derived hg, rfl⟩
  | answer j k bytes =>
      obtain ⟨f, g, hf, hg, rfl⟩ := onFlight_eq_some h
      exact .inl ⟨j, f, g, hf, .answered hg, rfl⟩
  | walk j a =>
      obtain ⟨f, g, hf, hg, rfl⟩ := onFlight_eq_some h
      exact .inl ⟨j, f, g, hf, .walked hg, rfl⟩
  | deadline j =>
      obtain ⟨f, g, hf, hg, rfl⟩ := onFlight_eq_some h
      exact .inl ⟨j, f, g, hf, .expired hg, rfl⟩
  | release j =>
      rw [step] at h
      split at h
      next f hf =>
        split_ifs at h with hcond
        exact .inr (.inr (.inr (.inl ⟨j, f, hf, hcond.1, hcond.2, (Option.some.inj h).symm⟩)))
      next => cases h
  | forget j =>
      rw [step] at h
      split at h
      next f hf =>
        split_ifs at h with hcond
        exact .inr (.inr (.inr (.inr ⟨j, f, hf, hcond.1, hcond.2, (Option.some.inj h).symm⟩)))
      next => cases h

/-- What a flight has when it takes off and keeps in its start and in every step, every flight of a
run has. -/
theorem forall_flights {P : ChaseFlight → Prop}
    (hnew : ∀ root chunks providers, P ((ChaseFlight.new root chunks).addProviders providers))
    (hstart : ∀ f g opening, P f → f.start C opening = some g → P g)
    (hstep : ∀ f g, P f → ChaseStep C f g → P g)
    (h : Reaches (step C limit) (fun _ _ => True) .init s) : ∀ f ∈ s.flights, P f := by
  refine h.invariant (P := fun s => ∀ f ∈ s.flights, P f) (fun f hf => by cases hf) ?_
  rintro s i t hs - hst
  rcases step_cases hst with ⟨j, f, g, hf, hg, rfl⟩ | ⟨j, f, g, opening, hf, -, hg, rfl⟩ |
    ⟨root, chunks, providers, -, rfl⟩ | ⟨j, f, -, -, -, rfl⟩ | ⟨j, f, -, -, -, rfl⟩
  · intro f' hf'
    rcases List.mem_or_eq_of_mem_set hf' with hf' | rfl
    · exact hs f' hf'
    · exact hstep f _ (hs f (List.mem_of_getElem? hf)) hg
  · intro f' hf'
    rcases List.mem_or_eq_of_mem_set hf' with hf' | rfl
    · exact hs f' hf'
    · exact hstart f _ opening (hs f (List.mem_of_getElem? hf)) hg
  · intro f hf
    rcases List.mem_append.mp hf with hf | hf
    · exact hs f hf
    · rw [List.mem_singleton.mp hf]
      exact hnew root chunks providers
  · exact hs
  · exact hs

end RootChaser

end PubsubVoting
