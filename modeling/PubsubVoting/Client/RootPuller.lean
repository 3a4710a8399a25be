import PubsubVoting.Client.RootResponder
import PubsubVoting.Lib.Transition

/-!
Pulling root records (`makeRootPuller`): the pulls of many contests from one peer become one fetch
of the bulk answer.

* `RootPuller.step`: pulls, the timer of a batch, the answers of fetches, and what goes on after
  them.
* `RootPuller.pull`: a pull is served from a kept answer, joins a fetch under way, or waits in a
  batch.
* `RootPuller.advance`: pulls that go on together; `delivered`: what the result of a bulk fetch is
  to one of them.
* `RootPuller.Orderly`: the lists and the bulk fetches agree with where each pull stands.
-/

namespace PubsubVoting

open Cbor

/-! ### The state -/

/-- `BULK_ROOTS_CACHE_MS` -/
def bulkRootsCacheMs : ℕ := 10000

/-- `BULK_ROOTS_CACHE_MAX_PEERS` -/
def bulkRootsCacheMaxPeers : ℕ := 32

/-- Why a pull is rejected: a fetch threw, or the codec did. -/
inductive PullFailure (E : Type)
  | fetch (e : E)
  | codec
  deriving DecidableEq

/-- What a pull comes to. -/
inductive PullOutcome (E : Type)
  | resolved (value : Option Bytes)
  | rejected (failure : PullFailure E)
  deriving DecidableEq

/-- A decoded answer without its inlined blocks. -/
abbrev StrippedRecords := JsMap String FetchRootRecord

/-- What the promise of a bulk fetch settles with; `none` for a peer that does not serve the key. -/
abbrev BulkResult (E : Type) := Except (PullFailure E) (Option StrippedRecords)

/-- Where a bulk fetch stands: its answer is awaited, its blocks are being stored, or its promise
has settled, before or after its batch was served. -/
inductive RunPhase (E : Type)
  | fetching
  | storing (decoded : BulkRootRecords)
  | settled (result : BulkResult E) (closed : Bool)

/-- How many steps a bulk fetch still takes. -/
def RunPhase.left {E : Type} : RunPhase E → ℕ
  | .fetching => 3
  | .storing _ => 2
  | .settled _ false => 1
  | .settled _ true => 0

/-- A bulk fetch for a batch of pulls. -/
structure BulkRun (P E : Type) where
  peer : P
  waiters : List ℕ
  phase : RunPhase E

/-- Where a pull stands: in a batch, in a batch that was sent, joined to a bulk fetch under way, at
a fetch of its own, or settled. -/
inductive PullPhase (E : Type)
  | batched
  | sent (run : ℕ)
  | joining (run : ℕ)
  | fetching
  | settled (outcome : PullOutcome E)

/-- How many steps a pull still takes. -/
def PullPhase.left {E : Type} : PullPhase E → ℕ
  | .fetching => 1
  | .settled _ => 0
  | _ => 2

/-- The outcome of a pull, once it has one. -/
def PullPhase.outcome? {E : Type} : PullPhase E → Option (PullOutcome E)
  | .settled outcome => some outcome
  | _ => none

/-- One call of the puller. -/
structure Pull (P E : Type) where
  peer : P
  topic : String
  phase : PullPhase E

/-- The puller. `stored` and `fannedOut` list the calls of `putBlock` and `onRecord`, `settlements`
the promises of pulls as they settle, `thrown` what fetches threw. -/
structure RootPuller (P E : Type) where
  batches : JsMap P (List ℕ)
  cached : JsMap P (ℕ × StrippedRecords)
  inflight : JsMap P ℕ
  runs : List (BulkRun P E)
  pulls : List (Pull P E)
  now : ℕ
  stored : List (Cid × Bytes)
  fannedOut : List (P × String × Bytes)
  settlements : List (ℕ × PullOutcome E)
  thrown : List (P × E)

/-- What happens to a puller. -/
inductive PullInput (P E : Type)
  | pull (peer : P) (topic : String)
  | flush (peer : P)
  | answer (run : ℕ) (result : Except E (Option Bytes))
  | stored (run : ℕ)
  | close (run : ℕ)
  | resume (i : ℕ)
  | fetched (i : ℕ) (result : Except E (Option Bytes))
  | tick (ms : ℕ)

namespace RootPuller

variable {P E : Type} (C : Codecs) (isProtocolError : E → Bool)

/-- A puller that was never called. -/
def start : RootPuller P E := ⟨∅, ∅, ∅, [], [], 0, [], [], [], []⟩

/-! ### The parts of a call -/

/-- Pulls that go on together: each takes its next phase, and those whose promises settle are logged
in order. -/
def advance (is : List ℕ) (next : Pull P E → PullPhase E) (s : RootPuller P E) : RootPuller P E :=
  { s with
    pulls := s.pulls.mapIdx fun i pull => if i ∈ is then { pull with phase := next pull } else pull
    settlements := s.settlements ++ is.filterMap fun i =>
      s.pulls[i]?.bind fun pull => (next pull).outcome?.map (i, ·) }

/-- `serve`: what an answer says of a topic, re-encoded. A topic it leaves out has no record. -/
def serve (records : StrippedRecords) (topic : String) : PullOutcome E :=
  match serveRecord C (records.get? topic) with
  | some value => .resolved value
  | none => .rejected .codec

/-- What the result of a bulk fetch is to a pull that waits for it. -/
def delivered (result : BulkResult E) (pull : Pull P E) : PullPhase E :=
  match result with
  | .error failure => .settled (.rejected failure)
  | .ok none => .fetching
  | .ok (some records) => .settled (serve C records pull.topic)

/-- An answer without its inlined blocks. -/
def stripped (decoded : BulkRootRecords) : StrippedRecords where
  entries := decoded.entries.map fun e => (e.1, e.2.toFetchRootRecord)
  nodup := by
    rw [List.map_map]
    exact decoded.nodup

/-- The inlined blocks that are what their record's chunks name. -/
def verifiedBlocks (decoded : BulkRootRecords) : List (Cid × Bytes) :=
  decoded.entries.flatMap fun e =>
    match e.2.chunkBlocks with
    | none => []
    | some blocks =>
        if blocks.length = e.2.chunks.length then
          (e.2.chunks.zip blocks).filter fun b => blockCid C b.2 = b.1
        else []

/-- Hand the records that nobody in the batch asked for to their engines. -/
def fanOut (peer : P) (asked : List String) (records : StrippedRecords) (s : RootPuller P E) :
    RootPuller P E :=
  { s with
    fannedOut := s.fannedOut ++ records.entries.filterMap fun e =>
      if e.1 ∈ asked then none else (encodeRootRecord C e.2).map (peer, e.1, ·) }

/-- The topics a batch asks for. -/
def askedTopics (s : RootPuller P E) (waiters : List ℕ) : List String :=
  waiters.filterMap fun i => s.pulls[i]?.map Pull.topic

/-- A bulk fetch takes another phase. -/
def setRun (j : ℕ) (run : BulkRun P E) (phase : RunPhase E) (s : RootPuller P E) : RootPuller P E :=
  { s with runs := s.runs.set j { run with phase := phase } }

/-- A new pull. -/
def addPull (pull : Pull P E) (s : RootPuller P E) : RootPuller P E :=
  { s with
    pulls := s.pulls ++ [pull]
    settlements := s.settlements ++ (pull.phase.outcome?.map (s.pulls.length, ·)).toList }

/-- The fetch of the bulk key answers or throws. A protocol error says that the peer does not serve
the key, as no answer does. -/
def answer (j : ℕ) (run : BulkRun P E) (result : Except E (Option Bytes)) (s : RootPuller P E) :
    RootPuller P E :=
  match result with
  | .error e =>
      let failed : BulkResult E :=
        if isProtocolError e then .ok none else .error (.fetch e)
      { s with thrown := s.thrown ++ [(run.peer, e)] }.setRun j run (.settled failed false)
  | .ok none => s.setRun j run (.settled (.ok none) false)
  | .ok (some bytes) =>
      match decodeBulkRootRecords C bytes with
      | none => s.setRun j run (.settled (.error .codec) false)
      | some decoded =>
          { s with stored := s.stored ++ verifiedBlocks C decoded }.setRun j run (.storing decoded)

/-- The pull's own fetch answers or throws. -/
def ownFetched (i : ℕ) (pull : Pull P E) (result : Except E (Option Bytes)) (s : RootPuller P E) :
    RootPuller P E :=
  match result with
  | .ok value => s.advance [i] fun _ => .settled (.resolved value)
  | .error e =>
      { s with thrown := s.thrown ++ [(pull.peer, e)] }.advance [i] fun _ =>
        .settled (.rejected (.fetch e))

/-! ### Pulls that go on, and the log of those that settled -/

section

variable {s : RootPuller P E}

/-- A pull of a peer stands where it is said to. -/
def At (s : RootPuller P E) (i : ℕ) (peer : P) (phase : PullPhase E) : Prop :=
  ∃ pull, s.pulls[i]? = some pull ∧ pull.peer = peer ∧ pull.phase = phase

/-- The batch of a bulk fetch has not been served. -/
def Opened (run : BulkRun P E) : Prop := 0 < run.phase.left

lemma opened_of_phase {run : BulkRun P E} {phase : RunPhase E} (hphase : run.phase = phase)
    (hleft : 0 < phase.left) : Opened run := by
  rw [Opened, hphase]
  exact hleft

lemma getElem?_advance (is : List ℕ) (next : Pull P E → PullPhase E) (s : RootPuller P E) (i : ℕ) :
    (s.advance is next).pulls[i]? = s.pulls[i]?.map fun pull =>
      if i ∈ is then { pull with phase := next pull } else pull :=
  List.getElem?_mapIdx

lemma At.advance {is : List ℕ} {next : Pull P E → PullPhase E} {i : ℕ} {peer : P}
    {phase : PullPhase E} (h : s.At i peer phase) (hi : i ∉ is) :
    (s.advance is next).At i peer phase := by
  obtain ⟨pull, hpull, hpeer, hphase⟩ := h
  refine ⟨pull, ?_, hpeer, hphase⟩
  rw [getElem?_advance, hpull, Option.map_some, if_neg hi]

lemma At.addPull {i : ℕ} {peer : P} {phase : PullPhase E} (h : s.At i peer phase)
    (pull : Pull P E) : (s.addPull pull).At i peer phase := by
  obtain ⟨pull', hpull, hpeer, hphase⟩ := h
  refine ⟨pull', ?_, hpeer, hphase⟩
  show (s.pulls ++ [pull])[i]? = some pull'
  rw [List.getElem?_append_left (List.getElem?_eq_some_iff.mp hpull).1]
  exact hpull

lemma At.phase_eq {i : ℕ} {peer : P} {phase : PullPhase E} (h : s.At i peer phase)
    {pull : Pull P E} (hpull : s.pulls[i]? = some pull) :
    pull.peer = peer ∧ pull.phase = phase := by
  obtain ⟨pull', hpull', hpeer, hphase⟩ := h
  obtain rfl := Option.some.inj (hpull.symm.trans hpull')
  exact ⟨hpeer, hphase⟩

/-- The log of settled promises has every settled pull, once. -/
structure Logged (s : RootPuller P E) : Prop where
  mem_iff : ∀ i outcome, (i, outcome) ∈ s.settlements ↔
    ∃ pull, s.pulls[i]? = some pull ∧ pull.phase.outcome? = some outcome
  nodup : (s.settlements.map Prod.fst).Nodup

lemma Logged.not_mem (h : s.Logged) {i : ℕ} {pull : Pull P E} (hpull : s.pulls[i]? = some pull)
    (hphase : pull.phase.outcome? = none) : i ∉ s.settlements.map Prod.fst := by
  intro hmem
  obtain ⟨⟨i', outcome⟩, hlog, rfl⟩ := List.mem_map.mp hmem
  obtain ⟨pull', hpull', houtcome⟩ := (h.mem_iff _ _).mp hlog
  obtain rfl := Option.some.inj (hpull.symm.trans hpull')
  rw [hphase] at houtcome
  cases houtcome

/-- Pulls that go on are logged as they settle, if each is there once and has not settled. -/
lemma Logged.advance (h : s.Logged) {is : List ℕ} {next : Pull P E → PullPhase E} (his : is.Nodup)
    (hopen : ∀ i ∈ is, ∃ pull, s.pulls[i]? = some pull ∧ pull.phase.outcome? = none) :
    (s.advance is next).Logged := by
  set news := is.filterMap fun i =>
    s.pulls[i]?.bind fun pull => (next pull).outcome?.map (i, ·) with hnews
  have hnew : ∀ i outcome, (i, outcome) ∈ news ↔
      i ∈ is ∧ ∃ pull, s.pulls[i]? = some pull ∧ (next pull).outcome? = some outcome := by
    intro i outcome
    simp only [hnews, List.mem_filterMap, Option.bind_eq_some_iff, Option.map_eq_some_iff,
      Prod.mk.injEq]
    constructor
    · rintro ⟨i', hi', pull, hpull, outcome', houtcome, rfl, rfl⟩
      exact ⟨hi', pull, hpull, houtcome⟩
    · rintro ⟨hi, pull, hpull, houtcome⟩
      exact ⟨i, hi, pull, hpull, outcome, houtcome, rfl, rfl⟩
  constructor
  · intro i outcome
    show (i, outcome) ∈ s.settlements ++ news ↔ _
    rw [List.mem_append, h.mem_iff, hnew, getElem?_advance]
    by_cases hi : i ∈ is
    · obtain ⟨pull, hpull, hphase⟩ := hopen i hi
      simp [hpull, hphase, hi]
    · simp [hi]
  · show ((s.settlements ++ news).map Prod.fst).Nodup
    rw [List.map_append]
    refine List.Nodup.append h.nodup ?_ fun i hold hfresh => ?_
    · rw [hnews, List.map_filterMap]
      refine his.filterMap fun i i' k hk hk' => ?_
      have hfst : ∀ i, k ∈ ((s.pulls[i]?.bind fun pull =>
          (next pull).outcome?.map (i, ·)).map Prod.fst) → k = i := by
        intro i hi
        obtain ⟨e, he, rfl⟩ := Option.map_eq_some_iff.mp hi
        obtain ⟨pull, -, he⟩ := Option.bind_eq_some_iff.mp he
        obtain ⟨outcome, -, rfl⟩ := Option.map_eq_some_iff.mp he
        rfl
      exact (hfst i hk).symm.trans (hfst i' hk')
    · obtain ⟨⟨i', outcome⟩, hmem, rfl⟩ := List.mem_map.mp hfresh
      obtain ⟨hi, -⟩ := (hnew _ _).mp hmem
      obtain ⟨pull, hpull, hphase⟩ := hopen _ hi
      exact h.not_mem hpull hphase hold

lemma At.lt_length {i : ℕ} {peer : P} {phase : PullPhase E} (h : s.At i peer phase) :
    i < s.pulls.length := by
  obtain ⟨pull, hpull, -, -⟩ := h
  exact (List.getElem?_eq_some_iff.mp hpull).1

lemma getElem?_addPull {i : ℕ} {pull pull' : Pull P E}
    (h : (s.addPull pull).pulls[i]? = some pull') :
    s.pulls[i]? = some pull' ∨ (i = s.pulls.length ∧ pull' = pull) := by
  change (s.pulls ++ [pull])[i]? = some pull' at h
  rw [List.getElem?_append] at h
  split_ifs at h with hi
  · exact .inl h
  · obtain ⟨hlt, rfl⟩ := List.getElem?_eq_some_iff.mp h
    have hlen : i - s.pulls.length < 1 := hlt
    exact .inr ⟨by omega, List.getElem_singleton _⟩

/-- A phase in which a pull is in no list. -/
def Alone (phase : PullPhase E) : Prop := phase = .fetching ∨ ∃ outcome, phase = .settled outcome

lemma alone_delivered (C : Codecs) (result : BulkResult E) (pull : Pull P E) :
    Alone (delivered C result pull) := by
  unfold delivered
  split
  · exact .inr ⟨_, rfl⟩
  · exact .inl rfl
  · exact .inr ⟨_, rfl⟩

/-- Fields that the answers of bulk fetches leave as they are. -/
def SameWaiting (t s : RootPuller P E) : Prop :=
  t.batches = s.batches ∧ t.inflight = s.inflight ∧ t.pulls = s.pulls ∧
    t.settlements = s.settlements

/-- An answer changes the bulk fetch it is for. -/
lemma answer_runs (C : Codecs) (isProtocolError : E → Bool) (s : RootPuller P E) (j : ℕ)
    (run : BulkRun P E) (result : Except E (Option Bytes)) :
    ∃ phase, (s.answer C isProtocolError j run result).runs = (s.setRun j run phase).runs ∧
      SameWaiting (s.answer C isProtocolError j run result) s ∧
      0 < phase.left ∧ phase.left < 3 := by
  unfold answer
  split
  · exact ⟨_, rfl, ⟨rfl, rfl, rfl, rfl⟩, Nat.succ_pos 0, Nat.lt_of_sub_eq_succ rfl⟩
  · exact ⟨_, rfl, ⟨rfl, rfl, rfl, rfl⟩, Nat.succ_pos 0, Nat.lt_of_sub_eq_succ rfl⟩
  · split
    · exact ⟨_, rfl, ⟨rfl, rfl, rfl, rfl⟩, Nat.succ_pos 0, Nat.lt_of_sub_eq_succ rfl⟩
    · exact ⟨_, rfl, ⟨rfl, rfl, rfl, rfl⟩, Nat.succ_pos 1, Nat.lt_of_sub_eq_succ rfl⟩

/-- A pull's own fetch settles it. -/
lemma ownFetched_eq (s : RootPuller P E) (i : ℕ) (pull : Pull P E)
    (result : Except E (Option Bytes)) : ∃ outcome thrown,
      s.ownFetched i pull result = { s with thrown := thrown }.advance [i] fun _ =>
        .settled outcome := by
  unfold ownFetched
  split
  · exact ⟨_, s.thrown, rfl⟩
  · exact ⟨_, _, rfl⟩

end

/-! ### The parts of a call that read the maps -/

variable [DecidableEq P]

/-- Keep an answer for later pulls; a peer that is new makes room for itself. -/
def keep (peer : P) (records : StrippedRecords) (s : RootPuller P E) : RootPuller P E :=
  if records.entries.length > 0 then
    let room :=
      if s.cached.entries.length ≥ bulkRootsCacheMaxPeers ∧ s.cached.has peer = false then
        s.cached.dropOldest
      else s.cached
    { s with cached := room.set peer (s.now, records) }
  else s

/-- A pull that no kept answer serves joins the fetch under way, or waits in a batch. -/
def enqueue (peer : P) (topic : String) (s : RootPuller P E) : RootPuller P E :=
  match s.inflight.get? peer with
  | some run => s.addPull ⟨peer, topic, .joining run⟩
  | none =>
      let waiters := (s.batches.get? peer).getD []
      { s with batches := s.batches.set peer (waiters ++ [s.pulls.length]) }.addPull
        ⟨peer, topic, .batched⟩

/-- A call of the puller. -/
def pull (peer : P) (topic : String) (s : RootPuller P E) : RootPuller P E :=
  match s.cached.get? peer with
  | none => s.enqueue peer topic
  | some (takenAt, records) =>
      if s.now - takenAt ≤ bulkRootsCacheMs then
        if (records.get? topic).isSome then
          s.addPull ⟨peer, topic, .settled (serve C records topic)⟩
        else s.enqueue peer topic
      else { s with cached := s.cached.delete peer }.enqueue peer topic

/-- `flush`, up to its fetch of the bulk key. -/
def flush (peer : P) (s : RootPuller P E) : Option (RootPuller P E) :=
  match s.batches.get? peer with
  | none => none
  | some waiters =>
      let sent : RootPuller P E := { s with
        batches := s.batches.delete peer
        runs := s.runs ++ [⟨peer, waiters, .fetching⟩]
        inflight := s.inflight.set peer s.runs.length }
      some (sent.advance waiters fun _ => .sent s.runs.length)

/-- The blocks of an answer were stored. -/
def blocksStored (j : ℕ) (run : BulkRun P E) (decoded : BulkRootRecords) (s : RootPuller P E) :
    RootPuller P E :=
  let records := stripped decoded
  ((s.keep run.peer records).fanOut C run.peer (s.askedTopics run.waiters) records).setRun j run
    (.settled (.ok (some records)) false)

/-- `flush`, after its fetch: the batch is served, or falls back to fetches of its own. -/
def close (j : ℕ) (run : BulkRun P E) (result : BulkResult E) (s : RootPuller P E) :
    RootPuller P E :=
  ({ s with inflight := s.inflight.delete run.peer }.setRun j run (.settled result true)).advance
    run.waiters (delivered C result)

/-- One step. -/
def step (s : RootPuller P E) : PullInput P E → Option (RootPuller P E)
  | .pull peer topic => some (s.pull C peer topic)
  | .flush peer => s.flush peer
  | .answer j result =>
      match s.runs[j]? with
      | some run =>
          match run.phase with
          | .fetching => some (s.answer C isProtocolError j run result)
          | _ => none
      | none => none
  | .stored j =>
      match s.runs[j]? with
      | some run =>
          match run.phase with
          | .storing decoded => some (s.blocksStored C j run decoded)
          | _ => none
      | none => none
  | .close j =>
      match s.runs[j]? with
      | some run =>
          match run.phase with
          | .settled result false => some (s.close C j run result)
          | _ => none
      | none => none
  | .resume i =>
      match s.pulls[i]? with
      | some pull =>
          match pull.phase with
          | .joining j =>
              match s.runs[j]? with
              | some run =>
                  match run.phase with
                  | .settled result _ => some (s.advance [i] (delivered C result))
                  | _ => none
              | none => none
          | _ => none
      | none => none
  | .fetched i result =>
      match s.pulls[i]? with
      | some pull =>
          match pull.phase with
          | .fetching => some (s.ownFetched i pull result)
          | _ => none
      | none => none
  | .tick ms => some { s with now := s.now + ms }

/-! ### Where a pull waits -/

variable {C isProtocolError} {s t : RootPuller P E}

/-- A pull is where its phase says. -/
def Placed (s : RootPuller P E) (i : ℕ) (pull : Pull P E) : Prop :=
  match pull.phase with
  | .batched => ∃ waiters, s.batches.get? pull.peer = some waiters ∧ i ∈ waiters
  | .sent j => ∃ run, s.runs[j]? = some run ∧ Opened run ∧ i ∈ run.waiters
  | .joining j => ∃ run, s.runs[j]? = some run ∧ run.peer = pull.peer
  | _ => True

/-- The pulls and the lists of those that wait agree. -/
structure Orderly (s : RootPuller P E) : Prop where
  batches : ∀ peer waiters, s.batches.get? peer = some waiters →
    waiters.Nodup ∧ ∀ i ∈ waiters, s.At i peer .batched
  runs : ∀ (j : ℕ) run, s.runs[j]? = some run → Opened run →
    run.waiters.Nodup ∧ ∀ i ∈ run.waiters, s.At i run.peer (.sent j)
  inflight : ∀ peer j, s.inflight.get? peer = some j →
    ∃ run, s.runs[j]? = some run ∧ run.peer = peer
  pulls : ∀ (i : ℕ) pull, s.pulls[i]? = some pull → s.Placed i pull

/-- Only four fields matter. -/
lemma Orderly.congr (h : s.Orderly) (hbatches : t.batches = s.batches)
    (hinflight : t.inflight = s.inflight) (hruns : t.runs = s.runs) (hpulls : t.pulls = s.pulls) :
    t.Orderly := by
  obtain ⟨⟩ := s
  obtain ⟨⟩ := t
  cases hbatches
  cases hinflight
  cases hruns
  cases hpulls
  exact ⟨h.batches, h.runs, h.inflight, h.pulls⟩

/-- A pull served at once, or joined to a bulk fetch of its peer. -/
lemma Orderly.addPull (h : s.Orderly) {pull : Pull P E}
    (hplaced : s.Placed s.pulls.length pull) (hphase : pull.phase ≠ .batched) :
    (s.addPull pull).Orderly where
  batches := fun peer waiters hget =>
    ⟨(h.batches peer waiters hget).1,
      fun i hi => ((h.batches peer waiters hget).2 i hi).addPull pull⟩
  runs := fun j run hrun hopen =>
    ⟨(h.runs j run hrun hopen).1, fun i hi => ((h.runs j run hrun hopen).2 i hi).addPull pull⟩
  inflight := h.inflight
  pulls := by
    intro i pull' hpull'
    rcases getElem?_addPull hpull' with hold | ⟨rfl, rfl⟩
    · exact h.pulls i pull' hold
    · exact hplaced

/-- A pull that waits in the batch of its peer. -/
lemma Orderly.addBatched (h : s.Orderly) (peer : P) (topic : String) :
    ({ s with
      batches := s.batches.set peer
        ((s.batches.get? peer).getD [] ++ [s.pulls.length]) }.addPull
          ⟨peer, topic, .batched⟩).Orderly := by
  have hwaiting : ((s.batches.get? peer).getD []).Nodup ∧
      ∀ i ∈ (s.batches.get? peer).getD [], s.At i peer .batched := by
    cases hget : s.batches.get? peer with
    | none => exact ⟨List.nodup_nil, fun i hi => absurd hi List.not_mem_nil⟩
    | some waiters => exact h.batches peer waiters hget
  set s' : RootPuller P E := { s with
    batches := s.batches.set peer ((s.batches.get? peer).getD [] ++ [s.pulls.length]) } with hs'
  have hat : ∀ {i peer' phase}, s.At i peer' phase →
      (s'.addPull ⟨peer, topic, .batched⟩).At i peer' phase := fun hat => At.addPull (s := s') hat _
  have hnew : (s'.addPull ⟨peer, topic, .batched⟩).At s.pulls.length peer .batched := by
    refine ⟨⟨peer, topic, .batched⟩, ?_, rfl, rfl⟩
    exact List.getElem?_concat_length
  constructor
  · intro peer' waiters hget
    change (s.batches.set peer _).get? peer' = some waiters at hget
    rw [JsMap.get?_set] at hget
    split_ifs at hget with hpeer
    · obtain rfl := Option.some.inj hget
      refine ⟨List.Nodup.append hwaiting.1 (List.nodup_singleton _) fun i hi hi' => ?_,
        fun i hi => ?_⟩
      · obtain rfl := List.mem_singleton.mp hi'
        exact absurd (hwaiting.2 _ hi).lt_length (lt_irrefl _)
      · rw [hpeer]
        rcases List.mem_append.mp hi with hi | hi
        · exact hat (hwaiting.2 i hi)
        · obtain rfl := List.mem_singleton.mp hi
          exact hnew
    · obtain ⟨hnodup, hall⟩ := h.batches peer' waiters hget
      exact ⟨hnodup, fun i hi => hat (hall i hi)⟩
  · intro j run hrun hopen
    obtain ⟨hnodup, hall⟩ := h.runs j run hrun hopen
    exact ⟨hnodup, fun i hi => hat (hall i hi)⟩
  · exact h.inflight
  · intro i pull hpull
    have hmem : ∃ waiters, s'.batches.get? peer = some waiters ∧
        s.pulls.length ∈ waiters ∧ ∀ i ∈ (s.batches.get? peer).getD [], i ∈ waiters := by
      refine ⟨_, (JsMap.get?_set _ _ _ _).trans (if_pos rfl), ?_, fun i hi => ?_⟩
      · exact List.mem_append_right _ (List.mem_singleton_self _)
      · exact List.mem_append_left _ hi
    obtain ⟨waiters, hwaiters, hself, hothers⟩ := hmem
    rcases getElem?_addPull hpull with hold | ⟨rfl, rfl⟩
    · have hplaced := h.pulls i pull hold
      rw [Placed] at hplaced ⊢
      split at hplaced
      · obtain ⟨waiters', hget, hi⟩ := hplaced
        by_cases hpeer : pull.peer = peer
        · refine ⟨waiters, ?_, hothers i ?_⟩
          · rw [hpeer]
            exact hwaiters
          · rw [← hpeer, hget]
            exact hi
        · refine ⟨waiters', ?_, hi⟩
          exact ((JsMap.get?_set _ _ _ _).trans (if_neg hpeer)).trans hget
      · exact hplaced
      · exact hplaced
      · trivial
    · exact ⟨waiters, hwaiters, hself⟩

/-- A batch is flushed into a run, whose pulls are sent with it. -/
lemma flush_eq_some {peer : P} (hflush : s.flush peer = some t) :
    ∃ waiters, s.batches.get? peer = some waiters ∧
      t = advance waiters (fun _ => .sent s.runs.length) { s with
        batches := s.batches.delete peer
        runs := s.runs ++ [⟨peer, waiters, .fetching⟩]
        inflight := s.inflight.set peer s.runs.length } := by
  rw [RootPuller.flush] at hflush
  split at hflush
  · cases hflush
  · next waiters hget => exact ⟨waiters, hget, (Option.some.inj hflush).symm⟩

/-- The fetch for a batch starts. -/
lemma Orderly.flush (h : s.Orderly) {peer : P} (hstep : s.flush peer = some t) : t.Orderly := by
  obtain ⟨waiters, hget, rfl⟩ := flush_eq_some hstep
  obtain ⟨hnodup, hwaiting⟩ := h.batches peer waiters hget
  -- what waits elsewhere is not in this batch
  have hother : ∀ {i peer' phase}, s.At i peer' phase → (phase = .batched → peer' ≠ peer) →
      i ∉ waiters := by
    intro i peer' phase hat hne hi
    obtain ⟨pull, hpull, hpeer, hphase⟩ := hwaiting i hi
    obtain ⟨hpeer', hphase'⟩ := hat.phase_eq hpull
    exact hne (hphase'.symm.trans hphase) (hpeer'.symm.trans hpeer)
  have hkept : ∀ {j : ℕ} {run : BulkRun P E}, s.runs[j]? = some run →
      (s.runs ++ [⟨peer, waiters, .fetching⟩])[j]? = some run := by
    intro j run hrun
    rw [List.getElem?_append_left (List.getElem?_eq_some_iff.mp hrun).1]
    exact hrun
  constructor
  · intro peer' waiters' hget'
    change (s.batches.delete peer).get? peer' = some waiters' at hget'
    rw [JsMap.get?_delete] at hget'
    split_ifs at hget' with hpeer
    obtain ⟨hnodup', hall⟩ := h.batches peer' waiters' hget'
    exact ⟨hnodup', fun i hi => At.advance (hall i hi) (hother (hall i hi) fun _ => hpeer)⟩
  · intro j run hrun hopen
    change (s.runs ++ [⟨peer, waiters, .fetching⟩])[j]? = some run at hrun
    rw [List.getElem?_append] at hrun
    split_ifs at hrun with hj
    · obtain ⟨hnodup', hall⟩ := h.runs j run hrun hopen
      exact ⟨hnodup', fun i hi =>
        At.advance (hall i hi) (hother (hall i hi) fun hphase => by cases hphase)⟩
    · obtain ⟨hlt, rfl⟩ := List.getElem?_eq_some_iff.mp hrun
      have hj' : j = s.runs.length := by
        have hlen : j - s.runs.length < 1 := hlt
        omega
      subst hj'
      rw [List.getElem_singleton]
      refine ⟨hnodup, fun i hi => ?_⟩
      obtain ⟨pull, hpull, hpeer, hphase⟩ := hwaiting i hi
      refine ⟨{ pull with phase := .sent s.runs.length }, ?_, hpeer, rfl⟩
      rw [getElem?_advance, hpull, Option.map_some, if_pos hi]
  · intro peer' j hget'
    change (s.inflight.set peer s.runs.length).get? peer' = some j at hget'
    rw [JsMap.get?_set] at hget'
    show ∃ run, (s.runs ++ [⟨peer, waiters, .fetching⟩])[j]? = some run ∧ run.peer = peer'
    split_ifs at hget' with hpeer
    · obtain rfl := Option.some.inj hget'
      exact ⟨_, List.getElem?_concat_length, hpeer.symm⟩
    · obtain ⟨run, hrun, hpeer'⟩ := h.inflight peer' j hget'
      exact ⟨run, hkept hrun, hpeer'⟩
  · intro i pull hpull
    rw [getElem?_advance] at hpull
    obtain ⟨pull', hpull', hadv⟩ := Option.map_eq_some_iff.mp hpull
    split_ifs at hadv with hi
    · subst hadv
      exact ⟨⟨peer, waiters, .fetching⟩, List.getElem?_concat_length, Nat.succ_pos 2, hi⟩
    · subst hadv
      have hplaced := h.pulls i pull' hpull'
      rw [Placed] at hplaced ⊢
      split at hplaced
      · obtain ⟨waiters', hget', hi'⟩ := hplaced
        have hpeer : pull'.peer ≠ peer := by
          intro hpeer
          rw [hpeer, hget] at hget'
          exact hi (Option.some.inj hget' ▸ hi')
        exact ⟨waiters', ((JsMap.get?_delete _ _ _).trans (if_neg hpeer)).trans hget', hi'⟩
      · obtain ⟨run, hrun, hplaced⟩ := hplaced
        exact ⟨run, hkept hrun, hplaced⟩
      · obtain ⟨run, hrun, hplaced⟩ := hplaced
        exact ⟨run, hkept hrun, hplaced⟩
      · trivial

/-- A bulk fetch takes a phase before its batch is served. -/
lemma Orderly.setRun (h : s.Orderly) {j : ℕ} {run : BulkRun P E} (hrun : s.runs[j]? = some run)
    (hopen : Opened run) {phase : RunPhase E} (hphase : 0 < phase.left) :
    (s.setRun j run phase).Orderly := by
  have hj : j < s.runs.length := (List.getElem?_eq_some_iff.mp hrun).1
  have hget : ∀ {j' : ℕ} {run' : BulkRun P E}, s.runs[j']? = some run' → ∃ run'',
      (s.setRun j run phase).runs[j']? = some run'' ∧ run''.peer = run'.peer ∧
        run''.waiters = run'.waiters ∧ (Opened run' → Opened run'') := by
    intro j' run' hrun'
    show ∃ run'', (s.runs.set j _)[j']? = some run'' ∧ _
    rw [List.getElem?_set]
    split_ifs with hjj
    · subst hjj
      obtain rfl := Option.some.inj (hrun.symm.trans hrun')
      exact ⟨_, rfl, rfl, rfl, fun _ => hphase⟩
    · exact ⟨run', hrun', rfl, rfl, id⟩
  constructor
  · exact h.batches
  · intro j' run' hrun' hopen'
    change (s.runs.set j _)[j']? = some run' at hrun'
    rw [List.getElem?_set] at hrun'
    split_ifs at hrun' with hjj
    · subst hjj
      obtain rfl := Option.some.inj hrun'
      exact h.runs j run hrun hopen
    · exact h.runs j' run' hrun' hopen'
  · intro peer j' hget'
    obtain ⟨run', hrun', hpeer⟩ := h.inflight peer j' hget'
    obtain ⟨run'', hrun'', hpeer', -, -⟩ := hget hrun'
    exact ⟨run'', hrun'', hpeer'.trans hpeer⟩
  · intro i pull hpull
    have hplaced := h.pulls i pull hpull
    rw [Placed] at hplaced ⊢
    split at hplaced
    · exact hplaced
    · obtain ⟨run', hrun', hopen', hi⟩ := hplaced
      obtain ⟨run'', hrun'', -, hwaiters, hopen''⟩ := hget hrun'
      exact ⟨run'', hrun'', hopen'' hopen', hwaiters ▸ hi⟩
    · obtain ⟨run', hrun', hpeer⟩ := hplaced
      obtain ⟨run'', hrun'', hpeer', -, -⟩ := hget hrun'
      exact ⟨run'', hrun'', hpeer'.trans hpeer⟩
    · trivial

lemma placed_of_alone {i : ℕ} {pull : Pull P E} (h : Alone pull.phase) : s.Placed i pull := by
  rw [Placed]
  rcases h with h | ⟨outcome, h⟩
  · rw [h]
    trivial
  · rw [h]
    trivial

/-- A pull that waits in no list goes on. -/
lemma Orderly.advance (h : s.Orderly) {i : ℕ} {pull : Pull P E} (hpull : s.pulls[i]? = some pull)
    (hbatched : pull.phase ≠ .batched) (hsent : ∀ j, pull.phase ≠ .sent j)
    {next : Pull P E → PullPhase E} (hnext : ∀ pull, Alone (next pull)) :
    (s.advance [i] next).Orderly := by
  have hother : ∀ {i' peer phase}, s.At i' peer phase → phase ≠ pull.phase → i' ∉ [i] := by
    intro i' peer phase hat hne hi
    obtain rfl := List.mem_singleton.mp hi
    exact hne (hat.phase_eq hpull).2.symm
  constructor
  · intro peer waiters hget
    obtain ⟨hnodup, hall⟩ := h.batches peer waiters hget
    exact ⟨hnodup, fun i' hi => (hall i' hi).advance (hother (hall i' hi) hbatched.symm)⟩
  · intro j run hrun hopen
    obtain ⟨hnodup, hall⟩ := h.runs j run hrun hopen
    exact ⟨hnodup, fun i' hi => (hall i' hi).advance (hother (hall i' hi) (hsent j).symm)⟩
  · exact h.inflight
  · intro i' pull' hpull'
    rw [getElem?_advance] at hpull'
    obtain ⟨before, hbefore, hadv⟩ := Option.map_eq_some_iff.mp hpull'
    split_ifs at hadv with hi
    · subst hadv
      exact placed_of_alone (hnext before)
    · subst hadv
      exact h.pulls i' before hbefore

/-- The batch of a bulk fetch is served. -/
lemma Orderly.close (h : s.Orderly) {j : ℕ} {run : BulkRun P E} (hrun : s.runs[j]? = some run)
    (hopen : Opened run) (result : BulkResult E) : (s.close C j run result).Orderly := by
  obtain ⟨-, hwaiting⟩ := h.runs j run hrun hopen
  have hj : j < s.runs.length := (List.getElem?_eq_some_iff.mp hrun).1
  have hother : ∀ {i peer phase}, s.At i peer phase → phase ≠ .sent j → i ∉ run.waiters := by
    intro i peer phase hat hne hi
    obtain ⟨pull, hpull, -, hphase⟩ := hwaiting i hi
    exact hne ((hat.phase_eq hpull).2.symm.trans hphase)
  constructor
  · intro peer waiters hget
    obtain ⟨hnodup, hall⟩ := h.batches peer waiters hget
    exact ⟨hnodup, fun i hi => At.advance (hall i hi) (hother (hall i hi) fun hphase => by
      cases hphase)⟩
  · intro j' run' hrun' hopen'
    change (s.runs.set j _)[j']? = some run' at hrun'
    rw [List.getElem?_set] at hrun'
    split_ifs at hrun' with hjj
    · obtain rfl := Option.some.inj hrun'
      exact absurd hopen' (lt_irrefl 0)
    · obtain ⟨hnodup, hall⟩ := h.runs j' run' hrun' hopen'
      exact ⟨hnodup, fun i hi => At.advance (hall i hi) (hother (hall i hi) fun hphase => by
        cases hphase
        exact hjj rfl)⟩
  · intro peer j' hget
    change (s.inflight.delete run.peer).get? peer = some j' at hget
    rw [JsMap.get?_delete] at hget
    split_ifs at hget with hpeer
    obtain ⟨run', hrun', hpeer'⟩ := h.inflight peer j' hget
    show ∃ run', (s.runs.set j _)[j']? = some run' ∧ _
    rw [List.getElem?_set]
    split_ifs with hjj
    · subst hjj
      obtain rfl := Option.some.inj (hrun.symm.trans hrun')
      exact ⟨_, rfl, hpeer'⟩
    · exact ⟨run', hrun', hpeer'⟩
  · intro i pull hpull
    rw [RootPuller.close, getElem?_advance] at hpull
    obtain ⟨before, hbefore, hadv⟩ := Option.map_eq_some_iff.mp hpull
    split_ifs at hadv with hi
    · subst hadv
      exact placed_of_alone (alone_delivered C result before)
    · subst hadv
      have hplaced := h.pulls i before hbefore
      have hset : ∀ {j' : ℕ} {run' : BulkRun P E}, s.runs[j']? = some run' → j ≠ j' →
          (s.close C j run result).runs[j']? = some run' := by
        intro j' run' hrun' hjj
        show (s.runs.set j _)[j']? = some run'
        rw [List.getElem?_set_ne hjj]
        exact hrun'
      rw [Placed] at hplaced ⊢
      split at hplaced
      · exact hplaced
      · next j' _ =>
          obtain ⟨run', hrun', hopen', hi'⟩ := hplaced
          have hjj : j ≠ j' := by
            rintro rfl
            obtain rfl := Option.some.inj (hrun.symm.trans hrun')
            exact hi hi'
          exact ⟨run', hset hrun' hjj, hopen', hi'⟩
      · next j' _ =>
          obtain ⟨run', hrun', hpeer⟩ := hplaced
          by_cases hjj : j = j'
          · subst hjj
            obtain rfl := Option.some.inj (hrun.symm.trans hrun')
            refine ⟨{ run with phase := .settled result true }, ?_, hpeer⟩
            show (s.runs.set j _)[j]? = _
            rw [List.getElem?_set_self hj]
          · exact ⟨run', hset hrun' hjj, hpeer⟩
      · trivial

/-! ### What a step does -/

lemma step_answer {j : ℕ} {result : Except E (Option Bytes)}
    (hstep : s.step C isProtocolError (.answer j result) = some t) :
    ∃ run, s.runs[j]? = some run ∧ run.phase = .fetching ∧
      t = s.answer C isProtocolError j run result := by
  unfold step at hstep
  dsimp only at hstep
  split at hstep
  · next run hrun =>
      split at hstep
      · next hphase => exact ⟨run, hrun, hphase, (Option.some.inj hstep).symm⟩
      · cases hstep
  · cases hstep

lemma step_stored {j : ℕ} (hstep : s.step C isProtocolError (.stored j) = some t) :
    ∃ run decoded, s.runs[j]? = some run ∧ run.phase = .storing decoded ∧
      t = s.blocksStored C j run decoded := by
  unfold step at hstep
  dsimp only at hstep
  split at hstep
  · next run hrun =>
      split at hstep
      · next decoded hphase => exact ⟨run, decoded, hrun, hphase, (Option.some.inj hstep).symm⟩
      · cases hstep
  · cases hstep

lemma step_close {j : ℕ} (hstep : s.step C isProtocolError (.close j) = some t) :
    ∃ run result, s.runs[j]? = some run ∧ run.phase = .settled result false ∧
      t = s.close C j run result := by
  unfold step at hstep
  dsimp only at hstep
  split at hstep
  · next run hrun =>
      split at hstep
      · next result hphase => exact ⟨run, result, hrun, hphase, (Option.some.inj hstep).symm⟩
      · cases hstep
  · cases hstep

lemma step_resume {i : ℕ} (hstep : s.step C isProtocolError (.resume i) = some t) :
    ∃ pull j run result closed, s.pulls[i]? = some pull ∧ pull.phase = .joining j ∧
      s.runs[j]? = some run ∧ run.phase = .settled result closed ∧
      t = s.advance [i] (delivered C result) := by
  unfold step at hstep
  dsimp only at hstep
  split at hstep
  · next pull hpull =>
      split at hstep
      · next j hphase =>
          split at hstep
          · next run hrun =>
              split at hstep
              · next result closed hrphase =>
                  exact ⟨pull, j, run, result, closed, hpull, hphase, hrun, hrphase,
                    (Option.some.inj hstep).symm⟩
              · cases hstep
          · cases hstep
      · cases hstep
  · cases hstep

lemma step_fetched {i : ℕ} {result : Except E (Option Bytes)}
    (hstep : s.step C isProtocolError (.fetched i result) = some t) :
    ∃ pull, s.pulls[i]? = some pull ∧ pull.phase = .fetching ∧ t = s.ownFetched i pull result := by
  unfold step at hstep
  dsimp only at hstep
  split at hstep
  · next pull hpull =>
      split at hstep
      · next hphase => exact ⟨pull, hpull, hphase, (Option.some.inj hstep).symm⟩
      · cases hstep
  · cases hstep

lemma blocksStored_runs (C : Codecs) (s : RootPuller P E) (j : ℕ) (run : BulkRun P E)
    (decoded : BulkRootRecords) :
    (s.blocksStored C j run decoded).runs
        = (s.setRun j run (.settled (.ok (some (stripped decoded))) false)).runs ∧
      SameWaiting (s.blocksStored C j run decoded) s := by
  unfold blocksStored keep
  dsimp only
  split_ifs <;> exact ⟨rfl, rfl, rfl, rfl, rfl⟩

/-- A new pull is served, joined or batched; a kept answer that is too old goes first. -/
lemma pull_cases (C : Codecs) (peer : P) (topic : String) (s : RootPuller P E) :
    (∃ takenAt records, s.cached.get? peer = some (takenAt, records) ∧
      (records.get? topic).isSome = true ∧
      s.pull C peer topic = s.addPull ⟨peer, topic, .settled (serve C records topic)⟩) ∨
    ∃ cached, (cached = s.cached ∨ cached = s.cached.delete peer) ∧
      s.pull C peer topic = { s with cached := cached }.enqueue peer topic := by
  rw [pull]
  cases hcached : s.cached.get? peer with
  | none => exact .inr ⟨s.cached, .inl rfl, rfl⟩
  | some kept =>
      obtain ⟨takenAt, records⟩ := kept
      dsimp only
      split_ifs with hfresh hserved
      · exact .inl ⟨takenAt, records, rfl, hserved, rfl⟩
      · exact .inr ⟨s.cached, .inl rfl, rfl⟩
      · exact .inr ⟨s.cached.delete peer, .inr rfl, rfl⟩

lemma Orderly.enqueue (h : s.Orderly) (peer : P) (topic : String) :
    (s.enqueue peer topic).Orderly := by
  rw [RootPuller.enqueue]
  cases hinflight : s.inflight.get? peer with
  | none => exact h.addBatched peer topic
  | some run => exact h.addPull (h.inflight peer run hinflight) (fun hphase => by cases hphase)

/-- Every step keeps the lists in agreement with the pulls. -/
lemma Orderly.step (h : s.Orderly) {i : PullInput P E}
    (hstep : s.step C isProtocolError i = some t) : t.Orderly := by
  cases i with
  | pull peer topic =>
      obtain rfl := Option.some.inj hstep
      rcases pull_cases C peer topic s with ⟨_, records, -, -, hs⟩ | ⟨cached, -, hs⟩
      · rw [hs]
        exact h.addPull (placed_of_alone (.inr ⟨_, rfl⟩)) (fun hphase => by cases hphase)
      · rw [hs]
        have h' : ({ s with cached := cached } : RootPuller P E).Orderly := h.congr rfl rfl rfl rfl
        exact h'.enqueue peer topic
  | flush peer => exact h.flush hstep
  | answer j result =>
      obtain ⟨run, hrun, hphase, rfl⟩ := step_answer hstep
      obtain ⟨phase, hruns, ⟨hbatches, hinflight, hpulls, -⟩, hleft, -⟩ :=
        answer_runs C isProtocolError s j run result
      have hopen : Opened run := opened_of_phase hphase (Nat.succ_pos 2)
      exact (h.setRun hrun hopen hleft).congr hbatches hinflight hruns hpulls
  | stored j =>
      obtain ⟨run, decoded, hrun, hphase, rfl⟩ := step_stored hstep
      obtain ⟨hruns, hbatches, hinflight, hpulls, -⟩ := blocksStored_runs C s j run decoded
      have hopen : Opened run := opened_of_phase hphase (Nat.succ_pos 1)
      have hleft : 0 < (RunPhase.settled (E := E) (.ok (some (stripped decoded))) false).left :=
        Nat.succ_pos 0
      exact (h.setRun hrun hopen hleft).congr hbatches hinflight hruns hpulls
  | close j =>
      obtain ⟨run, result, hrun, hphase, rfl⟩ := step_close hstep
      exact h.close hrun (opened_of_phase hphase (Nat.succ_pos 0)) result
  | resume i =>
      obtain ⟨pull, j, run, result, closed, hpull, hphase, -, -, rfl⟩ := step_resume hstep
      refine h.advance hpull ?_ (fun j' => ?_) (alone_delivered C result)
      · rw [hphase]
        exact fun h => by cases h
      · rw [hphase]
        exact fun h => by cases h
  | fetched i result =>
      obtain ⟨pull, hpull, hphase, rfl⟩ := step_fetched hstep
      obtain ⟨outcome, thrown, hs⟩ := ownFetched_eq s i pull result
      have h' : ({ s with thrown := thrown } : RootPuller P E).Orderly := h.congr rfl rfl rfl rfl
      rw [hs]
      refine h'.advance hpull ?_ (fun j => ?_) fun _ => .inr ⟨outcome, rfl⟩
      · rw [hphase]
        exact fun h => by cases h
      · rw [hphase]
        exact fun h => by cases h
  | tick ms =>
      obtain rfl := Option.some.inj hstep
      exact h.congr rfl rfl rfl rfl

end RootPuller

end PubsubVoting
