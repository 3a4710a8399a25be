import PubsubVoting.Client.RootPuller
import PubsubVoting.Lib.Scatter

/-!
Runs of the puller against responders whose contests and records do not change.

* `RootPuller.Answers`: what a fetch from such a peer may come to.
* `RootPuller.Truthful`: every answer that was kept or is under way is the peer's, and every pull
  that has settled got the peer's own answer or the error of a fetch.
* `RootPuller.left`: a count that every step but a pull and a tick lowers.
* `rootPuller_transparent`: in every run each pull settles once, and with what a fetch of its own
  would bring, if no bulk answer leaves its contest out.
* `rootPuller_capped`: a directory of more contests than the bulk answer holds.
-/

namespace PubsubVoting

open Cbor

namespace RootPuller

/-! ### Settled once -/

section

variable {P E : Type} {s t : RootPuller P E}

/-- Only two fields matter. -/
lemma Logged.congr (h : s.Logged) (hpulls : t.pulls = s.pulls)
    (hsettlements : t.settlements = s.settlements) : t.Logged := by
  obtain ⟨hmem, hnodup⟩ := h
  rw [← hsettlements] at hnodup
  refine ⟨fun i outcome => ?_, hnodup⟩
  rw [hsettlements, hpulls]
  exact hmem i outcome

lemma Logged.addPull (h : s.Logged) (pull : Pull P E) : (s.addPull pull).Logged := by
  have hnew : ∀ i outcome, (i, outcome) ∈ (pull.phase.outcome?.map (s.pulls.length, ·)).toList ↔
      i = s.pulls.length ∧ pull.phase.outcome? = some outcome := by
    intro i outcome
    cases hphase : pull.phase.outcome? with
    | none => simp
    | some o => simp [eq_comm]
  have hlt : ∀ i outcome, (i, outcome) ∈ s.settlements → i < s.pulls.length := by
    intro i outcome hmem
    obtain ⟨pull', hpull', -⟩ := (h.mem_iff i outcome).mp hmem
    exact (List.getElem?_eq_some_iff.mp hpull').1
  constructor
  · intro i outcome
    show (i, outcome) ∈ s.settlements ++ _ ↔
      ∃ pull', (s.pulls ++ [pull])[i]? = some pull' ∧ _
    rw [List.mem_append, hnew]
    rcases lt_trichotomy i s.pulls.length with hi | hi | hi
    · rw [List.getElem?_append_left hi, h.mem_iff]
      exact or_iff_left fun hand => hi.ne hand.1
    · subst hi
      rw [List.getElem?_concat_length]
      have hnot : (s.pulls.length, outcome) ∉ s.settlements := fun hmem =>
        lt_irrefl _ (hlt _ _ hmem)
      simp [hnot]
    · have hnot : (i, outcome) ∉ s.settlements := fun hmem => hi.not_gt (hlt _ _ hmem)
      have hnone : (s.pulls ++ [pull])[i]? = none := by
        rw [List.getElem?_eq_none_iff, List.length_append]
        exact hi
      simp [hnot, hnone, hi.ne']
  · show ((s.settlements ++ _).map Prod.fst).Nodup
    rw [List.map_append]
    refine List.Nodup.append h.nodup ?_ fun i hold hfresh => ?_
    · cases pull.phase.outcome? with
      | none => exact List.nodup_nil
      | some o => exact List.nodup_singleton _
    · obtain ⟨⟨i', outcome⟩, hmem, rfl⟩ := List.mem_map.mp hold
      obtain ⟨⟨i'', outcome'⟩, hmem', heq⟩ := List.mem_map.mp hfresh
      change i'' = i' at heq
      subst heq
      exact (hlt _ _ hmem).ne ((hnew _ _).mp hmem').1

lemma At.open {i : ℕ} {peer : P} {phase : PullPhase E} (h : s.At i peer phase)
    (hphase : phase.outcome? = none) :
    ∃ pull, s.pulls[i]? = some pull ∧ pull.phase.outcome? = none := by
  obtain ⟨pull, hpull, -, rfl⟩ := h
  exact ⟨pull, hpull, hphase⟩

end

/-! ### What the peers answer -/

section

variable {P E : Type} (C : Codecs) (isProtocolError : E → Bool) (engines : P → Engines)

/-- A fetch from a peer throws a transport error, or it is answered by the responder; a peer that
has joined no contest has no responder, and a fetch from it throws a protocol error. -/
def Answers (peer : P) (key : String) : Except E (Option Bytes) → Prop
  | .error e => isProtocolError e = true →
      ∀ contest ∈ (engines peer).entries, contest.2.joined = false
  | .ok value => (∃ contest ∈ (engines peer).entries, contest.2.joined = true) ∧
      value = rootLookup C (engines peer) key

/-- A pull that a bulk answer cannot mislead: the contest serves no record, or is among those that
the bulk answer is built from, or there is no bulk answer. -/
def Covered (peer : P) (topic : String) : Prop :=
  rootLookup C (engines peer) (rootFetchKey topic) = none ∨
    topic ∈ (bulkContests (engines peer)).map Prod.fst ∨
      rootLookup C (engines peer) bulkRootsFetchKey = none

/-- A fetch that comes to what the peer it is from answers. -/
def FromPeers (s : RootPuller P E) : PullInput P E → Prop
  | .answer j result => ∀ run ∈ s.runs[j]?,
      Answers C isProtocolError engines run.peer bulkRootsFetchKey result
  | .fetched i result => ∀ pull ∈ s.pulls[i]?,
      Answers C isProtocolError engines pull.peer (rootFetchKey pull.topic) result
  | _ => True

/-- A pull got what a fetch of its own would bring, or an error that a fetch from its peer threw. -/
def Right (thrown : List (P × E)) (peer : P) (topic : String) : PullOutcome E → Prop
  | .resolved value => value = rootLookup C (engines peer) (rootFetchKey topic)
  | .rejected (.fetch e) => (peer, e) ∈ thrown
  | .rejected .codec => False

/-- The records are those of the peer's bulk answer. -/
def Tells (peer : P) (records : StrippedRecords) : Prop :=
  ∃ bytes, bulkRootsAnswer C (engines peer) = some bytes ∧ ∀ topic, records.get? topic =
    ((bulkRecords (engines peer)).get? topic).map BulkFetchRootRecord.toFetchRootRecord

/-- The result of a bulk fetch is the peer's. -/
def Brings (thrown : List (P × E)) (peer : P) : BulkResult E → Prop
  | .error (.fetch e) => (peer, e) ∈ thrown
  | .error .codec => False
  | .ok none => True
  | .ok (some records) => Tells C engines peer records

/-- What is known of a bulk fetch. -/
def RunTruthful (thrown : List (P × E)) (run : BulkRun P E) : Prop :=
  match run.phase with
  | .fetching => True
  | .storing decoded => Tells C engines run.peer (stripped decoded)
  | .settled result _ => Brings C engines thrown run.peer result

/-- What the puller keeps is what the peers say. -/
structure Truthful [DecidableEq P] (s : RootPuller P E) : Prop where
  cached : ∀ peer takenAt records, s.cached.get? peer = some (takenAt, records) →
    Tells C engines peer records
  runs : ∀ run ∈ s.runs, RunTruthful C engines s.thrown run
  right : ∀ pull ∈ s.pulls, Covered C engines pull.peer pull.topic →
    ∀ outcome ∈ pull.phase.outcome?, Right C engines s.thrown pull.peer pull.topic outcome

end

section

variable {P E : Type} {C : Codecs} {engines : P → Engines} {thrown thrown' : List (P × E)}
  {peer : P} {topic : String}

lemma Right.mono (hsub : thrown ⊆ thrown') {outcome : PullOutcome E}
    (h : Right C engines thrown peer topic outcome) :
    Right C engines thrown' peer topic outcome := by
  unfold Right at h ⊢
  split at h
  · exact h
  · exact hsub h
  · exact h

lemma Brings.mono (hsub : thrown ⊆ thrown') {result : BulkResult E}
    (h : Brings C engines thrown peer result) : Brings C engines thrown' peer result := by
  unfold Brings at h ⊢
  split at h
  · exact hsub h
  · exact h
  · exact h
  · exact h

lemma RunTruthful.mono (hsub : thrown ⊆ thrown') {run : BulkRun P E}
    (h : RunTruthful C engines thrown run) : RunTruthful C engines thrown' run := by
  rw [RunTruthful] at h ⊢
  split at h
  · exact h
  · exact h
  · exact Brings.mono hsub h

/-- A decoded answer of a peer tells its records. -/
lemma tells_stripped {bytes : Bytes} {decoded : BulkRootRecords}
    (hanswer : bulkRootsAnswer C (engines peer) = some bytes)
    (hdecoded : decodeBulkRootRecords C bytes = some decoded) :
    Tells C engines peer (stripped decoded) := by
  obtain ⟨decoded', hdecoded', hget⟩ := decodeBulkRootRecords_encode hanswer
  obtain rfl := Option.some.inj (hdecoded.symm.trans hdecoded')
  refine ⟨bytes, hanswer, fun topic => ?_⟩
  rw [← hget topic]
  exact lookup_map BulkFetchRootRecord.toFetchRootRecord topic

/-- What an answer of the peer says of a covered topic is what a fetch of its own would bring. -/
lemma serve_of_tells {records : StrippedRecords} (h : Tells C engines peer records)
    (hcovered : Covered C engines peer topic) :
    serve C records topic
      = (.resolved (rootLookup C (engines peer) (rootFetchKey topic)) : PullOutcome E) := by
  obtain ⟨bytes, hanswer, hget⟩ := h
  have hserved : serveRecord C (records.get? topic)
      = some (rootLookup C (engines peer) (rootFetchKey topic)) := by
    rw [hget topic, rootLookup_topic]
    refine serveRecord_bulk hanswer ?_
    rcases hcovered with hnone | hmem | hbulk
    · exact .inl (rootLookup_topic.symm.trans hnone)
    · exact .inr hmem
    · rw [rootLookup_bulk, hanswer] at hbulk
      cases hbulk
  rw [serve, hserved]

/-- What a result of the peer is to a pull that waits for it is right. -/
lemma right_delivered {result : BulkResult E} {pull : Pull P E}
    (h : Brings C engines thrown pull.peer result)
    (hcovered : Covered C engines pull.peer pull.topic) {outcome : PullOutcome E}
    (houtcome : outcome ∈ (delivered C result pull).outcome?) :
    Right C engines thrown pull.peer pull.topic outcome := by
  unfold delivered at houtcome
  split at houtcome
  · next failure =>
      obtain rfl := Option.some.inj houtcome
      cases failure with
      | fetch e => exact h
      | codec => exact h
  · cases houtcome
  · obtain rfl := Option.some.inj houtcome
    rw [serve_of_tells h hcovered]
    rfl

/-- A fetch from a peer can be answered. -/
lemma exists_answers [Inhabited E] (C : Codecs) (isProtocolError : E → Bool)
    (engines : P → Engines) (peer : P) (key : String) :
    ∃ result, Answers C isProtocolError engines peer key result := by
  by_cases hjoined : ∃ contest ∈ (engines peer).entries, contest.2.joined = true
  · exact ⟨.ok (rootLookup C (engines peer) key), hjoined, rfl⟩
  · refine ⟨.error default, fun _ contest hcontest => ?_⟩
    by_contra hne
    exact hjoined ⟨contest, hcontest, by simpa using hne⟩

/-! ### A count of the steps that are left -/

variable {s t : RootPuller P E}

/-- How many steps the puller takes, if nothing more is pulled. -/
def left (s : RootPuller P E) : ℕ :=
  4 * s.batches.entries.length + (s.runs.map fun run => run.phase.left).sum
    + (s.pulls.map fun pull => pull.phase.left).sum

/-- A step of the puller itself: neither a new pull nor the passing of time. -/
def Internal : PullInput P E → Prop
  | .pull _ _ => False
  | .tick _ => False
  | _ => True

lemma left_delivered_le (result : BulkResult E) (pull : Pull P E) :
    (delivered C result pull).left ≤ 1 := by
  unfold delivered
  split
  · exact Nat.zero_le 1
  · exact le_rfl
  · exact Nat.zero_le 1

/-- Pulls that go on to an earlier or the same point leave the count of the rest. -/
lemma left_advance_le {is : List ℕ} {next : Pull P E → PullPhase E}
    (hnext : ∀ i ∈ is, ∀ pull, s.pulls[i]? = some pull → (next pull).left ≤ pull.phase.left) :
    (s.advance is next).left ≤ s.left := by
  have hpulls : ((s.advance is next).pulls.map fun pull => pull.phase.left).sum
      ≤ (s.pulls.map fun pull => pull.phase.left).sum := by
    refine sum_map_mapIdx_le fun i pull hpull => ?_
    split_ifs with hi
    · exact hnext i hi pull hpull
    · exact le_rfl
  exact Nat.add_le_add_left hpulls _

/-- A pull that goes on alone takes its new place in the list. -/
lemma advance_singleton {i : ℕ} {pull : Pull P E} (hpull : s.pulls[i]? = some pull)
    (next : Pull P E → PullPhase E) :
    (s.advance [i] next).pulls = s.pulls.set i { pull with phase := next pull } := by
  refine List.ext_getElem? fun i' => ?_
  rw [getElem?_advance, List.getElem?_set]
  by_cases hi : i = i'
  · subst hi
    rw [hpull, if_pos rfl, if_pos (List.getElem?_eq_some_iff.mp hpull).1]
    simp
  · simp [hi, Ne.symm hi]

lemma left_advance_lt {i : ℕ} {pull : Pull P E} (hpull : s.pulls[i]? = some pull)
    {next : Pull P E → PullPhase E} (hnext : (next pull).left < pull.phase.left) :
    (s.advance [i] next).left < s.left := by
  have hsum := sum_map_set (f := fun pull : Pull P E => pull.phase.left) hpull
    { pull with phase := next pull }
  rw [← advance_singleton hpull next] at hsum
  dsimp only at hsum
  have hsame : (s.advance [i] next).batches = s.batches ∧ (s.advance [i] next).runs = s.runs :=
    ⟨rfl, rfl⟩
  rw [left, left, hsame.1, hsame.2]
  omega

/-- A bulk fetch that goes on. -/
lemma left_lt_of_runs {j : ℕ} {run : BulkRun P E} (hrun : s.runs[j]? = some run)
    {phase : RunPhase E} (hphase : phase.left < run.phase.left)
    (hruns : t.runs = (s.setRun j run phase).runs) (hbatches : t.batches = s.batches)
    (hpulls : t.pulls = s.pulls) : t.left < s.left := by
  have hsum := sum_map_set (f := fun run : BulkRun P E => run.phase.left) hrun
    { run with phase := phase }
  have hset : t.runs = s.runs.set j { run with phase := phase } := hruns
  rw [← hset] at hsum
  dsimp only at hsum
  rw [left, left, hbatches, hpulls]
  omega

end

/-! ### Every step -/

variable {P E : Type} [DecidableEq P] {C : Codecs} {isProtocolError : E → Bool}
  {s t : RootPuller P E}

/-- Every step logs the promises that it settles, none of them again. -/
lemma Logged.step (h : s.Logged) (horder : s.Orderly) {i : PullInput P E}
    (hstep : s.step C isProtocolError i = some t) : t.Logged := by
  cases i with
  | pull peer topic =>
      obtain rfl := Option.some.inj hstep
      rcases pull_cases C peer topic s with ⟨_, records, -, -, hs⟩ | ⟨cached, -, hs⟩
      · rw [hs]
        exact h.addPull _
      · rw [hs]
        rw [enqueue]
        split
        · refine Logged.addPull ?_ _
          exact h.congr rfl rfl
        · refine Logged.addPull ?_ _
          exact h.congr rfl rfl
  | flush peer =>
      obtain ⟨waiters, hget, rfl⟩ := flush_eq_some hstep
      obtain ⟨hnodup, hwaiting⟩ := horder.batches peer waiters hget
      refine Logged.advance ?_ hnodup fun i hi => (hwaiting i hi).open rfl
      exact h.congr rfl rfl
  | answer j result =>
      obtain ⟨run, hrun, hphase, rfl⟩ := step_answer hstep
      obtain ⟨phase, -, ⟨-, -, hpulls, hsettlements⟩, -⟩ :=
        answer_runs C isProtocolError s j run result
      exact h.congr hpulls hsettlements
  | stored j =>
      obtain ⟨run, decoded, hrun, hphase, rfl⟩ := step_stored hstep
      obtain ⟨-, -, -, hpulls, hsettlements⟩ := blocksStored_runs C s j run decoded
      exact h.congr hpulls hsettlements
  | close j =>
      obtain ⟨run, result, hrun, hphase, rfl⟩ := step_close hstep
      have hopen : Opened run := opened_of_phase hphase (Nat.succ_pos 0)
      obtain ⟨hnodup, hwaiting⟩ := horder.runs j run hrun hopen
      refine Logged.advance ?_ hnodup fun i hi => (hwaiting i hi).open rfl
      exact h.congr rfl rfl
  | resume i =>
      obtain ⟨pull, j, run, result, closed, hpull, hphase, -, -, rfl⟩ := step_resume hstep
      refine h.advance (List.nodup_singleton i) fun i' hi' => ?_
      rw [List.mem_singleton.mp hi']
      exact ⟨pull, hpull, by rw [hphase]; rfl⟩
  | fetched i result =>
      obtain ⟨pull, hpull, hphase, rfl⟩ := step_fetched hstep
      obtain ⟨outcome, thrown, hs⟩ := ownFetched_eq s i pull result
      rw [hs]
      refine Logged.advance ?_ (List.nodup_singleton i) fun i' hi' => ?_
      · exact h.congr rfl rfl
      · rw [List.mem_singleton.mp hi']
        exact ⟨pull, hpull, by rw [hphase]; rfl⟩
  | tick ms =>
      obtain rfl := Option.some.inj hstep
      exact h.congr rfl rfl

/-! ### What is kept is what the peers say -/

variable {engines : P → Engines}

lemma Truthful.advance (h : Truthful C engines s) {is : List ℕ} {next : Pull P E → PullPhase E}
    (hnext : ∀ i ∈ is, ∀ pull, s.pulls[i]? = some pull →
      Covered C engines pull.peer pull.topic → ∀ outcome ∈ (next pull).outcome?,
        Right C engines s.thrown pull.peer pull.topic outcome) :
    Truthful C engines (s.advance is next) := by
  refine ⟨h.cached, h.runs, fun pull hpull hcovered outcome houtcome => ?_⟩
  obtain ⟨i, hi⟩ := List.getElem?_of_mem hpull
  rw [getElem?_advance] at hi
  obtain ⟨before, hbefore, hadv⟩ := Option.map_eq_some_iff.mp hi
  split_ifs at hadv with his
  · subst hadv
    exact hnext i his before hbefore hcovered outcome houtcome
  · subst hadv
    exact h.right before (List.mem_of_getElem? hbefore) hcovered outcome houtcome

lemma Truthful.addPull (h : Truthful C engines s) {pull : Pull P E}
    (hright : Covered C engines pull.peer pull.topic → ∀ outcome ∈ pull.phase.outcome?,
      Right C engines s.thrown pull.peer pull.topic outcome) :
    Truthful C engines (s.addPull pull) := by
  refine ⟨h.cached, h.runs, fun pull' hpull' => ?_⟩
  rcases List.mem_append.mp hpull' with hold | hnew
  · exact h.right pull' hold
  · obtain rfl := List.mem_singleton.mp hnew
    exact hright

lemma Truthful.setRun (h : Truthful C engines s) (j : ℕ) {run : BulkRun P E} {phase : RunPhase E}
    (hrun : RunTruthful C engines s.thrown { run with phase := phase }) :
    Truthful C engines (s.setRun j run phase) := by
  refine ⟨h.cached, fun run' hrun' => ?_, h.right⟩
  rcases List.mem_or_eq_of_mem_set hrun' with hold | rfl
  · exact h.runs run' hold
  · exact hrun

lemma Truthful.throw (h : Truthful C engines s) (more : List (P × E)) :
    Truthful C engines { s with thrown := s.thrown ++ more } := by
  have hsub : s.thrown ⊆ s.thrown ++ more := List.subset_append_left _ _
  exact ⟨h.cached, fun run hrun => (h.runs run hrun).mono hsub,
    fun pull hpull hcovered outcome houtcome =>
      (h.right pull hpull hcovered outcome houtcome).mono hsub⟩

lemma Truthful.keep (h : Truthful C engines s) {peer : P} {records : StrippedRecords}
    (hrecords : Tells C engines peer records) : Truthful C engines (s.keep peer records) := by
  have hset : ∀ room : JsMap P (ℕ × StrippedRecords),
      (∀ peer' kept, room.get? peer' = some kept → s.cached.get? peer' = some kept) →
        Truthful C engines { s with cached := room.set peer (s.now, records) } := by
    intro room hroom
    refine ⟨fun peer' takenAt records' hget => ?_, h.runs, h.right⟩
    change (room.set peer (s.now, records)).get? peer' = some (takenAt, records') at hget
    rw [JsMap.get?_set] at hget
    split_ifs at hget with hpeer
    · obtain ⟨-, rfl⟩ := Prod.mk.inj (Option.some.inj hget)
      rw [hpeer]
      exact hrecords
    · exact h.cached peer' takenAt records' (hroom peer' _ hget)
  rw [RootPuller.keep]
  dsimp only
  split_ifs
  · exact hset _ fun _ _ => JsMap.get?_of_dropOldest
  · exact hset _ fun _ _ => id
  · exact h

lemma Truthful.enqueue (h : Truthful C engines s) (peer : P) (topic : String) :
    Truthful C engines (s.enqueue peer topic) := by
  rw [RootPuller.enqueue]
  split
  · exact h.addPull fun _ outcome houtcome => by cases houtcome
  · refine Truthful.addPull ?_ fun _ outcome houtcome => by cases houtcome
    exact ⟨h.cached, h.runs, h.right⟩

/-- The answer of a peer makes a bulk fetch what the peer says. -/
lemma Truthful.answer (h : Truthful C engines s) (j : ℕ) {run : BulkRun P E}
    {result : Except E (Option Bytes)}
    (hanswers : Answers C isProtocolError engines run.peer bulkRootsFetchKey result) :
    Truthful C engines (s.answer C isProtocolError j run result) := by
  unfold RootPuller.answer
  split
  · next e =>
      refine (h.throw [(run.peer, e)]).setRun j ?_
      show Brings C engines (s.thrown ++ [(run.peer, e)]) run.peer _
      split_ifs
      · trivial
      · exact List.mem_append_right _ (List.mem_singleton_self _)
  · exact h.setRun j trivial
  · next bytes =>
      have hbulk : bulkRootsAnswer C (engines run.peer) = some bytes :=
        rootLookup_bulk.symm.trans hanswers.2.symm
      obtain ⟨decoded, hdecoded, -⟩ := decodeBulkRootRecords_encode hbulk
      rw [hdecoded]
      have h' : ∀ stored, Truthful C engines { s with stored := stored } := fun _ =>
        ⟨h.cached, h.runs, h.right⟩
      exact (h' _).setRun j (tells_stripped hbulk hdecoded)

/-- Every step keeps what is kept what the peers say. -/
lemma Truthful.step (h : Truthful C engines s) (horder : s.Orderly) {i : PullInput P E}
    (hok : FromPeers C isProtocolError engines s i)
    (hstep : s.step C isProtocolError i = some t) : Truthful C engines t := by
  cases i with
  | pull peer topic =>
      obtain rfl := Option.some.inj hstep
      rcases pull_cases C peer topic s with
        ⟨takenAt, records, hcached, -, hs⟩ | ⟨cached, hcached, hs⟩
      · rw [hs]
        refine h.addPull fun hcovered outcome houtcome => ?_
        obtain rfl := Option.some.inj houtcome
        rw [serve_of_tells (h.cached peer takenAt records hcached) hcovered]
        rfl
      · have hkept : Truthful C engines { s with cached := cached } := by
          refine ⟨fun peer' takenAt records hget => ?_, h.runs, h.right⟩
          rcases hcached with rfl | rfl
          · exact h.cached peer' takenAt records hget
          · change (s.cached.delete peer).get? peer' = some (takenAt, records) at hget
            rw [JsMap.get?_delete] at hget
            split_ifs at hget
            exact h.cached peer' takenAt records hget
        rw [hs]
        exact hkept.enqueue peer topic
  | flush peer =>
      obtain ⟨waiters, hget, rfl⟩ := flush_eq_some hstep
      refine Truthful.advance ?_ fun i _ pull _ _ outcome houtcome => by cases houtcome
      refine ⟨h.cached, fun run hrun => ?_, h.right⟩
      rcases List.mem_append.mp hrun with hold | hnew
      · exact h.runs run hold
      · obtain rfl := List.mem_singleton.mp hnew
        trivial
  | answer j result =>
      obtain ⟨run, hrun, -, rfl⟩ := step_answer hstep
      exact h.answer j (hok run hrun)
  | stored j =>
      obtain ⟨run, decoded, hrun, hphase, rfl⟩ := step_stored hstep
      have hrecords : Tells C engines run.peer (stripped decoded) := by
        have htruth := h.runs run (List.mem_of_getElem? hrun)
        rwa [RunTruthful, hphase] at htruth
      have hkept := h.keep hrecords
      refine Truthful.setRun ?_ j ?_
      · exact ⟨hkept.cached, hkept.runs, hkept.right⟩
      · exact hrecords
  | close j =>
      obtain ⟨run, result, hrun, hphase, rfl⟩ := step_close hstep
      have hbrings : Brings C engines s.thrown run.peer result := by
        have htruth := h.runs run (List.mem_of_getElem? hrun)
        rwa [RunTruthful, hphase] at htruth
      have hopen : Opened run := opened_of_phase hphase (Nat.succ_pos 0)
      refine Truthful.advance (Truthful.setRun ?_ j ?_)
        fun i hi pull hpull hcovered outcome houtcome => ?_
      · exact ⟨h.cached, h.runs, h.right⟩
      · exact hbrings
      obtain ⟨hpeer, -⟩ := ((horder.runs j run hrun hopen).2 i hi).phase_eq hpull
      rw [← hpeer] at hbrings
      exact right_delivered hbrings hcovered houtcome
  | resume i =>
      obtain ⟨pull, j, run, result, closed, hpull, hphase, hrun, hrphase, rfl⟩ := step_resume hstep
      have hbrings : Brings C engines s.thrown pull.peer result := by
        have htruth := h.runs run (List.mem_of_getElem? hrun)
        have hplaced := horder.pulls i pull hpull
        rw [Placed, hphase] at hplaced
        obtain ⟨run', hrun', hpeer⟩ := hplaced
        obtain rfl := Option.some.inj (hrun.symm.trans hrun')
        rw [RunTruthful, hrphase] at htruth
        rwa [← hpeer]
      refine h.advance fun i' hi' pull' hpull' hcovered outcome houtcome => ?_
      rw [List.mem_singleton.mp hi', hpull] at hpull'
      obtain rfl := Option.some.inj hpull'
      exact right_delivered hbrings hcovered houtcome
  | fetched i result =>
      obtain ⟨pull, hpull, hphase, rfl⟩ := step_fetched hstep
      have hanswers := hok pull hpull
      unfold ownFetched
      split
      · next value =>
          refine h.advance fun i' hi' pull' hpull' _ outcome houtcome => ?_
          rw [List.mem_singleton.mp hi', hpull] at hpull'
          obtain rfl := Option.some.inj hpull'
          obtain rfl := Option.some.inj houtcome
          exact hanswers.2
      · next e =>
          refine (h.throw [(pull.peer, e)]).advance fun i' hi' pull' hpull' _ outcome houtcome => ?_
          change s.pulls[i']? = some pull' at hpull'
          rw [List.mem_singleton.mp hi', hpull] at hpull'
          obtain rfl := Option.some.inj hpull'
          obtain rfl := Option.some.inj houtcome
          exact List.mem_append_right _ (List.mem_singleton_self _)
  | tick ms =>
      obtain rfl := Option.some.inj hstep
      exact ⟨h.cached, h.runs, h.right⟩

/-! ### Every pull settles -/

/-- Every step of the puller itself lowers the count. -/
lemma left_step (horder : s.Orderly) {i : PullInput P E} (hinternal : Internal i)
    (hstep : s.step C isProtocolError i = some t) : t.left < s.left := by
  cases i with
  | pull peer topic => exact hinternal.elim
  | flush peer =>
      obtain ⟨waiters, hget, rfl⟩ := flush_eq_some hstep
      obtain ⟨-, hwaiting⟩ := horder.batches peer waiters hget
      refine (left_advance_le fun i hi pull hpull => ?_).trans_lt ?_
      · obtain ⟨-, hphase⟩ := (hwaiting i hi).phase_eq hpull
        rw [hphase]
        exact le_rfl
      · have hlength : s.batches.entries.length
            = (s.batches.delete peer).entries.length + 1 :=
          (JsMap.perm_delete hget).length_eq
        simp only [left, List.map_append, List.sum_append, List.map_cons, List.map_nil,
          List.sum_cons, List.sum_nil, RunPhase.left, hlength]
        omega
  | answer j result =>
      obtain ⟨run, hrun, hphase, rfl⟩ := step_answer hstep
      obtain ⟨phase, hruns, ⟨hbatches, -, hpulls, -⟩, -, hleft⟩ :=
        answer_runs C isProtocolError s j run result
      refine left_lt_of_runs hrun ?_ hruns hbatches hpulls
      rw [hphase]
      exact hleft
  | stored j =>
      obtain ⟨run, decoded, hrun, hphase, rfl⟩ := step_stored hstep
      obtain ⟨hruns, hbatches, -, hpulls, -⟩ := blocksStored_runs C s j run decoded
      refine left_lt_of_runs hrun ?_ hruns hbatches hpulls
      rw [hphase]
      exact Nat.lt_succ_self 1
  | close j =>
      obtain ⟨run, result, hrun, hphase, rfl⟩ := step_close hstep
      have hopen : Opened run := opened_of_phase hphase (Nat.succ_pos 0)
      obtain ⟨-, hwaiting⟩ := horder.runs j run hrun hopen
      refine (left_advance_le fun i hi pull hpull => ?_).trans_lt
        (left_lt_of_runs hrun (?_ : (RunPhase.settled result true).left < _) rfl rfl rfl)
      · obtain ⟨-, hsent⟩ := (hwaiting i hi).phase_eq hpull
        rw [hsent]
        exact (left_delivered_le result pull).trans (Nat.le_succ 1)
      · rw [hphase]
        exact Nat.succ_pos 0
  | resume i =>
      obtain ⟨pull, j, run, result, closed, hpull, hphase, -, -, rfl⟩ := step_resume hstep
      refine left_advance_lt hpull ?_
      rw [hphase]
      exact (left_delivered_le result pull).trans_lt (Nat.lt_succ_self 1)
  | fetched i result =>
      obtain ⟨pull, hpull, hphase, rfl⟩ := step_fetched hstep
      obtain ⟨outcome, thrown, hs⟩ := ownFetched_eq s i pull result
      rw [hs]
      refine left_advance_lt (s := { s with thrown := thrown }) hpull ?_
      rw [hphase]
      exact Nat.succ_pos 0
  | tick ms => exact hinternal.elim

/-- A bulk fetch whose batch was not served can go on. -/
lemma exists_step_of_open [Inhabited E] {j : ℕ} {run : BulkRun P E} (hrun : s.runs[j]? = some run)
    (hopen : Opened run) : ∃ i, Internal i ∧ FromPeers C isProtocolError engines s i ∧
      (s.step C isProtocolError i).isSome = true := by
  cases hphase : run.phase with
  | fetching =>
      obtain ⟨result, hanswers⟩ := exists_answers C isProtocolError engines run.peer
        bulkRootsFetchKey
      refine ⟨.answer j result, trivial, fun run' hrun' => ?_, ?_⟩
      · obtain rfl := Option.some.inj (hrun.symm.trans hrun')
        exact hanswers
      · simp [RootPuller.step, hrun, hphase]
  | storing decoded => exact ⟨.stored j, trivial, trivial, by simp [RootPuller.step, hrun, hphase]⟩
  | settled result closed =>
      cases closed with
      | false => exact ⟨.close j, trivial, trivial, by simp [RootPuller.step, hrun, hphase]⟩
      | true =>
          rw [Opened, hphase] at hopen
          exact absurd hopen (lt_irrefl 0)

/-- A pull that has not settled can go on, or what it waits for can. -/
lemma exists_step [Inhabited E] (horder : s.Orderly) {i : ℕ} {pull : Pull P E}
    (hpull : s.pulls[i]? = some pull) (hopen : pull.phase.outcome? = none) :
    ∃ i, Internal i ∧ FromPeers C isProtocolError engines s i ∧
      (s.step C isProtocolError i).isSome = true := by
  have hplaced := horder.pulls i pull hpull
  cases hphase : pull.phase with
  | batched =>
      rw [Placed, hphase] at hplaced
      obtain ⟨waiters, hget, -⟩ := hplaced
      exact ⟨.flush pull.peer, trivial, trivial, by simp [RootPuller.step, RootPuller.flush, hget]⟩
  | sent j =>
      rw [Placed, hphase] at hplaced
      obtain ⟨run, hrun, hrunOpen, -⟩ := hplaced
      exact exists_step_of_open hrun hrunOpen
  | joining j =>
      rw [Placed, hphase] at hplaced
      obtain ⟨run, hrun, -⟩ := hplaced
      by_cases hrunOpen : Opened run
      · exact exists_step_of_open hrun hrunOpen
      · cases hrphase : run.phase with
        | fetching =>
            rw [Opened, hrphase] at hrunOpen
            exact absurd (Nat.succ_pos 2) hrunOpen
        | storing decoded =>
            rw [Opened, hrphase] at hrunOpen
            exact absurd (Nat.succ_pos 1) hrunOpen
        | settled result closed =>
            exact ⟨.resume i, trivial, trivial, by
              simp [RootPuller.step, hpull, hphase, hrun, hrphase]⟩
  | fetching =>
      obtain ⟨result, hanswers⟩ := exists_answers C isProtocolError engines pull.peer
        (rootFetchKey pull.topic)
      refine ⟨.fetched i result, trivial, fun pull' hpull' => ?_, ?_⟩
      · obtain rfl := Option.some.inj (hpull.symm.trans hpull')
        exact hanswers
      · simp [RootPuller.step, hpull, hphase]
  | settled outcome =>
      rw [hphase] at hopen
      cases hopen

/-! ### Runs -/

lemma orderly_start : (start : RootPuller P E).Orderly where
  batches := fun _ _ h => by cases h
  runs := fun _ _ h => by cases h
  inflight := fun _ _ h => by cases h
  pulls := fun _ _ h => by cases h

omit [DecidableEq P] in
lemma logged_start : (start : RootPuller P E).Logged where
  mem_iff := fun _ _ => ⟨(fun h => by cases h), (fun ⟨_, h, _⟩ => by cases h)⟩
  nodup := List.nodup_nil

lemma truthful_start : Truthful C engines (start : RootPuller P E) where
  cached := fun _ _ _ h => by cases h
  runs := fun _ h => by cases h
  right := fun _ h => by cases h

/-- **Pulling through bulk answers is fetching each record**: in every run against peers whose
contests and records do not change, a covered pull that has settled has the answer that a fetch of
its own would bring, or the error that a fetch from its peer threw; the promise of every pull
settles once; a pull that has not settled can go on, and the puller does not go on for ever. -/
theorem rootPuller_transparent [Inhabited E]
    (h : Reaches (step C isProtocolError) (FromPeers C isProtocolError engines) start t) :
    (∀ pull ∈ t.pulls, Covered C engines pull.peer pull.topic →
      ∀ outcome, pull.phase = .settled outcome →
        Right C engines t.thrown pull.peer pull.topic outcome) ∧
    ((t.settlements.map Prod.fst).Nodup ∧ ∀ i outcome, (i, outcome) ∈ t.settlements ↔
      ∃ pull, t.pulls[i]? = some pull ∧ pull.phase.outcome? = some outcome) ∧
    (∀ (i : ℕ) pull, t.pulls[i]? = some pull → pull.phase.outcome? = none →
      ∃ i, Internal i ∧ FromPeers C isProtocolError engines t i ∧
        (t.step C isProtocolError i).isSome = true) ∧
    ∀ i u, Internal i → t.step C isProtocolError i = some u → u.left < t.left := by
  obtain ⟨horder, hlog, htruth⟩ : t.Orderly ∧ t.Logged ∧ Truthful C engines t :=
    h.invariant (P := fun t => t.Orderly ∧ t.Logged ∧ Truthful C engines t)
      ⟨orderly_start, logged_start, truthful_start⟩ fun s i u hs hok hstep =>
        ⟨hs.1.step hstep, hs.2.1.step hs.1 hstep, hs.2.2.step hs.1 hok hstep⟩
  refine ⟨fun pull hpull hcovered outcome hphase => ?_, ⟨hlog.nodup, hlog.mem_iff⟩,
    (fun i pull hpull hopen => exists_step horder hpull hopen),
    (fun i u hinternal hstep => left_step horder hinternal hstep)⟩
  refine htruth.right pull hpull hcovered outcome ?_
  rw [hphase]
  rfl

/-! ### One pull -/

/-- A single pull, up to the bulk answer it is served from. -/
lemma reaches_pulled (isProtocolError : E → Bool) (engines : P → Engines) (peer : P)
    (topic : String) {bytes : Bytes}
    (hjoined : ∃ contest ∈ (engines peer).entries, contest.2.joined = true)
    (hanswer : bulkRootsAnswer C (engines peer) = some bytes) :
    ∃ t records, Reaches (step C isProtocolError) (FromPeers C isProtocolError engines) start t ∧
      Tells C engines peer records ∧
      t.pulls = [⟨peer, topic, .settled (serve C records topic)⟩] := by
  obtain ⟨decoded, hdecoded, -⟩ := decodeBulkRootRecords_encode hanswer
  obtain ⟨s₁, hs₁, hbatch, hpulls₁, hruns₁⟩ : ∃ s₁ : RootPuller P E,
      start.step C isProtocolError (.pull peer topic) = some s₁ ∧
        s₁.batches.get? peer = some [0] ∧ s₁.pulls = [⟨peer, topic, .batched⟩] ∧ s₁.runs = [] :=
    ⟨_, rfl, (JsMap.get?_set _ _ _ _).trans (if_pos rfl), rfl, rfl⟩
  obtain ⟨s₂, hs₂, hpulls₂, hruns₂⟩ : ∃ s₂ : RootPuller P E,
      s₁.step C isProtocolError (.flush peer) = some s₂ ∧
        s₂.pulls = [⟨peer, topic, .sent 0⟩] ∧ s₂.runs = [⟨peer, [0], .fetching⟩] := by
    refine ⟨_, by rw [RootPuller.step, RootPuller.flush, hbatch], ?_, ?_⟩
    · simp [RootPuller.advance, hpulls₁, hruns₁]
    · simp [RootPuller.advance, hruns₁]
  obtain ⟨s₃, hs₃, hpulls₃, hruns₃⟩ : ∃ s₃ : RootPuller P E,
      s₂.step C isProtocolError (.answer 0 (.ok (some bytes))) = some s₃ ∧
        s₃.pulls = s₂.pulls ∧ s₃.runs = [⟨peer, [0], .storing decoded⟩] := by
    refine ⟨_, by simp only [RootPuller.step, hruns₂, List.getElem?_cons_zero]; rfl, ?_, ?_⟩
    · simp [RootPuller.answer, hdecoded, RootPuller.setRun]
    · simp [RootPuller.answer, hdecoded, RootPuller.setRun, hruns₂]
  obtain ⟨s₄, hs₄, hpulls₄, hruns₄⟩ : ∃ s₄ : RootPuller P E,
      s₃.step C isProtocolError (.stored 0) = some s₄ ∧ s₄.pulls = s₃.pulls ∧
        s₄.runs = [⟨peer, [0], .settled (.ok (some (stripped decoded))) false⟩] := by
    refine ⟨_, by simp only [RootPuller.step, hruns₃, List.getElem?_cons_zero]; rfl, ?_, ?_⟩
    · exact (blocksStored_runs C s₃ 0 _ decoded).2.2.2.1
    · rw [(blocksStored_runs C s₃ 0 _ decoded).1, RootPuller.setRun, hruns₃]
      rfl
  obtain ⟨s₅, hs₅, hpulls₅⟩ : ∃ s₅ : RootPuller P E,
      s₄.step C isProtocolError (.close 0) = some s₅ ∧
        s₅.pulls = [⟨peer, topic, .settled (serve C (stripped decoded) topic)⟩] := by
    refine ⟨_, by simp only [RootPuller.step, hruns₄, List.getElem?_cons_zero]; rfl, ?_⟩
    simp [RootPuller.close, RootPuller.advance, RootPuller.setRun, hpulls₄, hpulls₃, hpulls₂,
      delivered]
  refine ⟨s₅, stripped decoded, ?_, tells_stripped hanswer hdecoded, hpulls₅⟩
  have hfetched : FromPeers C isProtocolError engines s₂ (.answer 0 (.ok (some bytes))) := by
    intro run hrun
    rw [hruns₂] at hrun
    obtain rfl := Option.some.inj hrun
    exact ⟨hjoined, hanswer.symm.trans rootLookup_bulk.symm⟩
  have hsent : Reaches (step C isProtocolError) (FromPeers C isProtocolError engines) start s₂ :=
    (Reaches.refl.tail (i := .pull peer topic) trivial hs₁).tail (i := .flush peer) trivial hs₂
  have hanswered := hsent.tail hfetched hs₃
  have hstored := hanswered.tail (i := PullInput.stored 0) trivial hs₄
  exact hstored.tail (i := PullInput.close 0) trivial hs₅

end RootPuller

/-! ### A directory past the cap -/

section

/-- The record of a contest that nobody has voted in. -/
def emptyRecord : FetchRootRecord := ⟨⟨1, [1, 0x71, 0x12, 0x20] ++ List.replicate 32 0, 0, 0⟩, []⟩

/-- A joined contest with that record. -/
def emptyContest : ServedContest := ⟨true, some (emptyRecord, [])⟩

/-- The topic of a contest in a directory. -/
def listedTopic (n : ℕ) : String := topicPrefix ++ String.ofList (List.replicate n 'a')

lemma length_listedTopic (n : ℕ) : (listedTopic n).toList.length = 16 + n := by
  rw [listedTopic, String.toList_append, List.length_append, String.toList_ofList,
    List.length_replicate]
  rfl

lemma listedTopic_injective : Function.Injective listedTopic := by
  intro m n h
  have hlength := congrArg (fun s => s.toList.length) h
  simp only [length_listedTopic] at hlength
  omega

/-- A peer with so many joined contests. -/
def directory (size : ℕ) : Engines where
  entries := (List.range size).map fun n => (listedTopic n, emptyContest)
  nodup := by
    rw [List.map_map]
    exact List.nodup_range.map listedTopic_injective

lemma bulkContests_directory (size : ℕ) :
    bulkContests (directory size) = (List.range (min bulkRootsMaxRecords size)).map fun n =>
      (listedTopic n, emptyContest) := by
  have hall : ((directory size).entries.filter fun e => e.2.joined) = (directory size).entries := by
    refine List.filter_eq_self.mpr fun e he => ?_
    obtain ⟨n, -, rfl⟩ := List.mem_map.mp he
    rfl
  rw [bulkContests, hall, directory, ← List.map_take, List.take_range]

lemma rootAnswer_directory {size n : ℕ} (hn : n < size) :
    ∃ bytes, rootAnswer .reference (directory size) (listedTopic n) = some bytes := by
  have hget : (directory size).get? (listedTopic n) = some emptyContest :=
    JsMap.get?_eq_some_iff.mpr (List.mem_map.mpr ⟨n, List.mem_range.mpr hn, rfl⟩)
  have hencoded : (encodeRootRecord .reference emptyRecord).isSome = true := by
    rw [encodeRootRecord, if_pos (by decide)]
    exact Codecs.reference.encode_isSome _ (by decide)
  obtain ⟨bytes, hbytes⟩ := Option.isSome_iff_exists.mp hencoded
  refine ⟨bytes, ?_⟩
  rw [rootAnswer, hget]
  exact hbytes

lemma bulkRootsAnswer_directory (size : ℕ) :
    ∃ bytes, bulkRootsAnswer .reference (directory size) = some bytes := by
  have hentries : ∀ e ∈ (bulkRecords (directory size)).entries,
      (∃ n < bulkRootsMaxRecords, e.1 = listedTopic n) ∧
        (e.2 = ⟨emptyRecord, none⟩ ∨ e.2 = ⟨emptyRecord, some []⟩) := by
    intro e he
    obtain ⟨contest, record, blocks, hmem, hrecord, hentry⟩ := mem_bulkRecords he
    rw [bulkContests_directory] at hmem
    obtain ⟨n, hn, heq⟩ := List.mem_map.mp hmem
    obtain ⟨htopic, rfl⟩ := Prod.mk.inj heq
    obtain ⟨rfl, rfl⟩ := Prod.mk.inj (Option.some.inj hrecord)
    exact ⟨⟨n, (List.mem_range.mp hn).trans_le (min_le_left _ _), htopic.symm⟩, hentry⟩
  have hschema : ((bulkRecords (directory size)).entries.all fun e =>
      fetchRootRecordSchema e.2.toFetchRootRecord) = true := by
    refine List.all_eq_true.mpr fun e he => ?_
    rcases (hentries e he).2 with hentry | hentry <;> rw [hentry] <;> decide
  have hlength : (bulkRecords (directory size)).entries.length ≤ bulkRootsMaxRecords := by
    have hsub : (bulkRecords (directory size)).entries.map Prod.fst ⊆
        (List.range bulkRootsMaxRecords).map listedTopic := by
      intro topic htopic
      obtain ⟨e, he, rfl⟩ := List.mem_map.mp htopic
      obtain ⟨n, hn, hkey⟩ := (hentries e he).1
      exact List.mem_map.mpr ⟨n, List.mem_range.mpr hn, hkey.symm⟩
    have hle := ((bulkRecords (directory size)).nodup.subperm hsub).length_le
    rwa [List.length_map, List.length_map, List.length_range] at hle
  rw [bulkRootsAnswer, encodeBulkRootRecords, if_pos hschema, ← Option.isSome_iff_exists]
  refine Codecs.reference.encode_isSome _ (encodable_map_iff.mpr ⟨?_, ?_, fun e he => ?_⟩)
  · rw [List.length_map]
    exact hlength.trans_lt (by decide)
  · rw [List.map_map]
    exact (bulkRecords (directory size)).nodup
  · obtain ⟨e', he', rfl⟩ := List.mem_map.mp he
    obtain ⟨⟨n, hn, hkey⟩, hentry⟩ := hentries e' he'
    constructor
    · have hutf8 : (utf8 (listedTopic n)).length = 16 + n := by
        rw [length_utf8, listedTopic, String.toList_append, String.toList_ofList, List.map_append,
          List.sum_append, List.map_replicate, List.sum_replicate]
        have hlead : (topicPrefix.toList.map Char.utf8Size).sum = 16 := by decide
        have hletter : Char.utf8Size 'a' = 1 := by decide
        rw [hlead, hletter, smul_eq_mul, mul_one]
      have hsmall : n < 512 := hn
      rw [hkey, hutf8]
      omega
    · show e'.2.toValue.encodable = true
      rcases hentry with hentry | hentry <;> rw [hentry] <;> decide

lemma exists_joined_directory {size n : ℕ} (hn : n < size) :
    ∃ contest ∈ (directory size).entries, contest.2.joined = true :=
  ⟨_, List.mem_map.mpr ⟨n, List.mem_range.mpr hn, rfl⟩, rfl⟩

open RootPuller

/-- A pull of the only contest of a peer. -/
theorem rootPuller_transparent_one : ∃ (t : RootPuller Unit Unit) (bytes : Bytes),
    Reaches (step .reference fun _ => false)
      (FromPeers .reference (fun _ => false) fun _ => directory 1) start t ∧
    t.pulls = [⟨(), listedTopic 0, .settled (.resolved (some bytes))⟩] ∧
    (∀ pull ∈ t.pulls, Covered .reference (fun _ => directory 1) pull.peer pull.topic →
      ∀ outcome, pull.phase = .settled outcome →
        Right .reference (fun _ => directory 1) t.thrown pull.peer pull.topic outcome) ∧
    ((t.settlements.map Prod.fst).Nodup ∧ ∀ i outcome, (i, outcome) ∈ t.settlements ↔
      ∃ pull, t.pulls[i]? = some pull ∧ pull.phase.outcome? = some outcome) ∧
    (∀ (i : ℕ) pull, t.pulls[i]? = some pull → pull.phase.outcome? = none →
      ∃ i, Internal i ∧ FromPeers .reference (fun _ => false) (fun _ => directory 1) t i ∧
        (t.step .reference (fun _ => false) i).isSome = true) ∧
    ∀ i u, Internal i → t.step .reference (fun _ => false) i = some u → u.left < t.left := by
  obtain ⟨answer, hanswer⟩ := bulkRootsAnswer_directory 1
  obtain ⟨bytes, hbytes⟩ := rootAnswer_directory Nat.zero_lt_one
  obtain ⟨t, records, hreach, htells, hpulls⟩ := reaches_pulled (P := Unit) (E := Unit)
    (fun _ => false) (fun _ => directory 1) () (listedTopic 0)
    (exists_joined_directory Nat.zero_lt_one) hanswer
  have hcovered : Covered .reference (fun _ : Unit => directory 1) () (listedTopic 0) := by
    refine .inr (.inl ?_)
    rw [bulkContests_directory]
    exact List.mem_map.mpr ⟨_, List.mem_map.mpr ⟨0, List.mem_range.mpr (by decide), rfl⟩, rfl⟩
  refine ⟨t, bytes, hreach, ?_, rootPuller_transparent hreach⟩
  rw [hpulls, serve_of_tells htells hcovered, rootLookup_topic, hbytes]

/-- One contest more than a bulk answer holds: the last one serves a record, and a pull of it is
answered that there is none. -/
theorem rootPuller_capped : ¬ ∀ t : RootPuller Unit Unit,
    Reaches (step .reference fun _ => false)
      (FromPeers .reference (fun _ => false) fun _ => directory (bulkRootsMaxRecords + 1)) start t →
    ∀ pull ∈ t.pulls, ∀ outcome, pull.phase = .settled outcome →
      Right .reference (fun _ => directory (bulkRootsMaxRecords + 1)) t.thrown pull.peer pull.topic
        outcome := by
  intro hall
  have hlast : bulkRootsMaxRecords < bulkRootsMaxRecords + 1 := Nat.lt_succ_self _
  obtain ⟨answer, hanswer⟩ := bulkRootsAnswer_directory (bulkRootsMaxRecords + 1)
  obtain ⟨bytes, hbytes⟩ := rootAnswer_directory hlast
  obtain ⟨t, records, hreach, ⟨-, -, hget⟩, hpulls⟩ := reaches_pulled (P := Unit) (E := Unit)
    (fun _ => false) (fun _ => directory (bulkRootsMaxRecords + 1)) ()
    (listedTopic bulkRootsMaxRecords) (exists_joined_directory hlast) hanswer
  have hnone : records.get? (listedTopic bulkRootsMaxRecords) = none := by
    have hlookup : (bulkContests (directory (bulkRootsMaxRecords + 1))).lookup
        (listedTopic bulkRootsMaxRecords) = none := by
      rw [bulkContests_directory, min_eq_left hlast.le]
      refine List.lookup_eq_none_iff.mpr fun e he => bne_iff_ne.mpr fun htopic => ?_
      obtain ⟨n, hn, rfl⟩ := List.mem_map.mp he
      exact (List.mem_range.mp hn).ne (listedTopic_injective htopic).symm
    rw [hget, bulkRecords_get?, hlookup]
    rfl
  have hright := hall t hreach _ (hpulls ▸ List.mem_singleton_self _) _ rfl
  rw [serve, hnone] at hright
  have hlookup : none = rootAnswer .reference (directory (bulkRootsMaxRecords + 1))
      (listedTopic bulkRootsMaxRecords) := hright.trans rootLookup_topic
  rw [hbytes] at hlookup
  cases hlookup

end

end PubsubVoting
