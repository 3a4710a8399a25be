import PubsubVoting.Transport.RootChaser

/-!
The session of a chase and the providers it is handed, in every run of a chaser.

* `ChaseFlight.Keeps`, `ChaseFlight.Decodes`: what a run, and a decode, leave alone of their flight.
* `ChaseFlight.Seeded`: the providers that were hinted at, and those among them the session was
  handed.
* `rootChaser_sessions`: a session is opened with a provider, handed every provider once, asked for
  nothing once it failed, was closed or the deadline came, and closed exactly when its run ends.
-/

namespace PubsubVoting

open Cbor JsString

namespace ChaseFlight

open ChaseEvent

variable {C : Codecs} {f : ChaseFlight}

/-! ### The providers of a session -/

/-- What the run of a flight leaves alone once its session is opened. -/
structure Keeps (f g : ChaseFlight) : Prop where
  root : g.root = f.root
  seeded : g.seeded = f.seeded
  queued : g.queued = f.queued
  session : g.session = f.session
  started : g.started = f.started
  handed : g.handed = f.handed

/-- The run has winners left. -/
def Walking (f : ChaseFlight) : Prop := ∃ b rest s, f.run = .walking (b :: rest) s

/-- What a decode that goes on does to its flight: all it may change of the run is to end the race
against the deadline. -/
structure Decodes (f g : ChaseFlight) : Prop extends Keeps f g where
  aborted : g.aborted = f.aborted
  knownChunks : g.knownChunks = f.knownChunks
  seams : g.seams = f.seams
  expired : g.expired = f.expired
  fetched : ∀ w ∈ f.fetches, w.status.done?.isSome → w ∈ g.fetches
  run : g.run = f.run ∨ f.run = .racing ∧ (g.Ended ∨ g.Walking)

lemma Keeps.trans {g k : ChaseFlight} (h : f.Keeps g) (h' : g.Keeps k) : f.Keeps k :=
  ⟨h'.1.trans h.1, h'.2.trans h.2, h'.3.trans h.3, h'.4.trans h.4, h'.5.trans h.5, h'.6.trans h.6⟩

lemma Decodes.refl (f : ChaseFlight) : f.Decodes f :=
  ⟨⟨rfl, rfl, rfl, rfl, rfl, rfl⟩, rfl, rfl, rfl, rfl, fun _ hw _ => hw, .inl rfl⟩

lemma Decodes.trans {g k : ChaseFlight} (h : f.Decodes g) (h' : g.Decodes k) : f.Decodes k := by
  refine ⟨h.toKeeps.trans h'.toKeeps, h'.aborted.trans h.aborted,
    h'.knownChunks.trans h.knownChunks, h'.seams.trans h.seams, h'.expired.trans h.expired,
    fun w hw hdone => h'.fetched w (h.fetched w hw hdone) hdone, ?_⟩
  rcases h.run with hrun | ⟨hrun, hg⟩
  · rw [← hrun]
    exact h'.run
  · refine .inr ⟨hrun, ?_⟩
    rcases h'.run with hrun' | ⟨hrun', -⟩
    · rcases hg with ⟨o, ho⟩ | ⟨b, rest, s, hs⟩
      · exact .inl ⟨o, hrun'.trans ho⟩
      · exact .inr ⟨b, rest, s, hrun'.trans hs⟩
    · rcases hg with ⟨o, ho⟩ | ⟨b, rest, s, hs⟩
      · exact absurd (ho.symm.trans hrun') (by simp)
      · exact absurd (hs.symm.trans hrun') (by simp)

lemma handed_append (log es : List ChaseEvent) (hes : es.flatMap providers = []) :
    (log ++ es).flatMap providers = log.flatMap providers := by
  rw [List.flatMap_append, hes, List.append_nil]

lemma keeps_finish (f : ChaseFlight) (outcome : ChaseOutcome) : f.Keeps (f.finish outcome) := by
  refine ⟨rfl, rfl, rfl, rfl, rfl, ?_⟩
  show (if f.session then f.log ++ [.closed] else f.log).flatMap providers = _
  split_ifs
  · exact handed_append _ _ rfl
  · rfl

lemma keeps_walkOn (f : ChaseFlight) (rest : List VotesBundle) (s : ChaseState) :
    f.Keeps (f.walkOn rest s) := by
  cases rest with
  | nil => exact keeps_finish f _
  | cons b rest => exact ⟨rfl, rfl, rfl, rfl, rfl, rfl⟩

lemma ended_or_walking_walkOn (f : ChaseFlight) (rest : List VotesBundle) (s : ChaseState) :
    (f.walkOn rest s).Ended ∨ (f.walkOn rest s).Walking := by
  cases rest with
  | nil => exact .inl ⟨_, rfl⟩
  | cons b rest => exact .inr ⟨b, rest, s, rfl⟩

lemma decodes_fetchBlock (f : ChaseFlight) (cid : Cid) : f.Decodes (f.fetchBlock cid) := by
  rw [ChaseFlight.fetchBlock]
  split_ifs
  · exact ⟨⟨rfl, rfl, rfl, rfl, rfl, rfl⟩, rfl, rfl, rfl, rfl,
      fun _ hw _ => List.mem_append_left _ hw, .inl rfl⟩
  · exact ⟨⟨rfl, rfl, rfl, rfl, rfl, handed_append _ _ rfl⟩, rfl, rfl, rfl, rfl,
      fun _ hw _ => List.mem_append_left _ hw, .inl rfl⟩
  · exact ⟨⟨rfl, rfl, rfl, rfl, rfl, handed_append _ _ rfl⟩, rfl, rfl, rfl, rfl,
      fun _ hw _ => List.mem_append_left _ hw, .inl rfl⟩

lemma decodes_fetchBlocks (f : ChaseFlight) (cids : List Cid) :
    f.Decodes (cids.foldl ChaseFlight.fetchBlock f) := by
  induction cids generalizing f with
  | nil => exact .refl f
  | cons cid cids ih => exact (decodes_fetchBlock f cid).trans (ih _)

lemma decodes_setDecode (f : ChaseFlight) (decode : ChaseDecode) :
    f.Decodes { f with decode := decode } :=
  ⟨⟨rfl, rfl, rfl, rfl, rfl, rfl⟩, rfl, rfl, rfl, rfl, fun _ hw _ => hw, .inl rfl⟩

lemma decodes_decoded (f : ChaseFlight) (winners : Option (List VotesBundle)) :
    f.Decodes (f.decoded winners) := by
  have hsettle := decodes_setDecode f .settled
  unfold ChaseFlight.decoded
  split
  next hrun =>
    exact hsettle.trans ⟨keeps_finish _ _, rfl, rfl, rfl, rfl, fun _ hw _ => hw,
      .inr ⟨hrun, .inl ⟨_, rfl⟩⟩⟩
  next winners hrun =>
    refine hsettle.trans ?_
    cases winners with
    | nil =>
        exact ⟨keeps_finish _ _, rfl, rfl, rfl, rfl, fun _ hw _ => hw, .inr ⟨hrun, .inl ⟨_, rfl⟩⟩⟩
    | cons b rest =>
        exact ⟨keeps_walkOn _ _ _, rfl, rfl, rfl, rfl, fun _ hw _ => hw,
          .inr ⟨hrun, .inr ⟨b, rest, _, rfl⟩⟩⟩
  next => exact hsettle

lemma decodes_settleChunks (f : ChaseFlight) (base : ℕ) : f.Decodes (f.settleChunks C base) := by
  unfold ChaseFlight.settleChunks
  dsimp only
  split_ifs
  · exact decodes_decoded f _
  · split
    · exact .refl f
    · exact decodes_decoded f _

lemma decodes_fetchChunks (f : ChaseFlight) (cids : List Cid) : f.Decodes (f.fetchChunks C cids) :=
  ((decodes_setDecode f _).trans (decodes_fetchBlocks _ cids)).trans (decodes_settleChunks _ _)

lemma decodes_manifestFetched (f : ChaseFlight) (bytes : Option Bytes) :
    f.Decodes (f.manifestFetched C bytes) := by
  rw [ChaseFlight.manifestFetched]
  split
  · exact decodes_decoded f _
  · exact decodes_fetchChunks f _

lemma decodes_fetchManifest (f : ChaseFlight) : f.Decodes (f.fetchManifest C) := by
  have hwanted := (decodes_setDecode f .manifest).trans (decodes_fetchBlock _ f.root)
  rw [ChaseFlight.fetchManifest]
  split_ifs
  · exact hwanted.trans (decodes_manifestFetched _ none)
  · exact hwanted

/-- A want that has not come back is replaced. -/
lemma mem_set_of_done {ws : List Fetch} {k : ℕ} {w w' new : Fetch} (hk : ws[k]? = some w)
    (hpending : w.status.done? = none) (hw' : w' ∈ ws) (hdone : w'.status.done?.isSome) :
    w' ∈ ws.set k new := by
  obtain ⟨i, hi⟩ := List.getElem?_of_mem hw'
  refine List.mem_of_getElem? (i := i) ?_
  rw [List.getElem?_set_ne]
  · exact hi
  · rintro rfl
    obtain rfl := Option.some.inj (hk.symm.trans hi)
    simp [hpending] at hdone

lemma decodes_fetched (f : ChaseFlight) {k : ℕ} {w : Fetch} (hk : f.fetches[k]? = some w)
    (hpending : w.status.done? = none) (cid : Cid) (bytes : Option Bytes) :
    f.Decodes (f.fetched C k cid bytes) := by
  have hset : f.Decodes { f with fetches := f.fetches.set k ⟨cid, .done bytes⟩ } :=
    ⟨⟨rfl, rfl, rfl, rfl, rfl, rfl⟩, rfl, rfl, rfl, rfl,
      fun _ hw hdone => mem_set_of_done hk hpending hw hdone, .inl rfl⟩
  refine hset.trans ?_
  rw [ChaseFlight.fetched, ChaseFlight.decodeOn]
  split
  · exact decodes_manifestFetched _ bytes
  · exact decodes_settleChunks _ _
  · exact .refl _

lemma decodes_answered {k : ℕ} {bytes : Option Bytes} {g : ChaseFlight}
    (hstep : f.answered C k bytes = some g) : f.Decodes g := by
  rw [ChaseFlight.answered] at hstep
  split at hstep
  next cid hk =>
    split at hstep
    · obtain rfl := Option.some.inj hstep
      exact decodes_fetched f hk rfl _ _
    · obtain rfl := Option.some.inj hstep
      have hmissed : f.Decodes { f with
          sessionDead := true, log := f.log ++ [ChaseEvent.missed cid] } :=
        ⟨⟨rfl, rfl, rfl, rfl, rfl, handed_append _ _ rfl⟩, rfl, rfl, rfl, rfl, fun _ hw _ => hw,
          .inl rfl⟩
      rw [ChaseFlight.sessionMissed]
      split_ifs
      · refine hmissed.trans (decodes_fetched _ (w := ⟨cid, .session⟩) ?_ rfl cid none)
        exact hk
      · exact hmissed.trans ⟨⟨rfl, rfl, rfl, rfl, rfl, handed_append _ _ rfl⟩, rfl, rfl, rfl, rfl,
          fun _ hw hdone => mem_set_of_done hk rfl hw hdone, .inl rfl⟩
  next cid hk =>
    obtain rfl := Option.some.inj hstep
    exact decodes_fetched f hk rfl _ _
  next => cases hstep

lemma decodes_derived {g : ChaseFlight} (hstep : f.derived C = some g) : f.Decodes g := by
  rw [ChaseFlight.derived] at hstep
  split at hstep
  · split_ifs at hstep
    · obtain rfl := Option.some.inj hstep
      exact decodes_fetchChunks f _
    · obtain rfl := Option.some.inj hstep
      exact decodes_fetchManifest f
  · cases hstep

lemma keeps_walked {a : SeamAnswers} {g : ChaseFlight} (hstep : f.walked C a = some g) :
    f.Keeps g := by
  rw [ChaseFlight.walked] at hstep
  split at hstep
  next =>
    have hseams : f.Keeps { f with seams := f.seams ++ [{ a with aborted := f.aborted }] } :=
      ⟨rfl, rfl, rfl, rfl, rfl, rfl⟩
    dsimp only at hstep
    split at hstep
    · obtain rfl := Option.some.inj hstep
      exact hseams.trans (keeps_walkOn _ _ _)
    · obtain rfl := Option.some.inj hstep
      exact hseams.trans (keeps_finish _ _)
    · obtain rfl := Option.some.inj hstep
      exact hseams.trans (keeps_finish _ _)
  next => cases hstep

lemma keeps_expire {g : ChaseFlight} (hstep : f.expire = some g) : f.Keeps g := by
  rw [ChaseFlight.expire] at hstep
  split_ifs at hstep
  have habort : ∀ expired, f.Keeps { f with
      aborted := true, log := f.log ++ [.aborted], expired := expired } :=
    fun _ => ⟨rfl, rfl, rfl, rfl, rfl, handed_append _ _ rfl⟩
  dsimp only at hstep
  split at hstep
  · obtain rfl := Option.some.inj hstep
    exact (habort true).trans (keeps_finish _ _)
  · obtain rfl := Option.some.inj hstep
    exact habort f.expired
  · cases hstep

/-- The providers that were hinted at, and those among them the session was handed. -/
structure Seeded (f : ChaseFlight) : Prop where
  waiting : f.started = false → f.session = false ∧ f.handed = []
  once : (f.queued ++ f.handed).Nodup
  known : ∀ p ∈ f.queued ++ f.handed, p ∈ f.seeded
  waits : f.started = false → ∀ p ∈ f.seeded, p ∈ f.queued
  all : f.session = true → ∀ p ∈ f.seeded, p ∈ f.handed

lemma Seeded.of_keeps {g : ChaseFlight} (h : f.Seeded) (hkeeps : f.Keeps g) : g.Seeded := by
  obtain ⟨-, hseeded, hqueued, hsession, hstarted, hhanded⟩ := hkeeps
  obtain ⟨h1, h2, h3, h4, h5⟩ := h
  constructor
  · rwa [hstarted, hsession, hhanded]
  · rwa [hqueued, hhanded]
  · rwa [hqueued, hhanded, hseeded]
  · rwa [hstarted, hseeded, hqueued]
  · rwa [hsession, hseeded, hhanded]

lemma seeded_new (root : Cid) (chunks : Option (List Cid)) : (new root chunks).Seeded := by
  constructor <;> simp [new, handed]

lemma Seeded.openSession (h : f.Seeded) (hstarted : f.started = false) (opening : Opening) :
    ({ f.openSession opening with started := true, run := .racing } : ChaseFlight).Seeded := by
  obtain ⟨hsession, hhanded⟩ := h.waiting hstarted
  have hknown := h.known
  have honce := h.once
  rw [hhanded, List.append_nil] at hknown honce
  have hlog : f.log.flatMap providers = [] := hhanded
  rcases openSession_cases f opening with ⟨-, hopen⟩ | ⟨q, hq, hopen⟩
  · refine ⟨by simp, ?_, ?_, by simp, ?_⟩
    · simpa [hopen, handed, hlog, providers] using honce
    · simpa [hopen, handed, hlog, providers] using hknown
    · simpa [hopen, handed, hlog, providers] using h.waits hstarted
  · refine ⟨by simp, ?_, ?_, by simp, ?_⟩
    · simpa [hopen, handed, hlog] using honce.sublist hq.sublist
    · simpa [hopen, handed, hlog] using fun p hp => hknown p (hq.subset hp)
    · simp [hopen, hsession]

lemma Seeded.start (h : f.Seeded) (hstarted : f.run = .queued → f.started = false)
    {opening : Opening} {g : ChaseFlight} (hstep : f.start C opening = some g) : g.Seeded := by
  rw [ChaseFlight.start] at hstep
  split at hstep
  next hrun =>
    have hopened := h.openSession (hstarted hrun) opening
    dsimp only at hstep
    split at hstep
    · obtain rfl := Option.some.inj hstep
      exact hopened.of_keeps (decodes_fetchManifest _).toKeeps
    · obtain rfl := Option.some.inj hstep
      exact hopened.of_keeps (decodes_setDecode _ _).toKeeps
  next => cases hstep

lemma Seeded.addProvider (h : f.Seeded) (peer : JsString) : (f.addProvider peer).Seeded := by
  obtain ⟨h1, h2, h3, h4, h5⟩ := h
  rw [ChaseFlight.addProvider]
  dsimp only
  split_ifs with hseeded hsession hstarted
  · exact ⟨h1, h2, h3, h4, h5⟩
  · have hnew : peer ∉ f.queued ++ f.handed := fun hmem => hseeded (h3 peer hmem)
    have hhanded : (f.log ++ [addedPeer peer]).flatMap providers = f.handed ++ [peer] := by
      simp [handed, providers]
    refine ⟨fun hs => ?_, ?_, ?_, fun hs => ?_, fun _ => ?_⟩
    · rw [(h1 hs).1] at hsession
      cases hsession
    · show (f.queued ++ (f.log ++ [addedPeer peer]).flatMap providers).Nodup
      rw [hhanded, ← List.append_assoc, ← List.concat_eq_append]
      exact h2.concat hnew
    · show ∀ p ∈ f.queued ++ (f.log ++ [addedPeer peer]).flatMap providers, p ∈ f.seeded ++ [peer]
      rw [hhanded, ← List.append_assoc, List.forall_mem_append, List.forall_mem_singleton]
      exact ⟨fun p hp => List.mem_append_left _ (h3 p hp), by simp⟩
    · rw [(h1 hs).1] at hsession
      cases hsession
    · show ∀ p ∈ f.seeded ++ [peer], p ∈ (f.log ++ [addedPeer peer]).flatMap providers
      rw [hhanded]
      simpa [or_imp, forall_and] using fun p hp => Or.inl (h5 hsession p hp)
  · refine ⟨h1, h2, fun p hp => List.mem_append_left _ (h3 p hp), fun hs => ?_, fun hs => ?_⟩
    · exact absurd hstarted (by simpa using hs)
    · exact absurd hs hsession
  · have hnew : peer ∉ f.queued ++ f.handed := fun hmem => hseeded (h3 peer hmem)
    obtain ⟨-, hhanded⟩ := h1 (by simpa using hstarted)
    have hlog : f.log.flatMap providers = [] := hhanded
    rw [hhanded, List.append_nil] at h2 h3 hnew
    refine ⟨h1, ?_, ?_, fun hs => ?_, fun hs => absurd hs hsession⟩
    · simpa [handed, hlog] using h2.concat hnew
    · simpa [handed, hlog, or_imp, forall_and] using fun p hp => Or.inl (h3 p hp)
    · simpa [or_imp, forall_and] using fun p hp => Or.inl (h4 hs p hp)

lemma Seeded.addProviders (h : f.Seeded) (providers : List JsString) :
    (f.addProviders providers).Seeded := by
  rw [ChaseFlight.addProviders]
  induction providers generalizing f with
  | nil => exact h
  | cons peer providers ih => exact ih (h.addProvider peer)

lemma Seeded.step (h : f.Seeded) {g : ChaseFlight} (hstep : ChaseStep C f g) : g.Seeded := by
  cases hstep with
  | hinted providers => exact h.addProviders providers
  | derived hstep => exact h.of_keeps (decodes_derived hstep).toKeeps
  | answered hstep => exact h.of_keeps (decodes_answered hstep).toKeeps
  | walked hstep => exact h.of_keeps (keeps_walked hstep)
  | expired hstep => exact h.of_keeps (keeps_expire hstep)

end ChaseFlight

/-! ### Sessions in every run -/

section

open ChaseEvent

/-- **A session is an orderly affair**, whatever hints, answers and deadlines come in between. What
its sources are told comes in order; a session is opened with at least one provider, before anything
else; it is closed exactly when its run ends; no provider is handed over twice or out of nowhere,
and with a session none that was hinted at is left out. -/
theorem rootChaser_sessions {C : Codecs} {limit : Limiter ℕ} {s : RootChaser}
    (h : Reaches (RootChaser.step C limit) (fun _ _ => True) .init s) :
    ∀ f ∈ s.flights,
      f.log.Pairwise MayFollow ∧
      (f.session = true ↔ ∃ ps rest, ps ≠ [] ∧ f.log = .opened ps :: rest) ∧
      (∀ e ∈ f.log, e.ofSession → f.session = true) ∧
      (.closed ∈ f.log ↔ f.session = true ∧ f.Ended) ∧
      f.handed.Nodup ∧ (∀ p ∈ f.handed, p ∈ f.seeded) ∧
      (f.session = true → ∀ p ∈ f.seeded, p ∈ f.handed) := by
  intro f hf
  obtain ⟨hordered, hseeded⟩ : f.Ordered ∧ f.Seeded := by
    refine RootChaser.forall_flights (P := fun f => f.Ordered ∧ f.Seeded) ?_ ?_ ?_ h f hf
    · intro root chunks providers
      exact ⟨(ChaseFlight.ordered_new root chunks).addProviders providers,
        (ChaseFlight.seeded_new root chunks).addProviders providers⟩
    · rintro f g opening ⟨hordered, hseeded⟩ hstart
      exact ⟨hordered.start hstart,
        hseeded.start (fun hrun => (hordered.queued hrun).2.2.2.2.2) hstart⟩
    · rintro f g ⟨hordered, hseeded⟩ hstep
      exact ⟨hordered.step hstep, hseeded.step hstep⟩
  refine ⟨hordered.ordered, ⟨hordered.opened, ?_⟩, hordered.ofSession, hordered.closed,
    (List.nodup_append.mp hseeded.once).2.1, fun p hp => ?_, hseeded.all⟩
  · rintro ⟨ps, rest, -, hlog⟩
    exact hordered.ofSession (.opened ps) (by rw [hlog]; exact List.mem_cons_self) trivial
  · exact hseeded.known p (List.mem_append_right _ hp)

/-- A hint of one advertiser, and one of two while the flight is under way. The session misses the
manifest, and nobody else has it before the deadline. -/
def missedInputs : List ChaserInput :=
  [.chase [0] none [ofString "a"], .start 0 .opened, .chase [0] none [ofString "a", ofString "b"],
    .answer 0 0 none, .deadline 0]

/-- Its session hears of both advertisers, once each. -/
theorem rootChaser_sessions_missed : ∃ s f,
    Reaches (RootChaser.step .reference (Limiter.fifoLimiter 2)) (fun _ _ => True) .init s ∧
      s.flights = [f] ∧
      f.log = [.opened [ofString "a"], .wanted [0], .addedPeer (ofString "b"), .missed [0],
        .broadcast [0], .aborted, .closed] ∧
      f.handed.Nodup ∧ ∀ p ∈ f.seeded, p ∈ f.handed := by
  obtain ⟨s, hs⟩ : ∃ s, runIf (RootChaser.step .reference (Limiter.fifoLimiter 2))
      (fun _ _ => True) missedInputs .init = some s := ⟨_, rfl⟩
  have hreach := reaches_of_runIf hs
  obtain rfl := Option.some.inj hs
  have h := rootChaser_sessions hreach _ List.mem_cons_self
  exact ⟨_, _, hreach, rfl, rfl, h.2.2.2.2.1, h.2.2.2.2.2.2 rfl⟩

end

end PubsubVoting
