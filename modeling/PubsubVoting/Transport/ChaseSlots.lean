import PubsubVoting.Lib.Scatter
import PubsubVoting.Transport.ChaseSessions

/-!
The slots of a chaser, and the roots it holds in flight, in every run.

* `ChaseFlight.Paced`: a race is on until the deadline, and a walk has winners left.
* `RootChaser.Held`, `RootChaser.Slotted`: the flights that have not ended are in flight under their
  roots, and wait or run at the limiter.
* `rootChaser_slots`: one flight per root, no more under way than the cap, and while one waits the
  cap is reached or the limiter may start another.
* `rootChaser_drains`: whatever the block sources leave unanswered, the deadlines end every flight
  and free every root.
-/

namespace PubsubVoting

open Cbor JsString

namespace ChaseFlight

variable {C : Codecs} {f g : ChaseFlight}

/-! ### What a step leaves of a flight -/

/-- Before the deadline a race is on; and a walk has winners left. -/
structure Paced (f : ChaseFlight) : Prop where
  racing : f.run = .racing → f.aborted = false
  walking : ∀ s, f.run ≠ .walking [] s

lemma addProvider_run (f : ChaseFlight) (peer : JsString) :
    (f.addProvider peer).run = f.run ∧ (f.addProvider peer).aborted = f.aborted ∧
      (f.addProvider peer).root = f.root := by
  rw [ChaseFlight.addProvider]
  dsimp only
  split_ifs <;> exact ⟨rfl, rfl, rfl⟩

lemma addProviders_run (f : ChaseFlight) (providers : List JsString) :
    (f.addProviders providers).run = f.run ∧ (f.addProviders providers).aborted = f.aborted ∧
      (f.addProviders providers).root = f.root := by
  rw [ChaseFlight.addProviders]
  induction providers generalizing f with
  | nil => exact ⟨rfl, rfl, rfl⟩
  | cons peer providers ih =>
      obtain ⟨hrun, haborted, hroot⟩ := addProvider_run f peer
      obtain ⟨hrun', haborted', hroot'⟩ := ih (f.addProvider peer)
      exact ⟨hrun'.trans hrun, haborted'.trans haborted, hroot'.trans hroot⟩

lemma Paced.of_decodes (h : f.Paced) (hdecodes : f.Decodes g) : g.Paced := by
  rcases hdecodes.run with hrun | ⟨hrun, ⟨o, ho⟩ | ⟨b, rest, s, hs⟩⟩
  · exact ⟨fun hg => hdecodes.aborted.trans (h.racing (hrun.symm.trans hg)),
      fun s hg => h.walking s (hrun.symm.trans hg)⟩
  · exact ⟨fun hg => by simp [ho] at hg, fun s hg => by simp [ho] at hg⟩
  · exact ⟨fun hg => by simp [hs] at hg, fun s' hg => by simp [hs] at hg⟩

/-- A flight that starts races from there on. -/
lemma start_decodes (hordered : f.Ordered) {opening : Opening}
    (hstep : f.start C opening = some g) :
    f.run = .queued ∧ ∃ k : ChaseFlight, k.run = .racing ∧ k.aborted = false ∧ k.root = f.root ∧
      k.Decodes g := by
  rw [ChaseFlight.start] at hstep
  split at hstep
  next hrun =>
    have haborted := (hordered.queued hrun).2.1
    have hopen : (f.openSession opening).aborted = f.aborted ∧
        (f.openSession opening).root = f.root := by
      rcases openSession_cases f opening with ⟨-, hopen⟩ | ⟨q, -, hopen⟩ <;>
        exact hopen ▸ ⟨rfl, rfl⟩
    refine ⟨hrun, { f.openSession opening with started := true, run := .racing }, rfl,
      hopen.1.trans haborted, hopen.2, ?_⟩
    dsimp only at hstep
    split at hstep
    · obtain rfl := Option.some.inj hstep
      exact decodes_fetchManifest _
    · obtain rfl := Option.some.inj hstep
      exact decodes_setDecode _ _
  next => cases hstep

lemma Paced.of_walkOn (rest : List VotesBundle) (s : ChaseState) : (f.walkOn rest s).Paced := by
  rcases ended_or_walking_walkOn f rest s with ⟨o, ho⟩ | ⟨b, rest', s', hs⟩
  · exact ⟨fun hg => by simp [ho] at hg, fun s hg => by simp [ho] at hg⟩
  · exact ⟨fun hg => by simp [hs] at hg, fun s' hg => by simp [hs] at hg⟩

lemma Paced.of_finish (outcome : ChaseOutcome) : (f.finish outcome).Paced :=
  ⟨fun hg => by simp [ChaseFlight.finish] at hg, fun s hg => by simp [ChaseFlight.finish] at hg⟩

/-- The loop body leads on, or to the end. -/
lemma walked_cases {a : SeamAnswers} (hstep : f.walked C a = some g) :
    f.Walking ∧ ∃ k : ChaseFlight, k.root = f.root ∧
      ((∃ rest s, g = k.walkOn rest s) ∨ ∃ outcome, g = k.finish outcome) := by
  rw [ChaseFlight.walked] at hstep
  split at hstep
  next b rest s hrun =>
    refine ⟨⟨b, rest, s, hrun⟩,
      { f with seams := f.seams ++ [{ a with aborted := f.aborted }] }, rfl, ?_⟩
    dsimp only at hstep
    split at hstep
    · exact .inl ⟨_, _, (Option.some.inj hstep).symm⟩
    · exact .inr ⟨_, (Option.some.inj hstep).symm⟩
    · exact .inr ⟨_, (Option.some.inj hstep).symm⟩
  next => cases hstep

/-- The deadline ends a race, or is remembered in a walk. -/
lemma expire_cases (hstep : f.expire = some g) :
    f.aborted = false ∧ ((f.run = .racing ∧ g.Ended) ∨
      ((∃ rest s, f.run = .walking rest s) ∧ g.run = f.run ∧ g.aborted = true)) := by
  rw [ChaseFlight.expire] at hstep
  split_ifs at hstep with ha
  refine ⟨by simpa using ha, ?_⟩
  dsimp only at hstep
  split at hstep
  next hrun =>
    obtain rfl := Option.some.inj hstep
    exact .inl ⟨hrun, _, rfl⟩
  next rest s hrun =>
    obtain rfl := Option.some.inj hstep
    exact .inr ⟨⟨rest, s, hrun⟩, rfl, rfl⟩
  next => cases hstep

lemma Paced.start (hordered : f.Ordered) {opening : Opening}
    (hstep : f.start C opening = some g) : g.Paced := by
  obtain ⟨-, k, hrun, haborted, -, hdecodes⟩ := start_decodes hordered hstep
  have hk : k.Paced := ⟨fun _ => haborted, fun s hs => by simp [hrun] at hs⟩
  exact hk.of_decodes hdecodes

lemma Paced.step (h : f.Paced) (hstep : ChaseStep C f g) : g.Paced := by
  cases hstep with
  | hinted providers =>
      obtain ⟨hrun, haborted, -⟩ := addProviders_run f providers
      exact ⟨fun hg => haborted.trans (h.racing (hrun.symm.trans hg)),
        fun s hg => h.walking s (hrun.symm.trans hg)⟩
  | derived hstep => exact h.of_decodes (decodes_derived hstep)
  | answered hstep => exact h.of_decodes (decodes_answered hstep)
  | walked hstep =>
      obtain ⟨-, k, -, ⟨rest, s, rfl⟩ | ⟨outcome, rfl⟩⟩ := walked_cases hstep
      · exact .of_walkOn rest s
      · exact .of_finish outcome
  | expired hstep =>
      obtain ⟨-, ⟨-, o, ho⟩ | ⟨⟨rest, s, hs⟩, hrun, -⟩⟩ := expire_cases hstep
      · exact ⟨fun hg => by simp [ho] at hg, fun s hg => by simp [ho] at hg⟩
      · exact ⟨fun hg => by simp [hrun, hs] at hg, fun s hg => h.walking s (hrun.symm.trans hg)⟩

/-- A flight that starts is not queued any more. -/
lemma start_keeps (hordered : f.Ordered) {opening : Opening}
    (hstep : f.start C opening = some g) :
    f.run = .queued ∧ g.root = f.root ∧ g.run ≠ .queued := by
  obtain ⟨hq, k, hk, -, hroot, hdecodes⟩ := start_decodes hordered hstep
  refine ⟨hq, hdecodes.root.trans hroot, ?_⟩
  rcases hdecodes.run with hrun | ⟨-, ⟨o, ho⟩ | ⟨b, rest, s, hs⟩⟩
  · simp [hrun, hk]
  · simp [ho]
  · simp [hs]

/-- A step keeps the root; a flight that has ended stays so; and none leaves the queue but by its
start. -/
lemma step_keeps (hstep : ChaseStep C f g) :
    g.root = f.root ∧ (f.Ended → g.Ended) ∧ (g.run = .queued ↔ f.run = .queued) := by
  have hdecodes : f.Decodes g →
      g.root = f.root ∧ (f.Ended → g.Ended) ∧ (g.run = .queued ↔ f.run = .queued) := by
    intro hdecodes
    rcases hdecodes.run with hrun | ⟨hrun, hg⟩
    · exact ⟨hdecodes.root, fun ⟨o, ho⟩ => ⟨o, hrun.trans ho⟩, by rw [hrun]⟩
    · refine ⟨hdecodes.root, fun ⟨o, ho⟩ => by simp [ho] at hrun, ?_⟩
      rcases hg with ⟨o, ho⟩ | ⟨b, rest, s, hs⟩
      · simp [hrun, ho]
      · simp [hrun, hs]
  cases hstep with
  | hinted providers =>
      obtain ⟨hrun, -, hroot⟩ := addProviders_run f providers
      refine ⟨hroot, ?_, by rw [hrun]⟩
      rintro ⟨o, ho⟩
      exact ⟨o, hrun.trans ho⟩
  | derived hstep => exact hdecodes (decodes_derived hstep)
  | answered hstep => exact hdecodes (decodes_answered hstep)
  | walked hstep =>
      obtain ⟨⟨b, rest, s, hs⟩, k, -, hg⟩ := walked_cases hstep
      refine ⟨(keeps_walked hstep).root, ?_, ?_⟩
      · rintro ⟨o, ho⟩
        simp [hs] at ho
      · rcases hg with ⟨rest', s', rfl⟩ | ⟨outcome, rfl⟩
        · rcases ended_or_walking_walkOn k rest' s' with ⟨o, ho⟩ | ⟨b', rest'', s'', hs'⟩
          · simp [hs, ho]
          · simp [hs, hs']
        · simp [hs, ChaseFlight.finish]
  | expired hstep =>
      have hroot := (keeps_expire hstep).root
      obtain ⟨-, ⟨hr, o, ho⟩ | ⟨⟨rest, s, hs⟩, hrun, -⟩⟩ := expire_cases hstep
      · exact ⟨hroot, fun _ => ⟨o, ho⟩, by simp [hr, ho]⟩
      · refine ⟨hroot, ?_, by rw [hrun]⟩
        rintro ⟨o, ho'⟩
        simp [hs] at ho'

end ChaseFlight

/-! ### The slots -/

namespace RootChaser

open LimiterCall

variable {C : Codecs} {limit : Limiter ℕ} {concurrency : ℕ} {s t : RootChaser}

/-- The flights that have not ended are in flight under their roots. -/
structure Held (s : RootChaser) : Prop where
  ordered : ∀ f ∈ s.flights, f.Ordered ∧ f.Paced
  inFlight : ∀ root i, s.inFlight.get? root = some i → ∃ f, s.flights[i]? = some f ∧ f.root = root
  live : ∀ i f, s.flights[i]? = some f → ¬ f.Ended → s.inFlight.get? f.root = some i

/-- Those that are queued wait at the limiter, and those that started have not settled there while
they are under way. -/
structure Slotted (limit : Limiter ℕ) (s : RootChaser) : Prop extends Held s where
  served : limit.Serves s.calls
  waits : ∀ i, i ∈ waiting s.calls ↔ ∃ f, s.flights[i]? = some f ∧ f.run = .queued
  runs : ∀ i f, s.flights[i]? = some f → f.run ≠ .queued → ¬ f.Ended → i ∈ running s.calls
  started : ∀ i ∈ running s.calls, ∃ f, s.flights[i]? = some f ∧ f.run ≠ .queued

lemma slotted_init : (init : RootChaser).Slotted limit where
  ordered f hf := by cases hf
  inFlight root i h := by simp [init] at h
  live i f h := by simp [init] at h
  served := .nil
  waits i := by simp [init, waiting]
  runs i f h := by simp [init] at h
  started i h := by simp [init, running] at h

/-- The flight at a position behind a step is the one that went on, or an old one. -/
lemma getElem?_flights_set {fs : List ChaseFlight} {i j : ℕ} {f g f' : ChaseFlight}
    (hf : fs[j]? = some f) (h : (fs.set j g)[i]? = some f') :
    i = j ∧ f' = g ∨ i ≠ j ∧ fs[i]? = some f' := by
  have hj : j < fs.length := (List.getElem?_eq_some_iff.mp hf).1
  by_cases hij : i = j
  · subst hij
    rw [List.getElem?_set_self hj] at h
    exact .inl ⟨rfl, (Option.some.inj h).symm⟩
  · rw [List.getElem?_set_ne (Ne.symm hij)] at h
    exact .inr ⟨hij, h⟩

/-- Who is queued behind a step. -/
lemma exists_queued_set {fs : List ChaseFlight} {i j : ℕ} {f g : ChaseFlight}
    (hf : fs[j]? = some f) :
    (∃ f', (fs.set j g)[i]? = some f' ∧ f'.run = .queued) ↔
      i = j ∧ g.run = .queued ∨ i ≠ j ∧ ∃ f', fs[i]? = some f' ∧ f'.run = .queued := by
  have hj : j < fs.length := (List.getElem?_eq_some_iff.mp hf).1
  by_cases hij : i = j
  · subst hij
    simp [List.getElem?_set_self hj]
  · simp [List.getElem?_set_ne (Ne.symm hij), hij]

lemma Held.set (h : s.Held) {j : ℕ} {f g : ChaseFlight} (hf : s.flights[j]? = some f)
    (hg : g.Ordered ∧ g.Paced) (hroot : g.root = f.root) (hended : f.Ended → g.Ended)
    (calls : List (LimiterCall ℕ)) :
    ({ s with flights := s.flights.set j g, calls := calls } : RootChaser).Held := by
  have hj : j < s.flights.length := (List.getElem?_eq_some_iff.mp hf).1
  constructor
  · intro f' hf'
    rcases List.mem_or_eq_of_mem_set hf' with hf' | rfl
    · exact h.ordered f' hf'
    · exact hg
  · intro root i hi
    obtain ⟨f', hf', hroot'⟩ := h.inFlight root i hi
    by_cases hij : i = j
    · subst hij
      obtain rfl := Option.some.inj (hf.symm.trans hf')
      exact ⟨g, List.getElem?_set_self hj, hroot.trans hroot'⟩
    · exact ⟨f', (List.getElem?_set_ne (Ne.symm hij)).trans hf', hroot'⟩
  · intro i f' hi hnot
    rcases getElem?_flights_set hf hi with ⟨rfl, rfl⟩ | ⟨-, hi⟩
    · rw [hroot]
      exact h.live i f hf fun he => hnot (hended he)
    · exact h.live i f' hi hnot

lemma Slotted.onFlight (h : s.Slotted limit) {j : ℕ} {f g : ChaseFlight}
    (hf : s.flights[j]? = some f) (hg : ChaseStep C f g) :
    ({ s with flights := s.flights.set j g } : RootChaser).Slotted limit := by
  obtain ⟨hordered, hpaced⟩ := h.ordered f (List.mem_of_getElem? hf)
  obtain ⟨hroot, hended, hqueued⟩ := ChaseFlight.step_keeps hg
  refine ⟨h.toHeld.set hf ⟨hordered.step hg, hpaced.step hg⟩ hroot hended s.calls, h.served,
    fun i => ?_, fun i f' hi hnot hunended => ?_, fun i hi => ?_⟩
  · rw [exists_queued_set hf, hqueued]
    refine (h.waits i).trans ⟨fun hi => ?_, fun hi => ?_⟩
    · by_cases hij : i = j
      · subst hij
        obtain ⟨f', hf', hq⟩ := hi
        obtain rfl := Option.some.inj (hf.symm.trans hf')
        exact .inl ⟨rfl, hq⟩
      · exact .inr ⟨hij, hi⟩
    · rcases hi with ⟨rfl, hq⟩ | ⟨-, hi⟩
      · exact ⟨f, hf, hq⟩
      · exact hi
  · rcases getElem?_flights_set hf hi with ⟨rfl, rfl⟩ | ⟨-, hi⟩
    · exact h.runs i f hf (fun hq => hnot (hqueued.mpr hq)) fun he => hunended (hended he)
    · exact h.runs i f' hi hnot hunended
  · obtain ⟨f', hf', hnot⟩ := h.started i hi
    by_cases hij : i = j
    · subst hij
      obtain rfl := Option.some.inj (hf.symm.trans hf')
      exact ⟨g, List.getElem?_set_self (List.getElem?_eq_some_iff.mp hf).1,
        fun hq => hnot (hqueued.mp hq)⟩
    · exact ⟨f', (List.getElem?_set_ne (Ne.symm hij)).trans hf', hnot⟩

/-- The limiter starts a flight. -/
lemma Slotted.start (hcapped : limit.Capped concurrency) (h : s.Slotted limit) {j : ℕ}
    {f g : ChaseFlight} {opening : Opening} (hf : s.flights[j]? = some f)
    (hlet : limit s.calls j = true) (hg : f.start C opening = some g) :
    ({ s with flights := s.flights.set j g, calls := .start j :: s.calls } :
      RootChaser).Slotted limit := by
  obtain ⟨hordered, hpaced⟩ := h.ordered f (List.mem_of_getElem? hf)
  obtain ⟨hqueued, hroot, hnot⟩ := ChaseFlight.start_keeps hordered hg
  have hended : f.Ended → g.Ended := by
    rintro ⟨o, ho⟩
    simp [hqueued] at ho
  have hj : j < s.flights.length := (List.getElem?_eq_some_iff.mp hf).1
  refine ⟨h.toHeld.set hf ⟨hordered.start hg, .start hordered hg⟩ hroot hended _,
    .start h.served hlet, fun i => ?_, fun i f' hi hq hunended => ?_, fun i hi => ?_⟩
  · rw [exists_queued_set hf, h.served.mem_waiting_start hcapped, h.waits]
    simp [hnot]
  · show i ∈ running s.calls ++ [j]
    rcases getElem?_flights_set hf hi with ⟨rfl, rfl⟩ | ⟨-, hi⟩
    · exact List.mem_append_right _ List.mem_cons_self
    · exact List.mem_append_left _ (h.runs i f' hi hq hunended)
  · have hi : i ∈ running s.calls ++ [j] := hi
    by_cases hij : i = j
    · subst hij
      exact ⟨g, List.getElem?_set_self hj, hnot⟩
    · obtain ⟨f', hf', hq⟩ := h.started i (by simpa [hij] using hi)
      exact ⟨f', (List.getElem?_set_ne (Ne.symm hij)).trans hf', hq⟩

/-- A root that takes off finds its place behind the flights so far. -/
lemma getElem?_flights_append {fs : List ChaseFlight} {i : ℕ} {new f : ChaseFlight} :
    (fs ++ [new])[i]? = some f ↔ fs[i]? = some f ∨ i = fs.length ∧ f = new := by
  rw [List.getElem?_append]
  split_ifs with hlt
  · constructor
    · exact .inl
    · rintro (hi | ⟨rfl, -⟩)
      · exact hi
      · exact absurd hlt (lt_irrefl _)
  · have hnone : fs[i]? = none := List.getElem?_eq_none (not_lt.mp hlt)
    rw [hnone]
    constructor
    · intro hi
      obtain ⟨hlt', heq⟩ := List.getElem?_eq_some_iff.mp hi
      rw [List.length_singleton] at hlt'
      refine .inr ⟨by omega, ?_⟩
      rw [← heq]
      exact List.getElem_singleton _
    · rintro (hi | ⟨rfl, rfl⟩)
      · cases hi
      · simp

lemma Slotted.takeOff (h : s.Slotted limit) {root : Cid} (hget : s.inFlight.get? root = none)
    (chunks : Option (List Cid)) (providers : List JsString) :
    (s.takeOff root chunks providers).Slotted limit := by
  set n := s.flights.length with hn
  set new := (ChaseFlight.new root chunks).addProviders providers with hnew
  obtain ⟨hrun, -, hroot⟩ := ChaseFlight.addProviders_run (ChaseFlight.new root chunks) providers
  have hfree : s.flights[n]? = none := List.getElem?_eq_none (le_refl _)
  have hlast : (s.flights ++ [new])[n]? = some new := getElem?_flights_append.mpr (.inr ⟨rfl, rfl⟩)
  have hold : ∀ i f, s.flights[i]? = some f → (s.flights ++ [new])[i]? = some f :=
    fun i f hf => getElem?_flights_append.mpr (.inl hf)
  refine ⟨⟨?_, ?_, ?_⟩, .submit h.served ?_ ?_, ?_, ?_, ?_⟩
  · intro f hf
    rcases List.mem_append.mp hf with hf | hf
    · exact h.ordered f hf
    · rw [List.mem_singleton.mp hf]
      refine ⟨(ChaseFlight.ordered_new root chunks).addProviders providers, ?_⟩
      constructor
      · intro hr
        rw [hrun] at hr
        cases hr
      · intro s hr
        rw [hrun] at hr
        cases hr
  · intro root' i hi
    change (s.inFlight.set root n).get? root' = some i at hi
    rw [JsMap.get?_set] at hi
    split_ifs at hi with heq
    · obtain rfl := Option.some.inj hi
      exact ⟨new, hlast, hroot.trans heq.symm⟩
    · obtain ⟨f, hf, hf'⟩ := h.inFlight root' i hi
      exact ⟨f, hold i f hf, hf'⟩
  · intro i f hi hnot
    show (s.inFlight.set root n).get? f.root = some i
    rw [JsMap.get?_set]
    rcases getElem?_flights_append.mp hi with hi | ⟨rfl, rfl⟩
    · have hin := h.live i f hi hnot
      have hne : f.root ≠ root := by
        rintro rfl
        rw [hget] at hin
        cases hin
      rw [if_neg hne]
      exact hin
    · exact if_pos hroot
  · intro hwaiting
    obtain ⟨f, hf, -⟩ := (h.waits n).mp hwaiting
    rw [hfree] at hf
    cases hf
  · intro hrunning
    obtain ⟨f, hf, -⟩ := h.started n hrunning
    rw [hfree] at hf
    cases hf
  · intro i
    show i ∈ waiting s.calls ++ [n] ↔ ∃ f, (s.flights ++ [new])[i]? = some f ∧ f.run = .queued
    rw [List.mem_append, List.mem_singleton, h.waits]
    constructor
    · rintro (⟨f, hf, hq⟩ | rfl)
      · exact ⟨f, hold i f hf, hq⟩
      · exact ⟨new, hlast, hrun⟩
    · rintro ⟨f, hf, hq⟩
      rcases getElem?_flights_append.mp hf with hf | ⟨rfl, -⟩
      · exact .inl ⟨f, hf, hq⟩
      · exact .inr rfl
  · intro i f hi hq hunended
    rcases getElem?_flights_append.mp hi with hi | ⟨-, rfl⟩
    · exact h.runs i f hi hq hunended
    · exact absurd hrun hq
  · intro i hi
    obtain ⟨f, hf, hq⟩ := h.started i hi
    exact ⟨f, hold i f hf, hq⟩

lemma Slotted.release (hcapped : limit.Capped concurrency) (h : s.Slotted limit) {j : ℕ}
    {f : ChaseFlight} (hf : s.flights[j]? = some f) (hended : f.Ended)
    (hj : j ∈ running s.calls) :
    ({ s with calls := .finish j :: s.calls } : RootChaser).Slotted limit := by
  refine ⟨⟨h.ordered, h.inFlight, h.live⟩, .finish h.served hj, h.waits, ?_, ?_⟩
  · intro i f' hi hq hunended
    refine (h.served.mem_running_finish hcapped).mpr ⟨?_, h.runs i f' hi hq hunended⟩
    rintro rfl
    obtain rfl := Option.some.inj (hf.symm.trans hi)
    exact hunended hended
  · exact fun i hi => h.started i ((h.served.mem_running_finish hcapped).mp hi).2

lemma Slotted.forget (h : s.Slotted limit) {j : ℕ} {f : ChaseFlight} (hf : s.flights[j]? = some f)
    (hended : f.Ended) (hin : s.inFlight.get? f.root = some j) :
    ({ s with inFlight := s.inFlight.delete f.root } : RootChaser).Slotted limit := by
  refine ⟨⟨h.ordered, ?_, ?_⟩, h.served, h.waits, h.runs, h.started⟩
  · intro root i hi
    change (s.inFlight.delete f.root).get? root = some i at hi
    rw [JsMap.get?_delete] at hi
    split_ifs at hi
    exact h.inFlight root i hi
  · intro i f' hi hnot
    have hin' := h.live i f' hi hnot
    show (s.inFlight.delete f.root).get? f'.root = some i
    rw [JsMap.get?_delete, if_neg]
    · exact hin'
    · intro heq
      rw [heq, hin] at hin'
      obtain rfl := Option.some.inj hin'
      obtain rfl := Option.some.inj (hf.symm.trans hi)
      exact hnot hended

lemma Slotted.step (hcapped : limit.Capped concurrency) (h : s.Slotted limit) {i : ChaserInput}
    (hstep : s.step C limit i = some t) : t.Slotted limit := by
  rcases step_cases hstep with ⟨j, f, g, hf, hg, rfl⟩ | ⟨j, f, g, opening, hf, hlet, hg, rfl⟩ |
    ⟨root, chunks, providers, hget, rfl⟩ | ⟨j, f, hf, hended, hj, rfl⟩ |
    ⟨j, f, hf, hended, hin, rfl⟩
  · exact h.onFlight hf hg
  · exact h.start hcapped hf hlet hg
  · exact h.takeOff hget chunks providers
  · exact h.release hcapped hf hended hj
  · exact h.forget hf hended hin

theorem slotted_of_reaches (hcapped : limit.Capped concurrency)
    (h : Reaches (step C limit) (fun _ _ => True) .init s) : s.Slotted limit :=
  h.invariant slotted_init fun _ _ _ hs _ hst => hs.step hcapped hst

/-- A flight under way runs at the limiter. -/
lemma Slotted.mem_running (h : s.Slotted limit) {i : ℕ} {f : ChaseFlight}
    (hf : s.flights[i]? = some f) (hunderWay : f.underWay = true) : i ∈ running s.calls := by
  refine h.runs i f hf (fun hq => ?_) ?_
  · simp [ChaseFlight.underWay, hq] at hunderWay
  · rintro ⟨o, ho⟩
    simp [ChaseFlight.underWay, ho] at hunderWay

lemma Slotted.length_underWay_le (h : s.Slotted limit) :
    (s.flights.filter ChaseFlight.underWay).length ≤ (running s.calls).length := by
  -- the positions of the flights under way, each once
  set held := (s.flights.zipIdx.filter (ChaseFlight.underWay ∘ Prod.fst)).map Prod.snd with hheld
  have hlength : held.length = (s.flights.filter ChaseFlight.underWay).length :=
    calc held.length
        = ((s.flights.zipIdx.filter (ChaseFlight.underWay ∘ Prod.fst)).map Prod.fst).length := by
          rw [hheld, List.length_map, List.length_map]
      _ = ((s.flights.zipIdx.map Prod.fst).filter ChaseFlight.underWay).length := by
          rw [List.filter_map]
      _ = (s.flights.filter ChaseFlight.underWay).length := by rw [List.zipIdx_map_fst]
  have hnodup : held.Nodup := by
    have hsnd : (s.flights.zipIdx.map Prod.snd).Nodup := by
      rw [List.zipIdx_map_snd]
      exact List.nodup_range'
    exact (List.filter_sublist.map Prod.snd).nodup hsnd
  have hsubset : held ⊆ running s.calls := by
    intro i hi
    obtain ⟨⟨f, i'⟩, hmem, rfl⟩ := List.mem_map.mp hi
    obtain ⟨hmem, hunderWay⟩ := List.mem_filter.mp hmem
    exact h.mem_running (List.mem_zipIdx_iff_getElem?.mp hmem) hunderWay
  rw [← hlength]
  exact (hnodup.subperm hsubset).length_le

end RootChaser

/-- **The slots of a chaser**, under any limiter that keeps its cap and lets somebody start while
there is room: no more flights are under way than the cap; no two that have not ended chase one
root, and each of them is in flight under its root; and while a flight waits, as many runs as the
cap have not settled, or the limiter may start one that waits. -/
theorem rootChaser_slots {C : Codecs} {limit : Limiter ℕ} {concurrency : ℕ}
    (hcapped : limit.Capped concurrency) (hprompt : limit.Prompt concurrency) {s : RootChaser}
    (h : Reaches (RootChaser.step C limit) (fun _ _ => True) .init s) :
    (s.flights.filter ChaseFlight.underWay).length ≤ concurrency ∧
      (∀ (i : ℕ) (f : ChaseFlight), s.flights[i]? = some f → ¬ f.Ended →
        s.inFlight.get? f.root = some i) ∧
      (∀ (i j : ℕ) (f g : ChaseFlight), s.flights[i]? = some f → s.flights[j]? = some g →
        ¬ f.Ended → ¬ g.Ended → f.root = g.root → i = j) ∧
      ∀ f ∈ s.flights, f.run = .queued →
        (LimiterCall.running s.calls).length = concurrency ∨
          ∃ (j : ℕ) (g : ChaseFlight), s.flights[j]? = some g ∧ g.run = .queued ∧
            limit s.calls j = true := by
  have hslotted := RootChaser.slotted_of_reaches hcapped h
  have hbounded := hslotted.served.bounded hcapped
  refine ⟨hslotted.length_underWay_le.trans hbounded, hslotted.live, ?_, ?_⟩
  · intro i j f g hf hg hfended hgended hroot
    have hi := hslotted.live i f hf hfended
    have hj := hslotted.live j g hg hgended
    rw [hroot, hj] at hi
    exact (Option.some.inj hi).symm
  · intro f hf hqueued
    obtain ⟨i, hi⟩ := List.getElem?_of_mem hf
    have hwaiting := (hslotted.waits i).mpr ⟨f, hi, hqueued⟩
    rcases hbounded.eq_or_lt with hfull | hroom
    · exact .inl hfull
    · obtain ⟨j, hlet⟩ := hprompt hslotted.served (List.ne_nil_of_mem hwaiting) hroom
      obtain ⟨g, hg, hq⟩ := (hslotted.waits j).mp (hcapped.waits hslotted.served hlet)
      exact .inr ⟨j, g, hg, hq, hlet⟩

/-- Hints of three roots, of which the first two start. -/
def threeHints : List ChaserInput :=
  [.chase [0] none [], .chase [1] none [], .chase [2] none [], .start 0 .absent, .start 1 .absent]

/-- The third flight waits, and two have not settled. -/
theorem rootChaser_slots_three : ∃ s,
    Reaches (RootChaser.step .reference (Limiter.fifoLimiter 2)) (fun _ _ => True) .init s ∧
      s.inFlight.keys = [[0], [1], [2]] ∧ (s.flights.filter ChaseFlight.underWay).length ≤ 2 ∧
      (LimiterCall.running s.calls).length = 2 := by
  obtain ⟨s, hs⟩ : ∃ s, runIf (RootChaser.step .reference (Limiter.fifoLimiter 2))
      (fun _ _ => True) threeHints .init = some s := ⟨_, rfl⟩
  have hreach := reaches_of_runIf hs
  obtain rfl := Option.some.inj hs
  obtain ⟨hunderWay, -, -, hwaits⟩ :=
    rootChaser_slots Limiter.fifoLimiter_capped Limiter.fifoLimiter_prompt hreach
  refine ⟨_, hreach, rfl, hunderWay, ?_⟩
  refine (hwaits _ (List.mem_of_getElem? (i := 2) rfl) rfl).resolve_right ?_
  rintro ⟨j, -, -, -, hlet⟩
  exact absurd (Limiter.fifoLimiter_eq_true.mp hlet).1 (by decide)

/-! ### Draining -/

/-- What happens to a chaser without a hint, and without an answer of a block source. -/
def ChaserInput.Unaided : ChaserInput → Prop
  | .chase _ _ _ => False
  | .answer _ _ _ => False
  | .derived _ => False
  | _ => True

/-- How many unaided steps a flight may still take to its end, two more while it is queued. -/
def ChaseFlight.left (f : ChaseFlight) : ℕ :=
  match f.run with
  | .queued => 4
  | .racing => 1
  | .walking _ _ => if f.aborted then 1 else 2
  | .ended _ => 0

namespace RootChaser

open LimiterCall

variable {C : Codecs} {limit : Limiter ℕ} {concurrency : ℕ} {s t : RootChaser}

/-- How many unaided steps a chaser may still take. -/
def left (s : RootChaser) : ℕ :=
  (s.flights.map ChaseFlight.left).sum + (running s.calls).length + s.inFlight.entries.length

lemma left_onFlight {j : ℕ} {f g : ChaseFlight} (hf : s.flights[j]? = some f)
    (hlt : g.left < f.left) :
    ({ s with flights := s.flights.set j g } : RootChaser).left < s.left := by
  have hsum := sum_map_set (f := ChaseFlight.left) hf g
  show ((s.flights.set j g).map ChaseFlight.left).sum + _ + _ < _
  rw [left]
  dsimp only
  omega

lemma step_of_onFlight {j : ℕ} {f g : ChaseFlight} {k : ChaseFlight → Option ChaseFlight}
    (hf : s.flights[j]? = some f) (hk : k f = some g) :
    s.onFlight j k = some { s with flights := s.flights.set j g } := by
  rw [onFlight, hf, Option.bind_eq_bind, Option.bind_some, hk, Option.map_some]

/-- A flight that the limiter lets start does. -/
lemma Slotted.goes_up (h : s.Slotted limit) {j : ℕ} {f : ChaseFlight} (hf : s.flights[j]? = some f)
    (hqueued : f.run = .queued) (hlet : limit s.calls j = true) :
    ∃ i t, i.Unaided ∧ s.step C limit i = some t ∧ t.left < s.left := by
  obtain ⟨hordered, -⟩ := h.ordered f (List.mem_of_getElem? hf)
  obtain ⟨g, hg⟩ : ∃ g, f.start C .declined = some g := by
    rw [ChaseFlight.start, hqueued]
    dsimp only
    split <;> exact ⟨_, rfl⟩
  have hleft : g.left ≤ 2 := by
    obtain ⟨-, k, hk, -, -, hdecodes⟩ := ChaseFlight.start_decodes hordered hg
    rw [ChaseFlight.left]
    rcases hdecodes.run with hrun | ⟨-, ⟨o, ho⟩ | ⟨b, rest, s', hs⟩⟩
    · simp [hrun, hk]
    · simp [ho]
    · rw [hs]
      dsimp only
      split_ifs <;> omega
  refine ⟨.start j .declined,
    { s with flights := s.flights.set j g, calls := .start j :: s.calls }, trivial, ?_, ?_⟩
  · rw [RootChaser.step, if_pos hlet]
    exact step_of_onFlight (s := { s with calls := .start j :: s.calls }) hf hg
  · have hsum := sum_map_set (f := ChaseFlight.left) hf g
    have hfour : f.left = 4 := by rw [ChaseFlight.left, hqueued]
    show ((s.flights.set j g).map ChaseFlight.left).sum + (running s.calls ++ [j]).length +
      s.inFlight.entries.length < _
    rw [left, List.length_append, List.length_singleton]
    omega

/-- A flight that runs goes on, or the limiter hears of its end. -/
lemma Slotted.goes_on (h : s.Slotted limit) {j : ℕ} (hj : j ∈ running s.calls) :
    ∃ i t, i.Unaided ∧ s.step C limit i = some t ∧ t.left < s.left := by
  obtain ⟨f, hf, hqueued⟩ := h.started j hj
  obtain ⟨-, hpaced⟩ := h.ordered f (List.mem_of_getElem? hf)
  cases hrun : f.run with
  | queued => exact absurd hrun hqueued
  | racing =>
      have haborted := hpaced.racing hrun
      obtain ⟨g, hg, hleft⟩ : ∃ g, f.expire = some g ∧ g.left = 0 := by
        rw [ChaseFlight.expire, if_neg (by simp [haborted]), hrun]
        exact ⟨_, rfl, rfl⟩
      refine ⟨.deadline j, _, trivial, step_of_onFlight hf hg, left_onFlight hf ?_⟩
      rw [hleft, ChaseFlight.left, hrun]
      exact Nat.one_pos
  | walking rest state =>
      cases rest with
      | nil => exact absurd hrun (hpaced.walking state)
      | cons b rest =>
          by_cases haborted : f.aborted = true
          · obtain ⟨g, hg, hleft⟩ : ∃ g,
                f.walked C ⟨false, none, none, none, none, none⟩ = some g ∧ g.left = 0 := by
              rw [ChaseFlight.walked, hrun]
              simp only [chaseStep, haborted, if_true]
              exact ⟨_, rfl, rfl⟩
            refine ⟨.walk j ⟨false, none, none, none, none, none⟩, _, trivial,
              step_of_onFlight hf hg, left_onFlight hf ?_⟩
            rw [hleft, ChaseFlight.left, hrun]
            simp [haborted]
          · obtain ⟨g, hg, hleft⟩ : ∃ g, f.expire = some g ∧ g.left = 1 := by
              rw [ChaseFlight.expire, if_neg haborted, hrun]
              exact ⟨_, rfl, by simp [ChaseFlight.left]⟩
            refine ⟨.deadline j, _, trivial, step_of_onFlight hf hg, left_onFlight hf ?_⟩
            rw [hleft, ChaseFlight.left, hrun]
            simp [haborted]
  | ended outcome =>
      refine ⟨.release j, { s with calls := .finish j :: s.calls }, trivial, ?_, ?_⟩
      · rw [RootChaser.step, hf]
        exact if_pos ⟨⟨outcome, hrun⟩, hj⟩
      · have hpos := List.length_pos_of_mem hj
        show (s.flights.map ChaseFlight.left).sum + ((running s.calls).erase j).length +
          s.inFlight.entries.length < _
        rw [left, List.length_erase_of_mem hj]
        omega

/-- A chaser that holds anything can do something about it by itself. -/
lemma Slotted.exists_unaided (hcapped : limit.Capped concurrency)
    (hprompt : limit.Prompt concurrency) (hconcurrency : 0 < concurrency) (h : s.Slotted limit)
    (hheld : ¬ Limiter.Idle s.calls ∨ s.inFlight.entries ≠ []) :
    ∃ i t, i.Unaided ∧ s.step C limit i = some t ∧ t.left < s.left := by
  by_cases hrunning : running s.calls = []
  · by_cases hidle : Limiter.Idle s.calls
    · obtain ⟨⟨root, j⟩, hmem⟩ :=
        List.exists_mem_of_ne_nil _ (hheld.resolve_left (not_not.mpr hidle))
      have hget : s.inFlight.get? root = some j := JsMap.get?_eq_some_iff.mpr hmem
      obtain ⟨f, hf, rfl⟩ := h.inFlight root j hget
      have hended : f.Ended := by
        by_contra hnot
        by_cases hq : f.run = .queued
        · have hwaiting := (h.waits j).mpr ⟨f, hf, hq⟩
          rw [hidle.1] at hwaiting
          cases hwaiting
        · have hrun := h.runs j f hf hq hnot
          rw [hidle.2] at hrun
          cases hrun
      refine ⟨.forget j, { s with inFlight := s.inFlight.delete f.root }, trivial, ?_, ?_⟩
      · rw [RootChaser.step, hf]
        exact if_pos ⟨hended, hget⟩
      · have hlength := (JsMap.perm_delete hget).length_eq
        rw [List.length_cons] at hlength
        simp only [left]
        omega
    · obtain ⟨j, hlet⟩ := hprompt.exists_start hconcurrency h.served hidle hrunning
      obtain ⟨f, hf, hq⟩ := (h.waits j).mp (hcapped.waits h.served hlet)
      exact h.goes_up hf hq hlet
  · obtain ⟨j, hj⟩ := List.exists_mem_of_ne_nil _ hrunning
    exact h.goes_on hj

/-- Without any help a chaser comes to rest. -/
lemma Slotted.drains (hcapped : limit.Capped concurrency) (hprompt : limit.Prompt concurrency)
    (hconcurrency : 0 < concurrency) (h : s.Slotted limit) :
    ∃ t, Reaches (RootChaser.step C limit) (fun _ i => i.Unaided) s t ∧ t.Slotted limit ∧
      Limiter.Idle t.calls ∧ t.inFlight.entries = [] := by
  induction hn : s.left using Nat.strong_induction_on generalizing s with
  | _ n ih =>
      by_cases hheld : ¬ Limiter.Idle s.calls ∨ s.inFlight.entries ≠ []
      · obtain ⟨i, s', hi, hstep, hlt⟩ :=
          h.exists_unaided (C := C) hcapped hprompt hconcurrency hheld
        obtain ⟨t, hreach, ht⟩ := ih s'.left (hn ▸ hlt) (h.step hcapped hstep) rfl
        have hfirst : Reaches (RootChaser.step C limit) (fun _ i => i.Unaided) s s' :=
          .tail .refl hi hstep
        exact ⟨t, hfirst.trans hreach, ht⟩
      · obtain ⟨hidle, hentries⟩ := not_or.mp hheld
        exact ⟨s, .refl, h, not_not.mp hidle, not_not.mp hentries⟩

end RootChaser

/-- **The deadlines free everything**, under any limiter that keeps its cap and lets somebody start
while there is room: from every state of a chaser, and even if no block source ever answers again,
starts, deadlines and the loops they stop bring every flight to its end, leave nobody at the limiter
and forget every root. -/
theorem rootChaser_drains {C : Codecs} {limit : Limiter ℕ} {concurrency : ℕ}
    (hcapped : limit.Capped concurrency) (hprompt : limit.Prompt concurrency)
    (hconcurrency : 0 < concurrency) {s : RootChaser}
    (h : Reaches (RootChaser.step C limit) (fun _ _ => True) .init s) :
    ∃ t, Reaches (RootChaser.step C limit) (fun _ i => i.Unaided) s t ∧ Limiter.Idle t.calls ∧
      t.inFlight.entries = [] ∧ ∀ f ∈ t.flights, f.Ended := by
  obtain ⟨t, hreach, hslotted, hidle, hentries⟩ :=
    (RootChaser.slotted_of_reaches hcapped h).drains hcapped hprompt hconcurrency
  refine ⟨t, hreach, hidle, hentries, fun f hf => ?_⟩
  obtain ⟨i, hi⟩ := List.getElem?_of_mem hf
  by_contra hended
  have hin := hslotted.live i f hi hended
  rw [JsMap.get?_eq_some_iff, hentries] at hin
  cases hin

/-- So it is for three roots, nobody having any of their blocks. -/
theorem rootChaser_drains_three : ∃ s t,
    Reaches (RootChaser.step .reference (Limiter.fifoLimiter 2)) (fun _ _ => True) .init s ∧
      s.inFlight.keys = [[0], [1], [2]] ∧
      Reaches (RootChaser.step .reference (Limiter.fifoLimiter 2)) (fun _ i => i.Unaided) s t ∧
      Limiter.Idle t.calls ∧ t.inFlight.entries = [] := by
  obtain ⟨s, hs⟩ : ∃ s, runIf (RootChaser.step .reference (Limiter.fifoLimiter 2))
      (fun _ _ => True) threeHints .init = some s := ⟨_, rfl⟩
  have hreach := reaches_of_runIf hs
  obtain rfl := Option.some.inj hs
  obtain ⟨t, ht, hidle, hentries, -⟩ :=
    rootChaser_drains Limiter.fifoLimiter_capped Limiter.fifoLimiter_prompt (by decide) hreach
  exact ⟨_, t, hreach, rfl, ht, hidle, hentries⟩

end PubsubVoting
