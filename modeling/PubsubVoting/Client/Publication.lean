import PubsubVoting.Lib.Transition

/-!
The publishing state machine of one ballot, across its attempts.

* `Publication.step`: the stages of `publish()`, cut at its awaits, between the engine's callbacks
  of this attempt and of every earlier one.
* `PublishingState.Advances`: strictly upward, or the failure that stays.
* `Publication.Inv`: what holds between any two steps.
* `publication_advances`: the states of an attempt only advance, and a callback of an earlier
  attempt does nothing.
-/

namespace PubsubVoting

/-! ### The states -/

/-- `publishingState` of a ballot. -/
inductive PublishingState where
  | stopped
  | signing
  | publishing
  | published
  | verifiedLocally
  | verifiedByPeer
  | failed
  deriving DecidableEq

namespace PublishingState

/-- How far along a state is; nothing lies beyond a failure. -/
def rank : PublishingState → ℕ
  | .stopped => 0
  | .signing => 1
  | .publishing => 2
  | .published => 3
  | .verifiedLocally => 4
  | .verifiedByPeer => 5
  | .failed => 6

/-- From `a` the machine may go on to `b`: strictly upward, and a failure stays one. -/
def Advances (a b : PublishingState) : Prop := a.rank < b.rank ∨ a = .failed ∧ b = .failed

instance : DecidableRel Advances := fun a b =>
  inferInstanceAs (Decidable (a.rank < b.rank ∨ a = .failed ∧ b = .failed))

lemma rank_inj {a b : PublishingState} (h : a.rank = b.rank) : a = b := by
  cases a <;> cases b <;> first | rfl | cases h

lemma rank_le_six (a : PublishingState) : a.rank ≤ 6 := by
  cases a <;> decide

lemma advances_failed (a : PublishingState) : Advances a .failed := by
  rcases Nat.lt_or_eq_of_le (rank_le_six a) with hlt | heq
  · exact .inl hlt
  · exact .inr ⟨rank_inj heq, rfl⟩

lemma advances_verifiedByPeer {a : PublishingState} (hfailed : a ≠ .failed)
    (hpeer : a ≠ .verifiedByPeer) : Advances a .verifiedByPeer := by
  revert hfailed hpeer
  cases a <;> decide

lemma advances_verifiedLocally {a : PublishingState} (hfailed : a ≠ .failed)
    (hpeer : a ≠ .verifiedByPeer) (hlocal : a ≠ .verifiedLocally) :
    Advances a .verifiedLocally := by
  revert hfailed hpeer hlocal
  cases a <;> decide

lemma Advances.trans {a b c : PublishingState} (hab : Advances a b) (hbc : Advances b c) :
    Advances a c := by
  rcases hab with hab | ⟨rfl, rfl⟩
  · rcases hbc with hbc | ⟨rfl, rfl⟩
    · exact .inl (hab.trans hbc)
    · exact .inl hab
  · exact hbc

end PublishingState

/-! ### The machine -/

/-- Where a call of `publish()` is. -/
inductive PublishStage where
  /-- it awaits the name preflight or the join -/
  | joining
  /-- it awaits `signVote` -/
  | signing
  /-- it awaits `broadcastBundle` -/
  | broadcasting
  deriving DecidableEq

/-- What the engine reports of the bundle of an attempt. -/
inductive EngineReport where
  | verified
  | checkpointedByPeer
  | evicted
  deriving DecidableEq

/-- One ballot. -/
structure Publication where
  /-- `#attempt` -/
  attempt : ℕ
  /-- `#state` -/
  state : PublishingState
  /-- `#evicted` -/
  evicted : Bool
  /-- the call of `publish()` under way -/
  stage : Option PublishStage
  /-- the attempts whose callbacks the engine was handed -/
  registered : List ℕ
  /-- the states set since this attempt began -/
  log : List PublishingState
  /-- how many errors were emitted -/
  errors : ℕ
  deriving DecidableEq

/-- What happens to a ballot. -/
inductive PublicationInput where
  /-- `publish()` is called, and no call of it is under way -/
  | publish
  /-- the names are fine and the topic is joined -/
  | joined
  /-- `signVote` returns -/
  | signed
  /-- `broadcastBundle` returns -/
  | broadcast
  /-- what the call awaits throws -/
  | throws
  /-- a callback of an attempt fires -/
  | report (attempt : ℕ) (report : EngineReport)

namespace Publication

variable (s : Publication)

/-- A ballot nobody has published. -/
def init : Publication := ⟨0, .stopped, false, none, [], [], 0⟩

/-- `#setState` -/
def setState (state : PublishingState) : Publication :=
  { s with state, log := s.log ++ [state] }

/-- `#fail` -/
def fail : Publication := { s.setState .failed with errors := s.errors + 1 }

/-- `#settle`, for the attempt that owns the object. -/
def settle (state : PublishingState) : Publication :=
  if s.evicted || decide (s.state = .failed) || decide (s.state = .verifiedByPeer) then s
  else if state = .verifiedLocally ∧ s.state = .verifiedLocally then s
  else s.setState state

/-- A callback of an attempt: it does nothing unless the attempt owns the object. -/
def stepReport (attempt : ℕ) (report : EngineReport) : Publication :=
  if attempt ≠ s.attempt then s
  else match report with
    | .verified => s.settle .verifiedLocally
    | .checkpointedByPeer => s.settle .verifiedByPeer
    | .evicted => { s with evicted := true }.fail

/-- Behind `signVote`: a verdict that is in already is not walked back. -/
def stepSigned : Publication :=
  let t := { s with stage := some .broadcasting }
  if s.state = .signing then t.setState .publishing else t

/-- Behind `broadcastBundle`. -/
def stepBroadcast : Publication :=
  let t := { s with stage := none }
  if !s.evicted && decide (s.state = .publishing) then t.setState .published else t

/-- One step; `none` where the input does not come. -/
def step : PublicationInput → Option Publication
  | .publish =>
    if s.stage.isSome then none
    else some { s with
      attempt := s.attempt + 1
      evicted := false
      stage := some .joining
      log := [] }
  | .joined =>
    if s.stage = some .joining then
      some { s.setState .signing with
        stage := some .signing
        registered := s.attempt :: s.registered }
    else none
  | .signed => if s.stage = some .signing then some s.stepSigned else none
  | .broadcast => if s.stage = some .broadcasting then some s.stepBroadcast else none
  | .throws => if s.stage.isSome then some { s with stage := none }.fail else none
  | .report attempt report =>
    if attempt ∈ s.registered then some (s.stepReport attempt report) else none

/-! ### The invariant -/

/-- The states of an attempt have only advanced, and its callbacks are not handed out before its
first state is set. -/
structure Inv (s : Publication) : Prop where
  advances : s.log.Pairwise PublishingState.Advances
  begins : .stopped ∉ s.log
  last : ∀ state ∈ s.log.getLast?, state = s.state
  registered_le : ∀ attempt ∈ s.registered, attempt ≤ s.attempt
  begun : s.attempt ∈ s.registered ∨ s.stage = some .signing ∨ s.stage = some .broadcasting →
    s.log ≠ []
  joining : s.stage = some .joining → s.log = [] ∧ s.attempt ∉ s.registered

variable {s}

lemma inv_init : init.Inv where
  advances := List.Pairwise.nil
  begins := List.not_mem_nil
  last := fun _ h => nomatch h
  registered_le := fun _ h => nomatch h
  begun := by
    rintro (h | h | h)
    · cases h
    · cases h
    · cases h
  joining := fun h => nomatch h

/-- Every state set so far leads up to the one the machine is in. -/
lemma Inv.leads_up (h : s.Inv) {state : PublishingState} (hmem : state ∈ s.log) :
    state = s.state ∨ state.Advances s.state := by
  obtain ⟨last, hlast⟩ : ∃ last, s.log.getLast? = some last :=
    ⟨_, List.getLast?_eq_some_getLast (List.ne_nil_of_mem hmem)⟩
  obtain rfl := h.last last hlast
  obtain ⟨before, hlog⟩ := List.getLast?_eq_some_iff.mp hlast
  have hadvances := h.advances
  rw [hlog, List.pairwise_append] at hadvances
  rw [hlog] at hmem
  rcases List.mem_append.mp hmem with hbefore | hsingle
  · exact .inr (hadvances.2.2 state hbefore _ (List.mem_singleton_self _))
  · exact .inl (List.mem_singleton.mp hsingle)

/-- A state is set that the machine may go on to. -/
lemma Inv.advance (h : s.Inv) {t : Publication} {state : PublishingState}
    (hadvances : s.log = [] ∨ s.state.Advances state) (hbegins : state ≠ .stopped)
    (hstate : t.state = state) (hlog : t.log = s.log ++ [state])
    (hregistered : ∀ attempt ∈ t.registered, attempt ≤ t.attempt)
    (hstage : t.stage ≠ some .joining) : t.Inv where
  advances := by
    rw [hlog, List.pairwise_append]
    refine ⟨h.advances, List.pairwise_singleton _ _, fun a ha b hb => ?_⟩
    obtain rfl := List.mem_singleton.mp hb
    rcases hadvances with hnil | hadvances
    · rw [hnil] at ha
      cases ha
    · rcases h.leads_up ha with rfl | hup
      · exact hadvances
      · exact hup.trans hadvances
  begins := by
    rw [hlog, List.mem_append, List.mem_singleton]
    rintro (hmem | heq)
    · exact h.begins hmem
    · exact hbegins heq.symm
  last := by
    intro last hlast
    rw [hlog, List.getLast?_concat] at hlast
    rw [hstate, Option.some.inj hlast]
  registered_le := hregistered
  begun := fun _ hnil => by simp [hlog] at hnil
  joining := fun hjoining => absurd hjoining hstage

/-- Nothing is set. -/
lemma Inv.keep (h : s.Inv) {t : Publication} (hlog : t.log = s.log) (hstate : t.state = s.state)
    (hattempt : t.attempt = s.attempt) (hregistered : t.registered = s.registered)
    (hbegun : s.log ≠ []) (hstage : t.stage ≠ some .joining) : t.Inv where
  advances := hlog ▸ h.advances
  begins := hlog ▸ h.begins
  last := by rw [hlog, hstate]; exact h.last
  registered_le := by rw [hregistered, hattempt]; exact h.registered_le
  begun := fun _ => hlog ▸ hbegun
  joining := fun hjoining => absurd hjoining hstage

/-- A callback of the attempt that owns the object. -/
lemma Inv.settle (h : s.Inv) (hstage : s.stage ≠ some .joining)
    {state : PublishingState} (hstate : state = .verifiedLocally ∨ state = .verifiedByPeer) :
    (s.settle state).Inv := by
  rw [Publication.settle]
  split_ifs with hdone hsame
  · exact h
  · exact h
  · simp only [Bool.or_eq_true, decide_eq_true_iff, not_or] at hdone
    have hup : s.state.Advances state := by
      obtain ⟨⟨-, hfailed⟩, hpeer⟩ := hdone
      rcases hstate with rfl | rfl
      · exact PublishingState.advances_verifiedLocally hfailed hpeer fun heq => hsame ⟨rfl, heq⟩
      · exact PublishingState.advances_verifiedByPeer hfailed hpeer
    have hbegins : state ≠ .stopped := by
      rcases hstate with rfl | rfl <;> decide
    exact h.advance (.inr hup) hbegins rfl rfl h.registered_le hstage

lemma Inv.report (h : s.Inv) {attempt : ℕ} (hmem : attempt ∈ s.registered) (report : EngineReport) :
    (s.stepReport attempt report).Inv := by
  unfold stepReport
  split_ifs with hearlier
  · exact h
  · -- the callbacks of this attempt come after its first state
    obtain rfl : attempt = s.attempt := not_not.mp hearlier
    have hstage : s.stage ≠ some .joining := fun hjoining => (h.joining hjoining).2 hmem
    cases report with
    | verified => exact h.settle hstage (.inl rfl)
    | checkpointedByPeer => exact h.settle hstage (.inr rfl)
    | evicted =>
        exact h.advance (.inr (PublishingState.advances_failed _)) nofun rfl rfl h.registered_le
          hstage

/-- **Every step keeps the invariant.** -/
theorem Inv.step (h : s.Inv) {i : PublicationInput} {s' : Publication}
    (hstep : s.step i = some s') : s'.Inv := by
  cases i with
  | publish =>
      simp only [Publication.step] at hstep
      split_ifs at hstep
      obtain rfl := Option.some.inj hstep
      have hfresh : s.attempt + 1 ∉ s.registered := fun hmem => by
        have := h.registered_le _ hmem
        omega
      exact
        { advances := List.Pairwise.nil
          begins := List.not_mem_nil
          last := fun _ hlast => nomatch hlast
          registered_le := fun attempt hmem => (h.registered_le attempt hmem).trans (Nat.le_succ _)
          begun := by
            rintro (hmem | hstage | hstage)
            · exact absurd hmem hfresh
            · cases hstage
            · cases hstage
          joining := fun _ => ⟨rfl, hfresh⟩ }
  | joined =>
      simp only [Publication.step] at hstep
      split_ifs at hstep with hstage
      obtain rfl := Option.some.inj hstep
      have hbegins : PublishingState.signing ≠ .stopped := by decide
      refine h.advance (.inl (h.joining hstage).1) hbegins rfl rfl ?_ nofun
      exact List.forall_mem_cons.mpr ⟨le_rfl, h.registered_le⟩
  | signed =>
      simp only [Publication.step] at hstep
      split_ifs at hstep with hstage
      obtain rfl := Option.some.inj hstep
      unfold stepSigned
      simp only
      split_ifs with hsigning
      · have hup : s.state.Advances .publishing := by
          rw [hsigning]
          decide
        exact h.advance (.inr hup) nofun rfl rfl h.registered_le nofun
      · exact h.keep rfl rfl rfl rfl (h.begun (.inr (.inl hstage))) nofun
  | broadcast =>
      simp only [Publication.step] at hstep
      split_ifs at hstep with hstage
      obtain rfl := Option.some.inj hstep
      unfold stepBroadcast
      simp only
      split_ifs with hpublishing
      · rw [Bool.and_eq_true, decide_eq_true_iff] at hpublishing
        have hup : s.state.Advances .published := by
          rw [hpublishing.2]
          decide
        exact h.advance (.inr hup) nofun rfl rfl h.registered_le nofun
      · exact h.keep rfl rfl rfl rfl (h.begun (.inr (.inr hstage))) nofun
  | throws =>
      simp only [Publication.step] at hstep
      split_ifs at hstep
      obtain rfl := Option.some.inj hstep
      exact h.advance (.inr (PublishingState.advances_failed _)) nofun rfl rfl h.registered_le nofun
  | report attempt report =>
      simp only [Publication.step] at hstep
      split_ifs at hstep with hmem
      obtain rfl := Option.some.inj hstep
      exact h.report hmem report

end Publication

open Publication

/-- **The states of an attempt only advance.** In every run of attempts that do not overlap, with
the engine's callbacks in any order, what is set since the attempt began goes strictly upward or
stays failed, it ends in the state the ballot shows, and a callback of an earlier attempt changes
nothing and emits nothing. -/
theorem publication_advances {s : Publication}
    (hrun : Reaches Publication.step (fun _ _ => True) init s) :
    s.log.Pairwise PublishingState.Advances ∧ .stopped ∉ s.log
      ∧ (∀ state ∈ s.log.getLast?, state = s.state)
      ∧ ∀ attempt < s.attempt, ∀ report, ∀ s' ∈ s.step (.report attempt report), s' = s := by
  have hinv : s.Inv := hrun.invariant inv_init fun _ _ _ h _ hstep => h.step hstep
  refine ⟨hinv.advances, hinv.begins, hinv.last, fun attempt hearlier report s' hs' => ?_⟩
  have hne : attempt ≠ s.attempt := hearlier.ne
  rw [Option.mem_def, Publication.step] at hs'
  split_ifs at hs'
  exact (Option.some.inj hs').symm.trans (if_pos hne)

/-- An attempt that is verified while it signs and evicted while a later one signs. -/
def republished : List PublicationInput :=
  [.publish, .joined, .report 1 .verified, .signed, .broadcast, .publish, .joined,
    .report 1 .evicted, .signed, .report 2 .checkpointedByPeer, .broadcast, .report 2 .verified]

/-- The eviction of the first attempt leaves the second one alone. -/
theorem publication_advances_republished : ∃ s : Publication,
    s.log = [.signing, .publishing, .verifiedByPeer] ∧ s.errors = 0
      ∧ s.log.Pairwise PublishingState.Advances
      ∧ ∀ s' ∈ s.step (.report 1 .evicted), s' = s := by
  have heval : (runIf Publication.step (fun _ _ => True) republished init).isSome := by decide
  obtain ⟨s, hs⟩ := Option.isSome_iff_exists.mp heval
  have hlog : (runIf Publication.step (fun _ _ => True) republished init).map
      (fun s => (s.log, s.errors, s.attempt))
        = some ([.signing, .publishing, .verifiedByPeer], 0, 2) := by
    decide
  rw [hs] at hlog
  have hvalues := Option.some.inj hlog
  obtain ⟨hadvances, -, -, hearlier⟩ := publication_advances (reaches_of_runIf hs)
  refine ⟨s, (Prod.mk.inj hvalues).1, (Prod.mk.inj (Prod.mk.inj hvalues).2).1, hadvances, ?_⟩
  have hattempt : s.attempt = 2 := (Prod.mk.inj (Prod.mk.inj hvalues).2).2
  exact hearlier 1 (by rw [hattempt]; decide) .evicted

end PubsubVoting
