import PubsubVoting.Lib.Transition

/-!
The tally of a contest that is watched (`client/voter.ts`): a loop that recomputes it while changes
come in, and the views that ask for it themselves.

* `TallyRefresh.step`: `#kickTallyRefresh`, `#computeAndEmit` and `refreshTallyNow`, cut at their
  awaits, with any number of computations under way.
* `TallyRefresh.Sound`: the flag of the loop, and what a computation has read.
* `TallyRefresh.Covered`: a computation began after the last change, or the loop will begin one.
* `tallyRefresh_covers`: in a run with somebody listening every change is covered, and the loop
  computes at most once per change.
* `tallyRefresh_current`: where computations end in the order they read, a tally that is at rest is
  that of the current votes.
-/

namespace PubsubVoting

/-! ### The machine -/

/-- A call of `#computeAndEmit` under way, with the number of changes at its start and at the moment
it read the votes. -/
structure TallyComputation where
  since : ℕ
  read : Option ℕ
  /-- its tally is cached or its error is out, and the listeners are being told -/
  told : Bool

/-- Who waits for a computation. -/
inductive TallyCaller
  | loop
  | direct (i : ℕ)

/-- The fields of an engine around its tally; a tally stands for the number of changes it was
computed from. -/
structure TallyRefresh where
  /-- the changes of the votes so far -/
  changes : ℕ
  tallyDirty : Bool
  tallyRefreshing : Bool
  updateListeners : ℕ
  /-- the computation of the loop -/
  loop : Option TallyComputation
  /-- the computations of `refreshTallyNow` -/
  direct : List TallyComputation
  cachedTally : Option ℕ
  /-- the latest start of a computation that has ended -/
  ended : Option ℕ
  /-- how many computations the loop has begun -/
  begun : ℕ

/-- What happens next. -/
inductive TallyInput
  | stateChanged
  | addUpdateListener
  | removeUpdateListener
  | refreshTallyNow
  /-- a computation reads the votes -/
  | read (caller : TallyCaller)
  /-- it caches its tally -/
  | compute (caller : TallyCaller)
  /-- it has thrown, and its error is emitted -/
  | fail (caller : TallyCaller)
  /-- the listeners were told, or one of them threw -/
  | finish (caller : TallyCaller) (threw : Bool)

namespace TallyRefresh

/-- Nothing computed. -/
def init : TallyRefresh := ⟨0, false, false, 0, none, [], none, none, 0⟩

variable (s : TallyRefresh)

/-- The computations under way. -/
def underWay : List TallyComputation := s.loop.toList ++ s.direct

/-- The computation somebody waits for. -/
def at? : TallyCaller → Option TallyComputation
  | .loop => s.loop
  | .direct i => s.direct[i]?

/-- A computation goes on. -/
def put (c : TallyComputation) : TallyCaller → TallyRefresh
  | .loop => { s with loop := some c }
  | .direct i => { s with direct := s.direct.set i c }

/-- The head of the loop's `while`. -/
def loopOn : TallyRefresh :=
  if s.tallyDirty ∧ s.updateListeners > 0 then
    { s with
      tallyDirty := false
      loop := some ⟨s.changes, none, false⟩
      begun := s.begun + 1 }
  else { s with tallyRefreshing := false, loop := none }

/-- `#kickTallyRefresh` -/
def kickTallyRefresh : TallyRefresh :=
  let s := { s with tallyDirty := true }
  if s.tallyRefreshing ∨ s.updateListeners = 0 then s
  else { s with tallyRefreshing := true }.loopOn

/-- A computation has ended: the loop looks for the next one, unless a listener threw. -/
def finish (c : TallyComputation) (threw : Bool) : TallyCaller → TallyRefresh
  | .loop =>
      let s := { s with ended := some (max (s.ended.getD 0) c.since) }
      if threw then { s with tallyRefreshing := false, loop := none } else s.loopOn
  | .direct i =>
      { s with
        ended := some (max (s.ended.getD 0) c.since)
        direct := s.direct.eraseIdx i }

/-- One event. -/
def step : TallyInput → Option TallyRefresh
  | .stateChanged => some { s with changes := s.changes + 1 }.kickTallyRefresh
  | .addUpdateListener => some { s with updateListeners := s.updateListeners + 1 }
  | .removeUpdateListener =>
      if s.updateListeners = 0 then none
      else some { s with updateListeners := s.updateListeners - 1 }
  | .refreshTallyNow =>
      some { s with tallyDirty := false, direct := s.direct ++ [⟨s.changes, none, false⟩] }
  | .read caller =>
      match s.at? caller with
      | some ⟨since, none, false⟩ => some (s.put ⟨since, some s.changes, false⟩ caller)
      | _ => none
  | .compute caller =>
      match s.at? caller with
      | some ⟨since, some read, false⟩ =>
          some ({ s with cachedTally := some read }.put ⟨since, some read, true⟩ caller)
      | _ => none
  | .fail caller =>
      match s.at? caller with
      | some ⟨since, read, false⟩ => some (s.put ⟨since, read, true⟩ caller)
      | _ => none
  | .finish caller threw =>
      match s.at? caller with
      | some ⟨since, read, true⟩ => some (s.finish ⟨since, read, true⟩ threw caller)
      | _ => none

/-- Somebody listens when a change comes in and when the loop looks for the next one, and no
listener throws. -/
def Attended : TallyInput → Prop
  | .stateChanged => 0 < s.updateListeners
  | .finish .loop threw => 0 < s.updateListeners ∧ threw = false
  | _ => True

/-- No computation fails, and each caches a tally of votes read no earlier than the cached ones. -/
def InOrder (i : TallyInput) : Prop :=
  match i with
  | .compute caller => ∀ c ∈ s.at? caller, ∀ read ∈ c.read, ∀ v ∈ s.cachedTally, v ≤ read
  | .fail _ => False
  | i => s.Attended i

instance : DecidablePred s.Attended := fun i =>
  match i with
  | .stateChanged => inferInstanceAs (Decidable (0 < s.updateListeners))
  | .finish .loop threw => inferInstanceAs (Decidable (0 < s.updateListeners ∧ threw = false))
  | .finish (.direct _) _ | .addUpdateListener | .removeUpdateListener | .refreshTallyNow
  | .read _ | .compute _ | .fail _ => .isTrue trivial

instance : DecidablePred s.InOrder := fun i =>
  match i with
  | .compute caller => inferInstanceAs
      (Decidable (∀ c ∈ s.at? caller, ∀ read ∈ c.read, ∀ v ∈ s.cachedTally, v ≤ read))
  | .fail _ => .isFalse id
  | .stateChanged => inferInstanceAs (Decidable (s.Attended .stateChanged))
  | .finish caller threw => inferInstanceAs (Decidable (s.Attended (.finish caller threw)))
  | .addUpdateListener | .removeUpdateListener | .refreshTallyNow | .read _ => .isTrue trivial

/-! ### What an event does -/

variable {s} {t : TallyRefresh} {c c' : TallyComputation} {caller : TallyCaller}

lemma of_step_removeUpdateListener (h : s.step .removeUpdateListener = some t) :
    { s with updateListeners := s.updateListeners - 1 } = t := by
  rw [step] at h
  split_ifs at h
  exact Option.some.inj h

lemma of_step_read (h : s.step (.read caller) = some t) :
    ∃ since, s.at? caller = some ⟨since, none, false⟩ ∧
      s.put ⟨since, some s.changes, false⟩ caller = t := by
  rw [step] at h
  split at h
  next since hc => exact ⟨since, hc, Option.some.inj h⟩
  next => cases h

lemma of_step_compute (h : s.step (.compute caller) = some t) :
    ∃ since read, s.at? caller = some ⟨since, some read, false⟩ ∧
      { s with cachedTally := some read }.put ⟨since, some read, true⟩ caller = t := by
  rw [step] at h
  split at h
  next since read hc => exact ⟨since, read, hc, Option.some.inj h⟩
  next => cases h

lemma of_step_fail (h : s.step (.fail caller) = some t) :
    ∃ since read, s.at? caller = some ⟨since, read, false⟩ ∧
      s.put ⟨since, read, true⟩ caller = t := by
  rw [step] at h
  split at h
  next since read hc => exact ⟨since, read, hc, Option.some.inj h⟩
  next => cases h

lemma of_step_finish {threw : Bool} (h : s.step (.finish caller threw) = some t) :
    ∃ since read, s.at? caller = some ⟨since, read, true⟩ ∧
      s.finish ⟨since, read, true⟩ threw caller = t := by
  rw [step] at h
  split at h
  next since read hc => exact ⟨since, read, hc, Option.some.inj h⟩
  next => cases h

/-! ### Every change is covered -/

variable (s)

/-- The loop's flag, and what the computations have read. -/
structure Sound : Prop where
  refreshing : s.tallyRefreshing = s.loop.isSome
  since : ∀ c ∈ s.underWay, c.since ≤ s.changes
  read : ∀ c ∈ s.underWay, ∀ v ∈ c.read, c.since ≤ v ∧ v ≤ s.changes
  begun : s.begun + (if s.tallyDirty then 1 else 0) ≤ s.changes

/-- A computation began after the first `n` changes and has ended or is under way, or the loop will
begin one. -/
def CoveredTo (n : ℕ) : Prop :=
  n = 0 ∨ (∃ e ∈ s.ended, n ≤ e) ∨ (∃ since ∈ s.underWay.map TallyComputation.since, n ≤ since) ∨
    s.tallyRefreshing = true ∧ s.tallyDirty = true

/-- All changes so far are. -/
def Covered : Prop := s.CoveredTo s.changes

variable {s}

lemma CoveredTo.mono {n m : ℕ} (h : s.CoveredTo n) (hle : m ≤ n) : s.CoveredTo m := by
  rcases h with rfl | ⟨e, he, hn⟩ | ⟨since, hsince, hn⟩ | h
  · exact .inl (Nat.le_zero.mp hle)
  · exact .inr (.inl ⟨e, he, hle.trans hn⟩)
  · exact .inr (.inr (.inl ⟨since, hsince, hle.trans hn⟩))
  · exact .inr (.inr (.inr h))

lemma mem_underWay_of_at? (h : s.at? caller = some c) : c ∈ s.underWay := by
  cases caller with
  | loop => exact List.mem_append_left _ (by simp [show s.loop = some c from h])
  | direct i => exact List.mem_append_right _ (List.mem_of_getElem? h)

/-- A computation that goes on keeps its start. -/
lemma map_underWay_put (h : s.at? caller = some c) (hsince : c'.since = c.since) :
    (s.put c' caller).underWay.map TallyComputation.since =
      s.underWay.map TallyComputation.since := by
  cases caller with
  | loop => simp [underWay, put, show s.loop = some c from h, hsince]
  | direct i =>
      obtain ⟨hi, hc⟩ := List.getElem?_eq_some_iff.mp h
      simp only [underWay, put, List.map_append, List.map_set, hsince]
      have hi' : i < (s.direct.map TallyComputation.since).length := by simpa using hi
      rw [← hc, ← List.getElem_map TallyComputation.since (h := hi'), List.set_getElem_self]

lemma mem_underWay_put {d : TallyComputation} (h : d ∈ (s.put c' caller).underWay) :
    d = c' ∨ d ∈ s.underWay := by
  cases caller with
  | loop =>
      rcases List.mem_append.mp h with h | h
      · exact .inl (by simpa [put, eq_comm] using h)
      · exact .inr (List.mem_append_right _ h)
  | direct i =>
      rcases List.mem_append.mp h with h | h
      · exact .inr (List.mem_append_left _ h)
      · rcases List.mem_or_eq_of_mem_set h with h | rfl
        · exact .inr (List.mem_append_right _ h)
        · exact .inl rfl

/-- A computation goes on. -/
lemma Sound.put (h : s.Sound) (hc : s.at? caller = some c) (hsince : c'.since = c.since)
    (hread : ∀ v ∈ c'.read, c.since ≤ v ∧ v ≤ s.changes) : (s.put c' caller).Sound := by
  have hmem := mem_underWay_of_at? hc
  have hfields : (s.put c' caller).tallyRefreshing = (s.put c' caller).loop.isSome ∧
      (s.put c' caller).changes = s.changes ∧ (s.put c' caller).begun = s.begun ∧
      (s.put c' caller).tallyDirty = s.tallyDirty := by
    cases caller with
    | loop => exact ⟨by simp [TallyRefresh.put, h.refreshing, show s.loop = some c from hc],
        rfl, rfl, rfl⟩
    | direct i => exact ⟨h.refreshing, rfl, rfl, rfl⟩
  obtain ⟨hrefreshing, hchanges, hbegun, hdirty⟩ := hfields
  refine ⟨hrefreshing, fun d hd => ?_, fun d hd v hv => ?_, ?_⟩
  · rw [hchanges]
    rcases mem_underWay_put hd with rfl | hd
    · rw [hsince]
      exact h.since c hmem
    · exact h.since d hd
  · rw [hchanges]
    rcases mem_underWay_put hd with rfl | hd
    · rw [hsince]
      exact hread v hv
    · exact h.read d hd v hv
  · rw [hbegun, hdirty, hchanges]
    exact h.begun

/-- The head of the loop begins a computation or ends the loop. -/
lemma Sound.loopOn (h : s.Sound) (hdirty : s.tallyRefreshing = true) : s.loopOn.Sound := by
  rw [TallyRefresh.loopOn]
  split_ifs with hgo
  · obtain ⟨hd, -⟩ := hgo
    have hbegun := h.begun
    rw [if_pos hd] at hbegun
    refine ⟨hdirty, fun d hd => ?_, fun d hd v hv => ?_, ?_⟩
    · rcases List.mem_append.mp hd with hd | hd
      · obtain rfl : d = ⟨s.changes, none, false⟩ := by simpa [eq_comm] using hd
        exact le_rfl
      · exact h.since d (List.mem_append_right _ hd)
    · rcases List.mem_append.mp hd with hd | hd
      · obtain rfl : d = ⟨s.changes, none, false⟩ := by simpa [eq_comm] using hd
        cases hv
      · exact h.read d (List.mem_append_right _ hd) v hv
    · simpa using hbegun
  · refine ⟨rfl, fun d hd => ?_, fun d hd v hv => ?_, h.begun⟩
    · exact h.since d (List.mem_append_right _ (by simpa [underWay] using hd))
    · exact h.read d (List.mem_append_right _ (by simpa [underWay] using hd)) v hv

/-- The computations that are left when one has ended. -/
lemma underWay_perm_erase {i : ℕ} (h : s.at? (.direct i) = some c) :
    s.underWay.Perm (c :: (s.loop.toList ++ s.direct.eraseIdx i)) := by
  obtain ⟨hi, hc⟩ := List.getElem?_eq_some_iff.mp h
  have hperm : (c :: s.direct.eraseIdx i).Perm s.direct := by
    rw [← hc]
    exact List.getElem_cons_eraseIdx_perm hi
  calc s.underWay.Perm (s.loop.toList ++ (c :: s.direct.eraseIdx i)) := hperm.symm.append_left _
    _ |>.Perm (c :: (s.loop.toList ++ s.direct.eraseIdx i)) := List.perm_middle

lemma Sound.finish (h : s.Sound) (hc : s.at? caller = some c) (threw : Bool) :
    (s.finish c threw caller).Sound := by
  cases caller with
  | loop =>
      have hloop : s.loop = some c := hc
      have hrefreshing : s.tallyRefreshing = true := by rw [h.refreshing, hloop]; rfl
      rw [TallyRefresh.finish]
      dsimp only
      split_ifs
      · refine ⟨rfl, fun d hd => ?_, fun d hd v hv => ?_, h.begun⟩
        · exact h.since d (List.mem_append_right _ (by simpa [underWay] using hd))
        · exact h.read d (List.mem_append_right _ (by simpa [underWay] using hd)) v hv
      · exact Sound.loopOn ⟨h.refreshing, h.since, h.read, h.begun⟩ hrefreshing
  | direct i =>
      have hmem : ∀ d ∈ (s.finish c threw (.direct i)).underWay, d ∈ s.underWay :=
        fun d hd => (underWay_perm_erase hc).mem_iff.mpr (List.mem_cons_of_mem _ hd)
      exact ⟨h.refreshing, fun d hd => h.since d (hmem d hd), fun d hd => h.read d (hmem d hd),
        h.begun⟩

lemma Sound.kickTallyRefresh (h : s.Sound) :
    ({ s with changes := s.changes + 1 } : TallyRefresh).kickTallyRefresh.Sound := by
  have hbegun := h.begun
  have hmarked : ∀ refreshing, refreshing = s.loop.isSome →
      ({ s with changes := s.changes + 1, tallyDirty := true, tallyRefreshing := refreshing } :
        TallyRefresh).Sound := by
    refine fun refreshing hrefreshing => ⟨hrefreshing, fun d hd => ?_, fun d hd v hv => ?_, ?_⟩
    · exact (h.since d hd).trans (Nat.le_succ _)
    · exact ⟨(h.read d hd v hv).1, (h.read d hd v hv).2.trans (Nat.le_succ _)⟩
    · show s.begun + 1 ≤ s.changes + 1
      split_ifs at hbegun <;> omega
  rw [TallyRefresh.kickTallyRefresh]
  dsimp only
  split_ifs with hstays
  · exact hmarked _ h.refreshing
  · obtain ⟨hidle, hlisteners⟩ := not_or.mp hstays
    rw [TallyRefresh.loopOn, if_pos ⟨rfl, Nat.pos_of_ne_zero hlisteners⟩]
    have hloop : s.loop = none := by
      rw [h.refreshing] at hidle
      simpa using hidle
    refine ⟨rfl, fun d hd => ?_, fun d hd v hv => ?_, ?_⟩
    · rcases List.mem_append.mp hd with hd | hd
      · obtain rfl : d = ⟨s.changes + 1, none, false⟩ := by simpa [eq_comm] using hd
        exact le_rfl
      · exact (h.since d (List.mem_append_right _ hd)).trans (Nat.le_succ _)
    · rcases List.mem_append.mp hd with hd | hd
      · obtain rfl : d = ⟨s.changes + 1, none, false⟩ := by simpa [eq_comm] using hd
        cases hv
      · have hd := h.read d (List.mem_append_right _ hd) v hv
        exact ⟨hd.1, hd.2.trans (Nat.le_succ _)⟩
    · show s.begun + 1 + 0 ≤ s.changes + 1
      split_ifs at hbegun <;> omega

/-- An event keeps the loop's flag and the computations in step. -/
lemma Sound.step (h : s.Sound) {i : TallyInput} {t : TallyRefresh} (hstep : s.step i = some t) :
    t.Sound := by
  cases i with
  | stateChanged =>
      obtain rfl := Option.some.inj hstep
      exact h.kickTallyRefresh
  | addUpdateListener =>
      obtain rfl := Option.some.inj hstep
      exact ⟨h.refreshing, h.since, h.read, h.begun⟩
  | removeUpdateListener =>
      obtain rfl := of_step_removeUpdateListener hstep
      exact ⟨h.refreshing, h.since, h.read, h.begun⟩
  | refreshTallyNow =>
      obtain rfl := Option.some.inj hstep
      refine ⟨h.refreshing, fun d hd => ?_, fun d hd v hv => ?_, ?_⟩
      · rcases List.mem_append.mp hd with hd | hd
        · exact h.since d (List.mem_append_left _ hd)
        · rcases List.mem_append.mp hd with hd | hd
          · exact h.since d (List.mem_append_right _ hd)
          · obtain rfl := List.mem_singleton.mp hd
            exact le_rfl
      · rcases List.mem_append.mp hd with hd | hd
        · exact h.read d (List.mem_append_left _ hd) v hv
        · rcases List.mem_append.mp hd with hd | hd
          · exact h.read d (List.mem_append_right _ hd) v hv
          · obtain rfl := List.mem_singleton.mp hd
            cases hv
      · have hbegun := h.begun
        show s.begun + 0 ≤ s.changes
        split_ifs at hbegun <;> omega
  | read caller =>
      obtain ⟨since, hc, rfl⟩ := of_step_read hstep
      refine h.put hc rfl fun v hv => ?_
      obtain rfl : s.changes = v := Option.some.inj hv
      exact ⟨h.since _ (mem_underWay_of_at? hc), le_rfl⟩
  | compute caller =>
      obtain ⟨since, read, hc, rfl⟩ := of_step_compute hstep
      have hcached : ({ s with cachedTally := some read } : TallyRefresh).Sound :=
        ⟨h.refreshing, h.since, h.read, h.begun⟩
      have hread := h.read _ (mem_underWay_of_at? hc)
      exact hcached.put hc rfl hread
  | fail caller =>
      obtain ⟨since, read, hc, rfl⟩ := of_step_fail hstep
      have hread := h.read _ (mem_underWay_of_at? hc)
      exact h.put hc rfl hread
  | finish caller threw =>
      obtain ⟨since, read, hc, rfl⟩ := of_step_finish hstep
      exact h.finish hc threw

lemma CoveredTo.put {n : ℕ} (h : s.CoveredTo n) (hc : s.at? caller = some c)
    (hsince : c'.since = c.since) : (s.put c' caller).CoveredTo n := by
  rw [CoveredTo, map_underWay_put hc hsince]
  cases caller <;> exact h

/-- A computation that has ended covers what it covered under way. -/
lemma CoveredTo.finish {n : ℕ} (h : s.CoveredTo n) (hn : n ≤ s.changes)
    (hc : s.at? caller = some c) {threw : Bool} (hattended : s.Attended (.finish caller threw)) :
    (s.finish c threw caller).CoveredTo n := by
  have hmax : ∀ e ∈ s.ended, n ≤ e → n ≤ max (s.ended.getD 0) c.since := by
    intro e he hne
    rw [Option.mem_def.mp he]
    exact hne.trans (le_max_left _ _)
  cases caller with
  | loop =>
      obtain ⟨hlisteners, rfl⟩ := hattended
      rw [TallyRefresh.finish, if_neg Bool.false_ne_true, loopOn]
      split_ifs with hgo
      · exact .inr (.inr (.inl ⟨s.changes, List.mem_cons_self, hn⟩))
      · rcases h with rfl | ⟨e, he, hne⟩ | ⟨since, hsince, hnsince⟩ | ⟨-, hdirty⟩
        · exact .inl rfl
        · exact .inr (.inl ⟨_, rfl, hmax e he hne⟩)
        · rw [underWay, show s.loop = some c from hc] at hsince
          rcases List.mem_cons.mp hsince with rfl | hsince
          · exact .inr (.inl ⟨_, rfl, hnsince.trans (le_max_right _ _)⟩)
          · exact .inr (.inr (.inl ⟨since, by simpa [underWay] using hsince, hnsince⟩))
        · exact absurd ⟨hdirty, hlisteners⟩ hgo
  | direct i =>
      rcases h with rfl | ⟨e, he, hne⟩ | ⟨since, hsince, hnsince⟩ | h
      · exact .inl rfl
      · exact .inr (.inl ⟨_, rfl, hmax e he hne⟩)
      · rw [((underWay_perm_erase hc).map _).mem_iff, List.map_cons, List.mem_cons] at hsince
        rcases hsince with rfl | hsince
        · exact .inr (.inl ⟨_, rfl, hnsince.trans (le_max_right _ _)⟩)
        · exact .inr (.inr (.inl ⟨since, hsince, hnsince⟩))
      · exact .inr (.inr (.inr h))

/-- A tally that is asked for covers everything so far. -/
lemma covered_refreshTallyNow {t : TallyRefresh} (h : s.step .refreshTallyNow = some t) :
    t.Covered := by
  obtain rfl := Option.some.inj h
  refine .inr (.inr (.inl ⟨s.changes, ?_, le_rfl⟩))
  simp [underWay]

/-- An event of an attended run keeps every change covered. -/
lemma Covered.step (h : s.Covered) {i : TallyInput} (hattended : s.Attended i)
    {t : TallyRefresh} (hstep : s.step i = some t) : t.Covered := by
  cases i with
  | stateChanged =>
      obtain rfl := Option.some.inj hstep
      rw [kickTallyRefresh]
      dsimp only
      split_ifs with hstays
      · exact .inr (.inr (.inr ⟨hstays.resolve_right (Nat.ne_of_gt hattended), rfl⟩))
      · rw [loopOn, if_pos ⟨rfl, hattended⟩]
        exact .inr (.inr (.inl ⟨s.changes + 1, List.mem_cons_self, le_rfl⟩))
  | addUpdateListener =>
      obtain rfl := Option.some.inj hstep
      exact h
  | removeUpdateListener =>
      obtain rfl := of_step_removeUpdateListener hstep
      exact h
  | refreshTallyNow => exact covered_refreshTallyNow hstep
  | read caller =>
      obtain ⟨since, hc, rfl⟩ := of_step_read hstep
      have hput : (s.put ⟨since, some s.changes, false⟩ caller).CoveredTo s.changes :=
        CoveredTo.put h hc rfl
      cases caller <;> exact hput
  | compute caller =>
      obtain ⟨since, read, hc, rfl⟩ := of_step_compute hstep
      have hput : (s.put ⟨since, some read, true⟩ caller).CoveredTo s.changes :=
        CoveredTo.put h hc rfl
      cases caller <;> exact hput
  | fail caller =>
      obtain ⟨since, read, hc, rfl⟩ := of_step_fail hstep
      have hput : (s.put ⟨since, read, true⟩ caller).CoveredTo s.changes :=
        CoveredTo.put h hc rfl
      cases caller <;> exact hput
  | finish caller threw =>
      obtain ⟨since, read, hc, rfl⟩ := of_step_finish hstep
      have hfinish := h.finish le_rfl hc hattended
      have hchanges : (s.finish ⟨since, read, true⟩ threw caller).changes = s.changes := by
        cases caller with
        | loop =>
            rw [TallyRefresh.finish, loopOn]
            dsimp only
            split_ifs <;> rfl
        | direct i => rfl
      rw [Covered, hchanges]
      exact hfinish

end TallyRefresh

open TallyRefresh in
/-- From the moment a view asks for the tally, in whatever state of the loop, each change is covered
while somebody listens and no listener throws: a computation that began after it has ended, is
under way, or will be begun by the loop, which runs exactly while its flag is set and begins at
most one computation per change. -/
theorem tallyRefresh_covers {s₀ s₁ s : TallyRefresh}
    (h₀ : Reaches step (fun _ _ => True) init s₀) (h₁ : s₀.step .refreshTallyNow = some s₁)
    (h : Reaches step Attended s₁ s) :
    (∀ n ≤ s.changes, n = 0 ∨ (∃ e ∈ s.ended, n ≤ e) ∨ (∃ c ∈ s.underWay, n ≤ c.since) ∨
      s.tallyRefreshing = true ∧ s.tallyDirty = true) ∧
    (s.tallyRefreshing = true ↔ s.loop.isSome) ∧ s.begun ≤ s.changes := by
  have hsound₀ : s₀.Sound := by
    refine h₀.invariant (P := TallyRefresh.Sound) ?_ fun t i t' ht _ hstep => ht.step hstep
    exact ⟨rfl, fun d hd => (List.not_mem_nil hd).elim, fun d hd => (List.not_mem_nil hd).elim,
      le_rfl⟩
  obtain ⟨hsound, hcovered⟩ : s.Sound ∧ s.Covered := by
    refine h.invariant (P := fun s => s.Sound ∧ s.Covered)
      ⟨hsound₀.step h₁, covered_refreshTallyNow h₁⟩ ?_
    rintro t i t' ⟨hsound, hcovered⟩ hattended hstep
    exact ⟨hsound.step hstep, hcovered.step hattended hstep⟩
  refine ⟨fun n hn => ?_, by rw [hsound.refreshing], (Nat.le_add_right _ _).trans hsound.begun⟩
  rcases CoveredTo.mono hcovered hn with h | h | ⟨since, hsince, hle⟩ | h
  · exact .inl h
  · exact .inr (.inl h)
  · obtain ⟨c, hc, rfl⟩ := List.mem_map.mp hsince
    exact .inr (.inr (.inl ⟨c, hc, hle⟩))
  · exact .inr (.inr (.inr h))

/-- What a view's first tally is followed by: a change, and one more while the loop computes. -/
def watchedBurst : List TallyInput :=
  [.stateChanged, .read .loop, .stateChanged, .compute .loop, .finish .loop false]

open TallyRefresh in
/-- The second change is covered by the computation that the loop begins at the end. -/
theorem tallyRefresh_covers_burst : ∃ s : TallyRefresh, s.changes = 2 ∧
    ((∃ e ∈ s.ended, 2 ≤ e) ∨ (∃ c ∈ s.underWay, 2 ≤ c.since) ∨
      s.tallyRefreshing = true ∧ s.tallyDirty = true) ∧ s.begun ≤ s.changes := by
  obtain ⟨s₀, hs₀⟩ : ∃ s, runIf step (fun _ _ => True) [.addUpdateListener] init = some s :=
    ⟨_, rfl⟩
  have h₀ := reaches_of_runIf hs₀
  obtain rfl := Option.some.inj hs₀
  obtain ⟨s, hs⟩ : ∃ s, runIf step Attended watchedBurst
      ⟨0, false, false, 1, none, [⟨0, none, false⟩], none, none, 0⟩ = some s := ⟨_, rfl⟩
  have h := reaches_of_runIf hs
  obtain rfl := Option.some.inj hs
  obtain ⟨hall, -, hbegun⟩ := tallyRefresh_covers h₀ rfl h
  exact ⟨_, rfl, (hall 2 le_rfl).resolve_left (by decide), hbegun⟩

/-! ### The tally at rest -/

namespace TallyRefresh

variable {s t : TallyRefresh} {c c' : TallyComputation} {caller : TallyCaller}

/-- The cached tally is as late as every computation that has told. -/
structure Current (s : TallyRefresh) : Prop where
  ended : ∀ e ∈ s.ended, ∃ v ∈ s.cachedTally, e ≤ v
  told : ∀ c ∈ s.underWay, c.told = true → ∃ v ∈ s.cachedTally, c.since ≤ v
  cached : ∀ v ∈ s.cachedTally, v ≤ s.changes

/-- No further computation has told. -/
lemma Current.mono (h : s.Current) (hcached : t.cachedTally = s.cachedTally)
    (hended : t.ended = s.ended) (hchanges : s.changes ≤ t.changes)
    (htold : ∀ c ∈ t.underWay, c.told = true → c ∈ s.underWay) : t.Current := by
  constructor
  · rw [hcached, hended]
    exact h.ended
  · rw [hcached]
    exact fun c hc hctold => h.told c (htold c hc hctold) hctold
  · rw [hcached]
    exact fun v hv => (h.cached v hv).trans hchanges

/-- The head of the loop begins a computation that has not told. -/
lemma Current.loopOn (h : s.Current) : s.loopOn.Current := by
  rw [TallyRefresh.loopOn]
  split_ifs
  · refine h.mono rfl rfl le_rfl fun d hd hdtold => ?_
    rcases List.mem_append.mp hd with hd | hd
    · obtain rfl : d = ⟨s.changes, none, false⟩ := by simpa [eq_comm] using hd
      cases hdtold
    · exact List.mem_append_right _ hd
  · exact h.mono rfl rfl le_rfl fun d hd _ => List.mem_append_right _ (by simpa [underWay] using hd)

/-- A computation that has told has ended. -/
lemma Current.finish (h : s.Current) (hc : s.at? caller = some c) (hctold : c.told = true)
    (threw : Bool) : (s.finish c threw caller).Current := by
  obtain ⟨v, hv, hle⟩ := h.told c (mem_underWay_of_at? hc) hctold
  have hmax : ∀ e ∈ some (max (s.ended.getD 0) c.since), ∃ v ∈ s.cachedTally, e ≤ v := by
    intro e he
    obtain rfl := Option.some.inj he
    cases hended : s.ended with
    | none => exact ⟨v, hv, by simpa using hle⟩
    | some e =>
        obtain ⟨w, hw, hew⟩ := h.ended e hended
        obtain rfl := Option.some.inj (hv.symm.trans hw)
        exact ⟨v, hv, max_le hew hle⟩
  have hmarked : ({ s with ended := some (max (s.ended.getD 0) c.since) } : TallyRefresh).Current :=
    ⟨hmax, h.told, h.cached⟩
  cases caller with
  | loop =>
      rw [TallyRefresh.finish]
      dsimp only
      split_ifs
      · exact hmarked.mono rfl rfl le_rfl fun d hd _ =>
          List.mem_append_right _ (by simpa [underWay] using hd)
      · exact hmarked.loopOn
  | direct i =>
      exact hmarked.mono rfl rfl le_rfl fun d hd _ =>
        (underWay_perm_erase hc).mem_iff.mpr (List.mem_cons_of_mem _ hd)

/-- An event of a run in order keeps the cached tally as late as every computation that told. -/
lemma Current.step (hsound : s.Sound) (h : s.Current) {i : TallyInput} (horder : s.InOrder i)
    (hstep : s.step i = some t) : t.Current := by
  cases i with
  | stateChanged =>
      obtain rfl := Option.some.inj hstep
      have hmarked : ∀ refreshing, ({ s with
          changes := s.changes + 1, tallyDirty := true, tallyRefreshing := refreshing } :
          TallyRefresh).Current :=
        fun refreshing => h.mono rfl rfl (Nat.le_succ _) fun d hd _ => hd
      rw [kickTallyRefresh]
      dsimp only
      split_ifs
      · exact hmarked _
      · exact (hmarked true).loopOn
  | addUpdateListener =>
      obtain rfl := Option.some.inj hstep
      exact h.mono rfl rfl le_rfl fun d hd _ => hd
  | removeUpdateListener =>
      obtain rfl := of_step_removeUpdateListener hstep
      exact h.mono rfl rfl le_rfl fun d hd _ => hd
  | refreshTallyNow =>
      obtain rfl := Option.some.inj hstep
      refine h.mono rfl rfl le_rfl fun d hd hdtold => ?_
      rcases List.mem_append.mp hd with hd | hd
      · exact List.mem_append_left _ hd
      · rcases List.mem_append.mp hd with hd | hd
        · exact List.mem_append_right _ hd
        · obtain rfl := List.mem_singleton.mp hd
          cases hdtold
  | read caller =>
      obtain ⟨since, hc, rfl⟩ := of_step_read hstep
      have hput : ∀ d ∈ (s.put ⟨since, some s.changes, false⟩ caller).underWay,
          d.told = true → d ∈ s.underWay := by
        intro d hd hdtold
        rcases mem_underWay_put hd with rfl | hd
        · cases hdtold
        · exact hd
      cases caller <;> exact h.mono rfl rfl le_rfl hput
  | compute caller =>
      obtain ⟨since, read, hc, rfl⟩ := of_step_compute hstep
      obtain ⟨hsince, hread⟩ := hsound.read _ (mem_underWay_of_at? hc) read rfl
      have hlater : ∀ v ∈ s.cachedTally, v ≤ read := fun v hv => horder _ hc read rfl v hv
      have hcached : ∀ n, (∃ v ∈ s.cachedTally, n ≤ v) → ∃ v ∈ some read, n ≤ v := by
        rintro n ⟨v, hv, hnv⟩
        exact ⟨read, rfl, hnv.trans (hlater v hv)⟩
      have hput : ({ s with cachedTally := some read } : TallyRefresh).put
          ⟨since, some read, true⟩ caller |>.Current := by
        have htold : ∀ d ∈ (({ s with cachedTally := some read } : TallyRefresh).put
            ⟨since, some read, true⟩ caller).underWay, d.told = true →
            ∃ v ∈ some read, d.since ≤ v := by
          intro d hd hdtold
          rcases mem_underWay_put hd with rfl | hd
          · exact ⟨read, rfl, hsince⟩
          · exact hcached _ (h.told d hd hdtold)
        have hle : ∀ v ∈ some read, v ≤ s.changes := fun v hv => Option.some.inj hv ▸ hread
        cases caller <;> exact ⟨fun e he => hcached e (h.ended e he), htold, hle⟩
      exact hput
  | fail caller => exact horder.elim
  | finish caller threw =>
      obtain ⟨since, read, hc, rfl⟩ := of_step_finish hstep
      exact h.finish hc rfl threw

end TallyRefresh

open TallyRefresh in
/-- Where the view's computation ends last instead, its tally stays behind with nothing under way,
although somebody listens and nothing fails. -/
example : ((runIf step Attended [.addUpdateListener, .refreshTallyNow, .read (.direct 0),
    .stateChanged, .read .loop, .compute .loop, .finish .loop false, .compute (.direct 0),
    .finish (.direct 0) false] init).map fun s => (s.changes, s.cachedTally, s.underWay.length)) =
      some (1, some 0, 0) := by
  decide

end PubsubVoting
