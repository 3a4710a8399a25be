import PubsubVoting.Client.RootSteps

/-!
Calls of `rootRecord` that throw: at the head read, at the encode, or at a put of a block.

* `RootState.stepFailable`: the engine, where what a call awaits may be rejected.
* `RootState.Outdated`: the record cached for a bucket is older than a marked change.
* `RootState.ReEncodes`, `RootState.PersistsCurrent`: what the next call, and the retry of a
  snapshot write, have to do then.
* `failedEncode_keeps_iff`: they do it exactly if the flag is set when the call throws, or the
  record is not outdated.
* `failedEncode_byStage`: a call that nothing interrupts loses an invalidation where its encode or a
  put throws, and not where its head read does.
* `failedEncode_pins`: a failed put leaves the old record cached with the flag clear.
-/

namespace PubsubVoting

/-- What happens to an engine whose calls may throw. -/
inductive FailableInput where
  | engine (i : RootInput)
  /-- what a call awaits is rejected: the head read, the encode or a put -/
  | throws (k : ℕ)

namespace RootState

section

variable (C : Codecs) (deps : CrdtDeps) (s : RootState)

/-- A call that throws leaves everything else as it is by then, the flag it consumed included. -/
def stepThrows (k : ℕ) : RootCall → Option RootState
  | .heading => some { s with calls := s.calls.delete k }
  | .read _ => none
  | .encoding _ => some { s with calls := s.calls.delete k }

/-- One step of an engine whose calls may throw. -/
def stepFailable : FailableInput → Option RootState
  | .engine i => s.step C deps i
  | .throws k => (s.calls.get? k).bind (s.stepThrows k)

/-! ### What a failure must not undo -/

/-- The record cached for a bucket is of winners that were taken before a marked change. -/
def Outdated (bucket : ℕ) : Prop := ∃ c ∈ s.cache, c.bucket = bucket ∧ c.since < s.marks

/-- Where the record of a bucket is outdated, the next call with this bucket takes the winners of
now and encodes them. -/
def ReEncodes (bucket : ℕ) : Prop := s.Outdated bucket → ∀ k,
  (s.serve deps k bucket).calls.get? k
    = some (.encoding ⟨bucket, s.held.served deps bucket, s.marks⟩)

/-- What `#writeSnapshot` persists behind a call with this bucket is not outdated: it is the record
that was cached all along, or one of the winners of now. -/
def PersistsCurrent (bucket : ℕ) : Prop := ∀ k t,
  (∀ a ∈ s.answers, a.call ≠ k) → s.calls.get? k = none →
    Reaches (step C deps) (fun _ i => i.ofCall k = true) s t →
      ∀ a ∈ t.answers, a.call = k → a.bucket = bucket → ∀ c ∈ t.cache,
        s.marks ≤ c.since ∧ (s.cache = some c ∨ c.winners = s.held.served deps c.bucket)

end

section

variable {C : Codecs} {deps : CrdtDeps} {s t t' : RootState} {k bucket : ℕ}

/-- Nothing but the call changes. -/
lemma stepThrows_eq (h : s.stepFailable C deps (.throws k) = some t) :
    t = { s with calls := s.calls.delete k } := by
  obtain ⟨call, -, hcall⟩ := Option.bind_eq_some_iff.mp h
  cases call with
  | heading => exact (Option.some.inj hcall).symm
  | read bucket => cases hcall
  | encoding e => exact (Option.some.inj hcall).symm

/-- With the flag clear, the record cached for the bucket is served as it is. -/
lemma serve_of_cached {c : CachedRoot} (hclear : s.dirty = false) (hc : s.cache = some c) :
    s.serve deps k c.bucket =
      { s with
        calls := s.calls.delete k
        answers := s.answers ++ [⟨k, c.bucket, c.record⟩] } := by
  have hsome : (if s.dirty then none else s.cache.filter fun c' => c'.bucket = c.bucket)
      = some c := by
    rw [hclear, hc]
    simp
  rw [RootState.serve, hsome]

/-- With the flag set, or no record cached for the bucket, the winners of now are taken. -/
lemma serve_of_not_cached (h : s.dirty = true ∨ ∀ c ∈ s.cache, c.bucket ≠ bucket) :
    s.serve deps k bucket =
      { s with
        dirty := false
        calls := s.calls.set k (.encoding ⟨bucket, s.held.served deps bucket, s.marks⟩) } := by
  have hnone : (if s.dirty then none else s.cache.filter fun c => c.bucket = bucket) = none := by
    rcases h with hdirty | hcache
    · rw [if_pos hdirty]
    · split_ifs
      · rfl
      · rw [Option.filter_eq_none_iff]
        exact fun c hc => by simpa using hcache c hc
  rw [RootState.serve, hnone]

/-- The next call with a bucket, on its own. -/
lemma reEncodes_iff : s.ReEncodes deps bucket ↔ s.dirty = true ∨ ¬ s.Outdated bucket := by
  constructor
  · intro h
    by_contra hnot
    rw [not_or, not_not, Bool.not_eq_true] at hnot
    obtain ⟨hclear, houtdated⟩ := hnot
    obtain ⟨c, hc, rfl, hsince⟩ := houtdated
    -- call `0` is served the cached record
    have hencodes := h ⟨c, hc, rfl, hsince⟩ 0
    rw [serve_of_cached hclear hc, JsMap.get?_delete, if_pos rfl] at hencodes
    cases hencodes
  · rintro (hdirty | hcurrent) houtdated k
    · rw [serve_of_not_cached (.inl hdirty), JsMap.get?_set, if_pos rfl]
    · exact absurd houtdated hcurrent

/-! ### The retry of a write -/

/-- A call of its own on the way from `s`: either the flag is still to be consumed, or the call
encodes the winners of now, or what is cached for the bucket is not outdated. -/
structure Retrying (deps : CrdtDeps) (s : RootState) (k bucket : ℕ) (t : RootState) : Prop where
  held : t.held = s.held
  marks : t.marks = s.marks
  taken : ∀ e, t.calls.get? k = some (.encoding e) →
    e.winners = s.held.served deps e.bucket ∧ e.since = s.marks
  origin : ∀ c ∈ t.cache, s.cache = some c ∨ c.winners = s.held.served deps c.bucket
  pending : t.dirty = true ∨ (∃ e, t.calls.get? k = some (.encoding e)) ∨
    ∀ c ∈ t.cache, c.bucket = bucket → s.marks ≤ c.since
  answered : ∀ a ∈ t.answers, a.call = k → a.bucket = bucket → ∀ c ∈ t.cache, s.marks ≤ c.since

/-- A retry before its first step. -/
lemma retrying_start (h : s.dirty = true ∨ ¬ s.Outdated bucket) (hcall : s.calls.get? k = none)
    (hnew : ∀ a ∈ s.answers, a.call ≠ k) : Retrying deps s k bucket s where
  held := rfl
  marks := rfl
  taken := fun e he => by rw [hcall] at he; cases he
  origin := fun c hc => .inl hc
  pending := by
    rcases h with hdirty | hcurrent
    · exact .inl hdirty
    · refine .inr (.inr fun c hc hbucket => ?_)
      by_contra hlt
      exact hcurrent ⟨c, hc, hbucket, not_le.mp hlt⟩
  answered := fun a ha hk => absurd hk (hnew a ha)

/-- The retry gets its bucket. -/
lemma Retrying.serve (h : Retrying deps s k bucket t)
    (hnot : ∀ e, t.calls.get? k ≠ some (.encoding e)) (b : ℕ) :
    Retrying deps s k bucket (t.serve deps k b) := by
  by_cases hcached : t.dirty = false ∧ ∃ c ∈ t.cache, c.bucket = b
  · -- the cached record is returned
    obtain ⟨hclear, c, hc, rfl⟩ := hcached
    have hcurrent : ∀ c ∈ t.cache, c.bucket = bucket → s.marks ≤ c.since := by
      rcases h.pending with hdirty | ⟨e, he⟩ | hcurrent
      · rw [hclear] at hdirty
        cases hdirty
      · exact absurd he (hnot e)
      · exact hcurrent
    rw [serve_of_cached hclear hc]
    refine ⟨h.held, h.marks, fun e he => ?_, h.origin, .inr (.inr hcurrent), fun a ha hk hb => ?_⟩
    · rw [JsMap.get?_delete, if_pos rfl] at he
      cases he
    · rcases List.mem_append.mp ha with ha | ha
      · exact h.answered a ha hk hb
      · obtain rfl := List.mem_singleton.mp ha
        intro c' hc'
        obtain rfl : c = c' := Option.some.inj (hc.symm.trans hc')
        exact hcurrent c hc hb
  · -- the winners of now are taken
    have hmiss : t.dirty = true ∨ ∀ c ∈ t.cache, c.bucket ≠ b := by
      rw [not_and_or, Bool.not_eq_false] at hcached
      exact hcached.imp_right fun hnone c hc hb => hnone ⟨c, hc, hb⟩
    rw [serve_of_not_cached hmiss]
    refine ⟨h.held, h.marks, fun e he => ?_, h.origin,
      .inr (.inl ⟨⟨b, t.held.served deps b, t.marks⟩, ?_⟩), h.answered⟩
    · rw [JsMap.get?_set, if_pos rfl] at he
      obtain rfl := RootCall.encoding.inj (Option.some.inj he)
      exact ⟨by rw [← h.held], h.marks⟩
    · rw [JsMap.get?_set, if_pos rfl]

/-- The retry changes its place without encoding. -/
lemma Retrying.set_call (h : Retrying deps s k bucket t)
    (hnot : ∀ e, t.calls.get? k ≠ some (.encoding e)) {call : RootCall}
    (hcall : ∀ e, call ≠ .encoding e) (b : ℕ) :
    Retrying deps s k bucket { t with currentBucket := b, calls := t.calls.set k call } := by
  refine ⟨h.held, h.marks, fun e he => ?_, h.origin, ?_, h.answered⟩
  · rw [JsMap.get?_set, if_pos rfl] at he
    exact absurd (Option.some.inj he) (hcall e)
  · rcases h.pending with hdirty | ⟨e, he⟩ | hcurrent
    · exact .inl hdirty
    · exact absurd he (hnot e)
    · exact .inr (.inr hcurrent)

/-- The encode of the retry ends. -/
lemma Retrying.finish (h : Retrying deps s k bucket t) {e : RootEncode}
    (hcall : t.calls.get? k = some (.encoding e)) (record : FetchRootRecord)
    (blocks : List CheckpointBlock) (answers : List RootAnswer) :
    Retrying deps s k bucket
      { t with calls := t.calls.delete k, cache := some ⟨e, record, blocks⟩, answers } := by
  obtain ⟨hwinners, hsince⟩ := h.taken e hcall
  refine ⟨h.held, h.marks, fun e' he => ?_, ?_, .inr (.inr ?_), ?_⟩
  · rw [JsMap.get?_delete, if_pos rfl] at he
    cases he
  · rintro c ⟨⟩
    exact .inr hwinners
  · rintro c ⟨⟩ -
    exact hsince.ge
  · rintro a - - - c ⟨⟩
    exact hsince.ge

lemma Retrying.step (h : Retrying deps s k bucket t) {i : RootInput} (hof : i.ofCall k = true)
    (hstep : t.step C deps i = some t') : Retrying deps s k bucket t' := by
  cases callStep_of_ofCall hof hstep with
  | serves _ b _ hnot => exact h.serve hnot b
  | asks hnot => exact h.set_call hnot (by simp) t.currentBucket
  | reads b hnot => exact h.set_call hnot (by simp) b
  | finishes e record blocks hcall _ => exact h.finish hcall record blocks _

lemma persistsCurrent_of (h : s.dirty = true ∨ ¬ s.Outdated bucket) :
    s.PersistsCurrent C deps bucket := by
  intro k t hnew hcall hrun a ha hk hb c hc
  have hretry : Retrying deps s k bucket t := hrun.invariant (retrying_start h hcall hnew)
    fun _ _ _ h hof hstep => h.step hof hstep
  exact ⟨hretry.answered a ha hk hb c hc, hretry.origin c hc⟩

/-- What the next call and the retry have to do hangs on the flag alone. -/
lemma keeps_iff : s.ReEncodes deps bucket ∧ s.PersistsCurrent C deps bucket ↔
    s.dirty = true ∨ ¬ s.Outdated bucket :=
  ⟨fun hkeeps => reEncodes_iff.mp hkeeps.1, fun h => ⟨reEncodes_iff.mpr h, persistsCurrent_of h⟩⟩

/-! ### The stage of a call -/

/-- A call on its way from `s` has left everything as it was, the flag too until it encodes. -/
structure Underway (s : RootState) (k : ℕ) (t : RootState) : Prop where
  marks : t.marks = s.marks
  cache : t.cache = s.cache
  flag : (∀ e, t.calls.get? k ≠ some (.encoding e)) → t.dirty = s.dirty
  spent : ∀ e, t.calls.get? k = some (.encoding e) → t.dirty = false

lemma Underway.outdated_iff (h : Underway s k t) : t.Outdated bucket ↔ s.Outdated bucket := by
  rw [Outdated, Outdated, h.cache, h.marks]

/-- The call changes its place without encoding. -/
lemma Underway.set_call (h : Underway s k t) (hnot : ∀ e, t.calls.get? k ≠ some (.encoding e))
    {call : RootCall} (hcall : ∀ e, call ≠ .encoding e) (b : ℕ) :
    Underway s k { t with currentBucket := b, calls := t.calls.set k call } where
  marks := h.marks
  cache := h.cache
  flag := fun _ => h.flag hnot
  spent := fun e he => by
    rw [JsMap.get?_set, if_pos rfl] at he
    exact absurd (Option.some.inj he) (hcall e)

/-- A step of a call forgets no answer. -/
lemma mem_answers_step {i : RootInput} (hof : i.ofCall k = true)
    (hstep : t.step C deps i = some t') {a : RootAnswer} (ha : a ∈ t.answers) :
    a ∈ t'.answers := by
  cases callStep_of_ofCall hof hstep with
  | serves _ b _ _ =>
      rw [RootState.serve]
      split
      · exact List.mem_append_left _ ha
      · exact ha
  | asks => exact ha
  | reads => exact ha
  | finishes => exact List.mem_append_left _ ha

/-- A step of the call: it returns, or it is still on its way. -/
lemma Underway.step (h : Underway s k t) {i : RootInput} (hof : i.ofCall k = true)
    (hstep : t.step C deps i = some t') :
    (∃ a ∈ t'.answers, a.call = k) ∨ Underway s k t' := by
  cases callStep_of_ofCall hof hstep with
  | serves _ b _ _ =>
      by_cases hcached : t.dirty = false ∧ ∃ c ∈ t.cache, c.bucket = b
      · obtain ⟨hclear, c, hc, rfl⟩ := hcached
        rw [serve_of_cached hclear hc]
        exact .inl ⟨_, List.mem_append_right _ (List.mem_singleton_self _), rfl⟩
      · have hmiss : t.dirty = true ∨ ∀ c ∈ t.cache, c.bucket ≠ b := by
          rw [not_and_or, Bool.not_eq_false] at hcached
          exact hcached.imp_right fun hnone c hc hb => hnone ⟨c, hc, hb⟩
        rw [serve_of_not_cached hmiss]
        refine .inr ⟨h.marks, h.cache, fun hnot => ?_, fun _ _ => rfl⟩
        exact absurd ((JsMap.get?_set _ _ _ _).trans (if_pos rfl)) (hnot _)
  | asks hnot => exact .inr (h.set_call hnot (by simp) t.currentBucket)
  | reads b hnot => exact .inr (h.set_call hnot (by simp) b)
  | finishes e record blocks _ _ =>
      exact .inl ⟨_, List.mem_append_right _ (List.mem_singleton_self _), rfl⟩

end

end RootState

open RootState

/-- **A call that throws keeps the invalidation exactly if it throws with the flag set, or nothing
was marked since the winners of the cached record were taken.** Then the next call with the bucket
re-encodes if it has to, and the retry of a snapshot write persists nothing outdated; else the next
call with this bucket returns the outdated record. -/
theorem failedEncode_keeps_iff {C : Codecs} {deps : CrdtDeps} {s t : RootState} {k bucket : ℕ}
    (h : s.stepFailable C deps (.throws k) = some t) :
    t.ReEncodes deps bucket ∧ t.PersistsCurrent C deps bucket ↔
      s.dirty = true ∨ ¬ s.Outdated bucket := by
  have hflag : (t.dirty = true ∨ ¬ t.Outdated bucket) ↔ (s.dirty = true ∨ ¬ s.Outdated bucket) := by
    rw [stepThrows_eq h]
    rfl
  exact keeps_iff.trans hflag

/-- **The stage decides.** A call starts in `s₀`, nothing interrupts it, and it throws in `s`. At
its head read the flag is as it was, and an invalidation that the flag stood for is kept; at its
encode or a put the flag is spent, and nothing is kept but what was not outdated. -/
theorem failedEncode_byStage {C : Codecs} {deps : CrdtDeps} {s₀ s t : RootState} {k bucket : ℕ}
    (hstart : ∀ e, s₀.calls.get? k ≠ some (.encoding e))
    (hrun : Reaches (step C deps) (fun _ i => i.ofCall k = true) s₀ s)
    (hopen : ∀ a ∈ s.answers, a.call ≠ k) (h : s.stepFailable C deps (.throws k) = some t) :
    (s.calls.get? k = some .heading →
      (t.ReEncodes deps bucket ∧ t.PersistsCurrent C deps bucket ↔
        s₀.dirty = true ∨ ¬ s₀.Outdated bucket)) ∧
    ∀ e, s.calls.get? k = some (.encoding e) →
      (t.ReEncodes deps bucket ∧ t.PersistsCurrent C deps bucket ↔ ¬ s₀.Outdated bucket) := by
  have hunderway : (∃ a ∈ s.answers, a.call = k) ∨ Underway s₀ k s := by
    have hbefore : Underway s₀ k s₀ :=
      ⟨rfl, rfl, fun _ => rfl, fun e he => absurd he (hstart e)⟩
    refine hrun.invariant (P := fun s => (∃ a ∈ s.answers, a.call = k) ∨ Underway s₀ k s)
      (.inr hbefore) fun s i s' hs hof hstep => ?_
    rcases hs with ⟨a, ha, hk⟩ | hs
    · exact .inl ⟨a, mem_answers_step hof hstep ha, hk⟩
    · exact hs.step hof hstep
  have hs : Underway s₀ k s :=
    hunderway.resolve_left fun ⟨a, ha, hk⟩ => hopen a ha hk
  have houtdated : t.Outdated bucket ↔ s₀.Outdated bucket := by
    rw [stepThrows_eq h]
    exact hs.outdated_iff
  have hdirty : t.dirty = s.dirty := by rw [stepThrows_eq h]
  refine ⟨fun hheading => ?_, fun e hencoding => ?_⟩
  · rw [keeps_iff, houtdated, hdirty, hs.flag fun e he => by rw [hheading] at he; cases he]
  · rw [keeps_iff, houtdated, hdirty, hs.spent e hencoding]
    simp

/-! ### A put that fails -/

/-- The record of one winner is cached, a second bundle is admitted, and call `1` encodes. -/
def encodesTwo : List RootInput :=
  gossipOf 1 ++ callEncodes 0 ++ [.finish 0] ++ gossipOf 2 ++ callEncodes 1

/-- The same, and a third bundle is admitted while the call encodes. -/
def encodesMeanwhile : List RootInput := encodesTwo ++ gossipOf 3

/-- What is read off the states before and behind a call that throws, and behind the next one. -/
structure FailureSummary where
  flag : Bool
  marks : ℕ
  /-- bucket and age of the cached record -/
  cached : Option (ℕ × ℕ)
  served : ℕ
  /-- call, bucket and number of winners of each answer -/
  after : List (ℕ × ℕ × ℕ)
  deriving DecidableEq

/-- Call `1` throws behind some inputs, and call `2` runs alone behind that. -/
def throwThenCall (is : List RootInput) : Option FailureSummary :=
  (runIf (stepFailable .reference tenBuckets) (fun _ _ => True) (is.map .engine) init).bind fun s =>
    (s.stepFailable .reference tenBuckets (.throws 1)).bind fun t =>
      (runIf (step .reference tenBuckets) (fun _ i => i.ofCall 2 = true) (callEncodes 2) t).map
        fun u =>
          { flag := s.dirty
            marks := s.marks
            cached := s.cache.map fun c => (c.bucket, c.since)
            served := (t.held.served tenBuckets 0).length
            after := u.answers.map fun a => (a.call, a.bucket, a.record.count) }

lemma outdated_of_values {s : RootState} {bucket since : ℕ}
    (h : s.cache.map (fun c => (c.bucket, c.since)) = some (bucket, since))
    (hsince : since < s.marks) : s.Outdated bucket := by
  obtain ⟨c, hc, hvalues⟩ := Option.map_eq_some_iff.mp h
  simp only [Prod.mk.injEq] at hvalues
  exact ⟨c, hc, hvalues.1, by rwa [hvalues.2]⟩

/-- A change during the encode sets the flag again, and the failure of the encode leaves it set. -/
theorem failedEncode_keeps_iff_meanwhile : ∃ s t : RootState,
    s.stepFailable .reference tenBuckets (.throws 1) = some t ∧ t.Outdated 0 ∧
      t.ReEncodes tenBuckets 0 ∧ t.PersistsCurrent .reference tenBuckets 0 := by
  have heval : throwThenCall encodesMeanwhile
      = some ⟨true, 3, some (0, 1), 3, [(0, 0, 1)]⟩ := by decide +kernel
  obtain ⟨s, -, heval⟩ := Option.bind_eq_some_iff.mp heval
  obtain ⟨t, ht, heval⟩ := Option.bind_eq_some_iff.mp heval
  obtain ⟨u, -, heval⟩ := Option.map_eq_some_iff.mp heval
  simp only [FailureSummary.mk.injEq] at heval
  obtain ⟨hdirty, hmarks, hcached, -, -⟩ := heval
  have houtdated : s.Outdated 0 := outdated_of_values hcached (by rw [hmarks]; decide)
  refine ⟨s, t, ht, ?_, (failedEncode_keeps_iff ht).mpr (.inl hdirty)⟩
  rw [stepThrows_eq ht]
  exact houtdated

/-- **A failed put pins the old record**: with two winners, the next call returns the record of one,
and a snapshot write would persist it. -/
theorem failedEncode_pins : ∃ s t u : RootState,
    Reaches (stepFailable .reference tenBuckets) (fun _ _ => True) init s
      ∧ s.stepFailable .reference tenBuckets (.throws 1) = some t
      ∧ ¬ (t.ReEncodes tenBuckets 0 ∧ t.PersistsCurrent .reference tenBuckets 0)
      ∧ Reaches (step .reference tenBuckets) (fun _ i => i.ofCall 2 = true) t u
      ∧ (t.held.served tenBuckets 0).length = 2
      ∧ ∃ a ∈ u.answers, a.call = 2 ∧ a.bucket = 0 ∧ a.record.count = 1 := by
  have heval : throwThenCall encodesTwo
      = some ⟨false, 2, some (0, 1), 2, [(0, 0, 1), (2, 0, 1)]⟩ := by decide +kernel
  obtain ⟨s, hs, heval⟩ := Option.bind_eq_some_iff.mp heval
  obtain ⟨t, ht, heval⟩ := Option.bind_eq_some_iff.mp heval
  obtain ⟨u, hu, heval⟩ := Option.map_eq_some_iff.mp heval
  simp only [FailureSummary.mk.injEq] at heval
  obtain ⟨hclear, hmarks, hcached, hserved, hafter⟩ := heval
  have houtdated : s.Outdated 0 := outdated_of_values hcached (by rw [hmarks]; decide)
  have hnot : ¬ t.ReEncodes tenBuckets 0 := by
    rw [reEncodes_iff, stepThrows_eq ht]
    rintro (hdirty | hcurrent)
    · rw [hclear] at hdirty
      cases hdirty
    · exact hcurrent houtdated
  have hmem : (2, 0, 1) ∈ u.answers.map fun a => (a.call, a.bucket, a.record.count) := by
    rw [hafter]
    simp
  obtain ⟨a, ha, heq⟩ := List.mem_map.mp hmem
  simp only [Prod.mk.injEq] at heq
  exact ⟨s, t, u, reaches_of_runIf hs, ht, fun h => hnot h.1, reaches_of_runIf hu, hserved, a, ha,
    heq⟩

end PubsubVoting
