import PubsubVoting.Client.RootRecord

/-!
What one step of an engine does to its calls of `rootRecord`, its cached record, its bucket and its
prunes.

* `RootState.takesFor`: the call that takes its winners in a step.
* `RootState.encoding_step`: an encode under way took its winners before, or takes them in this
  step.
* `RootState.cache_step`: the cached record is that of an encode that ends, or the one before.
* `RootState.currentBucket_step`, `RootState.prunes_step`: heads read, and prunes begun.
-/

namespace PubsubVoting

/-- The head that a step reads. -/
def RootInput.readBucket : RootInput → ℕ
  | .head bucket => bucket
  | .headRead _ bucket => bucket
  | _ => 0

namespace RootState

/-! ### The calls, and the cached record -/

/-- The call awaits its encode. -/
def isEncoding (r : RootState) (k : ℕ) : Bool :=
  match r.calls.get? k with
  | some (.encoding _) => true
  | _ => false

/-- The call that takes its winners in a step, by the state behind it. -/
def takesFor (r : RootState) : RootInput → Option ℕ
  | .call k => if r.isEncoding k then some k else none
  | .resume k => if r.isEncoding k then some k else none
  | _ => none

variable {C : Codecs} {deps : CrdtDeps} {s s' : RootState} {i : RootInput}

lemma isEncoding_iff {r : RootState} {k : ℕ} :
    r.isEncoding k = true ↔ ∃ e, r.calls.get? k = some (.encoding e) := by
  rw [isEncoding]
  cases h : r.calls.get? k with
  | none => simp
  | some call => cases call <;> simp

/-- Only the steps of the calls change where a call is; only these and a join the cached record. -/
lemma frame_of_not_isCall (hcall : i.isCall = false) (hstep : s.step C deps i = some s') :
    s'.calls = s.calls ∧ (s'.cache = s.cache ∨ s'.cache = none) := by
  cases i with
  | add bundle =>
      obtain ⟨cid, -, rfl⟩ := Option.map_eq_some_iff.mp hstep
      exact ⟨rfl, .inl rfl⟩
  | settle cid key =>
      simp only [RootState.step] at hstep
      split_ifs at hstep
      · obtain rfl := Option.some.inj hstep
        exact ⟨rfl, .inl rfl⟩
      · obtain rfl := Option.some.inj hstep
        exact ⟨rfl, .inl rfl⟩
  | forget p =>
      simp only [RootState.step] at hstep
      split_ifs at hstep
      obtain rfl := Option.some.inj hstep
      exact ⟨rfl, .inl rfl⟩
  | rejoin =>
      obtain rfl := Option.some.inj hstep
      exact ⟨rfl, .inr rfl⟩
  | call k => cases hcall
  | headRead k bucket => cases hcall
  | resume k => cases hcall
  | finish k => cases hcall
  | _ =>
      obtain rfl := Option.some.inj hstep
      exact ⟨rfl, .inl rfl⟩

/-- A call with its bucket, by the calls that it leaves. -/
lemma get?_calls_serve {k j bucket : ℕ} {call : RootCall}
    (h : (s.serve deps k bucket).calls.get? j = some call) :
    j = k ∧ call = .encoding ⟨bucket, s.held.served deps bucket, s.marks⟩ ∨
      j ≠ k ∧ s.calls.get? j = some call := by
  rw [RootState.serve] at h
  split at h
  · rw [JsMap.get?_delete] at h
    split_ifs at h with hj
    exact .inr ⟨hj, h⟩
  · rw [JsMap.get?_set] at h
    split_ifs at h with hj
    · exact .inl ⟨hj, (Option.some.inj h).symm⟩
    · exact .inr ⟨hj, h⟩

/-- The places of the calls behind a step: a call takes its winners, reads a head, or is where it
was. -/
lemma get?_calls_step (hstep : s.step C deps i = some s') {k : ℕ} {call : RootCall}
    (hget : s'.calls.get? k = some call) :
    (∃ bucket, (i = .call k ∨ i = .resume k) ∧
      call = .encoding ⟨bucket, s.held.served deps bucket, s.marks⟩ ∧
      (bucket = s.currentBucket ∨ s.calls.get? k = some (.read bucket))) ∨
    (i = .call k ∧ call = .heading) ∨ (∃ bucket, i = .headRead k bucket ∧ call = .read bucket) ∨
    i ≠ .call k ∧ i ≠ .resume k ∧ s.calls.get? k = some call := by
  by_cases hcall : i.isCall = true
  · obtain ⟨j, hj⟩ := exists_callStep hcall hstep
    cases hj with
    | serves _ bucket hi _ =>
        rcases get?_calls_serve hget with ⟨rfl, htakes⟩ | ⟨hne, hget⟩
        · rcases hi with ⟨rfl, rfl⟩ | ⟨rfl, hread⟩
          · exact .inl ⟨_, .inl rfl, htakes, .inl rfl⟩
          · exact .inl ⟨bucket, .inr rfl, htakes, .inr hread⟩
        · refine .inr (.inr (.inr ⟨?_, ?_, hget⟩))
          · rcases hi with ⟨rfl, -⟩ | ⟨rfl, -⟩
            · simpa using Ne.symm hne
            · simp
          · rcases hi with ⟨rfl, -⟩ | ⟨rfl, -⟩
            · simp
            · simpa using Ne.symm hne
    | asks =>
        rw [JsMap.get?_set] at hget
        split_ifs at hget with hk
        · exact .inr (.inl ⟨by rw [hk], (Option.some.inj hget).symm⟩)
        · exact .inr (.inr (.inr ⟨by simpa using Ne.symm hk, by simp, hget⟩))
    | reads bucket =>
        rw [JsMap.get?_set] at hget
        split_ifs at hget with hk
        · exact .inr (.inr (.inl ⟨bucket, by rw [hk], (Option.some.inj hget).symm⟩))
        · exact .inr (.inr (.inr ⟨by simp, by simp, hget⟩))
    | finishes =>
        rw [JsMap.get?_delete] at hget
        split_ifs at hget
        exact .inr (.inr (.inr ⟨by simp, by simp, hget⟩))
  · obtain ⟨hcalls, -⟩ := frame_of_not_isCall (Bool.eq_false_iff.mpr hcall) hstep
    rw [hcalls] at hget
    refine .inr (.inr (.inr ⟨?_, ?_, hget⟩))
    · rintro rfl
      exact hcall rfl
    · rintro rfl
      exact hcall rfl

/-- **An encode under way took its winners before, or takes them in this step.** -/
lemma encoding_step (hstep : s.step C deps i = some s') {k : ℕ} {e : RootEncode}
    (hget : s'.calls.get? k = some (.encoding e)) :
    (s'.takesFor i = some k ∧ e.winners = s.held.served deps e.bucket ∧
      (e.bucket = s.currentBucket ∨ s.calls.get? k = some (.read e.bucket))) ∨
      s'.takesFor i ≠ some k ∧ s.calls.get? k = some (.encoding e) := by
  have hencodes : s'.isEncoding k = true := isEncoding_iff.mpr ⟨e, hget⟩
  rcases get?_calls_step hstep hget with ⟨bucket, hi, hcall, hread⟩ | ⟨-, hcall⟩ | ⟨_, -, hcall⟩ |
    ⟨hcall, hresume, hget⟩
  · obtain rfl := RootCall.encoding.inj hcall
    refine .inl ⟨?_, rfl, hread⟩
    rcases hi with rfl | rfl
    · rw [takesFor, if_pos hencodes]
    · rw [takesFor, if_pos hencodes]
  · cases hcall
  · cases hcall
  · refine .inr ⟨fun htakes => ?_, hget⟩
    cases i with
    | call j =>
        simp only [takesFor] at htakes
        split_ifs at htakes
        exact hcall (by rw [Option.some.inj htakes])
    | resume j =>
        simp only [takesFor] at htakes
        split_ifs at htakes
        exact hresume (by rw [Option.some.inj htakes])
    | _ => cases htakes

/-- The cached record behind a step is that of an encode that ends, or the one before. -/
lemma cache_step (hstep : s.step C deps i = some s') {c : CachedRoot} (hc : s'.cache = some c) :
    (∃ k, i = .finish k ∧ s.calls.get? k = some (.encoding c.toRootEncode)) ∨
      (∀ k, i ≠ .finish k) ∧ s.cache = some c := by
  by_cases hcall : i.isCall = true
  · obtain ⟨j, hj⟩ := exists_callStep hcall hstep
    cases hj with
    | serves _ bucket hi _ =>
        rw [(serve_frame s deps j bucket).2.2.1] at hc
        refine .inr ⟨fun k => ?_, hc⟩
        rcases hi with ⟨rfl, -⟩ | ⟨rfl, -⟩
        · simp
        · simp
    | asks => exact .inr ⟨by simp, hc⟩
    | reads bucket => exact .inr ⟨by simp, hc⟩
    | finishes e record blocks hget _ =>
        obtain rfl := Option.some.inj hc
        exact .inl ⟨j, rfl, hget⟩
  · obtain ⟨-, hcache⟩ := frame_of_not_isCall (Bool.eq_false_iff.mpr hcall) hstep
    refine .inr ⟨?_, ?_⟩
    · rintro k rfl
      exact hcall rfl
    · rcases hcache with hcache | hcache
      · exact hcache ▸ hc
      · rw [hcache] at hc
        cases hc

/-! ### Heads and prunes -/

/-- The current bucket behind a step is the one before, or that of the head the step reads. -/
lemma currentBucket_step (hstep : s.step C deps i = some s') :
    s'.currentBucket ≤ max s.currentBucket i.readBucket := by
  have hcall : i.isCall = true → s'.currentBucket ≤ max s.currentBucket i.readBucket := by
    intro hcall
    obtain ⟨k, hk⟩ := exists_callStep hcall hstep
    cases hk with
    | serves _ bucket => exact (serve_frame s deps k bucket).2.2.2.le.trans (le_max_left _ _)
    | asks => exact le_max_left _ _
    | reads bucket => exact le_max_right _ _
    | finishes => exact le_max_left _ _
  cases i with
  | add bundle =>
      obtain ⟨cid, -, rfl⟩ := Option.map_eq_some_iff.mp hstep
      exact le_max_left _ _
  | settle cid key =>
      simp only [RootState.step] at hstep
      split_ifs at hstep
      · obtain rfl := Option.some.inj hstep
        exact le_max_left _ _
      · obtain rfl := Option.some.inj hstep
        exact le_max_left _ _
  | forget p =>
      simp only [RootState.step] at hstep
      split_ifs at hstep
      obtain rfl := Option.some.inj hstep
      exact le_max_left _ _
  | head bucket =>
      obtain rfl := Option.some.inj hstep
      exact le_max_right _ _
  | call k => exact hcall rfl
  | headRead k bucket => exact hcall rfl
  | resume k => exact hcall rfl
  | finish k => exact hcall rfl
  | _ =>
      obtain rfl := Option.some.inj hstep
      exact le_max_left _ _

/-- The prunes between their halves: a step begins one, or ends some. -/
lemma prunes_step (hstep : s.step C deps i = some s') {p : PruneHalf} (hp : p ∈ s'.prunes) :
    p ∈ s.prunes ∨
      p.cids = s.held.pruned deps s.currentBucket ∧ ∃ heartbeat, i = .prune heartbeat := by
  cases i with
  | add bundle =>
      obtain ⟨cid, -, rfl⟩ := Option.map_eq_some_iff.mp hstep
      exact .inl hp
  | settle cid key =>
      simp only [RootState.step] at hstep
      split_ifs at hstep
      · obtain rfl := Option.some.inj hstep
        exact .inl hp
      · obtain rfl := Option.some.inj hstep
        exact .inl hp
  | prune heartbeat =>
      obtain rfl := Option.some.inj hstep
      rcases List.mem_append.mp hp with hp | hp
      · exact .inl hp
      · obtain rfl := List.mem_singleton.mp hp
        exact .inr ⟨rfl, heartbeat, rfl⟩
  | forget q =>
      simp only [RootState.step] at hstep
      split_ifs at hstep
      obtain rfl := Option.some.inj hstep
      exact .inl (List.mem_of_mem_erase hp)
  | call k => exact .inl ((frame_of_isCall rfl hstep).2 ▸ hp)
  | headRead k bucket => exact .inl ((frame_of_isCall rfl hstep).2 ▸ hp)
  | resume k => exact .inl ((frame_of_isCall rfl hstep).2 ▸ hp)
  | finish k => exact .inl ((frame_of_isCall rfl hstep).2 ▸ hp)
  | _ =>
      obtain rfl := Option.some.inj hstep
      exact .inl hp

lemma isCall_of_takesFor {r : RootState} {k : ℕ} (h : r.takesFor i = some k) : i.isCall = true := by
  cases i with
  | call j => rfl
  | resume j => rfl
  | _ => cases h

end RootState

end PubsubVoting
