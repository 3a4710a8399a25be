import PubsubVoting.Lib.Transition

/-!
The heartbeat of a joined topic: the root records that one node puts on it (`client/voter.ts`).

* `Heartbeat.step`: `#armHeartbeat`, `#heartbeatTick`, `#handleRootRecord` and `leave`, cut at their
  awaits, with the clock.
* `Heartbeat.Paced`, `Heartbeat.Budgeted`, `Heartbeat.Carried`: the pace of the ticks, what was
  published so far, and what happened between one tick and the next.
* `heartbeat_traffic`: ticks come three quarters of the interval apart or more; however many
  differing roots are heard, a node publishes once for each tick, leave and prune and once more; it
  publishes nothing for roots that match; and a tick stays silent only if something was heard or
  published since the one before it.
-/

namespace PubsubVoting

/-! ### The machine -/

/-- The heartbeat of a join: its timer is armed, or its tick is under way. -/
inductive HeartbeatStage
  | armed (due : ℕ)
  /-- the tick refreshes the bucket and prunes -/
  | pruning
  /-- it awaits its own root record -/
  | publishing
  /-- it has returned or thrown -/
  | settled
  /-- no timer will be armed -/
  | over
  deriving DecidableEq

/-- A tick that has looked at the flags: when, whether it will stay silent, and how many matching
roots, records and attempts there had been by then. -/
structure HeartbeatLook where
  lookedAt : ℕ
  silent : Bool
  carried : ℕ

/-- The fields of an engine around its heartbeat, and what has happened since the join. -/
structure Heartbeat where
  /-- the milliseconds since the join -/
  now : ℕ
  /-- `#heartbeatTimer !== undefined` -/
  heartbeatTimer : Bool
  stage : HeartbeatStage
  heardMatchingRoot : Bool
  publishedRootThisInterval : Bool
  /-- `#transport !== undefined` -/
  transport : Bool
  /-- the hints that await the own root record -/
  hints : ℕ
  /-- the leaves that await the snapshot flush, and those that await `transport.stop()` -/
  flushing : ℕ
  stopping : ℕ
  /-- the ticks that have looked at the flags, the last one first -/
  looks : List HeartbeatLook
  /-- those that had heard no matching root -/
  lonely : ℕ
  /-- those whose prune dropped something -/
  pruned : ℕ
  /-- the matching and the differing roots heard -/
  matching : ℕ
  differing : ℕ
  /-- the calls of `publishRootRecord`, and the attempts that did not get to it -/
  published : ℕ
  unpublished : ℕ
  /-- the leaves that have reset the flags -/
  leaves : ℕ

/-- A hint beside the own root record. -/
inductive RootComparison
  /-- the own record could not be had -/
  | failed
  | matching
  | differing

/-- What happens next. -/
inductive HeartbeatInput
  | wait (ms : ℕ)
  | fire
  /-- the prune of the tick has returned or thrown -/
  | prune (pruned : ℕ)
  /-- the tick has its own record, or could not have it -/
  | rootRecord (encoded : Bool)
  /-- the tick has ended; `delay` is that of the next timer -/
  | settle (delay : ℕ)
  | hear
  | compare (own : RootComparison)
  /-- a call of `leave()`; the flush is awaited if the snapshot timer was armed -/
  | leave (flush : Bool)
  | flushed
  | stopped

/-- `HEARTBEAT_INTERVAL_MS` -/
def heartbeatIntervalMs : ℕ := 600000

/-- The delays that the jitter can yield: `HEARTBEAT_INTERVAL_MS * (0.75 + Math.random() * 0.5)`. -/
def IsHeartbeatDelay (delay : ℕ) : Prop :=
  3 * heartbeatIntervalMs ≤ 4 * delay ∧ 4 * delay < 5 * heartbeatIntervalMs

instance : DecidablePred IsHeartbeatDelay := fun delay => inferInstanceAs
  (Decidable (3 * heartbeatIntervalMs ≤ 4 * delay ∧ 4 * delay < 5 * heartbeatIntervalMs))

namespace Heartbeat

/-- The heartbeat as `join()` arms it, with the flags and hints it finds. -/
def init (delay : ℕ) (heard published : Bool) (hints : ℕ) : Heartbeat where
  now := 0
  heartbeatTimer := true
  stage := .armed delay
  heardMatchingRoot := heard
  publishedRootThisInterval := published
  transport := true
  hints := hints
  flushing := 0
  stopping := 0
  looks := []
  lonely := 0
  pruned := 0
  matching := 0
  differing := 0
  published := 0
  unpublished := 0
  leaves := 0

variable (s : Heartbeat)

/-- The ticks that have looked at the flags. -/
def ticks : ℕ := s.looks.length

/-- The matching roots heard, the records published and the attempts at it. -/
def carried : ℕ := s.matching + s.published + s.unpublished

/-- `#transport?.publishRootRecord(own)` -/
def publishRootRecord : Heartbeat :=
  if s.transport then { s with published := s.published + 1 }
  else { s with unpublished := s.unpublished + 1 }

/-- A root of this interval is as good as the one the tick would publish, unless the prune changed
that. -/
def Suppressed (pruned : ℕ) : Prop :=
  pruned = 0 ∧ (s.heardMatchingRoot = true ∨ s.publishedRootThisInterval = true)

instance (pruned : ℕ) : Decidable (s.Suppressed pruned) := inferInstanceAs
  (Decidable (pruned = 0 ∧ (s.heardMatchingRoot = true ∨ s.publishedRootThisInterval = true)))

/-- The tick looks at the flags, and resets them. -/
def look (pruned : ℕ) : Heartbeat :=
  { s with
    heardMatchingRoot := false
    publishedRootThisInterval := false
    looks := ⟨s.now, decide (s.Suppressed pruned), s.carried⟩ :: s.looks
    lonely := s.lonely + if s.heardMatchingRoot then 0 else 1
    pruned := s.pruned + if pruned = 0 then 0 else 1 }

/-- The tick behind its prune; the transport it publishes on is the one it finds here. -/
def evaluate (pruned : ℕ) : Heartbeat :=
  if s.Suppressed pruned then { s.look pruned with stage := .settled }
  else if s.transport then { s.look pruned with stage := .publishing }
  else { s.look pruned with stage := .settled, unpublished := s.unpublished + 1 }

/-- `#handleRootRecord` behind its await. -/
def handleRootRecord : RootComparison → Heartbeat
  | .failed => s
  | .matching => { s with heardMatchingRoot := true, matching := s.matching + 1 }
  | .differing =>
      let s := { s with differing := s.differing + 1 }
      if s.publishedRootThisInterval then s
      else { s with publishedRootThisInterval := true }.publishRootRecord

/-- `clearTimeout(#heartbeatTimer)`, and the field with it. -/
def clearHeartbeat : Heartbeat :=
  { s with
    heartbeatTimer := false
    stage := match s.stage with
      | .armed _ => .over
      | stage => stage }

/-- `leave()` from behind the flush to `transport.stop()`. -/
def detach : Heartbeat :=
  { s with
    heardMatchingRoot := false
    publishedRootThisInterval := false
    stopping := s.stopping + 1
    leaves := s.leaves + 1 }

/-- The tick has its own record, and publishes it, or could not have it. -/
def tickRecord (encoded : Bool) : Heartbeat :=
  if encoded then { s with stage := .settled, published := s.published + 1 }
  else { s with stage := .settled, unpublished := s.unpublished + 1 }

/-- The tick has ended, and the next timer is armed unless the engine was left. -/
def settle (delay : ℕ) : Heartbeat :=
  { s with stage := if s.heartbeatTimer then .armed (s.now + delay) else .over }

/-- One event. -/
def step : HeartbeatInput → Option Heartbeat
  | .wait ms => some { s with now := s.now + ms }
  | .fire =>
      match s.stage with
      | .armed due => if due ≤ s.now then some { s with stage := .pruning } else none
      | _ => none
  | .prune pruned => if s.stage = .pruning then some (s.evaluate pruned) else none
  | .rootRecord encoded =>
      if s.stage = .publishing then some (s.tickRecord encoded) else none
  | .settle delay =>
      if s.stage = .settled ∧ IsHeartbeatDelay delay then some (s.settle delay) else none
  | .hear => some { s with hints := s.hints + 1 }
  | .compare own =>
      if s.hints = 0 then none
      else some ({ s with hints := s.hints - 1 }.handleRootRecord own)
  | .leave flush =>
      some (if flush then { s.clearHeartbeat with flushing := s.flushing + 1 }
        else s.clearHeartbeat.detach)
  | .flushed => if s.flushing = 0 then none else some { s with flushing := s.flushing - 1 }.detach
  | .stopped =>
      if s.stopping = 0 then none
      else some { s with stopping := s.stopping - 1, transport := false }

/-- The record that the tick is about to publish. -/
def pending : ℕ := if s.stage = .publishing then 1 else 0

/-- When the ticks have looked at the flags, the last one first, and the join. -/
def times : List ℕ := s.looks.map HeartbeatLook.lookedAt ++ [0]

/-- The ticks come three quarters of the interval apart or more, the next one too. -/
structure Paced : Prop where
  apart : s.times.Pairwise fun later earlier => earlier + 450000 ≤ later
  past : ∀ time ∈ s.times, time ≤ s.now
  armed : ∀ due, s.stage = .armed due → ∀ time ∈ s.times, time + 450000 ≤ due
  pruning : s.stage = .pruning → ∀ time ∈ s.times, time + 450000 ≤ s.now

/-- What was published, by the occasions for it. -/
structure Budgeted : Prop where
  occasions : s.published + s.pending ≤
    s.ticks + s.leaves + s.pruned + if s.publishedRootThisInterval then 1 else 0
  reasons : s.published + s.pending ≤ s.lonely + s.pruned + s.differing

/-- What was carried between two ticks: the first published its record or failed at it unless it
was silent, and the second one is silent only for something else. -/
def Between (later earlier : HeartbeatLook) : Prop :=
  earlier.carried + (if earlier.silent then 0 else 1) + (if later.silent then 1 else 0)
    ≤ later.carried

/-- What was carried between the ticks, and since the last one. -/
structure Carried : Prop where
  between : s.looks.IsChain Between
  since : ∀ look ∈ s.looks.head?, look.carried + (if look.silent then 0 else 1) +
    (if s.heardMatchingRoot ∨ s.publishedRootThisInterval then 1 else 0) ≤ s.carried + s.pending

variable {s} {t : Heartbeat}

/-- Nothing that the pace depends on changes, or the timer is cleared. -/
lemma Paced.mono (h : s.Paced) (hnow : s.now ≤ t.now) (hlooks : t.looks = s.looks)
    (hstage : t.stage = s.stage ∨ t.stage = .over) : t.Paced := by
  have htimes : t.times = s.times := by rw [times, times, hlooks]
  refine ⟨htimes ▸ h.apart, ?_, fun due hdue => ?_, fun hpruning => ?_⟩
  · rw [htimes]
    exact fun time htime => (h.past time htime).trans hnow
  · rw [htimes]
    rcases hstage with hstage | hstage
    · exact h.armed due (hstage ▸ hdue)
    · rw [hstage] at hdue
      cases hdue
  · rw [htimes]
    rcases hstage with hstage | hstage
    · exact fun time htime => (h.pruning (hstage ▸ hpruning) time htime).trans hnow
    · rw [hstage] at hpruning
      cases hpruning

/-- A tick that looked at the flags has ended or is about to publish. -/
lemma Paced.look (h : s.Paced) (hstage : s.stage = .pruning) (pruned : ℕ)
    {stage : HeartbeatStage} (hnext : stage = .settled ∨ stage = .publishing) (unpublished : ℕ) :
    ({ s.look pruned with stage := stage, unpublished := unpublished } : Heartbeat).Paced := by
  refine ⟨List.pairwise_cons.mpr ⟨h.pruning hstage, h.apart⟩,
    List.forall_mem_cons.mpr ⟨le_rfl, h.past⟩, fun due hdue => ?_, fun hpruning => ?_⟩
  · obtain rfl : stage = .armed due := hdue
    rcases hnext with hnext | hnext <;> cases hnext
  · obtain rfl : stage = .pruning := hpruning
    rcases hnext with hnext | hnext <;> cases hnext

lemma Paced.evaluate (h : s.Paced) (hstage : s.stage = .pruning) (pruned : ℕ) :
    (s.evaluate pruned).Paced := by
  rw [Heartbeat.evaluate]
  split_ifs
  · exact h.look hstage pruned (.inl rfl) _
  · exact h.look hstage pruned (.inr rfl) _
  · exact h.look hstage pruned (.inl rfl) _

/-- As many moments that lie a distance apart, and from zero, take as many times the distance. -/
lemma length_mul_le {distance : ℕ} {times : List ℕ} {now : ℕ}
    (hapart : (times ++ [0]).Pairwise fun later earlier => earlier + distance ≤ later)
    (hpast : ∀ time ∈ times ++ [0], time ≤ now) : times.length * distance ≤ now := by
  induction times generalizing now with
  | nil => exact (Nat.zero_mul _).trans_le (Nat.zero_le now)
  | cons time times ih =>
      obtain ⟨hfirst, hrest⟩ := List.pairwise_cons.mp hapart
      have hbefore : times.length * distance ≤ time - distance := ih hrest fun earlier hearlier =>
        Nat.le_sub_of_add_le (hfirst earlier hearlier)
      have hjoin := hfirst 0 (List.mem_append_right _ (List.mem_singleton_self 0))
      have hnow := hpast time List.mem_cons_self
      rw [List.length_cons, Nat.succ_mul]
      omega

/-- As many ticks take as many times three quarters of the interval. -/
lemma Paced.length_le (h : s.Paced) : s.ticks * 450000 ≤ s.now := by
  have hspaced := length_mul_le h.apart h.past
  rwa [List.length_map] at hspaced

/-- A tick that publishes has heard nothing since the last one, or its prune dropped something. -/
lemma not_suppressed {pruned : ℕ} (h : ¬ s.Suppressed pruned) :
    pruned ≠ 0 ∨ s.heardMatchingRoot = false ∧ s.publishedRootThisInterval = false := by
  by_cases hpruned : pruned = 0
  · obtain ⟨hheard, hpublished⟩ := not_or.mp fun hflags => h ⟨hpruned, hflags⟩
    exact .inr ⟨Bool.eq_false_of_not_eq_true hheard, Bool.eq_false_of_not_eq_true hpublished⟩
  · exact .inl hpruned

lemma pending_eq_zero (h : s.stage ≠ .publishing) : s.pending = 0 := if_neg h

lemma Budgeted.evaluate (h : s.Budgeted) (hstage : s.stage = .pruning) (pruned : ℕ) :
    (s.evaluate pruned).Budgeted := by
  obtain ⟨hoccasions, hreasons⟩ := h
  rw [pending_eq_zero (by simp [hstage])] at hoccasions hreasons
  rw [Heartbeat.evaluate]
  split_ifs with hsuppressed htransport
  · obtain ⟨rfl, -⟩ := hsuppressed
    constructor
    · show s.published + 0 ≤ s.ticks + 1 + s.leaves + (s.pruned + 0) + 0
      split_ifs at hoccasions <;> omega
    · show s.published + 0 ≤ s.lonely + _ + (s.pruned + 0) + s.differing
      omega
  · have hpublish : s.published + 1 ≤
          s.ticks + 1 + s.leaves + (s.pruned + if pruned = 0 then 0 else 1) ∧
        s.published + 1 ≤ s.lonely + (if s.heardMatchingRoot then 0 else 1) +
          (s.pruned + if pruned = 0 then 0 else 1) + s.differing := by
      rcases not_suppressed hsuppressed with hpruned | ⟨hheard, hpublished⟩
      · rw [if_neg hpruned]
        split_ifs at hoccasions <;> omega
      · rw [hpublished, if_neg Bool.false_ne_true] at hoccasions
        rw [hheard, if_neg Bool.false_ne_true]
        omega
    exact ⟨hpublish.1, hpublish.2⟩
  · constructor
    · show s.published + 0 ≤ s.ticks + 1 + s.leaves + (s.pruned + _) + 0
      rcases not_suppressed hsuppressed with hpruned | ⟨-, hpublished⟩
      · rw [if_neg hpruned]
        split_ifs at hoccasions <;> omega
      · rw [hpublished, if_neg Bool.false_ne_true] at hoccasions
        omega
    · show s.published + 0 ≤ s.lonely + _ + (s.pruned + _) + s.differing
      omega

/-- A tick looks at the flags: what it finds is carried since the tick before it. -/
lemma Carried.evaluate (h : s.Carried) (hstage : s.stage = .pruning) (pruned : ℕ) :
    (s.evaluate pruned).Carried := by
  obtain ⟨hbetween, hsince⟩ := h
  rw [pending_eq_zero (by simp [hstage])] at hsince
  have hlooks : (s.look pruned).looks.IsChain Between := by
    refine hbetween.cons fun look hlook => ?_
    have hlast := hsince look hlook
    show look.carried + (if look.silent then 0 else 1) +
      (if decide (s.Suppressed pruned) then 1 else 0) ≤ s.carried
    by_cases hsuppressed : s.Suppressed pruned
    · rw [if_pos hsuppressed.2] at hlast
      rw [if_pos (decide_eq_true hsuppressed)]
      exact hlast
    · rw [decide_eq_false hsuppressed, if_neg Bool.false_ne_true]
      exact (Nat.add_le_add_left (Nat.zero_le _) _).trans hlast
  rw [Heartbeat.evaluate]
  split_ifs with hsuppressed htransport
  · refine ⟨hlooks, fun look hlook => ?_⟩
    obtain rfl := Option.some.inj hlook
    show s.carried + (if decide (s.Suppressed pruned) then 0 else 1) + 0 ≤ s.carried + 0
    rw [if_pos (decide_eq_true hsuppressed)]
  · refine ⟨hlooks, fun look hlook => ?_⟩
    obtain rfl := Option.some.inj hlook
    show s.carried + (if decide (s.Suppressed pruned) then 0 else 1) + 0 ≤ s.carried + 1
    rw [decide_eq_false hsuppressed, if_neg Bool.false_ne_true]
  · refine ⟨hlooks, fun look hlook => ?_⟩
    obtain rfl := Option.some.inj hlook
    show s.carried + (if decide (s.Suppressed pruned) then 0 else 1) + 0
      ≤ s.matching + s.published + (s.unpublished + 1) + 0
    rw [decide_eq_false hsuppressed, if_neg Bool.false_ne_true, carried]
    omega

/-! ### Hints and leaves -/

/-- A hint changes neither the clock nor the tick. -/
lemma handleRootRecord_stage (own : RootComparison) :
    (s.handleRootRecord own).stage = s.stage ∧ (s.handleRootRecord own).now = s.now ∧
      (s.handleRootRecord own).looks = s.looks := by
  cases own with
  | failed => exact ⟨rfl, rfl, rfl⟩
  | matching => exact ⟨rfl, rfl, rfl⟩
  | differing =>
      rw [handleRootRecord]
      dsimp only
      split_ifs
      · exact ⟨rfl, rfl, rfl⟩
      · rw [publishRootRecord]
        split_ifs <;> exact ⟨rfl, rfl, rfl⟩

lemma Budgeted.handleRootRecord (h : s.Budgeted) (own : RootComparison) :
    (s.handleRootRecord own).Budgeted := by
  obtain ⟨hoccasions, hreasons⟩ := h
  cases own with
  | failed => exact ⟨hoccasions, hreasons⟩
  | matching => exact ⟨hoccasions, hreasons⟩
  | differing =>
      rw [Heartbeat.handleRootRecord]
      dsimp only
      split_ifs with hflag
      · exact ⟨hoccasions, hreasons.trans (Nat.le_succ _)⟩
      · rw [if_neg hflag] at hoccasions
        rw [publishRootRecord]
        split_ifs
        · constructor
          · show s.published + 1 + s.pending ≤ s.ticks + s.leaves + s.pruned + 1
            omega
          · show s.published + 1 + s.pending ≤ s.lonely + s.pruned + (s.differing + 1)
            omega
        · exact ⟨hoccasions.trans (Nat.le_succ _), hreasons.trans (Nat.le_succ _)⟩

/-- Something more is carried, and with it a flag may be set. -/
lemma Carried.more (h : s.Carried) (hlooks : t.looks = s.looks)
    (hmore : s.carried + s.pending + 1 ≤ t.carried + t.pending) : t.Carried := by
  obtain ⟨hbetween, hsince⟩ := h
  refine ⟨hlooks ▸ hbetween, fun look hlook => ?_⟩
  rw [hlooks] at hlook
  have hlast := hsince look hlook
  split_ifs at hlast ⊢ <;> omega

/-- No flag is set, and nothing is taken from what is carried. -/
lemma Carried.mono (h : s.Carried) (hlooks : t.looks = s.looks)
    (hflags : t.heardMatchingRoot = true ∨ t.publishedRootThisInterval = true →
      s.heardMatchingRoot = true ∨ s.publishedRootThisInterval = true)
    (hcarried : s.carried + s.pending ≤ t.carried + t.pending) : t.Carried := by
  obtain ⟨hbetween, hsince⟩ := h
  refine ⟨hlooks ▸ hbetween, fun look hlook => ?_⟩
  rw [hlooks] at hlook
  have hlast := hsince look hlook
  by_cases hflag : t.heardMatchingRoot = true ∨ t.publishedRootThisInterval = true
  · rw [if_pos (hflags hflag)] at hlast
    rw [if_pos hflag]
    exact hlast.trans hcarried
  · rw [if_neg hflag]
    exact (Nat.add_le_add_left (Nat.zero_le _) _).trans (hlast.trans hcarried)

lemma Carried.handleRootRecord (h : s.Carried) (own : RootComparison) :
    (s.handleRootRecord own).Carried := by
  cases own with
  | failed => exact h
  | matching =>
      refine h.more rfl ?_
      show s.matching + s.published + s.unpublished + s.pending + 1
        ≤ s.matching + 1 + s.published + s.unpublished + s.pending
      omega
  | differing =>
      rw [Heartbeat.handleRootRecord]
      dsimp only
      split_ifs with hflag
      · exact h.mono rfl (fun hflags => hflags) le_rfl
      · rw [publishRootRecord]
        split_ifs
        · refine h.more rfl ?_
          show s.matching + s.published + s.unpublished + s.pending + 1
            ≤ s.matching + (s.published + 1) + s.unpublished + s.pending
          omega
        · refine h.more rfl ?_
          show s.matching + s.published + s.unpublished + s.pending + 1
            ≤ s.matching + s.published + (s.unpublished + 1) + s.pending
          omega

/-- A cleared timer takes nothing from a tick under way. -/
lemma pending_clearHeartbeat : s.clearHeartbeat.pending = s.pending := by
  rw [pending, pending, clearHeartbeat]
  cases s.stage <;> rfl

lemma stage_clearHeartbeat :
    s.clearHeartbeat.stage = s.stage ∨ s.clearHeartbeat.stage = .over := by
  rw [clearHeartbeat]
  cases s.stage with
  | armed due => exact .inr rfl
  | _ => exact .inl rfl

/-! ### The traffic of a join -/

/-- What holds at any moment since the join. -/
structure Sound (s : Heartbeat) : Prop where
  paced : s.Paced
  budgeted : s.Budgeted
  carried : s.Carried

lemma Sound.clearHeartbeat (h : s.Sound) : s.clearHeartbeat.Sound := by
  obtain ⟨hpaced, ⟨hoccasions, hreasons⟩, hcarried⟩ := h
  refine ⟨hpaced.mono le_rfl rfl stage_clearHeartbeat, ⟨?_, ?_⟩, ?_⟩
  · rw [pending_clearHeartbeat]
    exact hoccasions
  · rw [pending_clearHeartbeat]
    exact hreasons
  · refine hcarried.mono rfl (fun hflags => hflags) ?_
    rw [pending_clearHeartbeat]
    exact le_rfl

/-- A leave makes up for the answer that its reset lets through. -/
lemma Sound.detach (h : s.Sound) : s.detach.Sound := by
  obtain ⟨hpaced, ⟨hoccasions, hreasons⟩, hcarried⟩ := h
  refine ⟨hpaced.mono le_rfl rfl (.inl rfl), ⟨?_, hreasons⟩, ?_⟩
  · show s.published + s.pending ≤ s.ticks + (s.leaves + 1) + s.pruned + 0
    split_ifs at hoccasions <;> omega
  · exact hcarried.mono rfl (fun hflags => absurd hflags (by simp [Heartbeat.detach])) le_rfl

lemma Sound.handleRootRecord (h : s.Sound) (own : RootComparison) :
    (s.handleRootRecord own).Sound := by
  obtain ⟨hstage, hnow, hlooks⟩ := handleRootRecord_stage (s := s) own
  exact ⟨h.paced.mono hnow.ge hlooks (.inl hstage), h.budgeted.handleRootRecord own,
    h.carried.handleRootRecord own⟩

/-- The tick's own record goes out, or it could not be had. -/
lemma Sound.tickRecord (h : s.Sound) (hstage : s.stage = .publishing) (encoded : Bool) :
    (s.tickRecord encoded).Sound := by
  obtain ⟨hpaced, ⟨hoccasions, hreasons⟩, hcarried⟩ := h
  have hpending : s.pending = 1 := if_pos hstage
  rw [hpending] at hoccasions hreasons
  have hsettled : ∀ published unpublished, ({ s with
      stage := .settled, published := published, unpublished := unpublished } :
      Heartbeat).Paced := fun published unpublished =>
    ⟨hpaced.apart, hpaced.past, fun due hdue => (by cases hdue),
      fun hpruning => (by cases hpruning)⟩
  cases encoded with
  | true =>
      refine ⟨hsettled _ _, ⟨hoccasions, hreasons⟩,
        hcarried.mono rfl (fun hflags => hflags) ?_⟩
      rw [hpending]
      show s.matching + s.published + s.unpublished + 1
        ≤ s.matching + (s.published + 1) + s.unpublished + 0
      omega
  | false =>
      refine ⟨hsettled _ _, ⟨Nat.le_of_succ_le hoccasions, Nat.le_of_succ_le hreasons⟩,
        hcarried.mono rfl (fun hflags => hflags) ?_⟩
      rw [hpending]
      show s.matching + s.published + s.unpublished + 1
        ≤ s.matching + s.published + (s.unpublished + 1) + 0
      omega

/-- A delay is three quarters of the interval or more. -/
lemma le_of_isHeartbeatDelay {delay : ℕ} (hdelay : IsHeartbeatDelay delay) : 450000 ≤ delay := by
  have hearly := hdelay.1
  rw [heartbeatIntervalMs] at hearly
  omega

/-- The next timer is armed, a quarter of the interval early at most. -/
lemma Sound.settle (h : s.Sound) (hstage : s.stage = .settled) {delay : ℕ}
    (hdelay : IsHeartbeatDelay delay) : (s.settle delay).Sound := by
  obtain ⟨hpaced, ⟨hoccasions, hreasons⟩, hcarried⟩ := h
  have hpending : s.pending = 0 := pending_eq_zero (by simp [hstage])
  rw [hpending] at hoccasions hreasons
  have hnext : s.carried + s.pending ≤ s.carried + 0 := by rw [hpending]
  rw [Heartbeat.settle]
  cases s.heartbeatTimer with
  | true =>
      refine ⟨⟨hpaced.apart, hpaced.past, fun due hdue time htime => ?_,
        fun hpruning => (by cases hpruning)⟩, ⟨hoccasions, hreasons⟩,
        hcarried.mono rfl (fun hflags => hflags) hnext⟩
      obtain rfl : s.now + delay = due := HeartbeatStage.armed.inj hdue
      exact Nat.add_le_add (hpaced.past time htime) (le_of_isHeartbeatDelay hdelay)
  | false =>
      exact ⟨⟨hpaced.apart, hpaced.past, fun due hdue => (by cases hdue),
        fun hpruning => (by cases hpruning)⟩, ⟨hoccasions, hreasons⟩,
        hcarried.mono rfl (fun hflags => hflags) hnext⟩

lemma Sound.step (h : s.Sound) {i : HeartbeatInput} (hstep : s.step i = some t) : t.Sound := by
  cases i with
  | wait ms =>
      obtain rfl := Option.some.inj hstep
      exact ⟨h.paced.mono (Nat.le_add_right _ _) rfl (.inl rfl), ⟨h.budgeted.1, h.budgeted.2⟩,
        ⟨h.carried.1, h.carried.2⟩⟩
  | fire =>
      rw [Heartbeat.step] at hstep
      split at hstep
      next due harmed =>
        split_ifs at hstep with hdue
        obtain rfl := Option.some.inj hstep
        obtain ⟨hpaced, ⟨hoccasions, hreasons⟩, hcarried⟩ := h
        have hpending : s.pending = 0 := pending_eq_zero (by simp [harmed])
        rw [hpending] at hoccasions hreasons
        refine ⟨⟨hpaced.apart, hpaced.past, fun _ hd => (by cases hd), fun _ time htime => ?_⟩,
          ⟨hoccasions, hreasons⟩, hcarried.mono rfl (fun hflags => hflags) ?_⟩
        · exact (hpaced.armed due harmed time htime).trans hdue
        · rw [hpending]
          exact le_rfl
      next => cases hstep
  | prune pruned =>
      rw [Heartbeat.step] at hstep
      split_ifs at hstep with hstage
      obtain rfl := Option.some.inj hstep
      exact ⟨h.paced.evaluate hstage pruned, h.budgeted.evaluate hstage pruned,
        h.carried.evaluate hstage pruned⟩
  | rootRecord encoded =>
      rw [Heartbeat.step] at hstep
      split_ifs at hstep with hstage
      obtain rfl := Option.some.inj hstep
      exact h.tickRecord hstage encoded
  | settle delay =>
      rw [Heartbeat.step] at hstep
      split_ifs at hstep with hsettle
      obtain rfl := Option.some.inj hstep
      exact h.settle hsettle.1 hsettle.2
  | hear =>
      obtain rfl := Option.some.inj hstep
      exact ⟨h.paced.mono le_rfl rfl (.inl rfl), ⟨h.budgeted.1, h.budgeted.2⟩,
          ⟨h.carried.1, h.carried.2⟩⟩
  | compare own =>
      rw [Heartbeat.step] at hstep
      split_ifs at hstep
      obtain rfl := Option.some.inj hstep
      have hread : ({ s with hints := s.hints - 1 } : Heartbeat).Sound :=
        ⟨h.paced.mono le_rfl rfl (.inl rfl), ⟨h.budgeted.1, h.budgeted.2⟩,
          ⟨h.carried.1, h.carried.2⟩⟩
      exact hread.handleRootRecord own
  | leave flush =>
      obtain rfl := Option.some.inj hstep
      have hcleared := h.clearHeartbeat
      split_ifs
      · exact ⟨hcleared.paced.mono le_rfl rfl (.inl rfl),
          ⟨hcleared.budgeted.1, hcleared.budgeted.2⟩, ⟨hcleared.carried.1, hcleared.carried.2⟩⟩
      · exact hcleared.detach
  | flushed =>
      rw [Heartbeat.step] at hstep
      split_ifs at hstep
      obtain rfl := Option.some.inj hstep
      have hflushed : ({ s with flushing := s.flushing - 1 } : Heartbeat).Sound :=
        ⟨h.paced.mono le_rfl rfl (.inl rfl), ⟨h.budgeted.1, h.budgeted.2⟩,
          ⟨h.carried.1, h.carried.2⟩⟩
      exact hflushed.detach
  | stopped =>
      rw [Heartbeat.step] at hstep
      split_ifs at hstep
      obtain rfl := Option.some.inj hstep
      exact ⟨h.paced.mono le_rfl rfl (.inl rfl), ⟨h.budgeted.1, h.budgeted.2⟩,
          ⟨h.carried.1, h.carried.2⟩⟩

lemma sound_init {delay : ℕ} (hdelay : IsHeartbeatDelay delay) (heard published : Bool)
    (hints : ℕ) : (init delay heard published hints).Sound := by
  refine ⟨⟨List.pairwise_singleton _ _, fun time htime => ?_, fun due hdue time htime => ?_,
    fun hpruning => (by cases hpruning)⟩, ⟨Nat.zero_le _, Nat.zero_le _⟩,
    ⟨.nil, fun look hlook => (by cases hlook)⟩⟩
  · exact (List.mem_singleton.mp htime).le
  · obtain rfl : delay = due := HeartbeatStage.armed.inj hdue
    obtain rfl := List.mem_singleton.mp htime
    exact (Nat.zero_add _).trans_le (le_of_isHeartbeatDelay hdelay)

end Heartbeat

end PubsubVoting
