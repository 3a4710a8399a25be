import PubsubVoting.Lib.Transition

/-!
The voter-wide head reader: one `getBlockNumber` at a time for each chain, shared by whoever asks
meanwhile (`client/voter.ts`).

* `HeadReader.step`: `makeHeadReader`, over chains whose heads move as they will.
* `HeadSlot.Sound`: what a chain's slot, its last sample and the answers so far have to do with the
  reads.
* `lastSample`: the head that the last read to return one returned.
* `headReader_fresh`: a caller is given the last sample before it exactly if it named an age that
  covers that, and the read under way otherwise; and reads of a chain follow one another, no more of
  them than calls.
-/

namespace PubsubVoting

/-! ### The machine -/

/-- A read that is over; `head` is `none` where it was rejected. -/
structure EndedRead where
  start : ℕ
  endedAt : ℕ
  head : Option ℕ

/-- What a caller was given. -/
inductive HeadAnswer
  /-- the last settled head -/
  | sample (head : ℕ)
  /-- the promise of a read, the `i`-th of its chain -/
  | share (i : ℕ)

/-- A call of the reader, and how many reads of its chain were over when it came. -/
structure HeadCall where
  calledAt : ℕ
  endedBefore : ℕ
  maxAgeMs : Option ℕ
  answer : HeadAnswer

/-- `lastSettled` of a chain. -/
structure HeadSample where
  head : ℕ
  settledAt : ℕ

/-- What the reader holds for a chain, and what has happened there. -/
structure HeadSlot where
  /-- the start of the read in flight -/
  inFlight : Option ℕ
  lastSettled : Option HeadSample
  ended : List EndedRead
  calls : List HeadCall

/-- The clock, and a slot for each chain. -/
structure HeadReader (χ : Type) where
  now : ℕ
  slots : χ → HeadSlot

/-- What happens next. -/
inductive HeadInput (χ : Type)
  | wait (ms : ℕ)
  | call (chain : χ) (maxAgeMs : Option ℕ)
  /-- the read in flight returns the head of a moment since its start -/
  | fulfill (chain : χ) (moment : ℕ)
  | reject (chain : χ)

namespace HeadSlot

/-- The sample is young enough for the caller. -/
def sampleFor (slot : HeadSlot) (now : ℕ) (maxAgeMs : Option ℕ) : Option HeadSample := do
  let age ← maxAgeMs
  let sample ← slot.lastSettled
  if now - sample.settledAt ≤ age then some sample else none

/-- One call: the sample, else the read in flight, else a new one. -/
def call (slot : HeadSlot) (now : ℕ) (maxAgeMs : Option ℕ) : HeadSlot :=
  match slot.sampleFor now maxAgeMs with
  | some sample =>
      { slot with
        calls := slot.calls ++ [⟨now, slot.ended.length, maxAgeMs, .sample sample.head⟩] }
  | none =>
      { slot with
        inFlight := some (slot.inFlight.getD now)
        calls := slot.calls ++ [⟨now, slot.ended.length, maxAgeMs, .share slot.ended.length⟩] }

/-- The read in flight has settled: its slot is cleared, and a head it returned is kept. -/
def settle (slot : HeadSlot) (now start : ℕ) (head : Option ℕ) : HeadSlot :=
  { slot with
    inFlight := none
    lastSettled := match head with
      | none => slot.lastSettled
      | some head => some ⟨head, now⟩
    ended := slot.ended ++ [⟨start, now, head⟩] }

end HeadSlot

namespace HeadReader

variable {χ : Type} [DecidableEq χ]

/-- Nothing read. -/
def init : HeadReader χ := ⟨0, fun _ => ⟨none, none, [], []⟩⟩

/-- One event, where the head of a chain at a moment is given. -/
def step (chainHead : χ → ℕ → ℕ) (s : HeadReader χ) : HeadInput χ → Option (HeadReader χ)
  | .wait ms => some { s with now := s.now + ms }
  | .call chain maxAgeMs =>
      let slot := (s.slots chain).call s.now maxAgeMs
      some { s with slots := Function.update s.slots chain slot }
  | .fulfill chain moment =>
      match (s.slots chain).inFlight with
      | none => none
      | some start =>
          if start ≤ moment ∧ moment ≤ s.now then
            let slot := (s.slots chain).settle s.now start (some (chainHead chain moment))
            some { s with slots := Function.update s.slots chain slot }
          else none
  | .reject chain =>
      match (s.slots chain).inFlight with
      | none => none
      | some start =>
          let slot := (s.slots chain).settle s.now start none
          some { s with slots := Function.update s.slots chain slot }

end HeadReader

/-! ### What the answers are worth -/

/-- A read returned a head that its chain had while it was under way. -/
def EndedRead.Truthful (heads : ℕ → ℕ) (r : EndedRead) : Prop :=
  ∀ head ∈ r.head, ∃ moment, r.start ≤ moment ∧ moment ≤ r.endedAt ∧ head = heads moment

/-- The sample that a read leaves, if it returns a head. -/
def EndedRead.sample? (r : EndedRead) : Option HeadSample :=
  r.head.map fun head => ⟨head, r.endedAt⟩

/-- The sample of the last read to return a head. -/
def lastSample (ended : List EndedRead) : Option HeadSample :=
  (ended.filterMap EndedRead.sample?).getLast?

lemma lastSample_concat (ended : List EndedRead) (r : EndedRead) :
    lastSample (ended ++ [r]) = r.sample?.or (lastSample ended) := by
  rw [lastSample, List.filterMap_append]
  cases hr : r.sample? with
  | none =>
      rw [List.filterMap_cons_none hr, List.filterMap_nil, List.append_nil]
      rfl
  | some sample =>
      rw [List.filterMap_cons_some hr, List.filterMap_nil, List.getLast?_concat]
      rfl

/-- The last sample is that of a read. -/
lemma exists_read_of_lastSample {ended : List EndedRead} {sample : HeadSample}
    (h : lastSample ended = some sample) :
    ∃ r ∈ ended, r.head = some sample.head ∧ r.endedAt = sample.settledAt := by
  obtain ⟨r, hr, hsample⟩ := List.mem_filterMap.mp (List.mem_of_getLast? h)
  obtain ⟨head, hhead, rfl⟩ := Option.map_eq_some_iff.mp hsample
  exact ⟨r, hr, hhead, rfl⟩

namespace HeadSlot

/-- The reads that were over when a call came ended by then, the others not before. -/
def Placed (slot : HeadSlot) (c : HeadCall) : Prop :=
  c.endedBefore ≤ slot.ended.length ∧ (∀ r ∈ slot.ended.take c.endedBefore, r.endedAt ≤ c.calledAt)
    ∧ ∀ r ∈ slot.ended.drop c.endedBefore, c.calledAt ≤ r.endedAt

/-- A caller was given the last sample before its call, which is no older than the age it named; or
it named none that covers the last sample, and was given the read that was under way. -/
def Answered (slot : HeadSlot) (c : HeadCall) : Prop :=
  match c.answer with
  | .sample head => ∃ age ∈ c.maxAgeMs, ∃ sample,
      lastSample (slot.ended.take c.endedBefore) = some sample ∧ sample.head = head ∧
        sample.settledAt ≤ c.calledAt ∧ c.calledAt ≤ sample.settledAt + age
  | .share i => i = c.endedBefore ∧
      (∀ age ∈ c.maxAgeMs, ∀ sample ∈ lastSample (slot.ended.take c.endedBefore),
        sample.settledAt + age < c.calledAt) ∧
      ((∃ r, slot.ended[i]? = some r ∧ r.start ≤ c.calledAt ∧ c.calledAt ≤ r.endedAt) ∨
        i = slot.ended.length ∧ ∃ start ∈ slot.inFlight, start ≤ c.calledAt)

/-- What holds of a chain's slot. -/
structure Sound (heads : ℕ → ℕ) (now : ℕ) (slot : HeadSlot) : Prop where
  started : ∀ start ∈ slot.inFlight, start ≤ now
  ended : ∀ r ∈ slot.ended, r.endedAt ≤ now ∧ r.Truthful heads
  inTurn : slot.ended.Pairwise fun r r' => r.endedAt ≤ r'.start
  later : ∀ start ∈ slot.inFlight, ∀ r ∈ slot.ended, r.endedAt ≤ start
  settled : slot.lastSettled = lastSample slot.ended
  asked : ∀ c ∈ slot.calls, c.calledAt ≤ now
  placed : ∀ c ∈ slot.calls, slot.Placed c
  answered : ∀ c ∈ slot.calls, slot.Answered c
  fewer : slot.ended.length + (if slot.inFlight.isSome then 1 else 0) ≤ slot.calls.length

variable {heads : ℕ → ℕ} {now later : ℕ} {slot : HeadSlot}

/-- An answer stays what it is worth while the read in flight goes on. -/
lemma Answered.flight {slot' : HeadSlot} {c : HeadCall} (h : slot.Answered c)
    (hended : slot'.ended = slot.ended)
    (hflight : ∀ start, slot.inFlight = some start → slot'.inFlight = some start) :
    slot'.Answered c := by
  unfold Answered at h ⊢
  rw [hended]
  split at h
  · exact h
  · obtain ⟨hi, hold, hread⟩ := h
    refine ⟨hi, hold, hread.imp_right ?_⟩
    rintro ⟨hlast, start, hstart, hle⟩
    exact ⟨hlast, start, hflight start hstart, hle⟩

/-- The reads before a call stay those before it. -/
lemma Placed.settle {c : HeadCall} (h : slot.Placed c) {start : ℕ} (hasked : c.calledAt ≤ now)
    (head : Option ℕ) : (slot.settle now start head).Placed c ∧
      (slot.settle now start head).ended.take c.endedBefore = slot.ended.take c.endedBefore := by
  obtain ⟨hle, hbefore, hafter⟩ := h
  have hended : (slot.settle now start head).ended = slot.ended ++ [⟨start, now, head⟩] := rfl
  have htake : (slot.settle now start head).ended.take c.endedBefore
      = slot.ended.take c.endedBefore := by
    rw [hended, List.take_append_of_le_length hle]
  refine ⟨⟨?_, ?_, ?_⟩, htake⟩
  · rw [hended, List.length_append]
    exact Nat.le_add_right_of_le hle
  · rw [htake]
    exact hbefore
  · rw [hended, List.drop_append_of_le_length hle]
    intro r hr
    rcases List.mem_append.mp hr with hr | hr
    · exact hafter r hr
    · obtain rfl := List.mem_singleton.mp hr
      exact hasked

/-- An answer is worth the read in flight once that has settled. -/
lemma Answered.settle {c : HeadCall} (h : slot.Answered c) (hplaced : slot.Placed c) {start : ℕ}
    (hflight : slot.inFlight = some start) (hasked : c.calledAt ≤ now) (head : Option ℕ) :
    (slot.settle now start head).Answered c := by
  have htake : (slot.settle now start head).ended.take c.endedBefore =
      slot.ended.take c.endedBefore := (hplaced.settle hasked head).2
  unfold Answered at h ⊢
  rw [htake]
  split at h
  next => exact h
  next i _ =>
    obtain ⟨hi, hold, hread⟩ := h
    refine ⟨hi, hold, .inl ?_⟩
    rcases hread with ⟨r, hr, hread⟩ | ⟨rfl, start', hstart', hle⟩
    · refine ⟨r, ?_, hread⟩
      show (slot.ended ++ [⟨start, now, head⟩])[i]? = some r
      rw [List.getElem?_append_left (List.getElem?_eq_some_iff.mp hr).1]
      exact hr
    · obtain rfl := Option.some.inj (hflight.symm.trans hstart')
      exact ⟨_, List.getElem?_concat_length, hle, hasked⟩

lemma Sound.wait (h : slot.Sound heads now) (hle : now ≤ later) : slot.Sound heads later :=
  ⟨fun start hstart => (h.started start hstart).trans hle,
    fun r hr => ⟨(h.ended r hr).1.trans hle, (h.ended r hr).2⟩, h.inTurn, h.later, h.settled,
    fun c hc => (h.asked c hc).trans hle, h.placed, h.answered, h.fewer⟩

/-- A call that is made now is placed after all reads that are over. -/
lemma Sound.placed_now (h : slot.Sound heads now) (maxAgeMs : Option ℕ) (answer : HeadAnswer) :
    slot.Placed ⟨now, slot.ended.length, maxAgeMs, answer⟩ := by
  refine ⟨le_rfl, fun r hr => (h.ended r (List.mem_of_mem_take hr)).1, fun r hr => ?_⟩
  rw [List.drop_length] at hr
  cases hr

/-- A call that is made now stands beside the calls before it. -/
lemma Sound.placed_append (h : slot.Sound heads now) (maxAgeMs : Option ℕ) (answer : HeadAnswer) :
    ∀ c ∈ slot.calls ++ [⟨now, slot.ended.length, maxAgeMs, answer⟩],
      c.calledAt ≤ now ∧ slot.Placed c := by
  intro c hc
  rcases List.mem_append.mp hc with hc | hc
  · exact ⟨h.asked c hc, h.placed c hc⟩
  · obtain rfl := List.mem_singleton.mp hc
    exact ⟨le_rfl, h.placed_now _ _⟩

/-- The caller is given the last sample exactly if it named an age that covers it. -/
lemma Sound.sampleFor_eq_some (h : slot.Sound heads now) {maxAgeMs : Option ℕ}
    {sample : HeadSample} : slot.sampleFor now maxAgeMs = some sample ↔
      ∃ age ∈ maxAgeMs, lastSample slot.ended = some sample ∧ sample.settledAt ≤ now ∧
        now ≤ sample.settledAt + age := by
  have hpast : ∀ sample, lastSample slot.ended = some sample → sample.settledAt ≤ now := by
    intro sample hsample
    obtain ⟨r, hr, -, hended⟩ := exists_read_of_lastSample hsample
    exact hended ▸ (h.ended r hr).1
  simp only [HeadSlot.sampleFor, Option.bind_eq_bind, Option.bind_eq_some_iff, h.settled]
  constructor
  · rintro ⟨age, hage, sample', hsettled, hyoung⟩
    split_ifs at hyoung with hle
    obtain rfl := Option.some.inj hyoung
    exact ⟨age, hage, hsettled, hpast _ hsettled, by omega⟩
  · rintro ⟨age, hage, hsettled, hle, hyoung⟩
    exact ⟨age, hage, sample, hsettled, if_pos (by omega)⟩

lemma Sound.call (h : slot.Sound heads now) (maxAgeMs : Option ℕ) :
    (slot.call now maxAgeMs).Sound heads now := by
  have hall : slot.ended.take slot.ended.length = slot.ended := List.take_length
  rw [HeadSlot.call]
  split
  next sample hsample =>
    obtain ⟨age, hage, hlast, hyoung⟩ := h.sampleFor_eq_some.mp hsample
    refine ⟨h.started, h.ended, h.inTurn, h.later, h.settled,
      fun c hc => (h.placed_append _ _ c hc).1, fun c hc => (h.placed_append _ _ c hc).2,
      fun c hc => ?_, ?_⟩
    · rcases List.mem_append.mp hc with hc | hc
      · exact (h.answered c hc).flight rfl fun _ hs => hs
      · obtain rfl := List.mem_singleton.mp hc
        exact ⟨age, hage, sample, (congrArg lastSample hall).trans hlast, rfl, hyoung⟩
    · rw [List.length_append]
      exact h.fewer.trans (Nat.le_add_right _ _)
  next hnone =>
    have hstart : slot.inFlight.getD now ≤ now ∧
        ∀ r ∈ slot.ended, r.endedAt ≤ slot.inFlight.getD now := by
      cases hflight : slot.inFlight with
      | none => exact ⟨le_rfl, fun r hr => (h.ended r hr).1⟩
      | some start => exact ⟨h.started start hflight, h.later start hflight⟩
    have hold : ∀ age ∈ maxAgeMs, ∀ sample ∈ lastSample slot.ended,
        sample.settledAt + age < now := by
      intro age hage sample hsample
      by_contra hyoung
      obtain ⟨r, hr, -, hended⟩ := exists_read_of_lastSample hsample
      have hsome := h.sampleFor_eq_some.mpr
        ⟨age, hage, hsample, hended ▸ (h.ended r hr).1, Nat.le_of_not_lt hyoung⟩
      rw [hnone] at hsome
      cases hsome
    refine ⟨fun start hs => ?_, h.ended, h.inTurn, fun start hs => ?_, h.settled,
      fun c hc => (h.placed_append _ _ c hc).1, fun c hc => (h.placed_append _ _ c hc).2,
      fun c hc => ?_, ?_⟩
    · obtain rfl := Option.some.inj hs
      exact hstart.1
    · obtain rfl := Option.some.inj hs
      exact hstart.2
    · rcases List.mem_append.mp hc with hc | hc
      · exact (h.answered c hc).flight rfl fun start hs => by rw [hs]; rfl
      · obtain rfl := List.mem_singleton.mp hc
        refine ⟨rfl, fun age hage sample hsample => ?_, .inr ⟨rfl, _, rfl, hstart.1⟩⟩
        exact hold age hage sample ((congrArg lastSample hall).symm.trans hsample)
    · have hfewer := h.fewer
      rw [List.length_append]
      show slot.ended.length + 1 ≤ slot.calls.length + 1
      omega

/-- The read in flight has settled. -/
lemma Sound.settle (h : slot.Sound heads now) {start : ℕ} (hflight : slot.inFlight = some start)
    {head : Option ℕ}
    (htrue : ∀ value ∈ head, ∃ moment, start ≤ moment ∧ moment ≤ now ∧ value = heads moment) :
    (slot.settle now start head).Sound heads now := by
  have hend : ∀ r ∈ slot.ended ++ [⟨start, now, head⟩], r.endedAt ≤ now ∧ r.Truthful heads := by
    intro r hr
    rcases List.mem_append.mp hr with hr | hr
    · exact h.ended r hr
    · obtain rfl := List.mem_singleton.mp hr
      exact ⟨le_rfl, htrue⟩
  refine ⟨fun s hs => (by cases hs), hend, ?_, fun s hs => (by cases hs), ?_, h.asked,
    fun c hc => ((h.placed c hc).settle (h.asked c hc) head).1, fun c hc => ?_, ?_⟩
  · refine List.pairwise_append.mpr ⟨h.inTurn, List.pairwise_singleton _ _, ?_⟩
    intro r hr r' hr'
    obtain rfl := List.mem_singleton.mp hr'
    exact h.later start hflight r hr
  · refine Eq.trans ?_ (lastSample_concat slot.ended ⟨start, now, head⟩).symm
    cases head with
    | none => exact h.settled
    | some value => rfl
  · exact (h.answered c hc).settle (h.placed c hc) hflight (h.asked c hc) head
  · have hfewer := h.fewer
    rw [hflight, Option.isSome_some, if_pos rfl] at hfewer
    show (slot.ended ++ ([⟨start, now, head⟩] : List EndedRead)).length + 0 ≤ slot.calls.length
    rw [List.length_append]
    exact hfewer

end HeadSlot

namespace HeadReader

variable {χ : Type} [DecidableEq χ] {chainHead : χ → ℕ → ℕ} {s t : HeadReader χ}

/-- What holds of every slot. -/
def Sound (chainHead : χ → ℕ → ℕ) (s : HeadReader χ) : Prop :=
  ∀ chain, (s.slots chain).Sound (chainHead chain) s.now

omit [DecidableEq χ] in
lemma sound_init : (init : HeadReader χ).Sound chainHead := by
  intro chain
  constructor
  case inTurn => exact .nil
  case settled => rfl
  case fewer => exact le_rfl
  all_goals exact fun _ hx => absurd hx (by simp [init])

/-- An event at a chain is nothing to the others. -/
lemma Sound.update (h : s.Sound chainHead) {chain : χ} {slot : HeadSlot}
    (hslot : slot.Sound (chainHead chain) s.now) :
    ({ s with slots := Function.update s.slots chain slot } : HeadReader χ).Sound chainHead := by
  intro other
  show (Function.update s.slots chain slot other).Sound (chainHead other) s.now
  by_cases hother : other = chain
  · subst hother
    rw [Function.update_self]
    exact hslot
  · rw [Function.update_of_ne hother]
    exact h other

lemma Sound.step (h : s.Sound chainHead) {i : HeadInput χ} (hstep : s.step chainHead i = some t) :
    t.Sound chainHead := by
  cases i with
  | wait ms =>
      obtain rfl := Option.some.inj hstep
      exact fun chain => (h chain).wait (Nat.le_add_right _ _)
  | call chain maxAgeMs =>
      obtain rfl := Option.some.inj hstep
      exact h.update ((h chain).call maxAgeMs)
  | fulfill chain moment =>
      rw [HeadReader.step] at hstep
      split at hstep
      next => cases hstep
      next start hflight =>
        split_ifs at hstep with hmoment
        obtain rfl := Option.some.inj hstep
        refine h.update ((h chain).settle hflight fun value hvalue => ?_)
        obtain rfl := Option.some.inj hvalue
        exact ⟨moment, hmoment.1, hmoment.2, rfl⟩
  | reject chain =>
      rw [HeadReader.step] at hstep
      split at hstep
      next => cases hstep
      next start hflight =>
        obtain rfl := Option.some.inj hstep
        exact h.update ((h chain).settle hflight fun value hvalue => (by cases hvalue))

end HeadReader

open HeadReader in
/-- Whoever asks for a chain's head is given the last one settled before, if it named an age that
covers that, and the outcome of a read that was under way when it asked otherwise; every head is one
that the chain had while it was read; and the reads of a chain come one after the other, no more of
them than calls. -/
theorem headReader_fresh {χ : Type} [DecidableEq χ] {chainHead : χ → ℕ → ℕ} {s : HeadReader χ}
    (h : Reaches (HeadReader.step chainHead) (fun _ _ => True) init s) (chain : χ) :
    (∀ c ∈ (s.slots chain).calls, (s.slots chain).Placed c ∧ (s.slots chain).Answered c) ∧
      (∀ r ∈ (s.slots chain).ended, r.Truthful (chainHead chain)) ∧
      (s.slots chain).ended.Pairwise (fun r r' => r.endedAt ≤ r'.start) ∧
      (s.slots chain).ended.length ≤ (s.slots chain).calls.length := by
  have hsound : s.Sound chainHead := h.invariant sound_init fun _ _ _ hs _ hstep => hs.step hstep
  have hslot := hsound chain
  exact ⟨fun c hc => ⟨hslot.placed c hc, hslot.answered c hc⟩,
    fun r hr => (hslot.ended r hr).2, hslot.inTurn, (Nat.le_add_right _ _).trans hslot.fewer⟩

/-- Two callers share a read that the node rejects; the next one has it read again, and a caller
with a bound is given what that returned; a later read returns a later head, and the next caller
with a bound is given that one. -/
def sharedReads : List (HeadInput Unit) :=
  [.call () none, .wait 5, .call () (some 60000), .reject (), .call () none, .wait 7,
    .fulfill () 10, .wait 100, .call () (some 200), .call () none, .fulfill () 112, .wait 10,
    .call () (some 200)]

open HeadReader in
/-- The chain is at block 1000 and one further for each millisecond. -/
theorem headReader_fresh_shared : ∃ slot : HeadSlot,
    slot.calls.map HeadCall.answer
        = [.share 0, .share 0, .share 1, .sample 1010, .share 2, .sample 1112] ∧
      (∀ c ∈ slot.calls, slot.Placed c ∧ slot.Answered c) ∧
      slot.ended.length ≤ slot.calls.length := by
  obtain ⟨s, hs⟩ : ∃ s, runIf (HeadReader.step fun (_ : Unit) moment => 1000 + moment)
      (fun _ _ => True) sharedReads init = some s := ⟨_, rfl⟩
  have h := reaches_of_runIf hs
  obtain rfl := Option.some.inj hs
  obtain ⟨hanswered, -, -, hfewer⟩ := headReader_fresh h ()
  exact ⟨_, rfl, hanswered, hfewer⟩

end PubsubVoting
