import PubsubVoting.Chain.CoalescerRuns

/-!
The budget of a coalescer, and the promises of its reads, in every run.

* `Coalescer.settles`: the reads whose promises an input resolves or rejects; `loggedStep` keeps a
  log of them.
* `Coalescer.awaitedReads`: the reads in groups and in chunks under way.
* `Tracked`, `Tracked.step`: these are the reads that have not settled, each once, and the keys in
  flight are theirs.
* `coalescer_settles`: the budget is kept, nobody waits while a slot is free, and at rest every read
  has settled once and its key is free.
-/

namespace PubsubVoting

open JsString
open scoped List

section

variable {Abi Arg Opt Error Value : Type}

namespace Coalescer

variable {s t : Coalescer Abi Arg Opt Error Value} {deps : CoalescerDeps Abi Arg Error}

/-! ### Where the reads are -/

/-- The reads that a round trip is under way for. -/
def openReads (job : RoundTrip Abi Arg Opt Error Value) : List ℕ :=
  match job.answer, job.work with
  | none, .chunk reads _ => reads
  | _, _ => []

/-- The reads in groups and in chunks that are under way. -/
def awaitedReads (s : Coalescer Abi Arg Opt Error Value) : List ℕ :=
  s.groups.entries.flatMap Prod.snd ++ s.jobs.flatMap openReads

lemma perm_submit (work : Work Abi Arg Opt) : (s.submit deps work).awaitedReads.Perm
    (openReads (⟨work, false, none⟩ : RoundTrip Abi Arg Opt Error Value) ++ s.awaitedReads) := by
  unfold awaitedReads submit
  dsimp only
  rw [List.flatMap_append, List.flatMap_singleton, ← List.append_assoc]
  exact List.perm_append_comm

lemma perm_submits {block : ℕ} {slices : List (List ℕ)} :
    (slices.foldl (fun s slice => s.submit deps (.chunk slice block)) s).awaitedReads.Perm
      (slices.flatten ++ s.awaitedReads) := by
  induction slices generalizing s with
  | nil => exact List.Perm.refl _
  | cons slice slices ih =>
      have hfirst : (s.submit deps (.chunk slice block)).awaitedReads.Perm
          (slice ++ s.awaitedReads) := perm_submit _
      rw [List.foldl_cons, List.flatten_cons]
      refine ih.trans ((hfirst.append_left slices.flatten).trans ?_)
      rw [← List.append_assoc]
      exact List.perm_append_comm.append_right _

/-- The entries of a map, one of them first. -/
lemma perm_flatMap_delete {groups : JsMap ℕ (List ℕ)} {block : ℕ} {ids : List ℕ}
    (hget : groups.get? block = some ids) : (groups.entries.flatMap Prod.snd).Perm
      (ids ++ (groups.delete block).entries.flatMap Prod.snd) := by
  have hperm := (JsMap.perm_delete hget).flatMap_right Prod.snd
  rwa [List.flatMap_cons] at hperm

/-- A group's reads go on in chunks. -/
lemma perm_flushGroup (block : ℕ) :
    (s.flushGroup deps block).awaitedReads.Perm s.awaitedReads := by
  rw [flushGroup]
  cases hget : s.groups.get? block with
  | none => exact List.Perm.refl _
  | some ids =>
      dsimp only
      refine perm_submits.trans ?_
      rw [flatten_slices deps.readsPerCall_pos]
      rw [awaitedReads]
      dsimp only
      rw [← List.append_assoc]
      exact ((perm_flatMap_delete hget).symm).append_right _

lemma perm_openRead (contract : ContractCall Abi Arg) (block : ℕ) (key : JsString) :
    (s.openRead contract block key).awaitedReads.Perm (s.reads.length :: s.awaitedReads) := by
  have hset := (JsMap.perm_set s.groups block
    ((s.groups.get? block).getD [] ++ [s.reads.length])).flatMap_right Prod.snd
  rw [List.flatMap_cons] at hset
  have hgroups : ((s.openRead contract block key).groups.entries.flatMap Prod.snd).Perm
      (s.reads.length :: s.groups.entries.flatMap Prod.snd) := by
    refine hset.trans ?_
    cases hget : s.groups.get? block with
    | none =>
        rw [JsMap.delete_of_get?_none hget]
        exact List.Perm.refl _
    | some ids =>
        rw [Option.getD_some, List.append_assoc, List.singleton_append]
        exact List.perm_middle.trans ((perm_flatMap_delete hget).symm.cons _)
  exact hgroups.append_right _

/-- A round trip that is changed stands for other reads, all others for the same. -/
lemma perm_modify {jobs : List (RoundTrip Abi Arg Opt Error Value)} {j : ℕ}
    {job : RoundTrip Abi Arg Opt Error Value} (hjob : jobs[j]? = some job)
    (f : RoundTrip Abi Arg Opt Error Value → RoundTrip Abi Arg Opt Error Value) :
    (openReads job ++ (jobs.modify j f).flatMap openReads).Perm
      (openReads (f job) ++ jobs.flatMap openReads) := by
  obtain ⟨hj, -⟩ := List.getElem?_eq_some_iff.mp hjob
  obtain ⟨before, job', after, rfl, rfl, hmodify⟩ := List.exists_of_modify f hj
  have hsame : job' = job := by
    rw [List.getElem?_append_right (le_refl _), Nat.sub_self] at hjob
    exact Option.some.inj hjob
  rw [hmodify, hsame]
  simp only [List.flatMap_append, List.flatMap_cons]
  calc openReads job ++ (before.flatMap openReads ++ (openReads (f job) ++ after.flatMap openReads))
      ~ openReads job ++ (openReads (f job) ++ (before.flatMap openReads ++
        after.flatMap openReads)) := (List.perm_append_comm_assoc _ _ _).append_left _
    _ ~ openReads (f job) ++ (openReads job ++ (before.flatMap openReads ++
        after.flatMap openReads)) := List.perm_append_comm_assoc _ _ _
    _ ~ openReads (f job) ++ (before.flatMap openReads ++ (openReads job ++
        after.flatMap openReads)) := (List.perm_append_comm_assoc _ _ _).append_left _

/-- A round trip that is over stands for no reads any more. -/
lemma perm_finish (deps : CoalescerDeps Abi Arg Error) {j : ℕ}
    {job : RoundTrip Abi Arg Opt Error Value} (hjob : s.jobs[j]? = some job)
    (answer : Except Error (MultiResult Error Value)) :
    s.awaitedReads.Perm (openReads job ++ (s.finish deps j answer).awaitedReads) := by
  have hjobs := perm_modify hjob fun j => { j with answer := some answer }
  have hover : openReads { job with answer := some answer } = [] := rfl
  rw [hover, List.nil_append] at hjobs
  unfold awaitedReads finish
  dsimp only
  rw [← List.append_assoc]
  refine (hjobs.symm.append_left _).trans ?_
  rw [← List.append_assoc]
  exact List.perm_append_comm.append_right _

/-- A second attempt is for the same reads. -/
lemma perm_retryChunk {j : ℕ} {job : RoundTrip Abi Arg Opt Error Value}
    (hjob : s.jobs[j]? = some job) : (s.retryChunk j).awaitedReads.Perm s.awaitedReads := by
  have hjobs := perm_modify hjob fun j => { j with retry := true }
  have hsame : openReads { job with retry := true } = openReads job := rfl
  rw [hsame] at hjobs
  exact ((List.perm_append_left_iff _).mp hjobs).append_left _

/-! ### What settles -/

/-- The reads whose promises an answer to a round trip resolves or rejects: those of a chunk, unless
its first attempt has failed. -/
def settledBy (job : RoundTrip Abi Arg Opt Error Value)
    (answer : Except Error (MultiResult Error Value)) : List ℕ :=
  match job.work, job.retry, answer with
  | .passed _, _, _ => []
  | .chunk _ _, false, .error _ => []
  | .chunk reads _, _, _ => reads

/-- The reads whose promises an input resolves or rejects. -/
def settles (s : Coalescer Abi Arg Opt Error Value) :
    CoalescerInput Abi Arg Opt Error Value → List ℕ
  | .answer job answer => (s.jobs[job]?).elim [] fun j => settledBy j answer
  | _ => []

/-- A step, and the log of what was settled. -/
def loggedStep (deps : CoalescerDeps Abi Arg Error)
    (s : Coalescer Abi Arg Opt Error Value × List ℕ) (i : CoalescerInput Abi Arg Opt Error Value) :
    Option (Coalescer Abi Arg Opt Error Value × List ℕ) :=
  (s.1.step deps i).map fun t => (t, s.2 ++ s.1.settles i)

/-- A read that has not settled. -/
def Pending (s : Coalescer Abi Arg Opt Error Value) (id : ℕ) : Prop :=
  ∃ r, s.reads[id]? = some r ∧ r.outcome = none

/-- A read that has settled. -/
def Settled (s : Coalescer Abi Arg Opt Error Value) (id : ℕ) : Prop :=
  ∃ r, s.reads[id]? = some r ∧ r.outcome.isSome = true

/-- The reads under way are those that have not settled, each once; the keys in flight are theirs;
and each of the others has been settled once. -/
structure Tracked (deps : CoalescerDeps Abi Arg Error) (s : Coalescer Abi Arg Opt Error Value)
    (log : List ℕ) : Prop where
  bounded : s.budget.Bounded deps.concurrency
  nodup : s.awaitedReads.Nodup
  awaited : ∀ id, id ∈ s.awaitedReads ↔ s.Pending id
  inFlight : ∀ key id, s.inFlight.get? key = some id ↔
    ∃ r, s.reads[id]? = some r ∧ r.key = key ∧ r.outcome = none
  log_nodup : log.Nodup
  log_settled : ∀ id, id ∈ log ↔ s.Settled id

variable {log : List ℕ}

/-- What changes neither the reads nor where they are. -/
lemma Tracked.of_perm (h : Tracked deps s log) (hbounded : t.budget.Bounded deps.concurrency)
    (hperm : t.awaitedReads.Perm s.awaitedReads) (hreads : t.reads = s.reads)
    (hinFlight : t.inFlight = s.inFlight) : Tracked deps t log where
  bounded := hbounded
  nodup := hperm.nodup_iff.mpr h.nodup
  awaited := fun id => by
    rw [hperm.mem_iff, h.awaited, Pending, Pending, hreads]
  inFlight := by
    rw [hinFlight, hreads]
    exact h.inFlight
  log_nodup := h.log_nodup
  log_settled := fun id => by
    rw [h.log_settled, Settled, Settled, hreads]

lemma bounded_submits {block : ℕ} {slices : List (List ℕ)}
    (h : s.budget.Bounded deps.concurrency) :
    (slices.foldl (fun s slice => s.submit deps (.chunk slice block)) s).budget.Bounded
      deps.concurrency := by
  induction slices generalizing s with
  | nil => exact h
  | cons slice slices ih =>
      have hfirst : (s.submit deps (.chunk slice block)).budget.Bounded deps.concurrency :=
        h.acquire
      exact ih hfirst

lemma inFlight_submits {block : ℕ} {slices : List (List ℕ)} :
    (slices.foldl (fun s slice => s.submit deps (.chunk slice block)) s).inFlight = s.inFlight := by
  induction slices generalizing s with
  | nil => rfl
  | cons slice slices ih => exact ih

lemma flushGroup_frame (deps : CoalescerDeps Abi Arg Error)
    (s : Coalescer Abi Arg Opt Error Value) (block : ℕ) :
    (s.flushGroup deps block).reads = s.reads ∧
      (s.flushGroup deps block).inFlight = s.inFlight := by
  rw [flushGroup]
  cases s.groups.get? block with
  | none => exact ⟨rfl, rfl⟩
  | some ids => exact ⟨reads_submits, inFlight_submits⟩

lemma Tracked.flushGroup (h : Tracked deps s log) (block : ℕ) :
    Tracked deps (s.flushGroup deps block) log := by
  have hbounded : (s.flushGroup deps block).budget.Bounded deps.concurrency := by
    rw [Coalescer.flushGroup]
    cases s.groups.get? block with
    | none => exact h.bounded
    | some ids => exact bounded_submits h.bounded
  obtain ⟨hreads, hinFlight⟩ := flushGroup_frame deps s block
  exact h.of_perm hbounded (perm_flushGroup block) hreads hinFlight

lemma flushFull_reads (s : Coalescer Abi Arg Opt Error Value) (block : ℕ) :
    (s.flushFull deps block).reads = s.reads := by
  rw [flushFull]
  split_ifs
  · exact (flushGroup_frame deps s block).1
  · rfl

lemma Tracked.flushFull (h : Tracked deps s log) (block : ℕ) :
    Tracked deps (s.flushFull deps block) log := by
  rw [Coalescer.flushFull]
  split_ifs
  · exact h.flushGroup block
  · exact h

lemma getElem?_openRead_iff {contract : ContractCall Abi Arg} {block : ℕ} {key : JsString} {id : ℕ}
    {r : PendingRead Abi Arg Error Value} :
    (s.openRead contract block key).reads[id]? = some r ↔ s.reads[id]? = some r ∨
      r = ⟨{ contract with args := some (contract.args.getD []) }, block, key, none⟩ ∧
        id = s.reads.length := by
  refine ⟨getElem?_openRead, ?_⟩
  rintro (hr | ⟨rfl, rfl⟩)
  · exact (List.getElem?_append_left (List.getElem?_eq_some_iff.mp hr).1).trans hr
  · exact openRead_self s contract block key

/-- A read under a key that is not in flight is one more under way. -/
lemma Tracked.openRead (h : Tracked deps s log) (contract : ContractCall Abi Arg) (block : ℕ)
    {key : JsString} (hkey : s.inFlight.get? key = none) :
    Tracked deps (s.openRead contract block key) log := by
  have hperm := perm_openRead (s := s) contract block key
  have hfresh : s.reads.length ∉ s.awaitedReads := fun hmem => by
    obtain ⟨r, hr, -⟩ := (h.awaited _).mp hmem
    exact lt_irrefl _ (List.getElem?_eq_some_iff.mp hr).1
  refine ⟨h.bounded, hperm.nodup_iff.mpr (List.nodup_cons.mpr ⟨hfresh, h.nodup⟩), fun id => ?_,
    fun key' id => ?_, h.log_nodup, fun id => ?_⟩
  · rw [hperm.mem_iff, List.mem_cons, h.awaited]
    constructor
    · rintro (rfl | ⟨r, hr, hout⟩)
      · exact ⟨_, getElem?_openRead_iff.mpr (.inr ⟨rfl, rfl⟩), rfl⟩
      · exact ⟨r, getElem?_openRead_iff.mpr (.inl hr), hout⟩
    · rintro ⟨r, hr, hout⟩
      rcases getElem?_openRead_iff.mp hr with hold | ⟨-, rfl⟩
      · exact .inr ⟨r, hold, hout⟩
      · exact .inl rfl
  · show (s.inFlight.set key s.reads.length).get? key' = some id ↔ _
    rw [JsMap.get?_set]
    constructor
    · intro hget
      split_ifs at hget with hsame
      · obtain rfl := Option.some.inj hget
        exact ⟨_, getElem?_openRead_iff.mpr (.inr ⟨rfl, rfl⟩), hsame.symm, rfl⟩
      · obtain ⟨r, hr, hrest⟩ := (h.inFlight key' id).mp hget
        exact ⟨r, getElem?_openRead_iff.mpr (.inl hr), hrest⟩
    · rintro ⟨r, hr, rfl, hout⟩
      rcases getElem?_openRead_iff.mp hr with hold | ⟨rfl, rfl⟩
      · have hget := (h.inFlight r.key id).mpr ⟨r, hold, rfl, hout⟩
        split_ifs with hsame
        · rw [hsame, hkey] at hget
          cases hget
        · exact hget
      · exact if_pos rfl
  · rw [h.log_settled]
    constructor
    · rintro ⟨r, hr, hout⟩
      exact ⟨r, getElem?_openRead_iff.mpr (.inl hr), hout⟩
    · rintro ⟨r, hr, hout⟩
      rcases getElem?_openRead_iff.mp hr with hold | ⟨rfl, -⟩
      · exact ⟨r, hold, hout⟩
      · cases hout

/-- A read after its chunk, or another one, has settled. -/
lemma getElem?_settleChunk {j id : ℕ} {ids : List ℕ}
    {answer : Except Error (MultiResult Error Value)} {r : PendingRead Abi Arg Error Value}
    (h : (s.settleChunk deps j ids answer).reads[id]? = some r) :
    ∃ r₀, s.reads[id]? = some r₀ ∧ r.key = r₀.key ∧
      (id ∈ ids ∧ r.outcome.isSome = true ∨ id ∉ ids ∧ r.outcome = r₀.outcome) := by
  obtain ⟨r₀, hr₀, -, -, hkey, hcase⟩ := getElem?_resolves h
  refine ⟨r₀, hr₀, hkey, ?_⟩
  have hmem : id ∈ ids ↔ ∃ i, (id, i) ∈ ids.zipIdx := by
    rw [List.mem_iff_getElem?]
    exact exists_congr fun i => List.mk_mem_zipIdx_iff_getElem?.symm
  by_cases hid : id ∈ ids
  · refine .inl ⟨hid, ?_⟩
    rcases hcase with ⟨hsame, hnot⟩ | ⟨i, -, hout⟩
    · rw [← Option.ne_none_iff_isSome]
      intro hnone
      obtain ⟨i, hi⟩ := hmem.mp hid
      exact hnot hnone i hi
    · rw [hout]
      rfl
  · refine .inr ⟨hid, ?_⟩
    rcases hcase with ⟨hsame, -⟩ | ⟨i, hi, -⟩
    · exact hsame
    · exact absurd (hmem.mpr ⟨i, hi⟩) hid

lemma exists_getElem?_settleChunk (deps : CoalescerDeps Abi Arg Error) (j : ℕ) (ids : List ℕ)
    (answer : Except Error (MultiResult Error Value)) {id : ℕ}
    {r₀ : PendingRead Abi Arg Error Value}
    (h : s.reads[id]? = some r₀) :
    ∃ r, (s.settleChunk deps j ids answer).reads[id]? = some r ∧ r.key = r₀.key ∧
      (id ∈ ids ∧ r.outcome.isSome = true ∨ id ∉ ids ∧ r.outcome = r₀.outcome) := by
  have hid : id < (s.settleChunk deps j ids answer).reads.length := by
    rw [settleChunk, length_resolves]
    exact (List.getElem?_eq_some_iff.mp h).1
  have hr := List.getElem?_eq_getElem hid
  obtain ⟨r₁, hr₁, hrest⟩ := getElem?_settleChunk hr
  obtain rfl := Option.some.inj (h.symm.trans hr₁)
  exact ⟨_, hr, hrest⟩

lemma pending_settleChunk {j id : ℕ} {ids : List ℕ}
    {answer : Except Error (MultiResult Error Value)} :
    (s.settleChunk deps j ids answer).Pending id ↔ s.Pending id ∧ id ∉ ids := by
  constructor
  · rintro ⟨r, hr, hout⟩
    obtain ⟨r₀, hr₀, -, ⟨-, hsome⟩ | ⟨hnot, hsame⟩⟩ := getElem?_settleChunk hr
    · rw [hout] at hsome
      cases hsome
    · exact ⟨⟨r₀, hr₀, hsame ▸ hout⟩, hnot⟩
  · rintro ⟨⟨r₀, hr₀, hout⟩, hnot⟩
    obtain ⟨r, hr, -, ⟨hid, -⟩ | ⟨-, hsame⟩⟩ :=
      exists_getElem?_settleChunk deps j ids answer hr₀
    · exact absurd hid hnot
    · exact ⟨r, hr, hsame.trans hout⟩

lemma settled_settleChunk {j id : ℕ} {ids : List ℕ}
    {answer : Except Error (MultiResult Error Value)} (hids : ∀ id ∈ ids, s.Pending id) :
    (s.settleChunk deps j ids answer).Settled id ↔ s.Settled id ∨ id ∈ ids := by
  constructor
  · rintro ⟨r, hr, hout⟩
    obtain ⟨r₀, hr₀, -, ⟨hid, -⟩ | ⟨-, hsame⟩⟩ := getElem?_settleChunk hr
    · exact .inr hid
    · exact .inl ⟨r₀, hr₀, hsame ▸ hout⟩
  · intro h
    obtain ⟨r₀, hr₀, hold⟩ : ∃ r₀, s.reads[id]? = some r₀ ∧
        (id ∉ ids → r₀.outcome.isSome = true) := by
      rcases h with ⟨r₀, hr₀, hout⟩ | hid
      · exact ⟨r₀, hr₀, fun _ => hout⟩
      · obtain ⟨r₀, hr₀, -⟩ := hids id hid
        exact ⟨r₀, hr₀, fun hnot => absurd hid hnot⟩
    obtain ⟨r, hr, -, ⟨-, hsome⟩ | ⟨hnot, hsame⟩⟩ :=
      exists_getElem?_settleChunk deps j ids answer hr₀
    · exact ⟨r, hr, hsome⟩
    · exact ⟨r, hr, hsame ▸ hold hnot⟩

/-- **A chunk's reads settle for the first time, and free their keys.** -/
lemma Tracked.settleChunk (h : Tracked deps s log) {j block : ℕ} {ids : List ℕ}
    {job : RoundTrip Abi Arg Opt Error Value} (hjob : s.jobs[j]? = some job)
    (hwork : job.work = .chunk ids block) (hopen : job.answer = none)
    (answer : Except Error (MultiResult Error Value)) :
    Tracked deps (s.settleChunk deps j ids answer) (log ++ ids) := by
  have hreads : openReads job = ids := by
    rw [openReads]
    rw [hopen, hwork]
  have hperm := perm_finish deps hjob answer
  rw [hreads] at hperm
  obtain ⟨hids, hrest, hdisjoint⟩ := List.nodup_append.mp (hperm.nodup_iff.mp h.nodup)
  have hpending : ∀ id ∈ ids, s.Pending id := fun id hid =>
    (h.awaited id).mp (hperm.mem_iff.mpr (List.mem_append_left _ hid))
  refine ⟨h.bounded.release, hrest, fun id => ?_, fun key id => ?_, ?_, fun id => ?_⟩
  · have hmem : id ∈ (s.finish deps j answer).awaitedReads ↔ s.Pending id ∧ id ∉ ids := by
      rw [← h.awaited, hperm.mem_iff, List.mem_append]
      constructor
      · exact fun hid => ⟨.inr hid, fun hmem => hdisjoint id hmem id hid rfl⟩
      · rintro ⟨hid | hid, hnot⟩
        · exact absurd hid hnot
        · exact hid
    rw [pending_settleChunk]
    exact hmem
  · rw [get?_inFlight_settleChunk, h.inFlight]
    constructor
    · rintro ⟨⟨r₀, hr₀, rfl, hout⟩, hother⟩
      obtain ⟨r, hr, hkey, ⟨hid, -⟩ | ⟨-, hsame⟩⟩ :=
        exists_getElem?_settleChunk deps j ids answer hr₀
      · exact absurd rfl (hother id hid r₀ hr₀)
      · exact ⟨r, hr, hkey, hsame.trans hout⟩
    · rintro ⟨r, hr, rfl, hout⟩
      obtain ⟨r₀, hr₀, hkey, ⟨-, hsome⟩ | ⟨hnot, hsame⟩⟩ := getElem?_settleChunk hr
      · rw [hout] at hsome
        cases hsome
      · refine ⟨⟨r₀, hr₀, hkey.symm, hsame ▸ hout⟩, fun read hread r' hr' heq => hnot ?_⟩
        -- a read of the chunk under the key is the one in flight under it
        obtain ⟨r'', hr'', hout'⟩ := hpending read hread
        obtain rfl := Option.some.inj (hr'.symm.trans hr'')
        have hread' := (h.inFlight r.key read).mpr ⟨r', hr', heq, hout'⟩
        have hid := (h.inFlight r.key id).mpr ⟨r₀, hr₀, hkey.symm, hsame ▸ hout⟩
        obtain rfl : read = id := Option.some.inj (hread'.symm.trans hid)
        exact hread
  · refine List.nodup_append.mpr ⟨h.log_nodup, hids, fun id hlog id' hid heq => ?_⟩
    subst heq
    obtain ⟨r, hr, hsome⟩ := (h.log_settled id).mp hlog
    obtain ⟨r', hr', hnone⟩ := hpending id hid
    obtain rfl := Option.some.inj (hr.symm.trans hr')
    rw [hnone] at hsome
    cases hsome
  · rw [List.mem_append, h.log_settled, settled_settleChunk hpending]

/-- **An answer keeps track of the reads.** -/
lemma Tracked.answerJob (h : Tracked deps s log) {j : ℕ}
    {job : RoundTrip Abi Arg Opt Error Value} (hjob : s.jobs[j]? = some job)
    (hopen : job.answer = none) (answer : Except Error (MultiResult Error Value)) :
    Tracked deps (s.answerJob deps j answer job) (log ++ settledBy job answer) := by
  obtain ⟨work, retry, answer'⟩ := job
  have hretry : Tracked deps (s.retryChunk j) (log ++ []) := by
    rw [List.append_nil]
    exact h.of_perm h.bounded (perm_retryChunk hjob) rfl rfl
  cases work with
  | passed params =>
      have hnone : openReads (⟨.passed params, retry, answer'⟩ :
          RoundTrip Abi Arg Opt Error Value) = [] := by
        rw [openReads]
        cases answer' <;> rfl
      have hperm := perm_finish deps hjob answer
      rw [hnone] at hperm
      show Tracked deps (s.finish deps j answer) (log ++ [])
      rw [List.append_nil]
      exact h.of_perm h.bounded.release hperm.symm rfl rfl
  | chunk ids block =>
      cases retry with
      | true => exact h.settleChunk hjob rfl hopen answer
      | false =>
          cases answer with
          | error error => exact hretry
          | ok result => exact h.settleChunk hjob rfl hopen (.ok result)

lemma Tracked.enqueueRead (h : Tracked deps s log) (contract : ContractCall Abi Arg) (block : ℕ) :
    Tracked deps (s.enqueueRead deps contract block).1 log := by
  rw [Coalescer.enqueueRead]
  split
  · exact h.of_perm h.bounded (List.Perm.refl _) rfl rfl
  · dsimp only
    split
    · exact h
    · next hkey => exact (h.openRead contract block hkey).flushFull block

lemma Tracked.enqueueReads (h : Tracked deps s log) (block : ℕ)
    (contracts : List (ContractCall Abi Arg)) :
    Tracked deps (enqueueReads deps block s contracts).1 log := by
  induction contracts generalizing s with
  | nil => exact h
  | cons contract contracts ih => exact ih (h.enqueueRead contract block)

/-- **Every step keeps track of the reads.** -/
lemma Tracked.step (h : Tracked deps s log) {i : CoalescerInput Abi Arg Opt Error Value}
    (hstep : s.step deps i = some t) : Tracked deps t (log ++ s.settles i) := by
  have hwith : ∀ {s' : Coalescer Abi Arg Opt Error Value}, Tracked deps s' log →
      ∀ calls, Tracked deps { s' with calls := calls } (log ++ []) := by
    intro s' h' calls
    rw [List.append_nil]
    exact h'.of_perm h'.bounded (List.Perm.refl _) rfl rfl
  cases i with
  | readContract params =>
      obtain rfl := Option.some.inj hstep
      refine hwith ?_ _
      rw [sourceRead]
      split
      · split_ifs
        · exact h.enqueueRead _ _
        · exact h.of_perm h.bounded (List.Perm.refl _) rfl rfl
      · exact h.of_perm h.bounded (List.Perm.refl _) rfl rfl
  | multicall params =>
      obtain rfl := Option.some.inj hstep
      rw [Coalescer.multicall]
      split
      · exact hwith (h.enqueueReads _ _) _
      · have hsubmit : Tracked deps (s.submit deps (.passed params)) log :=
          h.of_perm (Semaphore.Bounded.acquire h.bounded) (perm_submit _) rfl rfl
        exact hwith hsubmit _
  | timer block =>
      simp only [Coalescer.step] at hstep
      split_ifs at hstep
      obtain rfl := Option.some.inj hstep
      have hflush := h.flushGroup block
      rwa [← List.append_nil log] at hflush
  | answer j answer =>
      simp only [Coalescer.step] at hstep
      split_ifs at hstep
      obtain ⟨job, hfilter, rfl⟩ := Option.map_eq_some_iff.mp hstep
      obtain ⟨hjob, hopen⟩ := Option.filter_eq_some_iff.mp hfilter
      rw [settles, hjob]
      exact h.answerJob hjob (Option.isNone_iff_eq_none.mp hopen) answer
  | direct i answer =>
      obtain ⟨d, -, rfl⟩ := Option.map_eq_some_iff.mp hstep
      show Tracked deps _ (log ++ [])
      rw [List.append_nil]
      exact h.of_perm h.bounded (List.Perm.refl _) rfl rfl

lemma tracked_init (deps : CoalescerDeps Abi Arg Error) :
    Tracked deps (init : Coalescer Abi Arg Opt Error Value) [] where
  bounded := Semaphore.bounded_empty
  nodup := List.nodup_nil
  awaited := fun id => ⟨fun hid => (by cases hid), fun ⟨_, hr, _⟩ => by cases hr⟩
  inFlight := fun key id => ⟨fun hget => (by cases hget), fun ⟨_, hr, _⟩ => by cases hr⟩
  log_nodup := List.nodup_nil
  log_settled := fun id => ⟨fun hid => (by cases hid), fun ⟨_, hr, _⟩ => by cases hr⟩

/-! ### Where callers get their values from -/

/-- What was asked is still there, by the same calls. -/
structure Extends (s t : Coalescer Abi Arg Opt Error Value) : Prop where
  reads : s.reads.length ≤ t.reads.length
  directs : s.directs.length ≤ t.directs.length
  jobs : s.jobs.length ≤ t.jobs.length
  calls : t.calls = s.calls

/-- A source that is there. -/
def Sourced (s : Coalescer Abi Arg Opt Error Value) : ReadSource → Prop
  | .shared id => id < s.reads.length
  | .direct i => i < s.directs.length

/-- A call that has all its sources. -/
def CallSourced (s : Coalescer Abi Arg Opt Error Value) : CoalescedCall Abi Arg Opt → Prop
  | .read _ source => s.Sourced source
  | .multicall _ sources => ∀ source ∈ sources, s.Sourced source
  | .passed _ j => j < s.jobs.length

lemma Extends.refl (s : Coalescer Abi Arg Opt Error Value) : s.Extends s :=
  ⟨le_rfl, le_rfl, le_rfl, rfl⟩

lemma Extends.trans {u : Coalescer Abi Arg Opt Error Value} (h : s.Extends t) (h' : t.Extends u) :
    s.Extends u :=
  ⟨h.reads.trans h'.reads, h.directs.trans h'.directs, h.jobs.trans h'.jobs,
    h'.calls.trans h.calls⟩

lemma Sourced.extends {source : ReadSource} (h : s.Sourced source) (hst : s.Extends t) :
    t.Sourced source := by
  cases source with
  | shared id => exact lt_of_lt_of_le h hst.reads
  | direct i => exact lt_of_lt_of_le h hst.directs

lemma CallSourced.extends {call : CoalescedCall Abi Arg Opt} (h : s.CallSourced call)
    (hst : s.Extends t) : t.CallSourced call := by
  cases call with
  | read params source => exact Sourced.extends h hst
  | multicall params sources => exact fun source hsource => (h source hsource).extends hst
  | passed params j => exact lt_of_lt_of_le h hst.jobs

lemma extends_submit (work : Work Abi Arg Opt) : s.Extends (s.submit deps work) :=
  ⟨le_rfl, le_rfl, by
    rw [submit, List.length_append]
    exact Nat.le_add_right _ _, rfl⟩

lemma extends_submits {block : ℕ} {slices : List (List ℕ)} :
    s.Extends (slices.foldl (fun s slice => s.submit deps (.chunk slice block)) s) := by
  induction slices generalizing s with
  | nil => exact .refl s
  | cons slice slices ih => exact (extends_submit _).trans ih

lemma extends_flushGroup (block : ℕ) : s.Extends (s.flushGroup deps block) := by
  rw [flushGroup]
  cases s.groups.get? block with
  | none => exact .refl s
  | some ids =>
      have hdelete : s.Extends { s with groups := s.groups.delete block } :=
        ⟨le_rfl, le_rfl, le_rfl, rfl⟩
      exact hdelete.trans extends_submits

lemma extends_flushFull (block : ℕ) : s.Extends (s.flushFull deps block) := by
  rw [flushFull]
  split_ifs
  · exact extends_flushGroup block
  · exact .refl s

lemma extends_openRead (contract : ContractCall Abi Arg) (block : ℕ) (key : JsString) :
    s.Extends (s.openRead contract block key) :=
  ⟨by rw [openRead, List.length_append]; exact Nat.le_add_right _ _, le_rfl, le_rfl, rfl⟩

/-- A new read is there after its group was flushed. -/
lemma lt_length_openRead (contract : ContractCall Abi Arg) (block : ℕ) (key : JsString) :
    s.reads.length < ((s.openRead contract block key).flushFull deps block).reads.length := by
  refine lt_of_lt_of_le ?_ (extends_flushFull block).reads
  rw [openRead, List.length_append]
  exact Nat.lt_succ_self _

lemma sourced_readDirectly (params : ReadParams Abi Arg Opt) :
    s.Extends (s.readDirectly params).1 ∧
      (s.readDirectly params).1.Sourced (s.readDirectly params).2 := by
  have hlength : (s.readDirectly params).1.directs.length = s.directs.length + 1 :=
    List.length_append
  refine ⟨⟨le_rfl, ?_, le_rfl, rfl⟩, ?_⟩
  · rw [hlength]
    exact Nat.le_succ _
  · show s.directs.length < (s.readDirectly params).1.directs.length
    rw [hlength]
    exact Nat.lt_succ_self _

lemma Tracked.sourced_enqueueRead (h : Tracked deps s log) (contract : ContractCall Abi Arg)
    (block : ℕ) : s.Extends (s.enqueueRead deps contract block).1 ∧
      (s.enqueueRead deps contract block).1.Sourced (s.enqueueRead deps contract block).2 := by
  rw [Coalescer.enqueueRead]
  split
  · exact sourced_readDirectly _
  · dsimp only
    split
    · next id hget =>
        obtain ⟨r, hr, -⟩ := (h.inFlight _ id).mp hget
        exact ⟨.refl s, (List.getElem?_eq_some_iff.mp hr).1⟩
    · exact ⟨(extends_openRead _ _ _).trans (extends_flushFull block), lt_length_openRead _ _ _⟩

lemma Tracked.sourced_enqueueReads (h : Tracked deps s log) (block : ℕ)
    (contracts : List (ContractCall Abi Arg)) :
    s.Extends (Coalescer.enqueueReads deps block s contracts).1 ∧
      ∀ source ∈ (Coalescer.enqueueReads deps block s contracts).2,
        (Coalescer.enqueueReads deps block s contracts).1.Sourced source := by
  induction contracts generalizing s with
  | nil => exact ⟨.refl s, fun _ hsource => by cases hsource⟩
  | cons contract contracts ih =>
      obtain ⟨hfirst, hsource⟩ := h.sourced_enqueueRead contract block
      obtain ⟨hothers, hsources⟩ := ih (h.enqueueRead contract block)
      refine ⟨hfirst.trans hothers, List.forall_mem_cons.mpr ⟨hsource.extends hothers, hsources⟩⟩

lemma extends_answerJob (j : ℕ) (answer : Except Error (MultiResult Error Value))
    (job : RoundTrip Abi Arg Opt Error Value) : s.Extends (s.answerJob deps j answer job) := by
  rcases answerJob_cases s deps j answer job with
    ⟨heq, -⟩ | ⟨ids, block, -, heq, -⟩ | ⟨params, -, heq⟩
  · rw [heq]
    exact ⟨le_rfl, le_rfl, (List.length_modify _ _ _).ge, rfl⟩
  · rw [heq]
    exact ⟨length_resolves.ge, le_rfl, (List.length_modify _ _ _).ge, rfl⟩
  · rw [heq]
    exact ⟨le_rfl, le_rfl, (List.length_modify _ _ _).ge, rfl⟩

/-- **No step takes a source from a call.** -/
lemma Tracked.step_calls (h : Tracked deps s log) (hcalls : ∀ call ∈ s.calls, s.CallSourced call)
    {i : CoalescerInput Abi Arg Opt Error Value} (hstep : s.step deps i = some t) :
    ∀ call ∈ t.calls, t.CallSourced call := by
  -- a call that is new has its sources, the others keep theirs
  have hnew : ∀ {s' : Coalescer Abi Arg Opt Error Value} {call : CoalescedCall Abi Arg Opt},
      s.Extends s' → s'.CallSourced call → ∀ call' ∈ s'.calls ++ [call], s'.CallSourced call' := by
    intro s' call hext hcall call' hcall'
    rcases List.mem_append.mp hcall' with hold | hlast
    · exact (hcalls call' (hext.calls ▸ hold)).extends hext
    · rw [List.mem_singleton.mp hlast]
      exact hcall
  have hkept : s.Extends t → ∀ call ∈ t.calls, t.CallSourced call := fun hext call hcall =>
    (hcalls call (hext.calls ▸ hcall)).extends hext
  cases i with
  | readContract params =>
      obtain rfl := Option.some.inj hstep
      have hsource : s.Extends (s.sourceRead deps params).1 ∧
          (s.sourceRead deps params).1.Sourced (s.sourceRead deps params).2 := by
        rw [sourceRead]
        split
        · split_ifs
          · exact h.sourced_enqueueRead _ _
          · exact sourced_readDirectly params
        · exact sourced_readDirectly params
      exact hnew hsource.1 hsource.2
  | multicall params =>
      obtain rfl := Option.some.inj hstep
      rw [Coalescer.multicall]
      split
      · obtain ⟨hext, hsources⟩ := h.sourced_enqueueReads _ params.contracts
        exact hnew hext hsources
      · have hlt : s.jobs.length < (s.submit deps (.passed params)).jobs.length := by
          rw [submit, List.length_append]
          exact Nat.lt_succ_self _
        exact hnew (extends_submit _) hlt
  | timer block =>
      simp only [Coalescer.step] at hstep
      split_ifs at hstep
      obtain rfl := Option.some.inj hstep
      exact hkept (extends_flushGroup block)
  | answer j answer =>
      simp only [Coalescer.step] at hstep
      split_ifs at hstep
      obtain ⟨job, -, rfl⟩ := Option.map_eq_some_iff.mp hstep
      exact hkept (extends_answerJob j answer job)
  | direct i answer =>
      obtain ⟨d, -, rfl⟩ := Option.map_eq_some_iff.mp hstep
      exact hkept ⟨le_rfl, (List.length_set).ge, le_rfl, rfl⟩

/-! ### Rest -/

/-- Nothing is under way: no timer is armed, and the client has answered all that it was asked. -/
structure Quiet (s : Coalescer Abi Arg Opt Error Value) : Prop where
  timers : ∀ block, s.groups.has block = false
  answered : ∀ j ∈ s.budget.running, ∀ job, s.jobs[j]? = some job → job.answer.isSome = true
  directs : ∀ d ∈ s.directs, d.answer.isSome = true

/-- A read that opens a new one: it is the last, it is on its way, and its key is in flight. -/
def OpensRead (deps : CoalescerDeps Abi Arg Error) (s : Coalescer Abi Arg Opt Error Value)
    (contract : ContractCall Abi Arg) (block : ℕ) (key : JsString) : Prop :=
  (s.enqueueRead deps contract block).2 = .shared s.reads.length ∧
    ∃ r, (s.enqueueRead deps contract block).1.reads[s.reads.length]? = some r ∧ r.key = key ∧
      r.outcome = none ∧ (s.enqueueRead deps contract block).1.Awaited s.reads.length

/-- **At rest nobody holds a slot, and nobody waits for one.** -/
lemma Quiet.jobs (hquiet : s.Quiet) (h : Live deps s) {j : ℕ}
    {job : RoundTrip Abi Arg Opt Error Value} (hjob : s.jobs[j]? = some job) :
    job.answer.isSome = true := by
  rw [← Option.ne_none_iff_isSome]
  intro hnone
  obtain ⟨k, hk, job', hjob', hnone'⟩ := h.exists_open hjob hnone
  have hsome := hquiet.answered k hk job' hjob'
  rw [hnone'] at hsome
  cases hsome

/-- **At rest every read has settled.** -/
lemma Quiet.not_pending (hquiet : s.Quiet) (h : Live deps s) (id : ℕ) : ¬ s.Pending id := by
  rintro ⟨r, hr, hout⟩
  rcases h.pending id r hr hout with ⟨block, ids, hget, -⟩ | ⟨j, job, -, -, hjob, -, hnone, -⟩
  · have hhas : s.groups.has block = true := by
      rw [JsMap.has, hget]
      rfl
    rw [hquiet.timers block] at hhas
    cases hhas
  · have hsome := hquiet.jobs h hjob
    rw [hnone] at hsome
    cases hsome

lemma settled_of_not_pending {id : ℕ} (hid : id < s.reads.length) (h : ¬ s.Pending id) :
    s.Settled id := by
  refine ⟨_, List.getElem?_eq_getElem hid, ?_⟩
  rw [← Option.ne_none_iff_isSome]
  exact fun hnone => h ⟨_, List.getElem?_eq_getElem hid, hnone⟩

lemma Quiet.source (hquiet : s.Quiet) (h : Live deps s) {source : ReadSource}
    (hsource : s.Sourced source) : (s.sourceOutcome? source).isSome = true := by
  cases source with
  | shared id =>
      obtain ⟨r, hr, hsome⟩ := settled_of_not_pending hsource (hquiet.not_pending h id)
      rw [sourceOutcome?, hr]
      exact hsome
  | direct i =>
      have hd := List.getElem?_eq_getElem hsource
      rw [sourceOutcome?, hd]
      exact hquiet.directs _ (List.mem_of_getElem? hd)

/-- **At rest every caller has its outcome.** -/
lemma Quiet.call (hquiet : s.Quiet) (h : Live deps s) {call : CoalescedCall Abi Arg Opt}
    (hcall : s.CallSourced call) : (s.outcome? call).isSome = true := by
  cases call with
  | read params source =>
      rw [outcome?, Option.isSome_map]
      exact hquiet.source h hcall
  | multicall params sources =>
      rw [outcome?, Option.isSome_map, ← Option.ne_none_iff_isSome]
      intro hnone
      obtain ⟨source, hmem, hnone⟩ := List.mapM_eq_none_iff.mp hnone
      have hsome := hquiet.source h (hcall source hmem)
      rw [hnone] at hsome
      cases hsome
  | passed params j =>
      have hjob := List.getElem?_eq_getElem hcall
      rw [outcome?, Option.isSome_map, hjob]
      exact hquiet.jobs h hjob

/-- **A read whose key is free is issued afresh.** -/
lemma Tracked.opensRead (h : Tracked deps s log) (hlive : Live deps s)
    {contract : ContractCall Abi Arg} {block : ℕ} {calldata : JsString}
    (hencode : deps.encodeFunctionData contract.abi contract.functionName contract.args
      = some calldata) (hfree : ∀ (id : ℕ) r, s.reads[id]? = some r →
        r.key = readKey block contract.address calldata → r.outcome.isSome = true) :
    s.OpensRead deps contract block (readKey block contract.address calldata) := by
  have hnone : s.inFlight.get? (readKey block contract.address calldata) = none := by
    rw [Option.eq_none_iff_forall_not_mem]
    intro id hget
    obtain ⟨r, hr, hkey, hout⟩ := (h.inFlight _ id).mp hget
    have hsome := hfree id r hr hkey
    rw [hout] at hsome
    cases hsome
  have henqueue : s.enqueueRead deps contract block = ((s.openRead contract block
      (readKey block contract.address calldata)).flushFull deps block, .shared s.reads.length) := by
    rw [Coalescer.enqueueRead]
    rw [hencode]
    dsimp only
    rw [hnone]
  have hself : ((s.openRead contract block (readKey block contract.address calldata)).flushFull deps
      block).reads[s.reads.length]? = some ⟨{ contract with args := some (contract.args.getD []) },
        block, readKey block contract.address calldata, none⟩ := by
    rw [flushFull_reads]
    exact openRead_self s contract block _
  rw [OpensRead]
  rw [henqueue]
  refine ⟨rfl, _, hself, rfl, rfl, ?_⟩
  exact ((hlive.openRead contract block _).flushFull block).pending _ _ hself rfl

/-- **What has not settled is waiting for a timer, or for an answer of the client, whatever it
is.** -/
lemma Live.pending_goes_on (h : Live deps s) {id : ℕ} (hid : s.Pending id) :
    (∃ block t, s.step deps (.timer block) = some t) ∨
      ∃ j ∈ s.budget.running, ∀ answer, ∃ t, s.step deps (.answer j answer) = some t := by
  obtain ⟨r, hr, hout⟩ := hid
  rcases h.pending id r hr hout with ⟨block, ids, hget, -⟩ | ⟨j, job, -, -, hjob, -, hnone, -⟩
  · exact .inl ⟨block, _, step_timer hget⟩
  · obtain ⟨k, hk, job', hjob', hnone'⟩ := h.exists_open hjob hnone
    exact .inr ⟨k, hk, fun answer => ⟨_, step_answer hk hjob' hnone' answer⟩⟩

end Coalescer

/-- In every run, whatever the client answers and whenever it does: no more round trips than the
limit hold a slot, a round trip waits only while all slots are taken, and none is forgotten. No
promise is settled twice, and the keys in flight are those of the reads that have not settled. One
that has not is waiting for a timer or for the client, and cannot be kept waiting by steps of the
coalescer. Once no timer is armed and the client has answered, every read has been settled exactly
once, every caller has its outcome, no key is in flight, and a read opens a new one. -/
theorem coalescer_settles {deps : CoalescerDeps Abi Arg Error}
    {s : Coalescer Abi Arg Opt Error Value} {log : List ℕ}
    (h : Reaches (Coalescer.loggedStep deps) (fun _ _ => True) (.init, []) (s, log)) :
    (s.budget.running.length ≤ deps.concurrency ∧
      (s.budget.waiting ≠ [] → s.budget.running.length = deps.concurrency) ∧
      ∀ j, s.budget.Engaged j ↔ ∃ job, s.jobs[j]? = some job ∧ job.answer = none) ∧
    (log.Nodup ∧ (∀ id, id ∈ log ↔ s.Settled id) ∧
      ∀ key id, s.inFlight.get? key = some id ↔
        ∃ r, s.reads[id]? = some r ∧ r.key = key ∧ r.outcome = none) ∧
    (∀ id, s.Pending id → (∃ block t, s.step deps (.timer block) = some t) ∨
      ∃ j ∈ s.budget.running, ∀ answer, ∃ t, s.step deps (.answer j answer) = some t) ∧
    (WellFounded fun t s : Coalescer Abi Arg Opt Error Value =>
      ∃ i, i.isCall = false ∧ s.step deps i = some t) ∧
    (s.Quiet → (∀ id < s.reads.length, s.Settled id ∧ log.count id = 1) ∧
      (∀ call ∈ s.calls, (s.outcome? call).isSome = true) ∧
      (∀ key, s.inFlight.get? key = none) ∧
      ∀ contract block calldata,
        deps.encodeFunctionData contract.abi contract.functionName contract.args = some calldata →
          s.OpensRead deps contract block (readKey block contract.address calldata)) := by
  obtain ⟨hlive, htracked, hcalls⟩ : Coalescer.Live deps s ∧ Coalescer.Tracked deps s log ∧
      ∀ call ∈ s.calls, s.CallSourced call := by
    refine h.invariant (P := fun sl => Coalescer.Live deps sl.1 ∧
      Coalescer.Tracked deps sl.1 sl.2 ∧ ∀ call ∈ sl.1.calls, sl.1.CallSourced call) ?_ ?_
    · exact ⟨Coalescer.live_init, Coalescer.tracked_init deps, fun _ hcall => by cases hcall⟩
    · rintro ⟨s, log⟩ i sl ⟨hlive, htracked, hcalls⟩ - hlogged
      obtain ⟨t, hstep, rfl⟩ := Option.map_eq_some_iff.mp hlogged
      exact ⟨hlive.step hstep, htracked.step hstep, htracked.step_calls hcalls hstep⟩
  refine ⟨⟨htracked.bounded, fun hwaiting => le_antisymm htracked.bounded (hlive.full hwaiting),
    hlive.engaged⟩, ⟨htracked.log_nodup, htracked.log_settled, htracked.inFlight⟩,
    fun id hid => hlive.pending_goes_on hid, ?_, fun hquiet => ⟨fun id hid => ?_,
    fun call hcall => hquiet.call hlive (hcalls call hcall), fun key => ?_,
    fun contract block calldata hencode => htracked.opensRead hlive hencode fun id r hr _ => ?_⟩⟩
  · exact Subrelation.wf (fun ⟨_, hi, hstep⟩ => Coalescer.measure_lt_of_step hi hstep)
      (InvImage.wf Coalescer.measure Nat.lt_wfRel.wf)
  · have hsettled := Coalescer.settled_of_not_pending hid (hquiet.not_pending hlive id)
    exact ⟨hsettled, List.count_eq_one_of_mem htracked.log_nodup
      ((htracked.log_settled id).mpr hsettled)⟩
  · rw [Option.eq_none_iff_forall_not_mem]
    intro id hget
    obtain ⟨r, hr, -, hout⟩ := (htracked.inFlight key id).mp hget
    exact hquiet.not_pending hlive id ⟨r, hr, hout⟩
  · rw [← Option.ne_none_iff_isSome]
    exact fun hout => hquiet.not_pending hlive id ⟨r, hr, hout⟩

end

/-- A read whose round trip has failed twice. -/
def failedRead : Coalescer WordType Unit Unit String ℤ :=
  (((Coalescer.init.readContract wordDeps (wordRead .int256)).flushGroup wordDeps
    100).retryChunk 0).settleChunk wordDeps 0 [0] (.error "down")

/-- It is rejected once, and may be asked for again. -/
theorem coalescer_settles_failure : Reaches (Coalescer.loggedStep wordDeps) (fun _ _ => True)
    (.init, []) (failedRead, [0]) ∧ failedRead.Quiet ∧
      (∀ call ∈ failedRead.calls, (failedRead.outcome? call).isSome = true) ∧
      failedRead.OpensRead wordDeps (wordRead .int256).toContractCall 100
        (readKey 100 (wordRead .int256).address (ofString "0x3fa4f245")) := by
  have hreach : Reaches (Coalescer.loggedStep wordDeps) (fun _ _ => True) (.init, [])
      (failedRead, [0]) :=
    (((Reaches.refl.tail (i := .readContract (wordRead .int256)) trivial rfl).tail
      (i := .timer 100) trivial rfl).tail (i := .answer 0 (.error "busy")) trivial rfl).tail
      (i := .answer 0 (.error "down")) trivial rfl
  have hquiet : failedRead.Quiet := ⟨fun _ => rfl, nofun, nofun⟩
  obtain ⟨-, hcalls, -, hfresh⟩ := (coalescer_settles hreach).2.2.2.2 hquiet
  exact ⟨hreach, hquiet, hcalls, hfresh _ _ _ rfl⟩

end PubsubVoting
