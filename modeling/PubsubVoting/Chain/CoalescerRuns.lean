import PubsubVoting.Chain.CoalescerSound

/-!
Coalesced reads are transparent, as long as reads are merged only with reads that have the same
answer.

* `Sound.outcome`: what a pinned call gets is what the client returns for it.
* `Coalescer.Live`, `Live.step`: what has not settled is on its way; `Live.goes_on`: somebody can
  bring it further.
* `coalescer_transparent`: every call gets what the client would return for it, and gets it.
* `coalescer_mixes_abis`: the key of a read does not tell the ABIs of its callers apart.
-/

namespace PubsubVoting

open JsString

section

variable {Abi Arg Opt Error Value : Type}

namespace Coalescer

variable {s t : Coalescer Abi Arg Opt Error Value}
  {client : RawClient Abi Arg Opt Error Value} {deps : CoalescerDeps Abi Arg Error}

/-! ### What callers get -/

lemma Sound.sourceOutcome (h : s.Sound client) {params : ReadParams Abi Arg Opt}
    {source : ReadSource} {o : Except Error Value} (hserves : s.Serves client params source)
    (hpinned : params.blockNumber.isSome = true) (ho : s.sourceOutcome? source = some o) :
    o = client.readContract params := by
  cases source with
  | shared id =>
      obtain ⟨r, hr, hanswer⟩ := hserves
      rw [sourceOutcome?, hr, Option.bind_some] at ho
      exact (h.outcomes id r o hr ho).trans hanswer
  | direct i =>
      obtain ⟨d, hd, rfl⟩ := hserves
      rw [sourceOutcome?, hd, Option.bind_some] at ho
      exact h.directs i d o hd ho hpinned

lemma Sound.sourceOutcomes (h : s.Sound client) {block : ℕ}
    {contracts : List (ContractCall Abi Arg)} {sources : List ReadSource}
    {settled : List (Except Error Value)}
    (hsources : List.Forall₂ (fun contract => s.Serves client ⟨contract, some block, []⟩) contracts
      sources) (hsettled : List.Forall₂ (fun source o => s.sourceOutcome? source = some o) sources
        settled) :
    List.Forall₂ (fun contract o => o = client.answer contract block) contracts settled := by
  induction hsources generalizing settled with
  | nil =>
      cases hsettled
      exact .nil
  | cons hserves _ ih =>
      cases hsettled with
      | cons hfirst hothers => exact .cons (h.sourceOutcome hserves rfl hfirst) (ih hothers)

/-- The block of a call. -/
def callBlock : CoalescedCall Abi Arg Opt → Option ℕ
  | .read params _ => params.blockNumber
  | .multicall params _ => params.blockNumber
  | .passed params _ => params.blockNumber

/-- What the client returns for a call on its own. -/
def rawOutcome (client : RawClient Abi Arg Opt Error Value) :
    CoalescedCall Abi Arg Opt → CallOutcome Error Value
  | .read params _ => .single (client.readContract params)
  | .multicall params _ => .multi (client.multicall params)
  | .passed params _ => .multi (client.multicall params)

/-- **What a pinned call gets is what the client returns for it.** -/
theorem Sound.outcome (hclient : client.PerEntry) (h : s.Sound client)
    {call : CoalescedCall Abi Arg Opt} (hcall : call ∈ s.calls)
    (hpinned : (callBlock call).isSome = true) {o : CallOutcome Error Value}
    (ho : s.outcome? call = some o) : o = rawOutcome client call := by
  have hserved := h.calls call hcall
  cases call with
  | read params source =>
      obtain ⟨o', ho', rfl⟩ := Option.map_eq_some_iff.mp ho
      rw [h.sourceOutcome hserved hpinned ho']
      rfl
  | passed params j =>
      obtain ⟨job, hjob, hwork⟩ := hserved
      obtain ⟨o', ho', rfl⟩ := Option.map_eq_some_iff.mp ho
      rw [hjob, Option.bind_some] at ho'
      rw [h.passed j job params o' hjob hwork ho' hpinned]
      rfl
  | multicall params sources =>
      obtain ⟨block, hblock, hrest, hsources⟩ := hserved
      obtain ⟨settled, hsettled, rfl⟩ := Option.map_eq_some_iff.mp ho
      have hvalues : settled = params.contracts.map fun c => client.answer c block := by
        rw [← List.forall₂_eq_eq_eq, List.forall₂_map_right_iff]
        exact (h.sourceOutcomes hsources (List.mapM_eq_some_iff.mp hsettled)).flip
      have hparams : params
          = ⟨params.contracts, params.allowFailure, params.batchSize, some block, []⟩ := by
        rw [← hblock, ← hrest]
      show CallOutcome.multi _ = .multi (client.multicall params)
      rw [hparams, hclient.multicall, hvalues, gather_eq]

/-! ### What is on its way -/

/-- A pending read is in a group, or in a chunk that is under way. -/
def Awaited (s : Coalescer Abi Arg Opt Error Value) (id : ℕ) : Prop :=
  (∃ block ids, s.groups.get? block = some ids ∧ id ∈ ids) ∨
    ∃ (j : ℕ) (job : RoundTrip Abi Arg Opt Error Value) (ids : List ℕ) (block : ℕ),
      s.jobs[j]? = some job ∧ job.work = .chunk ids block ∧ job.answer = none ∧ id ∈ ids

/-- Every round trip that is not over holds a slot or waits for one. -/
structure Budgeted (deps : CoalescerDeps Abi Arg Error) (s : Coalescer Abi Arg Opt Error Value) :
    Prop where
  distinct : s.budget.Distinct
  full : s.budget.Full deps.concurrency
  engaged : ∀ j, s.budget.Engaged j ↔ ∃ job, s.jobs[j]? = some job ∧ job.answer = none

/-- What has not settled is on its way. -/
structure Live (deps : CoalescerDeps Abi Arg Error) (s : Coalescer Abi Arg Opt Error Value) :
    Prop extends Budgeted deps s where
  pending : ∀ (id : ℕ) r, s.reads[id]? = some r → r.outcome = none → s.Awaited id

lemma Awaited.submit {work : Work Abi Arg Opt} {id : ℕ} (h : s.Awaited id) :
    (s.submit deps work).Awaited id := by
  rcases h with hgroup | ⟨j, job, ids, block, hjob, hwork, hanswer, hid⟩
  · exact .inl hgroup
  · refine .inr ⟨j, job, ids, block, ?_, hwork, hanswer, hid⟩
    exact (List.getElem?_append_left (List.getElem?_eq_some_iff.mp hjob).1).trans hjob

lemma Budgeted.submit (h : Budgeted deps s) (work : Work Abi Arg Opt) :
    Budgeted deps (s.submit deps work) := by
  have hnot : ¬ s.budget.Engaged s.jobs.length := fun hengaged => by
    obtain ⟨job, hjob, -⟩ := (h.engaged _).mp hengaged
    exact lt_irrefl _ (List.getElem?_eq_some_iff.mp hjob).1
  refine ⟨h.distinct.acquire hnot, h.full.acquire, fun j => ?_⟩
  rw [Coalescer.submit, Semaphore.engaged_acquire, h.engaged]
  constructor
  · rintro (rfl | ⟨job, hjob, hanswer⟩)
    · exact ⟨_, List.getElem?_concat_length, rfl⟩
    · exact ⟨job, (List.getElem?_append_left (List.getElem?_eq_some_iff.mp hjob).1).trans hjob,
        hanswer⟩
  · rintro ⟨job, hjob, hanswer⟩
    have hsubmit : (s.submit deps work).jobs[j]? = some job := hjob
    rcases getElem?_submit hsubmit with hold | ⟨-, hj⟩
    · exact .inr ⟨job, hold, hanswer⟩
    · exact .inl hj

/-- The chunks of a group are on their way, and nothing else is lost. -/
lemma budgeted_submits {block : ℕ} {slices : List (List ℕ)} (h : Budgeted deps s) :
    Budgeted deps (slices.foldl (fun s slice => s.submit deps (.chunk slice block)) s) ∧
      (∀ id, s.Awaited id →
        (slices.foldl (fun s slice => s.submit deps (.chunk slice block)) s).Awaited id) ∧
      ∀ slice ∈ slices, ∀ id ∈ slice,
        (slices.foldl (fun s slice => s.submit deps (.chunk slice block)) s).Awaited id := by
  induction slices generalizing s with
  | nil => exact ⟨h, fun _ hid => hid, fun _ hslice => by cases hslice⟩
  | cons slice slices ih =>
      obtain ⟨hbudget, hkept, hslices⟩ := ih (h.submit (.chunk slice block))
      refine ⟨hbudget, fun id hid => hkept id hid.submit, fun slice' hslice' id hid => ?_⟩
      rcases List.mem_cons.mp hslice' with rfl | hslice'
      · exact hkept id (.inr ⟨_, _, _, block, List.getElem?_concat_length, rfl, rfl, hid⟩)
      · exact hslices slice' hslice' id hid

lemma reads_submits {block : ℕ} {slices : List (List ℕ)} :
    (slices.foldl (fun s slice => s.submit deps (.chunk slice block)) s).reads = s.reads := by
  induction slices generalizing s with
  | nil => rfl
  | cons slice slices ih => exact ih

lemma Live.flushGroup (h : Live deps s) (block : ℕ) : Live deps (s.flushGroup deps block) := by
  rw [Coalescer.flushGroup]
  cases hget : s.groups.get? block with
  | none => exact h
  | some ids =>
      have hbudget : Budgeted deps { s with groups := s.groups.delete block } :=
        ⟨h.distinct, h.full, h.engaged⟩
      obtain ⟨hbudgeted, hkept, hslices⟩ := budgeted_submits hbudget
      refine ⟨hbudgeted, fun id r hr hout => ?_⟩
      rw [reads_submits] at hr
      rcases h.pending id r hr hout with ⟨block', ids', hget', hid⟩ | hjob
      · by_cases hblock : block' = block
        · subst hblock
          obtain rfl := Option.some.inj (hget.symm.trans hget')
          obtain ⟨slice, hslice, hid⟩ := (mem_slices deps.readsPerCall_pos).mpr hid
          exact hslices slice hslice id hid
        · refine hkept id (.inl ⟨block', ids', ?_, hid⟩)
          rw [JsMap.get?_delete, if_neg hblock]
          exact hget'
      · exact hkept id (.inr hjob)

lemma Live.flushFull (h : Live deps s) (block : ℕ) : Live deps (s.flushFull deps block) := by
  rw [Coalescer.flushFull]
  split_ifs
  · exact h.flushGroup block
  · exact h

lemma Live.openRead (h : Live deps s) (contract : ContractCall Abi Arg) (block : ℕ)
    (key : JsString) : Live deps (s.openRead contract block key) := by
  refine ⟨⟨h.distinct, h.full, h.engaged⟩, fun id r hr hout => ?_⟩
  rcases getElem?_openRead hr with hold | ⟨-, rfl⟩
  · rcases h.pending id r hold hout with ⟨block', ids, hget, hid⟩ | hjob
    · refine .inl ?_
      rw [Coalescer.openRead]
      by_cases hblock : block' = block
      · subst hblock
        exact ⟨block', _, by rw [JsMap.get?_set, if_pos rfl],
          List.mem_append_left _ (by rw [hget]; exact hid)⟩
      · exact ⟨block', ids, by rw [JsMap.get?_set, if_neg hblock]; exact hget, hid⟩
    · exact .inr hjob
  · refine .inl ⟨block, (s.groups.get? block).getD [] ++ [s.reads.length], ?_,
      List.mem_append_right _ (List.mem_singleton.mpr rfl)⟩
    rw [Coalescer.openRead, JsMap.get?_set, if_pos rfl]

lemma Live.enqueueRead (h : Live deps s) (contract : ContractCall Abi Arg) (block : ℕ) :
    Live deps (s.enqueueRead deps contract block).1 := by
  rw [Coalescer.enqueueRead]
  split
  · exact ⟨⟨h.distinct, h.full, h.engaged⟩, h.pending⟩
  · dsimp only
    split
    · exact h
    · exact (h.openRead contract block _).flushFull block

lemma Live.enqueueReads (h : Live deps s) (block : ℕ) (contracts : List (ContractCall Abi Arg)) :
    Live deps (enqueueReads deps block s contracts).1 := by
  induction contracts generalizing s with
  | nil => exact h
  | cons contract contracts ih => exact ih (h.enqueueRead contract block)

lemma Live.with_calls (h : Live deps s) (calls : List (CoalescedCall Abi Arg Opt)) :
    Live deps { s with calls := calls } := ⟨⟨h.distinct, h.full, h.engaged⟩, h.pending⟩

lemma Budgeted.finish (h : Budgeted deps s) {j : ℕ} (hj : j ∈ s.budget.running)
    (answer : Except Error (MultiResult Error Value)) : Budgeted deps (s.finish deps j answer) := by
  refine ⟨h.distinct.release, h.full.release hj, fun k => ?_⟩
  rw [Coalescer.finish, Semaphore.engaged_release h.distinct hj, h.engaged]
  constructor
  · rintro ⟨hk, job, hjob, hanswer⟩
    refine ⟨job, ?_, hanswer⟩
    rw [List.getElem?_modify, hjob, Option.map_eq_map, Option.map_some, if_neg (Ne.symm hk)]
  · rintro ⟨job, hjob, hanswer⟩
    rcases getElem?_modify_job hjob with ⟨-, job₀, -, rfl⟩ | ⟨hk, hold⟩
    · cases hanswer
    · exact ⟨Ne.symm hk, job, hold, hanswer⟩

/-- A read that is not the job's stays on its way. -/
lemma Awaited.finish {id j : ℕ} (h : s.Awaited id) {job : RoundTrip Abi Arg Opt Error Value}
    (hjob : s.jobs[j]? = some job) (hnot : ∀ ids block, job.work = .chunk ids block → id ∉ ids)
    (answer : Except Error (MultiResult Error Value)) : (s.finish deps j answer).Awaited id := by
  rcases h with hgroup | ⟨k, job', ids, block, hjob', hwork, hanswer, hid⟩
  · exact .inl hgroup
  · have hk : j ≠ k := by
      rintro rfl
      obtain rfl := Option.some.inj (hjob.symm.trans hjob')
      exact hnot ids block hwork hid
    refine .inr ⟨k, job', ids, block, ?_, hwork, hanswer, hid⟩
    rw [Coalescer.finish, List.getElem?_modify, hjob', Option.map_eq_map, Option.map_some,
      if_neg hk]

lemma Live.settleChunk (h : Live deps s) {j block : ℕ} {ids : List ℕ}
    {job : RoundTrip Abi Arg Opt Error Value} (hj : j ∈ s.budget.running)
    (hjob : s.jobs[j]? = some job) (hwork : job.work = .chunk ids block)
    (answer : Except Error (MultiResult Error Value)) :
    Live deps (s.settleChunk deps j ids answer) := by
  have hbudget := h.toBudgeted.finish hj answer
  refine ⟨⟨hbudget.distinct, hbudget.full, hbudget.engaged⟩, fun id r hr hout => ?_⟩
  obtain ⟨r₀, hr₀, -, -, -, hcase⟩ := getElem?_resolves hr
  rcases hcase with ⟨hsame, hnot⟩ | ⟨i, -, hsome⟩
  · have hother : ∀ ids' block', job.work = .chunk ids' block' → id ∉ ids' := by
      intro ids' block' hwork' hid
      rw [hwork] at hwork'
      cases hwork'
      obtain ⟨i, hi⟩ := List.mem_iff_getElem?.mp hid
      exact hnot hout i (List.mk_mem_zipIdx_iff_getElem?.mpr hi)
    have hawaited : (s.finish deps j answer).Awaited id :=
      (h.pending id r₀ hr₀ (hsame ▸ hout)).finish hjob hother answer
    exact hawaited
  · rw [hout] at hsome
    cases hsome

lemma getElem?_retryChunk {j k : ℕ} {job : RoundTrip Abi Arg Opt Error Value}
    (h : s.jobs[k]? = some job) : ∃ job', (s.retryChunk j).jobs[k]? = some job' ∧
      job'.work = job.work ∧ job'.answer = job.answer := by
  rw [Coalescer.retryChunk, List.getElem?_modify, h]
  refine ⟨_, rfl, ?_⟩
  split_ifs
  · exact ⟨rfl, rfl⟩
  · exact ⟨rfl, rfl⟩

lemma Live.retryChunk (h : Live deps s) (j : ℕ) : Live deps (s.retryChunk j) := by
  refine ⟨⟨h.distinct, h.full, fun k => ?_⟩, fun id r hr hout => ?_⟩
  · refine (h.engaged k).trans ⟨fun ⟨job, hjob, hanswer⟩ => ?_, fun ⟨job, hjob, hanswer⟩ => ?_⟩
    · obtain ⟨job', hjob', -, hanswer'⟩ := getElem?_retryChunk (j := j) hjob
      exact ⟨job', hjob', hanswer'.trans hanswer⟩
    · rcases getElem?_modify_job hjob with ⟨rfl, job₀, hjob₀, rfl⟩ | ⟨-, hold⟩
      · exact ⟨job₀, hjob₀, hanswer⟩
      · exact ⟨job, hold, hanswer⟩
  · rcases h.pending id r hr hout with hgroup | ⟨k, job, ids, block, hjob, hwork, hanswer, hid⟩
    · exact .inl hgroup
    · obtain ⟨job', hjob', hwork', hanswer'⟩ := getElem?_retryChunk (j := j) hjob
      exact .inr ⟨k, job', ids, block, hjob', hwork'.trans hwork, hanswer'.trans hanswer, hid⟩

/-- **No step loses what has not settled.** -/
lemma Live.step (h : Live deps s) {i : CoalescerInput Abi Arg Opt Error Value}
    (hstep : s.step deps i = some t) : Live deps t := by
  cases i with
  | readContract params =>
      obtain rfl := Option.some.inj hstep
      refine Live.with_calls ?_ _
      rw [sourceRead]
      split
      · split_ifs
        · exact h.enqueueRead _ _
        · exact ⟨⟨h.distinct, h.full, h.engaged⟩, h.pending⟩
      · exact ⟨⟨h.distinct, h.full, h.engaged⟩, h.pending⟩
  | multicall params =>
      obtain rfl := Option.some.inj hstep
      have hpassed : Live deps (s.submit deps (.passed params)) := by
        have hbudget := h.toBudgeted.submit (.passed params)
        exact ⟨hbudget, fun id r hr hout => (h.pending id r hr hout).submit⟩
      rw [Coalescer.multicall]
      split
      · exact (h.enqueueReads _ _).with_calls _
      · exact hpassed.with_calls _
  | timer block =>
      simp only [Coalescer.step] at hstep
      split_ifs at hstep
      obtain rfl := Option.some.inj hstep
      exact h.flushGroup block
  | answer j answer =>
      simp only [Coalescer.step] at hstep
      split_ifs at hstep with hj
      obtain ⟨job, hfilter, rfl⟩ := Option.map_eq_some_iff.mp hstep
      have hjob : s.jobs[j]? = some job := (Option.filter_eq_some_iff.mp hfilter).1
      rcases answerJob_cases s deps j answer job with
        ⟨heq, -⟩ | ⟨ids, block, hwork, heq, -⟩ | ⟨params, hwork, heq⟩
      · rw [heq]
        exact h.retryChunk j
      · rw [heq]
        exact h.settleChunk hj hjob hwork answer
      · rw [heq]
        refine ⟨h.toBudgeted.finish hj answer, fun id r hr hout => ?_⟩
        refine (h.pending id r hr hout).finish hjob (fun ids block hchunk => ?_) answer
        rw [hwork] at hchunk
        cases hchunk
  | direct i answer =>
      obtain ⟨d, -, rfl⟩ := Option.map_eq_some_iff.mp hstep
      exact ⟨⟨h.distinct, h.full, h.engaged⟩, h.pending⟩

/-- While a round trip is not over, the client has one to answer. -/
lemma Budgeted.exists_open (h : Budgeted deps s) {j : ℕ} {job : RoundTrip Abi Arg Opt Error Value}
    (hjob : s.jobs[j]? = some job) (hanswer : job.answer = none) :
    ∃ k ∈ s.budget.running, ∃ job', s.jobs[k]? = some job' ∧ job'.answer = none := by
  obtain ⟨k, hk⟩ := h.full.exists_running deps.concurrency_pos
    ((h.engaged j).mpr ⟨job, hjob, hanswer⟩)
  exact ⟨k, hk, (h.engaged k).mp (.inl hk)⟩

lemma step_answer {k : ℕ} {job : RoundTrip Abi Arg Opt Error Value} (hk : k ∈ s.budget.running)
    (hjob : s.jobs[k]? = some job) (hanswer : job.answer = none)
    (answer : Except Error (MultiResult Error Value)) :
    s.step deps (.answer k answer) = some (s.answerJob deps k answer job) := by
  simp only [Coalescer.step]
  rw [if_pos hk, hjob, Option.filter_some, if_pos (by rw [hanswer]; rfl), Option.map_some]

lemma step_timer {block : ℕ} {ids : List ℕ} (hget : s.groups.get? block = some ids) :
    s.step deps (.timer block) = some (s.flushGroup deps block) := by
  simp only [Coalescer.step]
  rw [if_pos (by rw [JsMap.has, hget]; rfl)]

/-- **A call that has come to nothing yet is waiting for a timer or for the client.** -/
theorem Live.goes_on (hsound : s.Sound client) (h : Live deps s) {call : CoalescedCall Abi Arg Opt}
    (hcall : call ∈ s.calls) (hnone : s.outcome? call = none) :
    ∃ i t, i.isCall = false ∧ s.Honest client i ∧ s.step deps i = some t := by
  -- a round trip that is not over: somebody holds a slot, and may be answered
  have hjob : ∀ (j : ℕ) job, s.jobs[j]? = some job → job.answer = none →
      ∃ i t, i.isCall = false ∧ s.Honest client i ∧ s.step deps i = some t := by
    intro j job hj hanswer
    obtain ⟨k, hk, job', hjob', hanswer'⟩ := h.exists_open hj hanswer
    obtain ⟨answer, hhonest⟩ : ∃ answer, s.HonestAnswer client job' answer := by
      unfold HonestAnswer
      cases job'.work with
      | chunk ids block => exact ⟨_, .inl rfl⟩
      | passed params => exact ⟨client.multicall params, fun _ => rfl⟩
    refine ⟨.answer k answer, s.answerJob deps k answer job', rfl, fun job'' hjob'' => ?_,
      step_answer hk hjob' hanswer' answer⟩
    obtain rfl := Option.some.inj (hjob'.symm.trans hjob'')
    exact hhonest
  have hsource : ∀ params source, s.Serves client params source → s.sourceOutcome? source = none →
      ∃ i t, i.isCall = false ∧ s.Honest client i ∧ s.step deps i = some t := by
    intro params source hserves hnone
    cases source with
    | shared id =>
        obtain ⟨r, hr, -⟩ := hserves
        rw [sourceOutcome?, hr, Option.bind_some] at hnone
        rcases h.pending id r hr hnone with ⟨block, ids, hget, -⟩ | ⟨j, job, -, -, hj, -, hans, -⟩
        · exact ⟨.timer block, s.flushGroup deps block, rfl, trivial, step_timer hget⟩
        · exact hjob j job hj hans
    | direct i =>
        obtain ⟨d, hd, rfl⟩ := hserves
        rw [sourceOutcome?, hd, Option.bind_some] at hnone
        have hstep : ∃ t, s.step deps (.direct i (client.readContract d.params)) = some t := by
          simp only [Coalescer.step]
          rw [hd, Option.filter_some, if_pos (by rw [hnone]; rfl), Option.map_some]
          exact ⟨_, rfl⟩
        obtain ⟨t, ht⟩ := hstep
        refine ⟨.direct i (client.readContract d.params), t, rfl, fun d' hd' _ => ?_, ht⟩
        obtain rfl := Option.some.inj (hd.symm.trans hd')
        rfl
  have hserved := hsound.calls call hcall
  cases call with
  | read params source => exact hsource params source hserved (Option.map_eq_none_iff.mp hnone)
  | multicall params sources =>
      obtain ⟨block, -, -, hsources⟩ := hserved
      obtain ⟨source, hmem, hnone⟩ := List.mapM_eq_none_iff.mp (Option.map_eq_none_iff.mp hnone)
      obtain ⟨i, hi⟩ := List.mem_iff_getElem?.mp hmem
      have hlen : i < params.contracts.length := by
        rw [hsources.length_eq]
        exact (List.getElem?_eq_some_iff.mp hi).1
      exact hsource _ source ((forall₂_iff_getElem?.mp hsources).2 i _ source
        (List.getElem?_eq_getElem hlen) hi) hnone
  | passed params j =>
      obtain ⟨job, hj, -⟩ := hserved
      have hnone := Option.map_eq_none_iff.mp hnone
      rw [hj, Option.bind_some] at hnone
      exact hjob j job hj hnone

/-! ### The end of a call -/

/-- The answers a round trip may still get. -/
def jobWeight (job : RoundTrip Abi Arg Opt Error Value) : ℕ :=
  match job.answer, job.retry with
  | some _, _ => 0
  | none, true => 1
  | none, false => 2

/-- The steps a group may still lead to: its timer, and the answers to its chunks. -/
def groupWeight (group : ℕ × List ℕ) : ℕ := 1 + 2 * group.2.length

/-- The answer a direct read may still get. -/
def directWeight (d : DirectRead Abi Arg Opt Error Value) : ℕ :=
  match d.answer with
  | some _ => 0
  | none => 1

/-- A bound on the steps until nothing is on its way. -/
def measure (s : Coalescer Abi Arg Opt Error Value) : ℕ :=
  (s.jobs.map jobWeight).sum + (s.groups.entries.map groupWeight).sum
    + (s.directs.map directWeight).sum

lemma measure_submits {block : ℕ} {slices : List (List ℕ)} :
    measure (slices.foldl (fun s slice => s.submit deps (.chunk slice block)) s)
      = s.measure + 2 * slices.length := by
  induction slices generalizing s with
  | nil => rfl
  | cons slice slices ih =>
      have hfirst : (s.submit deps (.chunk slice block)).measure = s.measure + 2 := by
        unfold measure submit
        dsimp only
        rw [List.map_append, List.sum_append]
        show _ + (2 + 0) + _ + _ = _
        omega
      rw [List.foldl_cons, ih, hfirst, List.length_cons]
      omega

lemma measure_flushGroup {block : ℕ} {ids : List ℕ} (h : s.groups.get? block = some ids) :
    (s.flushGroup deps block).measure < s.measure := by
  have hdelete : ({ s with groups := s.groups.delete block } :
      Coalescer Abi Arg Opt Error Value).measure + groupWeight (block, ids) = s.measure := by
    have hsum := ((JsMap.perm_delete h).map groupWeight).sum_eq
    rw [List.map_cons, List.sum_cons] at hsum
    unfold measure
    dsimp only
    omega
  have hslices := length_slices_le deps.readsPerCall_pos ids
  rw [flushGroup]
  rw [h]
  dsimp only
  rw [measure_submits]
  rw [groupWeight] at hdelete
  dsimp only at hdelete
  omega

/-- A round trip that is answered has less ahead of it. -/
lemma sum_modify_job {j : ℕ} {job : RoundTrip Abi Arg Opt Error Value}
    (hjob : s.jobs[j]? = some job)
    (f : RoundTrip Abi Arg Opt Error Value → RoundTrip Abi Arg Opt Error Value) :
    ((s.jobs.modify j f).map jobWeight).sum + jobWeight job
      = (s.jobs.map jobWeight).sum + jobWeight (f job) := by
  have hset : s.jobs.modify j f = s.jobs.set j (f job) := by
    refine List.ext_getElem? fun k => ?_
    rw [List.getElem?_modify, List.getElem?_set]
    by_cases hk : j = k
    · subst hk
      rw [if_pos rfl, if_pos (List.getElem?_eq_some_iff.mp hjob).1, hjob]
      simp
    · rw [if_neg hk]
      simp [hk]
  rw [hset]
  exact sum_map_set hjob (f job)

/-- Timers and answers bring a coalescer closer to rest. -/
lemma measure_lt_of_step {i : CoalescerInput Abi Arg Opt Error Value} (hi : i.isCall = false)
    (hstep : s.step deps i = some t) : t.measure < s.measure := by
  cases i with
  | readContract params => cases hi
  | multicall params => cases hi
  | timer block =>
      simp only [Coalescer.step] at hstep
      split_ifs at hstep with hhas
      obtain rfl := Option.some.inj hstep
      obtain ⟨ids, hget⟩ := Option.isSome_iff_exists.mp hhas
      exact measure_flushGroup hget
  | answer j answer =>
      simp only [Coalescer.step] at hstep
      split_ifs at hstep
      obtain ⟨job, hfilter, rfl⟩ := Option.map_eq_some_iff.mp hstep
      obtain ⟨hjob, hopen⟩ := Option.filter_eq_some_iff.mp hfilter
      have hnone : job.answer = none := Option.isNone_iff_eq_none.mp hopen
      have hpos : 0 < jobWeight job := by
        rw [jobWeight]
        rw [hnone]
        cases job.retry
        · exact Nat.two_pos
        · exact Nat.one_pos
      have hfinish : ((s.jobs.modify j fun j => { j with answer := some answer }).map
          jobWeight).sum + jobWeight job = (s.jobs.map jobWeight).sum :=
        sum_modify_job hjob fun j => { j with answer := some answer }
      rcases answerJob_cases s deps j answer job with
        ⟨heq, hretry⟩ | ⟨ids, block, -, heq, -⟩ | ⟨params, -, heq⟩
      · have hagain := sum_modify_job hjob fun j => { j with retry := true }
        have hold : jobWeight job = 2 := by
          rw [jobWeight]
          rw [hnone, hretry]
        have hnew : jobWeight { job with retry := true } = 1 := by
          rw [jobWeight]
          rw [hnone]
        rw [heq]
        unfold measure retryChunk
        dsimp only
        omega
      · rw [heq]
        unfold measure settleChunk finish
        dsimp only
        omega
      · rw [heq]
        unfold measure finish
        dsimp only
        omega
  | direct i answer =>
      obtain ⟨d, hfilter, rfl⟩ := Option.map_eq_some_iff.mp hstep
      obtain ⟨hd, hopen⟩ := Option.filter_eq_some_iff.mp hfilter
      have hold : directWeight d = 1 := by
        rw [directWeight]
        rw [Option.isNone_iff_eq_none.mp hopen]
      have hset := sum_map_set (f := directWeight) hd { d with answer := some answer }
      have hnew : directWeight { d with answer := some answer } = 0 := rfl
      unfold measure
      dsimp only
      omega

lemma sound_init : (init : Coalescer Abi Arg Opt Error Value).Sound client where
  outcomes := fun _ _ _ hr => by cases hr
  groups := fun _ _ hget => by cases hget
  chunks := fun _ _ _ _ hjob => by cases hjob
  inFlight := fun _ _ hget => by cases hget
  directs := fun _ _ _ hd => by cases hd
  passed := fun _ _ _ _ hjob => by cases hjob
  calls := fun _ hcall => by cases hcall

lemma live_init : Live deps (init : Coalescer Abi Arg Opt Error Value) where
  distinct := List.nodup_nil
  full := Semaphore.full_empty
  engaged := fun j => by
    constructor
    · rintro (hj | hj) <;> cases hj
    · rintro ⟨job, hjob, -⟩
      cases hjob
  pending := fun _ _ hr => by cases hr

end Coalescer

/-- Coalesced reads are transparent in every run in which a read joins one in flight only if the
client answers both alike: what a pinned call gets is what the client returns for it on its own; a
call that has come to nothing yet is waiting for a timer or for the client, and neither keeps it
waiting for ever. -/
theorem coalescer_transparent {deps : CoalescerDeps Abi Arg Error}
    {client : RawClient Abi Arg Opt Error Value} (hclient : client.PerEntry)
    {s : Coalescer Abi Arg Opt Error Value}
    (h : Reaches (Coalescer.step deps) (fun s i => s.Honest client i ∧ s.Alike deps client i)
      .init s) :
    (∀ call ∈ s.calls, (Coalescer.callBlock call).isSome = true → ∀ o, s.outcome? call = some o →
      o = Coalescer.rawOutcome client call) ∧
    (∀ call ∈ s.calls, s.outcome? call = none →
      ∃ i t, i.isCall = false ∧ s.Honest client i ∧ s.step deps i = some t) ∧
    WellFounded fun t s : Coalescer Abi Arg Opt Error Value =>
      ∃ i, i.isCall = false ∧ s.step deps i = some t := by
  have hsound : s.Sound client := h.invariant Coalescer.sound_init
    fun _ _ _ hs hok hstep => hs.step hclient hok.1 hok.2 hstep
  have hlive : Coalescer.Live deps s := h.invariant Coalescer.live_init
    fun _ _ _ hs _ hstep => hs.step hstep
  refine ⟨fun call hcall hpinned o ho => hsound.outcome hclient hcall hpinned ho,
    fun call hcall hnone => hlive.goes_on hsound hcall hnone, ?_⟩
  exact Subrelation.wf (fun ⟨_, hi, hstep⟩ => Coalescer.measure_lt_of_step hi hstep)
    (InvImage.wf Coalescer.measure Nat.lt_wfRel.wf)

end

/-! ### Two ABIs of one function -/

/-- How an ABI declares the word that a function returns. -/
inductive WordType where
  | uint256
  | int256

/-- The word with all bits set, as an ABI reads it. -/
def decodeWord : WordType → ℤ
  | .uint256 => 2 ^ 256 - 1
  | .int256 => -1

/-- A client on a chain where the contract's `value()` returns that word. -/
def wordClient : RawClient WordType Unit Unit String ℤ where
  readContract params := .ok (decodeWord params.abi)
  multicall params := multicallOf (params.allowFailure.getD true)
    (params.contracts.map fun c => .ok (decodeWord c.abi))

lemma wordClient_perEntry : wordClient.PerEntry := ⟨fun _ _ _ _ => rfl, fun _ _ => rfl⟩

/-- The defaults. The calldata of `value()` is its selector, whatever the ABI says it returns. -/
def wordDeps : CoalescerDeps WordType Unit String where
  readsPerCall := 200
  concurrency := 2
  readsPerCall_pos := by decide
  concurrency_pos := by decide
  encodeFunctionData _ _ _ := some (ofString "0x3fa4f245")
  newError := id

/-- `value()` at block 100, under an ABI. -/
def wordRead (abi : WordType) : ReadParams WordType Unit Unit :=
  ⟨⟨ofString "0xCC", abi, ofString "value", none⟩, some 100, []⟩

/-- Two callers read the word. -/
def twoReads (first second : WordType) : Coalescer WordType Unit Unit String ℤ :=
  (Coalescer.init.readContract wordDeps (wordRead first)).readContract wordDeps (wordRead second)

/-- Their read has settled. -/
def settledReads (first second : WordType) : Coalescer WordType Unit Unit String ℤ :=
  ((twoReads first second).flushGroup wordDeps 100).settleChunk wordDeps 0 [0]
    (.ok (.statuses [.success (decodeWord first)]))

/-- The client answers as it does; if the two ABIs make the same of the word, it answers the reads
alike. -/
def WordStep (first second : WordType) (s : Coalescer WordType Unit Unit String ℤ)
    (i : CoalescerInput WordType Unit Unit String ℤ) : Prop :=
  s.Honest wordClient i ∧ (decodeWord first = decodeWord second → s.Alike wordDeps wordClient i)

/-- The second caller joins the first, the timer fires, and the client answers. -/
lemma reaches_settledReads (first second : WordType) :
    Reaches (Coalescer.step wordDeps) (WordStep first second) .init
      (settledReads first second) := by
  have hfirst : WordStep first second .init (.readContract (wordRead first)) :=
    ⟨trivial, fun _ _ _ _ _ _ _ _ _ hr => by cases hr⟩
  have hsecond : WordStep first second (Coalescer.init.readContract wordDeps (wordRead first))
      (.readContract (wordRead second)) := by
    refine ⟨trivial, fun halike block _ _ calldata _ id r _ hr => ?_⟩
    have hmem := List.mem_of_getElem? hr
    obtain rfl := List.mem_singleton.mp hmem
    exact congrArg Except.ok halike
  have htimer : WordStep first second (twoReads first second) (.timer 100) :=
    ⟨trivial, fun _ => trivial⟩
  have hanswer : WordStep first second ((twoReads first second).flushGroup wordDeps 100)
      (.answer 0 (.ok (.statuses [.success (decodeWord first)]))) := by
    refine ⟨fun job hjob => ?_, fun _ => trivial⟩
    obtain rfl := Option.some.inj hjob
    exact .inl rfl
  exact (((Reaches.refl.tail hfirst rfl).tail hsecond rfl).tail htimer rfl).tail hanswer rfl

/-- Two callers under one ABI get its value. -/
theorem coalescer_transparent_pair :
    wordClient.PerEntry ∧ ∃ s, Reaches (Coalescer.step wordDeps)
        (fun s i => s.Honest wordClient i ∧ s.Alike wordDeps wordClient i) .init s ∧
      ∀ call ∈ s.calls, (Coalescer.callBlock call).isSome = true → ∀ o, s.outcome? call = some o →
        o = Coalescer.rawOutcome wordClient call := by
  have hreach : Reaches (Coalescer.step wordDeps)
      (fun s i => s.Honest wordClient i ∧ s.Alike wordDeps wordClient i) .init
      (settledReads .int256 .int256) :=
    (reaches_settledReads .int256 .int256).mono fun _ _ hok => ⟨hok.1, hok.2 rfl⟩
  exact ⟨wordClient_perEntry, _, hreach, (coalescer_transparent wordClient_perEntry hreach).1⟩

/-- **The key does not tell ABIs apart**: a caller whose ABI returns a signed word is given the
unsigned one that another caller's ABI makes of it. -/
theorem coalescer_mixes_abis :
    wordClient.PerEntry ∧ ∃ s, Reaches (Coalescer.step wordDeps)
        (fun s i => s.Honest wordClient i) .init s ∧
      ∃ call ∈ s.calls, (Coalescer.callBlock call).isSome = true ∧
        s.outcome? call = some (.single (.ok (2 ^ 256 - 1))) ∧
        Coalescer.rawOutcome wordClient call = .single (.ok (-1)) := by
  have hreach : Reaches (Coalescer.step wordDeps) (fun s i => s.Honest wordClient i) .init
      (settledReads .uint256 .int256) :=
    (reaches_settledReads .uint256 .int256).mono fun _ _ hok => hok.1
  exact ⟨wordClient_perEntry, _, hreach, .read (wordRead .int256) (.shared 0),
    List.mem_cons_of_mem _ (List.mem_singleton.mpr rfl), rfl, rfl, rfl⟩

end PubsubVoting
