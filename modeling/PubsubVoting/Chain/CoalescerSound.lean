import PubsubVoting.Chain.Coalescer

/-!
What has settled in a coalescer is what the client beneath answers.

* `RawClient.PerEntry`: a multicall returns, entry by entry, what `readContract` would.
* `Coalescer.Honest`, `Coalescer.Alike`: the client answers as it does, with one failed attempt for
  each chunk; and a read joins only one that the client answers alike.
* `Coalescer.Sound`, `Sound.step`: where every call gets its values from gives what the client
  answers, and every step keeps it so.
-/

namespace PubsubVoting

open JsString

section

variable {Abi Arg Opt Error Value : Type}

/-! ### The client beneath -/

/-- What the client answers to a plain read at a block. -/
def RawClient.answer (client : RawClient Abi Arg Opt Error Value) (contract : ContractCall Abi Arg)
    (block : ℕ) : Except Error Value := client.readContract ⟨contract, some block, []⟩

/-- The outcomes of the entries of a multicall as its result: with failures allowed an entry for
each, without them the values or the first error. -/
def multicallOf (allowFailure : Bool) (outcomes : List (Except Error Value)) :
    Except Error (MultiResult Error Value) :=
  if allowFailure then .ok (.statuses (outcomes.map settledStatus))
  else (outcomes.mapM id).map .values

/-- A pinned multicall returns per entry what a read of it returns, and no arguments are the same as
an empty list of them. -/
structure RawClient.PerEntry (client : RawClient Abi Arg Opt Error Value) : Prop where
  multicall : ∀ contracts allowFailure batchSize block,
    client.multicall ⟨contracts, allowFailure, batchSize, some block, []⟩
      = multicallOf (allowFailure.getD true) (contracts.map fun c => client.answer c block)
  noArgs : ∀ contract block,
    client.answer { contract with args := some (contract.args.getD []) } block
    = client.answer contract block

lemma mapM_id_eq (outcomes : List (Except Error Value)) :
    outcomes.mapM id = match outcomes.findSome? rejected? with
      | some error => .error error
      | none => .ok (outcomes.filterMap fulfilled?) := by
  induction outcomes with
  | nil => rfl
  | cons outcome outcomes ih =>
      rw [List.mapM_cons, ih]
      cases outcome with
      | error error => rfl
      | ok value =>
          rw [List.findSome?_cons]
          show (Except.ok value >>= _) = _
          cases outcomes.findSome? rejected? <;> rfl

/-- Settled reads are gathered as the client would return them. -/
lemma gather_eq (allowFailure : Bool) (outcomes : List (Except Error Value)) :
    gather allowFailure outcomes = multicallOf allowFailure outcomes := by
  unfold gather multicallOf
  split_ifs
  · rfl
  · rw [mapM_id_eq]
    cases outcomes.findSome? rejected? <;> rfl

namespace Coalescer

/-! ### Growth -/

/-- A state that another one has grown from: what was asked stays. -/
structure Grows (s t : Coalescer Abi Arg Opt Error Value) : Prop where
  reads : ∀ (id : ℕ) r, s.reads[id]? = some r →
    ∃ r', t.reads[id]? = some r' ∧ r'.contract = r.contract ∧ r'.block = r.block
  directs : ∀ (i : ℕ) d, s.directs[i]? = some d →
    ∃ d', t.directs[i]? = some d' ∧ d'.params = d.params
  jobs : ∀ (j : ℕ) job, s.jobs[j]? = some job →
    ∃ job', t.jobs[j]? = some job' ∧ job'.work = job.work

/-- A pending read at a block. -/
def ReadsAt (s : Coalescer Abi Arg Opt Error Value) (block id : ℕ) : Prop :=
  ∃ r, s.reads[id]? = some r ∧ r.block = block

/-- A source that gives what the client answers to a read. -/
def Serves (s : Coalescer Abi Arg Opt Error Value) (client : RawClient Abi Arg Opt Error Value)
    (params : ReadParams Abi Arg Opt) : ReadSource → Prop
  | .shared id => ∃ r, s.reads[id]? = some r ∧
      client.answer r.contract r.block = client.readContract params
  | .direct i => ∃ d, s.directs[i]? = some d ∧ d.params = params

/-- Where a call gets its values from gives what the client answers. -/
def CallServed (s : Coalescer Abi Arg Opt Error Value)
    (client : RawClient Abi Arg Opt Error Value) :
    CoalescedCall Abi Arg Opt → Prop
  | .read params source => s.Serves client params source
  | .multicall params sources => ∃ block, params.blockNumber = some block ∧ params.rest = [] ∧
      List.Forall₂ (fun contract => s.Serves client ⟨contract, some block, []⟩) params.contracts
        sources
  | .passed params j => ∃ job, s.jobs[j]? = some job ∧ job.work = .passed params

variable {s t u : Coalescer Abi Arg Opt Error Value}
  {client : RawClient Abi Arg Opt Error Value} {deps : CoalescerDeps Abi Arg Error}

lemma Grows.refl (s : Coalescer Abi Arg Opt Error Value) : s.Grows s :=
  ⟨fun _ r h => ⟨r, h, rfl, rfl⟩, fun _ d h => ⟨d, h, rfl⟩, fun _ job h => ⟨job, h, rfl⟩⟩

lemma Grows.trans (h : s.Grows t) (h' : t.Grows u) : s.Grows u where
  reads := fun id r hr => by
    obtain ⟨r', hr', hcontract, hblock⟩ := h.reads id r hr
    obtain ⟨r'', hr'', hcontract', hblock'⟩ := h'.reads id r' hr'
    exact ⟨r'', hr'', hcontract'.trans hcontract, hblock'.trans hblock⟩
  directs := fun i d hd => by
    obtain ⟨d', hd', hparams⟩ := h.directs i d hd
    obtain ⟨d'', hd'', hparams'⟩ := h'.directs i d' hd'
    exact ⟨d'', hd'', hparams'.trans hparams⟩
  jobs := fun j job hjob => by
    obtain ⟨job', hjob', hwork⟩ := h.jobs j job hjob
    obtain ⟨job'', hjob'', hwork'⟩ := h'.jobs j job' hjob'
    exact ⟨job'', hjob'', hwork'.trans hwork⟩

lemma ReadsAt.grows {block id : ℕ} (h : s.ReadsAt block id) (hg : s.Grows t) :
    t.ReadsAt block id := by
  obtain ⟨r, hr, rfl⟩ := h
  obtain ⟨r', hr', -, hblock⟩ := hg.reads id r hr
  exact ⟨r', hr', hblock⟩

lemma Serves.grows {params : ReadParams Abi Arg Opt} {source : ReadSource}
    (h : s.Serves client params source) (hg : s.Grows t) : t.Serves client params source := by
  cases source with
  | shared id =>
      obtain ⟨r, hr, hanswer⟩ := h
      obtain ⟨r', hr', hcontract, hblock⟩ := hg.reads id r hr
      exact ⟨r', hr', by rw [hcontract, hblock, hanswer]⟩
  | direct i =>
      obtain ⟨d, hd, rfl⟩ := h
      obtain ⟨d', hd', hparams⟩ := hg.directs i d hd
      exact ⟨d', hd', hparams⟩

lemma CallServed.grows {call : CoalescedCall Abi Arg Opt} (h : s.CallServed client call)
    (hg : s.Grows t) : t.CallServed client call := by
  cases call with
  | read params source => exact Serves.grows h hg
  | multicall params sources =>
      obtain ⟨block, hblock, hrest, hsources⟩ := h
      exact ⟨block, hblock, hrest, hsources.imp fun _ _ hs => hs.grows hg⟩
  | passed params j =>
      obtain ⟨job, hjob, hwork⟩ := h
      obtain ⟨job', hjob', hwork'⟩ := hg.jobs j job hjob
      exact ⟨job', hjob', hwork'.trans hwork⟩

/-! ### Soundness -/

/-- What has settled is what the client answers. -/
structure Sound (client : RawClient Abi Arg Opt Error Value)
    (s : Coalescer Abi Arg Opt Error Value) : Prop where
  outcomes : ∀ (id : ℕ) r o, s.reads[id]? = some r → r.outcome = some o →
    o = client.answer r.contract r.block
  groups : ∀ block ids, s.groups.get? block = some ids → ∀ id ∈ ids, s.ReadsAt block id
  chunks : ∀ (j : ℕ) job ids block, s.jobs[j]? = some job → job.work = .chunk ids block →
    ∀ id ∈ ids, s.ReadsAt block id
  inFlight : ∀ key id, s.inFlight.get? key = some id → ∃ r, s.reads[id]? = some r
  directs : ∀ (i : ℕ) d o, s.directs[i]? = some d → d.answer = some o →
    d.params.blockNumber.isSome = true → o = client.readContract d.params
  passed : ∀ (j : ℕ) job params o, s.jobs[j]? = some job → job.work = .passed params →
    job.answer = some o → params.blockNumber.isSome = true → o = client.multicall params
  calls : ∀ call ∈ s.calls, s.CallServed client call

/-- A new round trip changes nothing but the jobs. -/
lemma getElem?_submit {work : Work Abi Arg Opt} {j : ℕ}
    {job : RoundTrip Abi Arg Opt Error Value} (h : (s.submit deps work).jobs[j]? = some job) :
    s.jobs[j]? = some job ∨ job = ⟨work, false, none⟩ ∧ j = s.jobs.length := by
  rw [submit, List.getElem?_append] at h
  split_ifs at h with hj
  · exact .inl h
  · rw [List.getElem?_singleton] at h
    split_ifs at h with hzero
    exact .inr ⟨(Option.some.inj h).symm, by omega⟩

lemma grows_submit (work : Work Abi Arg Opt) : s.Grows (s.submit deps work) :=
  ⟨fun _ r h => ⟨r, h, rfl, rfl⟩, fun _ d h => ⟨d, h, rfl⟩, fun _ job h =>
    ⟨job, List.getElem?_append_left (List.getElem?_eq_some_iff.mp h).1 ▸ h, rfl⟩⟩

lemma Sound.submit (h : s.Sound client) {work : Work Abi Arg Opt}
    (hwork : ∀ ids block, work = .chunk ids block → ∀ id ∈ ids, s.ReadsAt block id) :
    (s.submit deps work).Sound client where
  outcomes := h.outcomes
  groups := h.groups
  chunks := fun j job ids block hjob hchunk => by
    rcases getElem?_submit hjob with hold | ⟨rfl, -⟩
    · exact h.chunks j job ids block hold hchunk
    · exact hwork ids block hchunk
  inFlight := h.inFlight
  directs := h.directs
  passed := fun j job params o hjob hpassed hanswer => by
    rcases getElem?_submit hjob with hold | ⟨rfl, -⟩
    · exact h.passed j job params o hold hpassed hanswer
    · cases hanswer
  calls := fun call hcall => (h.calls call hcall).grows (grows_submit work)

/-- Chunks of the reads of one block. -/
lemma sound_submits {block : ℕ} {ids : List (List ℕ)} (h : s.Sound client)
    (hids : ∀ slice ∈ ids, ∀ id ∈ slice, s.ReadsAt block id) :
    (ids.foldl (fun s slice => s.submit deps (.chunk slice block)) s).Sound client ∧
      s.Grows (ids.foldl (fun s slice => s.submit deps (.chunk slice block)) s) := by
  induction ids generalizing s with
  | nil => exact ⟨h, .refl s⟩
  | cons slice ids ih =>
      have hfirst : (s.submit deps (.chunk slice block)).Sound client :=
        h.submit fun ids' block' heq => by
          cases heq
          exact hids slice List.mem_cons_self
      obtain ⟨hsound, hgrows⟩ := ih hfirst fun slice' hslice' =>
        hids slice' (List.mem_cons_of_mem _ hslice')
      exact ⟨hsound, (grows_submit _).trans hgrows⟩

lemma Sound.flushGroup (h : s.Sound client) (block : ℕ) :
    (s.flushGroup deps block).Sound client ∧ s.Grows (s.flushGroup deps block) := by
  rw [Coalescer.flushGroup]
  cases hget : s.groups.get? block with
  | none => exact ⟨h, .refl s⟩
  | some ids =>
      have hdelete : ({ s with groups := s.groups.delete block } :
          Coalescer Abi Arg Opt Error Value).Sound client :=
        { h with
          groups := fun block' ids' hget' => by
            rw [JsMap.get?_delete] at hget'
            split_ifs at hget'
            exact h.groups block' ids' hget' }
      have hslices : ∀ slice ∈ slices deps.readsPerCall ids, ∀ id ∈ slice, s.ReadsAt block id :=
        fun slice hslice id hid => h.groups block ids hget id
          ((mem_slices deps.readsPerCall_pos).mp ⟨slice, hslice, hid⟩)
      obtain ⟨hsound, hgrows⟩ := sound_submits hdelete hslices
      exact ⟨hsound, ⟨hgrows.reads, hgrows.directs, hgrows.jobs⟩⟩

lemma Sound.flushFull (h : s.Sound client) (block : ℕ) :
    (s.flushFull deps block).Sound client ∧ s.Grows (s.flushFull deps block) := by
  rw [Coalescer.flushFull]
  split_ifs
  · exact h.flushGroup block
  · exact ⟨h, .refl s⟩

/-- A new read is the last one. -/
lemma getElem?_openRead {contract : ContractCall Abi Arg} {block : ℕ} {key : JsString} {id : ℕ}
    {r : PendingRead Abi Arg Error Value}
    (h : (s.openRead contract block key).reads[id]? = some r) : s.reads[id]? = some r ∨
      r = ⟨{ contract with args := some (contract.args.getD []) }, block, key, none⟩ ∧
        id = s.reads.length := by
  rw [openRead, List.getElem?_append] at h
  split_ifs at h with hid
  · exact .inl h
  · rw [List.getElem?_singleton] at h
    split_ifs at h with hzero
    exact .inr ⟨(Option.some.inj h).symm, by omega⟩

lemma openRead_self (s : Coalescer Abi Arg Opt Error Value) (contract : ContractCall Abi Arg)
    (block : ℕ) (key : JsString) :
    (s.openRead contract block key).reads[s.reads.length]?
      = some ⟨{ contract with args := some (contract.args.getD []) }, block, key, none⟩ :=
  List.getElem?_concat_length

lemma grows_openRead (contract : ContractCall Abi Arg) (block : ℕ) (key : JsString) :
    s.Grows (s.openRead contract block key) :=
  ⟨fun _ r h => ⟨r, List.getElem?_append_left (List.getElem?_eq_some_iff.mp h).1 ▸ h, rfl, rfl⟩,
    fun _ d h => ⟨d, h, rfl⟩, fun _ job h => ⟨job, h, rfl⟩⟩

lemma Sound.openRead (h : s.Sound client) (contract : ContractCall Abi Arg) (block : ℕ)
    (key : JsString) : (s.openRead contract block key).Sound client where
  outcomes := fun id r o hr ho => by
    rcases getElem?_openRead hr with hold | ⟨rfl, -⟩
    · exact h.outcomes id r o hold ho
    · cases ho
  groups := fun block' ids hget id hid => by
    have hgrows := grows_openRead (s := s) contract block key
    rw [Coalescer.openRead, JsMap.get?_set] at hget
    split_ifs at hget with hblock
    · obtain rfl := Option.some.inj hget
      rcases List.mem_append.mp hid with hid | hid
      · cases hgroup : s.groups.get? block with
        | none => simp [hgroup] at hid
        | some ids =>
            rw [hgroup, Option.getD_some] at hid
            exact hblock ▸ (h.groups block ids hgroup id hid).grows hgrows
      · obtain rfl := List.mem_singleton.mp hid
        exact ⟨_, openRead_self s contract block key, hblock.symm⟩
    · exact (h.groups block' ids hget id hid).grows hgrows
  chunks := fun j job ids block' hjob hchunk id hid =>
    (h.chunks j job ids block' hjob hchunk id hid).grows (grows_openRead contract block key)
  inFlight := fun key' id hget => by
    rw [Coalescer.openRead, JsMap.get?_set] at hget
    split_ifs at hget
    · obtain rfl := Option.some.inj hget
      exact ⟨_, openRead_self s contract block key⟩
    · obtain ⟨r, hr⟩ := h.inFlight key' id hget
      obtain ⟨r', hr', -⟩ := (grows_openRead contract block key).reads id r hr
      exact ⟨r', hr'⟩
  directs := h.directs
  passed := h.passed
  calls := fun call hcall => (h.calls call hcall).grows (grows_openRead contract block key)

lemma grows_readDirectly (params : ReadParams Abi Arg Opt) :
    s.Grows (s.readDirectly params).1 :=
  ⟨fun _ r h => ⟨r, h, rfl, rfl⟩, fun _ d h =>
    ⟨d, List.getElem?_append_left (List.getElem?_eq_some_iff.mp h).1 ▸ h, rfl⟩,
    fun _ job h => ⟨job, h, rfl⟩⟩

/-- A read for the client beneath, which serves its caller. -/
lemma Sound.readDirectly (h : s.Sound client) (params : ReadParams Abi Arg Opt) :
    (s.readDirectly params).1.Sound client ∧
      (s.readDirectly params).1.Serves client params (s.readDirectly params).2 := by
  refine ⟨{ h with directs := fun i d o hd ho hpinned => ?_
                   calls := fun call hcall => ?_ }, _, List.getElem?_concat_length, rfl⟩
  · rw [Coalescer.readDirectly, List.getElem?_append] at hd
    split_ifs at hd with hi
    · exact h.directs i d o hd ho hpinned
    · rw [List.getElem?_singleton] at hd
      split_ifs at hd
      obtain rfl := Option.some.inj hd
      cases ho
  · exact (h.calls call hcall).grows (grows_readDirectly params)

/-! ### Merging -/

/-- A read that joins one in flight is one that the client answers alike. -/
def JoinsAlike (deps : CoalescerDeps Abi Arg Error) (client : RawClient Abi Arg Opt Error Value)
    (s : Coalescer Abi Arg Opt Error Value) (contract : ContractCall Abi Arg) (block : ℕ) : Prop :=
  ∀ calldata, deps.encodeFunctionData contract.abi contract.functionName contract.args
      = some calldata →
    ∀ id r, s.inFlight.get? (readKey block contract.address calldata) = some id →
      s.reads[id]? = some r → client.answer r.contract r.block = client.answer contract block

/-- Every read of a multicall does, in its turn. -/
def AllJoinAlike (deps : CoalescerDeps Abi Arg Error) (client : RawClient Abi Arg Opt Error Value)
    (block : ℕ) : Coalescer Abi Arg Opt Error Value → List (ContractCall Abi Arg) → Prop
  | _, [] => True
  | s, contract :: contracts => s.JoinsAlike deps client contract block ∧
      AllJoinAlike deps client block (s.enqueueRead deps contract block).1 contracts

/-- **A read that is merged serves its caller.** -/
lemma Sound.enqueueRead (hclient : client.PerEntry) (h : s.Sound client)
    {contract : ContractCall Abi Arg} {block : ℕ}
    (hjoin : s.JoinsAlike deps client contract block) :
    (s.enqueueRead deps contract block).1.Sound client ∧
      s.Grows (s.enqueueRead deps contract block).1 ∧
      (s.enqueueRead deps contract block).1.Serves client ⟨contract, some block, []⟩
        (s.enqueueRead deps contract block).2 := by
  rw [Coalescer.enqueueRead]
  cases hencode : deps.encodeFunctionData contract.abi contract.functionName contract.args with
  | none =>
      obtain ⟨hsound, hserves⟩ := h.readDirectly ⟨contract, some block, []⟩
      exact ⟨hsound, grows_readDirectly _, hserves⟩
  | some calldata =>
      dsimp only
      cases hget : s.inFlight.get? (readKey block contract.address calldata) with
      | some id =>
          obtain ⟨r, hr⟩ := h.inFlight _ id hget
          exact ⟨h, .refl s, r, hr, hjoin calldata hencode id r hget hr⟩
      | none =>
          have hopen := h.openRead contract block (readKey block contract.address calldata)
          obtain ⟨hsound, hgrows⟩ : (Coalescer.flushFull deps _ block).Sound client ∧ _ :=
            hopen.flushFull block
          refine ⟨hsound, (grows_openRead _ _ _).trans hgrows, ?_⟩
          refine Serves.grows ⟨_, openRead_self s contract block _, ?_⟩ hgrows
          exact hclient.noArgs contract block

lemma Sound.enqueueReads (hclient : client.PerEntry) {block : ℕ}
    {contracts : List (ContractCall Abi Arg)} (h : s.Sound client)
    (hjoins : AllJoinAlike deps client block s contracts) :
    (enqueueReads deps block s contracts).1.Sound client ∧
      s.Grows (enqueueReads deps block s contracts).1 ∧
      List.Forall₂ (fun contract =>
        (enqueueReads deps block s contracts).1.Serves client ⟨contract, some block, []⟩)
        contracts (enqueueReads deps block s contracts).2 := by
  induction contracts generalizing s with
  | nil => exact ⟨h, .refl s, .nil⟩
  | cons contract contracts ih =>
      obtain ⟨hfirst, hgrows, hserves⟩ := h.enqueueRead hclient hjoins.1
      obtain ⟨hothers, hgrows', hserved⟩ := ih hfirst hjoins.2
      exact ⟨hothers, hgrows.trans hgrows', .cons (hserves.grows hgrows') hserved⟩

/-! ### Settling -/

/-- A read after another one has been resolved. -/
lemma getElem?_resolve {reads : List (PendingRead Abi Arg Error Value)} {id j : ℕ}
    {o : Except Error Value} {r : PendingRead Abi Arg Error Value}
    (h : (resolve reads id o)[j]? = some r) : ∃ r₀, reads[j]? = some r₀ ∧
      r.contract = r₀.contract ∧ r.block = r₀.block ∧ r.key = r₀.key ∧
      (r.outcome = r₀.outcome ∧ (r.outcome = none → j ≠ id) ∨ j = id ∧ r.outcome = some o) := by
  rw [resolve, List.getElem?_modify, Option.map_eq_map, Option.map_eq_some_iff] at h
  obtain ⟨r₀, hr₀, rfl⟩ := h
  refine ⟨r₀, hr₀, ?_⟩
  split_ifs with hj
  · refine ⟨rfl, rfl, rfl, ?_⟩
    cases hout : r₀.outcome with
    | none => exact .inr ⟨hj.symm, rfl⟩
    | some o' => exact .inl ⟨rfl, nofun⟩
  · exact ⟨rfl, rfl, rfl, .inl ⟨rfl, fun _ => Ne.symm hj⟩⟩

/-- A read after others have been resolved: it is as it was, or resolved by one of them. -/
lemma getElem?_resolves {es : List (ℕ × ℕ)} {f : ℕ → Except Error Value}
    {reads : List (PendingRead Abi Arg Error Value)} {j : ℕ}
    {r : PendingRead Abi Arg Error Value}
    (h : (es.foldl (fun rs e => resolve rs e.1 (f e.2)) reads)[j]? = some r) :
    ∃ r₀, reads[j]? = some r₀ ∧ r.contract = r₀.contract ∧ r.block = r₀.block ∧ r.key = r₀.key ∧
      (r.outcome = r₀.outcome ∧ (r.outcome = none → ∀ i, (j, i) ∉ es) ∨
        ∃ i, (j, i) ∈ es ∧ r.outcome = some (f i)) := by
  induction es generalizing reads with
  | nil => exact ⟨r, h, rfl, rfl, rfl, .inl ⟨rfl, fun _ _ => List.not_mem_nil⟩⟩
  | cons e es ih =>
      obtain ⟨id, i⟩ := e
      obtain ⟨r₁, hr₁, hcontract, hblock, hkey, hrest⟩ := ih h
      obtain ⟨r₀, hr₀, hcontract', hblock', hkey', hfirst⟩ := getElem?_resolve hr₁
      refine ⟨r₀, hr₀, hcontract.trans hcontract', hblock.trans hblock', hkey.trans hkey', ?_⟩
      rcases hrest with ⟨hsame, hnot⟩ | ⟨i', hi', hout⟩
      · rcases hfirst with ⟨hsame', hnot'⟩ | ⟨rfl, hout⟩
        · refine .inl ⟨hsame.trans hsame', fun hnone i' hmem => ?_⟩
          rcases List.mem_cons.mp hmem with heq | hmem
          · exact hnot' (hsame ▸ hnone) (Prod.mk.inj heq).1
          · exact hnot hnone i' hmem
        · exact .inr ⟨i, List.mem_cons_self, hsame.trans hout⟩
      · exact .inr ⟨i', List.mem_cons_of_mem _ hi', hout⟩

lemma length_resolves {es : List (ℕ × ℕ)} {f : ℕ → Except Error Value}
    {reads : List (PendingRead Abi Arg Error Value)} :
    (es.foldl (fun rs e => resolve rs e.1 (f e.2)) reads).length = reads.length := by
  induction es generalizing reads with
  | nil => rfl
  | cons e es ih =>
      rw [List.foldl_cons, ih]
      exact List.length_modify _ _ _

/-- A job after another one has been changed. -/
lemma getElem?_modify_job {jobs : List (RoundTrip Abi Arg Opt Error Value)} {i j : ℕ}
    {f : RoundTrip Abi Arg Opt Error Value → RoundTrip Abi Arg Opt Error Value}
    {job : RoundTrip Abi Arg Opt Error Value} (h : (jobs.modify i f)[j]? = some job) :
    i = j ∧ (∃ job₀, jobs[j]? = some job₀ ∧ job = f job₀) ∨ i ≠ j ∧ jobs[j]? = some job := by
  rw [List.getElem?_modify, Option.map_eq_map, Option.map_eq_some_iff] at h
  obtain ⟨job₀, hjob₀, rfl⟩ := h
  split_ifs with hij
  · exact .inl ⟨hij, job₀, hjob₀, rfl⟩
  · exact .inr ⟨hij, hjob₀⟩

lemma grows_modify {i : ℕ}
    {f : RoundTrip Abi Arg Opt Error Value → RoundTrip Abi Arg Opt Error Value}
    (hf : ∀ job, (f job).work = job.work) (hreads : ∀ (id : ℕ) r, s.reads[id]? = some r →
      ∃ r', t.reads[id]? = some r' ∧ r'.contract = r.contract ∧ r'.block = r.block)
    (hdirects : t.directs = s.directs) (hjobs : t.jobs = s.jobs.modify i f) : s.Grows t where
  reads := hreads
  directs := fun i d hd => ⟨d, hdirects ▸ hd, rfl⟩
  jobs := fun j job hjob => by
    rw [hjobs, List.getElem?_modify, hjob]
    refine ⟨_, rfl, ?_⟩
    split_ifs
    · exact hf job
    · rfl

lemma grows_finish (job : ℕ) (answer : Except Error (MultiResult Error Value)) :
    s.Grows (s.finish deps job answer) :=
  grows_modify (f := fun j => { j with answer := some answer }) (fun _ => rfl)
    (fun _ r hr => ⟨r, hr, rfl, rfl⟩) rfl rfl

lemma grows_settleChunk (job : ℕ) (ids : List ℕ)
    (answer : Except Error (MultiResult Error Value)) :
    s.Grows (s.settleChunk deps job ids answer) := by
  refine grows_modify (f := fun j => { j with answer := some answer }) (fun _ => rfl)
    (fun id r hr => ?_) rfl rfl
  have hid : id < (s.settleChunk deps job ids answer).reads.length := by
    rw [settleChunk, length_resolves]
    exact (List.getElem?_eq_some_iff.mp hr).1
  obtain ⟨r₀, hr₀, hcontract, hblock, -, -⟩ :=
    getElem?_resolves (List.getElem?_eq_getElem hid)
  obtain rfl : r = r₀ := Option.some.inj (hr.symm.trans hr₀)
  exact ⟨_, List.getElem?_eq_getElem hid, hcontract, hblock⟩

/-- What a chunk asks the client. -/
def chunkParams (s : Coalescer Abi Arg Opt Error Value) (ids : List ℕ) (block : ℕ) :
    MulticallParams Abi Arg Opt :=
  ⟨ids.filterMap fun id => (s.reads[id]?).map PendingRead.contract, some true, some 0, some block,
    []⟩

lemma statusOutcome_settledStatus (noResult : Error) (o : Except Error Value) :
    statusOutcome noResult (some (settledStatus o)) = o := by
  cases o <;> rfl

/-- **A chunk's answer settles every read with what the client answers to it.** -/
lemma chunkOutcome_eq (hclient : client.PerEntry) {ids : List ℕ} {block i id : ℕ}
    (hids : ∀ id ∈ ids, s.ReadsAt block id) (noResult : Error) (hid : ids[i]? = some id)
    {r : PendingRead Abi Arg Error Value} (hr : s.reads[id]? = some r) :
    chunkOutcome noResult (client.multicall (s.chunkParams ids block)) i
      = client.answer r.contract block := by
  have hsome : ∀ id ∈ ids, ((s.reads[id]?).map PendingRead.contract).isSome = true := by
    intro id hid
    obtain ⟨r, hr, -⟩ := hids id hid
    rw [hr]
    rfl
  rw [chunkParams, hclient.multicall]
  show statusOutcome noResult _ = _
  rw [List.getElem?_map, List.getElem?_map, List.getElem?_filterMap_of_isSome hsome, hid,
    Option.bind_some, hr]
  exact statusOutcome_settledStatus _ _

lemma Sound.finish (h : s.Sound client) {j : ℕ} {job : RoundTrip Abi Arg Opt Error Value}
    {answer : Except Error (MultiResult Error Value)} (hjob : s.jobs[j]? = some job)
    (hanswer : ∀ params, job.work = .passed params → params.blockNumber.isSome = true →
      answer = client.multicall params) : (s.finish deps j answer).Sound client where
  outcomes := h.outcomes
  groups := h.groups
  chunks := fun k job' ids block hjob' hchunk => by
    rcases getElem?_modify_job hjob' with ⟨rfl, job₀, hjob₀, rfl⟩ | ⟨-, hold⟩
    · exact h.chunks j job₀ ids block hjob₀ hchunk
    · exact h.chunks k job' ids block hold hchunk
  inFlight := h.inFlight
  directs := h.directs
  passed := fun k job' params o hjob' hpassed ho hpinned => by
    rcases getElem?_modify_job hjob' with ⟨rfl, job₀, hjob₀, rfl⟩ | ⟨-, hold⟩
    · obtain rfl : job = job₀ := Option.some.inj (hjob.symm.trans hjob₀)
      obtain rfl := Option.some.inj ho
      exact hanswer params hpassed hpinned
    · exact h.passed k job' params o hold hpassed ho hpinned
  calls := fun call hcall => (h.calls call hcall).grows (grows_finish j answer)

/-- The keys of a chunk's reads leave the ones in flight, and no others. -/
lemma get?_inFlight_settleChunk {j : ℕ} {ids : List ℕ}
    {answer : Except Error (MultiResult Error Value)} {key : JsString} {id : ℕ} :
    (s.settleChunk deps j ids answer).inFlight.get? key = some id ↔
      s.inFlight.get? key = some id ∧
        ∀ read ∈ ids, ∀ r, s.reads[read]? = some r → r.key ≠ key := by
  have hfold : ∀ (ids : List ℕ) (m : JsMap JsString ℕ),
      (ids.foldl (fun m read => (s.reads[read]?).elim m fun r => m.delete r.key) m).get? key
        = some id ↔ m.get? key = some id ∧
          ∀ read ∈ ids, ∀ r, s.reads[read]? = some r → r.key ≠ key := by
    intro ids
    induction ids with
    | nil => simp
    | cons read ids ih =>
        intro m
        rw [List.foldl_cons, ih, List.forall_mem_cons]
        cases hread : s.reads[read]? with
        | none => simp
        | some r =>
            rw [Option.elim_some, JsMap.get?_delete]
            split_ifs with hkey
            · simp [hkey]
            · simp [Ne.symm hkey]
  exact hfold ids s.inFlight

lemma Sound.settleChunk (hclient : client.PerEntry) (h : s.Sound client) {j block : ℕ}
    {ids : List ℕ} {job : RoundTrip Abi Arg Opt Error Value} (hjob : s.jobs[j]? = some job)
    (hwork : job.work = .chunk ids block) : (s.settleChunk deps j ids
      (client.multicall (s.chunkParams ids block))).Sound client := by
  have hids := h.chunks j job ids block hjob hwork
  have hgrows : s.Grows (s.settleChunk deps j ids (client.multicall (s.chunkParams ids block))) :=
    grows_settleChunk j ids _
  have hfinish : (s.finish deps j (client.multicall (s.chunkParams ids block))).Sound client :=
    h.finish hjob fun params hpassed => by rw [hwork] at hpassed; cases hpassed
  refine ⟨fun id r o hr ho => ?_, fun block' ids' hget id hid => ?_,
    fun k job' ids' block' hjob' hchunk id hid => ?_, fun key id hget => ?_, hfinish.directs,
    hfinish.passed, fun call hcall => (h.calls call hcall).grows hgrows⟩
  · obtain ⟨r₀, hr₀, hcontract, hblock, -, hout⟩ := getElem?_resolves hr
    rcases hout with ⟨hsame, -⟩ | ⟨i, hi, hout⟩
    · rw [hcontract, hblock]
      exact h.outcomes id r₀ o hr₀ (hsame ▸ ho)
    · rw [hout] at ho
      obtain rfl := Option.some.inj ho
      have hmem : ids[i]? = some id := List.mk_mem_zipIdx_iff_getElem?.mp hi
      obtain ⟨r₁, hr₁, rfl⟩ := hids id (List.mem_of_getElem? hmem)
      obtain rfl : r₀ = r₁ := Option.some.inj (hr₀.symm.trans hr₁)
      rw [hcontract, hblock]
      exact chunkOutcome_eq hclient hids _ hmem hr₀
  · exact (h.groups block' ids' hget id hid).grows hgrows
  · exact (hfinish.chunks k job' ids' block' hjob' hchunk id hid).grows
      ⟨hgrows.reads, hgrows.directs, fun k job'' hjob'' => ⟨job'', hjob'', rfl⟩⟩
  · obtain ⟨r, hr⟩ := h.inFlight key id (get?_inFlight_settleChunk.mp hget).1
    obtain ⟨r', hr', -⟩ := hgrows.reads id r hr
    exact ⟨r', hr'⟩

lemma grows_retryChunk (j : ℕ) : s.Grows (s.retryChunk j) :=
  grows_modify (f := fun j => { j with retry := true }) (fun _ => rfl)
    (fun _ r hr => ⟨r, hr, rfl, rfl⟩) rfl rfl

lemma Sound.retryChunk (h : s.Sound client) (j : ℕ) : (s.retryChunk j).Sound client where
  outcomes := h.outcomes
  groups := h.groups
  chunks := fun k job ids block hjob hchunk => by
    rcases getElem?_modify_job hjob with ⟨rfl, job₀, hjob₀, rfl⟩ | ⟨-, hold⟩
    · exact h.chunks j job₀ ids block hjob₀ hchunk
    · exact h.chunks k job ids block hold hchunk
  inFlight := h.inFlight
  directs := h.directs
  passed := fun k job params o hjob hpassed ho hpinned => by
    rcases getElem?_modify_job hjob with ⟨rfl, job₀, hjob₀, rfl⟩ | ⟨-, hold⟩
    · exact h.passed j job₀ params o hjob₀ hpassed ho hpinned
    · exact h.passed k job params o hold hpassed ho hpinned
  calls := fun call hcall => (h.calls call hcall).grows (grows_retryChunk j)

/-! ### Runs -/

/-- The client answers a round trip as it does, or fails a chunk's first attempt. -/
def HonestAnswer (client : RawClient Abi Arg Opt Error Value)
    (s : Coalescer Abi Arg Opt Error Value) (job : RoundTrip Abi Arg Opt Error Value)
    (answer : Except Error (MultiResult Error Value)) : Prop :=
  match job.work with
  | .chunk ids block => answer = client.multicall (s.chunkParams ids block) ∨
      job.retry = false ∧ ∃ error, answer = .error error
  | .passed params => params.blockNumber.isSome = true → answer = client.multicall params

/-- The client answers as it does to what is pinned. -/
def Honest (client : RawClient Abi Arg Opt Error Value) (s : Coalescer Abi Arg Opt Error Value) :
    CoalescerInput Abi Arg Opt Error Value → Prop
  | .answer j answer => ∀ job, s.jobs[j]? = some job → s.HonestAnswer client job answer
  | .direct i answer => ∀ d, s.directs[i]? = some d → d.params.blockNumber.isSome = true →
      answer = client.readContract d.params
  | _ => True

/-- A read joins one in flight only if the client answers both alike. -/
def Alike (deps : CoalescerDeps Abi Arg Error) (client : RawClient Abi Arg Opt Error Value)
    (s : Coalescer Abi Arg Opt Error Value) : CoalescerInput Abi Arg Opt Error Value → Prop
  | .readContract params => ∀ block, params.blockNumber = some block → params.rest = [] →
      s.JoinsAlike deps client params.toContractCall block
  | .multicall params => ∀ block, params.blockNumber = some block → params.rest = [] →
      AllJoinAlike deps client block s params.contracts
  | _ => True

lemma Sound.readContract (hclient : client.PerEntry) (h : s.Sound client)
    {params : ReadParams Abi Arg Opt} (halike : s.Alike deps client (.readContract params)) :
    (s.readContract deps params).Sound client := by
  have hsource : (s.sourceRead deps params).1.Sound client ∧
      (s.sourceRead deps params).1.Serves client params (s.sourceRead deps params).2 := by
    rw [sourceRead]
    cases hblock : params.blockNumber with
    | none => exact h.readDirectly params
    | some block =>
        dsimp only
        split_ifs with hplain
        · have hrest : params.rest = [] := List.isEmpty_iff.mp hplain.1
          obtain ⟨hsound, -, hserves⟩ := h.enqueueRead hclient (halike block hblock hrest)
          have hparams : params = ⟨params.toContractCall, some block, []⟩ := by
            rw [← hblock, ← hrest]
          rw [← hparams] at hserves
          exact ⟨hsound, hserves⟩
        · exact h.readDirectly params
  refine { hsource.1 with calls := fun call hcall => ?_ }
  rcases List.mem_append.mp hcall with hcall | hcall
  · exact hsource.1.calls call hcall
  · obtain rfl := List.mem_singleton.mp hcall
    exact hsource.2

lemma Sound.multicall (hclient : client.PerEntry) (h : s.Sound client)
    {params : MulticallParams Abi Arg Opt} (halike : s.Alike deps client (.multicall params)) :
    (s.multicall deps params).Sound client := by
  have hpassed : ({ s.submit deps (.passed params) with
      calls := s.calls ++ [.passed params s.jobs.length] } :
        Coalescer Abi Arg Opt Error Value).Sound client := by
    have hsubmit : (s.submit deps (.passed params)).Sound client :=
      h.submit fun _ _ heq => by cases heq
    refine { hsubmit with calls := fun call hcall => ?_ }
    rcases List.mem_append.mp hcall with hcall | hcall
    · exact hsubmit.calls call hcall
    · obtain rfl := List.mem_singleton.mp hcall
      exact ⟨_, List.getElem?_concat_length, rfl⟩
  rw [Coalescer.multicall]
  split
  · next block hblock hrest =>
      obtain ⟨hsound, -, hserves⟩ := h.enqueueReads hclient (halike block hblock hrest)
      refine { hsound with calls := fun call hcall => ?_ }
      rcases List.mem_append.mp hcall with hcall | hcall
      · exact hsound.calls call hcall
      · obtain rfl := List.mem_singleton.mp hcall
        exact ⟨block, hblock, hrest, hserves⟩
  · exact hpassed

/-- What an answer does to a round trip: a chunk's first attempt has failed, its reads settle, or a
multicall that was passed on returns. -/
lemma answerJob_cases (s : Coalescer Abi Arg Opt Error Value)
    (deps : CoalescerDeps Abi Arg Error) (j : ℕ)
    (answer : Except Error (MultiResult Error Value))
    (job : RoundTrip Abi Arg Opt Error Value) :
    s.answerJob deps j answer job = s.retryChunk j ∧ job.retry = false ∨
    (∃ ids block, job.work = .chunk ids block ∧
      s.answerJob deps j answer job = s.settleChunk deps j ids answer ∧
      (job.retry = true ∨ ∃ result, answer = .ok result)) ∨
    ∃ params, job.work = .passed params ∧
      s.answerJob deps j answer job = s.finish deps j answer := by
  obtain ⟨work, retry, answer'⟩ := job
  cases work with
  | passed params => exact .inr (.inr ⟨params, rfl, rfl⟩)
  | chunk ids block =>
      cases retry with
      | true => exact .inr (.inl ⟨ids, block, rfl, rfl, .inl rfl⟩)
      | false =>
          cases answer with
          | error error => exact .inl ⟨rfl, rfl⟩
          | ok result => exact .inr (.inl ⟨ids, block, rfl, rfl, .inr ⟨result, rfl⟩⟩)

/-- A chunk's reads settle with what the client answers. -/
lemma HonestAnswer.chunk {job : RoundTrip Abi Arg Opt Error Value}
    {answer : Except Error (MultiResult Error Value)} {ids : List ℕ} {block : ℕ}
    (h : s.HonestAnswer client job answer) (hwork : job.work = .chunk ids block)
    (hsettles : job.retry = true ∨ ∃ result, answer = .ok result) :
    answer = client.multicall (s.chunkParams ids block) := by
  rw [HonestAnswer] at h
  rw [hwork] at h
  rcases h with heq | ⟨hfalse, error, rfl⟩
  · exact heq
  · rcases hsettles with htrue | ⟨result, hok⟩
    · rw [hfalse] at htrue
      cases htrue
    · cases hok

lemma HonestAnswer.passed {job : RoundTrip Abi Arg Opt Error Value}
    {answer : Except Error (MultiResult Error Value)} {params : MulticallParams Abi Arg Opt}
    (h : s.HonestAnswer client job answer) (hwork : job.work = .passed params)
    (hpinned : params.blockNumber.isSome = true) : answer = client.multicall params := by
  rw [HonestAnswer] at h
  rw [hwork] at h
  exact h hpinned

/-- **Every step keeps what has settled right.** -/
lemma Sound.step (hclient : client.PerEntry) (h : s.Sound client)
    {i : CoalescerInput Abi Arg Opt Error Value} (hok : s.Honest client i)
    (halike : s.Alike deps client i) (hstep : s.step deps i = some t) : t.Sound client := by
  cases i with
  | readContract params =>
      obtain rfl := Option.some.inj hstep
      exact h.readContract hclient halike
  | multicall params =>
      obtain rfl := Option.some.inj hstep
      exact h.multicall hclient halike
  | timer block =>
      simp only [Coalescer.step] at hstep
      split_ifs at hstep
      obtain rfl := Option.some.inj hstep
      exact (h.flushGroup block).1
  | answer j answer =>
      simp only [Coalescer.step] at hstep
      split_ifs at hstep
      obtain ⟨job, hfilter, rfl⟩ := Option.map_eq_some_iff.mp hstep
      have hjob : s.jobs[j]? = some job := (Option.filter_eq_some_iff.mp hfilter).1
      rcases answerJob_cases s deps j answer job with
        ⟨heq, -⟩ | ⟨ids, block, hwork, heq, hsettles⟩ | ⟨params, hwork, heq⟩
      · rw [heq]
        exact h.retryChunk j
      · rw [heq, (hok job hjob).chunk hwork hsettles]
        exact h.settleChunk hclient hjob hwork
      · rw [heq]
        exact h.finish hjob fun params' hparams' hpinned =>
          (hok job hjob).passed hparams' hpinned
  | direct i answer =>
      obtain ⟨d, hfilter, rfl⟩ := Option.map_eq_some_iff.mp hstep
      have hd : s.directs[i]? = some d := (Option.filter_eq_some_iff.mp hfilter).1
      have hi : i < s.directs.length := (List.getElem?_eq_some_iff.mp hd).1
      have hget : ∀ (k : ℕ) d', (s.directs.set i { d with answer := some answer })[k]? = some d' →
          d' = { d with answer := some answer } ∨ s.directs[k]? = some d' := by
        intro k d' hd'
        rw [List.getElem?_set] at hd'
        split_ifs at hd' with hk
        · exact .inl (Option.some.inj hd').symm
        · exact .inr hd'
      refine { h with directs := fun k d' o hd' ho hpinned => ?_
                      calls := fun call hcall => (h.calls call hcall).grows ?_ }
      · rcases hget k d' hd' with rfl | hold
        · obtain rfl := Option.some.inj ho
          exact hok d hd hpinned
        · exact h.directs k d' o hold ho hpinned
      · refine ⟨fun _ r hr => ⟨r, hr, rfl, rfl⟩, fun k d' hd' => ?_, fun _ job hj => ⟨job, hj, rfl⟩⟩
        by_cases hk : i = k
        · subst hk
          obtain rfl := Option.some.inj (hd.symm.trans hd')
          exact ⟨_, List.getElem?_set_self hi, rfl⟩
        · exact ⟨d', (List.getElem?_set_ne hk).trans hd', rfl⟩

end Coalescer

end

end PubsubVoting
