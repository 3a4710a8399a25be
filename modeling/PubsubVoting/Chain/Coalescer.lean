import PubsubVoting.Lib.Decimal
import PubsubVoting.Lib.JsMap
import PubsubVoting.Lib.Scatter
import PubsubVoting.Lib.Semaphore
import PubsubVoting.Lib.Transition

/-!
The coalescer of a chain client: pinned reads of many callers, merged into multicalls.

* `Coalescer.enqueueRead`: a read joins the one in flight under its key, or the group of its block.
* `Coalescer.flushGroup`: a group becomes chunks, which share a budget of round trips with the
  multicalls that are passed on.
* `Coalescer.step`: calls, timers, and the answers of the client beneath.
* `Coalescer.outcome?`: what a caller gets.
-/

namespace PubsubVoting

open JsString

/-! ### Calls of a client -/

section

variable (Abi Arg Opt Error Value : Type)

/-- A call of a contract's function under an ABI. -/
structure ContractCall where
  address : JsString
  abi : Abi
  functionName : JsString
  args : Option (List Arg)

/-- The parameters of `readContract`, with the block if it is pinned to one. -/
structure ReadParams extends ContractCall Abi Arg where
  blockNumber : Option ℕ
  rest : List Opt

/-- The parameters of `multicall`. -/
structure MulticallParams where
  contracts : List (ContractCall Abi Arg)
  allowFailure : Option Bool
  batchSize : Option ℕ
  blockNumber : Option ℕ
  rest : List Opt

/-- An entry of a multicall that allows failures. -/
inductive ReadStatus where
  | success (result : Value)
  | failure (error : Option Error)

/-- What a multicall returns: an entry per contract if it allows failures, or the values. -/
inductive MultiResult where
  | statuses (results : List (ReadStatus Error Value))
  | values (results : List Value)

/-- What the client beneath answers to calls that are pinned to a block. -/
structure RawClient where
  readContract : ReadParams Abi Arg Opt → Except Error Value
  multicall : MulticallParams Abi Arg Opt → Except Error (MultiResult Error Value)

/-- What the coalescer is made with: its sizes, `encodeFunctionData`, which may throw, and
`new Error(..)`. -/
structure CoalescerDeps where
  readsPerCall : ℕ
  concurrency : ℕ
  readsPerCall_pos : 0 < readsPerCall
  concurrency_pos : 0 < concurrency
  encodeFunctionData : Abi → JsString → Option (List Arg) → Option JsString
  newError : String → Error

/-- A pending read, or one that has settled. -/
structure PendingRead where
  contract : ContractCall Abi Arg
  block : ℕ
  key : JsString
  outcome : Option (Except Error Value)

/-- What takes a round trip: a chunk of pending reads, or a multicall that is passed on. -/
inductive Work where
  | chunk (reads : List ℕ) (block : ℕ)
  | passed (params : MulticallParams Abi Arg Opt)

/-- A round trip: whether it is the second attempt, and what came of it. -/
structure RoundTrip where
  work : Work Abi Arg Opt
  retry : Bool
  answer : Option (Except Error (MultiResult Error Value))

/-- A read that goes to the client beneath as it is. -/
structure DirectRead where
  params : ReadParams Abi Arg Opt
  answer : Option (Except Error Value)

/-- Where a caller's value comes from. -/
inductive ReadSource where
  | shared (read : ℕ)
  | direct (i : ℕ)

/-- A call of the coalescer. -/
inductive CoalescedCall where
  | read (params : ReadParams Abi Arg Opt) (source : ReadSource)
  | multicall (params : MulticallParams Abi Arg Opt) (sources : List ReadSource)
  | passed (params : MulticallParams Abi Arg Opt) (job : ℕ)

/-- What a caller gets. -/
inductive CallOutcome where
  | single (outcome : Except Error Value)
  | multi (outcome : Except Error (MultiResult Error Value))

/-- The state of a coalescer. A group's timer is armed as long as the group is there. -/
structure Coalescer where
  budget : Semaphore
  groups : JsMap ℕ (List ℕ)
  inFlight : JsMap JsString ℕ
  reads : List (PendingRead Abi Arg Error Value)
  jobs : List (RoundTrip Abi Arg Opt Error Value)
  directs : List (DirectRead Abi Arg Opt Error Value)
  calls : List (CoalescedCall Abi Arg Opt)

/-- What happens to a coalescer. -/
inductive CoalescerInput where
  | readContract (params : ReadParams Abi Arg Opt)
  | multicall (params : MulticallParams Abi Arg Opt)
  | timer (block : ℕ)
  /-- the client answers a round trip -/
  | answer (job : ℕ) (answer : Except Error (MultiResult Error Value))
  /-- the client answers a read that went to it directly -/
  | direct (i : ℕ) (answer : Except Error Value)

end

/-- The key under which reads are merged. -/
def readKey (block : ℕ) (address calldata : JsString) : JsString :=
  decimal block ++ ofString ":" ++ address.toLowerCase ++ ofString ":" ++ calldata

section

variable {Abi Arg Opt Error Value : Type}

/-- A call by somebody, not a step of the coalescer. -/
def CoalescerInput.isCall : CoalescerInput Abi Arg Opt Error Value → Bool
  | .readContract _ => true
  | .multicall _ => true
  | _ => false

/-- What an entry of a chunk's results settles its read with. -/
def statusOutcome (noResult : Error) : Option (ReadStatus Error Value) → Except Error Value
  | some (.success result) => .ok result
  | some (.failure (some error)) => .error error
  | _ => .error noResult

/-- What a chunk's answer settles its reads with. -/
def chunkOutcome (noResult : Error) (answer : Except Error (MultiResult Error Value)) (i : ℕ) :
    Except Error Value :=
  match answer with
  | .ok (.statuses results) => statusOutcome noResult results[i]?
  | .ok (.values _) => .error noResult  -- a chunk allows failures
  | .error error => .error error

/-- A promise that was rejected. -/
def rejected? : Except Error Value → Option Error
  | .error error => some error
  | .ok _ => none

/-- A promise that was fulfilled. -/
def fulfilled? : Except Error Value → Option Value
  | .ok value => some value
  | .error _ => none

/-- A settled read as an entry of a multicall. -/
def settledStatus : Except Error Value → ReadStatus Error Value
  | .ok value => .success value
  | .error error => .failure (some error)

/-- What a multicall returns of its settled reads. -/
def gather (allowFailure : Bool) (settled : List (Except Error Value)) :
    Except Error (MultiResult Error Value) :=
  if allowFailure then .ok (.statuses (settled.map settledStatus))
  else match settled.findSome? rejected? with
    | some error => .error error
    | none => .ok (.values (settled.filterMap fulfilled?))

/-- A promise settles once. -/
def resolve (reads : List (PendingRead Abi Arg Error Value)) (read : ℕ)
    (outcome : Except Error Value) : List (PendingRead Abi Arg Error Value) :=
  reads.modify read fun r => { r with outcome := some (r.outcome.getD outcome) }

namespace Coalescer

/-! ### The operations -/

/-- A fresh coalescer. -/
def init : Coalescer Abi Arg Opt Error Value := ⟨.empty, ∅, ∅, [], [], [], []⟩

variable (deps : CoalescerDeps Abi Arg Error) (s : Coalescer Abi Arg Opt Error Value)

/-- `acquire`, for a new round trip. -/
def submit (work : Work Abi Arg Opt) : Coalescer Abi Arg Opt Error Value :=
  { s with
    budget := s.budget.acquire deps.concurrency s.jobs.length
    jobs := s.jobs ++ [⟨work, false, none⟩] }

/-- `flushGroup` -/
def flushGroup (block : ℕ) : Coalescer Abi Arg Opt Error Value :=
  match s.groups.get? block with
  | none => s
  | some reads => (slices deps.readsPerCall reads).foldl (fun s slice =>
      s.submit deps (.chunk slice block)) { s with groups := s.groups.delete block }

/-- A read for the client beneath. -/
def readDirectly (params : ReadParams Abi Arg Opt) :
    Coalescer Abi Arg Opt Error Value × ReadSource :=
  ({ s with directs := s.directs ++ [⟨params, none⟩] }, .direct s.directs.length)

/-- A new pending read, in the group of its block. -/
def openRead (contract : ContractCall Abi Arg) (block : ℕ) (key : JsString) :
    Coalescer Abi Arg Opt Error Value :=
  { s with
    reads := s.reads ++ [⟨{ contract with args := some (contract.args.getD []) }, block, key, none⟩]
    inFlight := s.inFlight.set key s.reads.length
    groups := s.groups.set block ((s.groups.get? block).getD [] ++ [s.reads.length]) }

/-- A group with enough reads is flushed at once. -/
def flushFull (block : ℕ) : Coalescer Abi Arg Opt Error Value :=
  if deps.readsPerCall ≤ ((s.groups.get? block).getD []).length then s.flushGroup deps block else s

/-- `enqueueRead`: a read whose calldata cannot be encoded goes to the client beneath, one under a
key in flight joins. -/
def enqueueRead (contract : ContractCall Abi Arg) (block : ℕ) :
    Coalescer Abi Arg Opt Error Value × ReadSource :=
  match deps.encodeFunctionData contract.abi contract.functionName contract.args with
  | none => s.readDirectly ⟨contract, some block, []⟩
  | some calldata =>
    let key := readKey block contract.address calldata
    match s.inFlight.get? key with
    | some read => (s, .shared read)
    | none => ((s.openRead contract block key).flushFull deps block, .shared s.reads.length)

/-- The reads of a multicall, one after the other. -/
def enqueueReads (block : ℕ) : Coalescer Abi Arg Opt Error Value → List (ContractCall Abi Arg) →
    Coalescer Abi Arg Opt Error Value × List ReadSource
  | s, [] => (s, [])
  | s, contract :: contracts =>
    let first := s.enqueueRead deps contract block
    let others := enqueueReads block first.1 contracts
    (others.1, first.2 :: others.2)

/-- `readContract`: only the plain pinned shape is merged. -/
def sourceRead (params : ReadParams Abi Arg Opt) : Coalescer Abi Arg Opt Error Value × ReadSource :=
  match params.blockNumber with
  | some block =>
    if params.rest.isEmpty ∧ params.address ≠ [] ∧ params.functionName ≠ [] then
      s.enqueueRead deps params.toContractCall block
    else s.readDirectly params
  | none => s.readDirectly params

@[inherit_doc sourceRead]
def readContract (params : ReadParams Abi Arg Opt) : Coalescer Abi Arg Opt Error Value :=
  let sourced := s.sourceRead deps params
  { sourced.1 with calls := sourced.1.calls ++ [.read params sourced.2] }

/-- `multicall`: a pinned one is taken apart, any other is passed on under the budget. -/
def multicall (params : MulticallParams Abi Arg Opt) : Coalescer Abi Arg Opt Error Value :=
  match params.blockNumber, params.rest with
  | some block, [] =>
    let sourced := enqueueReads deps block s params.contracts
    { sourced.1 with calls := sourced.1.calls ++ [.multicall params sourced.2] }
  | _, _ =>
    { s.submit deps (.passed params) with calls := s.calls ++ [.passed params s.jobs.length] }

/-- A round trip is over. -/
def finish (job : ℕ) (answer : Except Error (MultiResult Error Value)) :
    Coalescer Abi Arg Opt Error Value :=
  { s with
    jobs := s.jobs.modify job fun j => { j with answer := some answer }
    budget := s.budget.release deps.concurrency job }

/-- The text of the error of a read that a chunk has no result for. -/
def noResultMessage : String := "multicall returned no result for this read"

/-- The end of `runChunk`: its reads settle and leave the ones in flight. -/
def settleChunk (job : ℕ) (reads : List ℕ) (answer : Except Error (MultiResult Error Value)) :
    Coalescer Abi Arg Opt Error Value :=
  { s.finish deps job answer with
    reads := reads.zipIdx.foldl (fun rs e =>
      resolve rs e.1 (chunkOutcome (deps.newError noResultMessage) answer e.2)) s.reads
    inFlight := reads.foldl (fun m read =>
      (s.reads[read]?).elim m fun r => m.delete r.key) s.inFlight }

/-- The first attempt of a chunk failed. -/
def retryChunk (job : ℕ) : Coalescer Abi Arg Opt Error Value :=
  { s with jobs := s.jobs.modify job fun j => { j with retry := true } }

/-- The client answers a round trip. -/
def answerJob (job : ℕ) (answer : Except Error (MultiResult Error Value))
    (j : RoundTrip Abi Arg Opt Error Value) : Coalescer Abi Arg Opt Error Value :=
  match j.work, j.retry, answer with
  | .passed _, _, answer => s.finish deps job answer
  | .chunk _ _, false, .error _ => s.retryChunk job
  | .chunk reads _, _, answer => s.settleChunk deps job reads answer

/-- A step; `none` where the input does not come. -/
def step : CoalescerInput Abi Arg Opt Error Value → Option (Coalescer Abi Arg Opt Error Value)
  | .readContract params => some (s.readContract deps params)
  | .multicall params => some (s.multicall deps params)
  | .timer block => if s.groups.has block then some (s.flushGroup deps block) else none
  | .answer job answer =>
    if job ∈ s.budget.running then
      ((s.jobs[job]?).filter fun j => j.answer.isNone).map (s.answerJob deps job answer)
    else none
  | .direct i answer => ((s.directs[i]?).filter fun d => d.answer.isNone).map fun d =>
    { s with directs := s.directs.set i { d with answer := some answer } }

/-! ### What callers get -/

/-- What a source has come to. -/
def sourceOutcome? : ReadSource → Option (Except Error Value)
  | .shared read => (s.reads[read]?).bind PendingRead.outcome
  | .direct i => (s.directs[i]?).bind DirectRead.answer

/-- What a call has come to. -/
def outcome? : CoalescedCall Abi Arg Opt → Option (CallOutcome Error Value)
  | .read _ source => (s.sourceOutcome? source).map .single
  | .multicall params sources => (sources.mapM s.sourceOutcome?).map fun settled =>
    .multi (gather (params.allowFailure.getD true) settled)
  | .passed _ job => ((s.jobs[job]?).bind RoundTrip.answer).map .multi

end Coalescer

end

end PubsubVoting
