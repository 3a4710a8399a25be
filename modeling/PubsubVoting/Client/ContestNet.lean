import PubsubVoting.Checkpoint.Snapshot
import PubsubVoting.Client.ChaseAdmission
import PubsubVoting.Client.RootRecord
import PubsubVoting.Crdt.Convergence

/-!
The engines of one contest and what passes between them: bundles by gossip, checkpoints by their
roots.

* `ContestNode`, `NodeInput`, `ContestNode.step`: one engine, its chases cut at their awaits.
* `ContestNet.step`: any number of engines; a root that was advertised can be pulled by any of them
  at any later time, whole or in part.
* `Truthful`: no verdict is wrong, and nothing is pruned past a bundle whose checks are not recorded
  yet.
-/

namespace PubsubVoting

open Cbor

/-! ### One engine -/

/-- Where a chase is at the first of the winners that are left. -/
inductive PullStage
  | ahead
  /-- `isAdmitted` has answered -/
  | asked (isAdmitted : Bool)
  /-- the cache was looked at, and the other seams have answered -/
  | answered (a : SeamAnswers)
  /-- the bundle is merged, its checks are not recorded -/
  | merged (e : Entry) (verified : Bool)

/-- The chase of one root. -/
structure RootPull where
  root : Cid
  left : List VotesBundle
  stage : PullStage
  /-- no winner so far was passed over, unless it is admitted -/
  whole : Bool

/-- One engine. -/
structure ContestNode where
  held : Holdings
  cache : VerdictCache
  /-- merged or added, the checks not recorded yet -/
  admitting : List Entry
  /-- what the prunes have dropped, the checks not forgotten yet -/
  prunes : List (List Cid)
  pulls : List RootPull
  /-- everything that was merged or added here, or was known where a root pulled whole was made -/
  known : List Entry

/-- What happens in a chase. -/
inductive RootPullInput
  | ask
  | look (isEvaluableNow : Option Bool) (verifyOffline : Option VerifyResult)
      (admitted : Option Unit)
  | write
  | record
  /-- the deadline has fired -/
  | stop

/-- What happens to an engine. -/
inductive NodeInput
  /-- `crdt.add` of `signVote` -/
  | sign (bundle : VotesBundle)
  /-- `put` and `crdt.merge` of a gossiped block -/
  | hear (bytes : Bytes)
  | record (e : Entry) (settled nameSettled : Bool)
  | settle (cid : Cid) (key : CheckKey)
  | evict (cid : Cid)
  /-- a verdict is cached -/
  | verdict (cid : Cid) (v : BundleVerdict)
  | prune (bucket : ℕ)
  | forget (k : ℕ)
  /-- a checkpoint is decoded, from the blocks that peers have served -/
  | pull (root : Cid) (served : List Bytes) (index : Option (List Cid))
  | chase (k : ℕ) (i : RootPullInput)

/-- What `merge` reads back of a bundle that was encoded and put. -/
def storedBundle (C : Codecs) (bundle : VotesBundle) : VotesBundle :=
  ((encodeBundle C bundle).bind (decodeBundle C)).getD bundle

namespace ContestNode

/-- An engine that holds nothing. -/
def init : ContestNode := ⟨.empty, .empty, [], [], [], []⟩

variable (n : ContestNode)

/-- Every bundle that is held is fully verified. -/
def atRest : Bool := n.held.crdt.list.all fun e => n.held.isFullyVerified e.cid

/-- A chase goes on. -/
def put (k : ℕ) (p : RootPull) : ContestNode := { n with pulls := n.pulls.set k p }

/-- A chase is over. -/
def drop (k : ℕ) : ContestNode := { n with pulls := n.pulls.eraseIdx k }

/-- A bundle is merged. -/
def merge (e : Entry) : ContestNode :=
  { n with held := n.held.merge e.cid e.bundle, known := e :: n.known }

section

variable (C : Codecs) (deps : CrdtDeps) (maxEntries : ℕ)

/-- The body of the loop of a chase writes: it admits, caches a reject or goes on, or it threw. -/
def writePulled (k : ℕ) (p : RootPull) (a : SeamAnswers) (bundle : VotesBundle)
    (left : List VotesBundle) : ContestNode :=
  match chaseStep C a ⟨[], [], false, [], []⟩ bundle with
  | .next s =>
    match s.admitted with
    | [] =>
      let cache := s.rejected.foldl (fun cache r => cache.set maxEntries r.1 (.error r.2)) n.cache
      { n with cache := cache }.put k
        ⟨p.root, left, .ahead, p.whole && decide (a.isAdmitted = some true)⟩
    | (e, verified) :: _ =>
      (n.merge ⟨e.cid, storedBundle C e.bundle⟩).put k { p with stage := .merged e verified }
  | .stop _ => n.drop k
  | .threw _ => n.drop k

/-- One step of a chase; `none` where the input does not come. -/
def stepPull (k : ℕ) (p : RootPull) : RootPullInput → Option ContestNode
  | .ask =>
    match p.left, p.stage with
    | bundle :: _, .ahead =>
      some (n.put k { p with stage := .asked (n.held.checks.has (chasedCid C bundle)) })
    | _, _ => none
  | .look isEvaluableNow verifyOffline admitted =>
    match p.left, p.stage with
    | bundle :: _, .asked isAdmitted =>
      some (n.put k { p with stage := .answered ⟨false, some isAdmitted,
        n.cache.get? (chasedCid C bundle), isEvaluableNow, verifyOffline, admitted⟩ })
    | _, _ => none
  | .write =>
    match p.left, p.stage with
    | bundle :: left, .answered a => some (n.writePulled C maxEntries k p a bundle left)
    | _, _ => none
  | .record =>
    match p.left, p.stage with
    | _ :: left, .merged e verified =>
      some ({ n with held := n.held.record e verified verified }.put k
        ⟨p.root, left, .ahead, p.whole⟩)
    | _, _ => none
  | .stop => some (n.drop k)

/-- One step; `none` where the input does not come. -/
def step : NodeInput → Option ContestNode
  | .sign bundle => (bundleCid C bundle).map fun cid =>
    { n with
      held := n.held.put cid bundle
      admitting := ⟨cid, bundle⟩ :: n.admitting
      known := ⟨cid, bundle⟩ :: n.known }
  | .hear bytes => (decodeBundle C bytes).map fun bundle =>
    { n.merge ⟨bundleCidForBytes C bytes, bundle⟩ with
      admitting := ⟨bundleCidForBytes C bytes, bundle⟩ :: n.admitting }
  | .record e settled nameSettled =>
    if e ∈ n.admitting then
      some { n with
        held := n.held.record e settled nameSettled
        admitting := n.admitting.erase e }
    else none
  | .settle cid key => some { n with held := n.held.settle cid key }
  | .evict cid => some { n with held := n.held.evict cid }
  | .verdict cid v => some { n with cache := n.cache.set maxEntries cid v }
  | .prune bucket =>
    some { n with
      held := n.held.pruneCrdt deps bucket
      prunes := n.prunes ++ [n.held.pruned deps bucket] }
  | .forget k => n.prunes[k]?.map fun cids =>
    { n with held := n.held.forget cids, prunes := n.prunes.eraseIdx k }
  | .pull root served index =>
    (decodeCheckpoint C root (blocksByCid (served.map (blockForBytes C))) index).map fun winners =>
      { n with pulls := n.pulls ++ [⟨root, winners, .ahead, true⟩] }
  | .chase k i => n.pulls[k]?.bind fun p => n.stepPull C maxEntries k p i

end

end ContestNode

/-! ### The engines of a contest -/

/-- A root that was advertised, the winners its checkpoint is made of, and what it stands for. -/
structure AdvertisedRoot where
  root : Cid
  winners : List Entry
  known : List Entry

/-- The engines of a contest, and the roots advertised so far. -/
structure ContestNet (ι : Type) where
  node : ι → ContestNode
  roots : List AdvertisedRoot

/-- What happens to them. -/
inductive NetInput (ι : Type)
  | engine (i : ι) (input : NodeInput)
  /-- engine `i` encodes its checkpoint and advertises the root -/
  | advertise (i : ι) (bucket : ℕ)
  /-- a chase has gone through all winners -/
  | finish (i : ι) (k : ℕ)

namespace ContestNet

variable {ι : Type} [DecidableEq ι]

/-- Nobody holds anything. -/
def init : ContestNet ι := ⟨fun _ => .init, []⟩

/-- One engine goes on. -/
def set (s : ContestNet ι) (i : ι) (n : ContestNode) : ContestNet ι :=
  { s with node := Function.update s.node i n }

/-- What engine `n` knows once it has pulled a root whole. -/
def learnt (s : ContestNet ι) (n : ContestNode) (p : RootPull) : List Entry :=
  if p.whole then
    n.known ++ (s.roots.filter fun r => r.root = p.root).flatMap AdvertisedRoot.known
  else n.known

variable (C : Codecs) (deps : CrdtDeps) (maxEntries : ℕ)

/-- The checkpoint of an engine as it is advertised. While a check is pending it stands for its
winners only. -/
def advertised (n : ContestNode) (bucket : ℕ) : Option AdvertisedRoot :=
  (rootRecordOf C (n.held.served deps bucket)).map fun r =>
    ⟨r.1.root, n.held.served deps bucket,
      if n.atRest then n.known else n.held.served deps bucket⟩

/-- One step; `none` where the input does not come. -/
def step (s : ContestNet ι) : NetInput ι → Option (ContestNet ι)
  | .engine i input => ((s.node i).step C deps maxEntries input).map (s.set i)
  | .advertise i bucket => (advertised C deps (s.node i) bucket).map fun r =>
    { s with roots := s.roots ++ [r] }
  | .finish i k => (s.node i).pulls[k]?.bind fun p =>
    match p.left, p.stage with
    | [], .ahead => some (s.set i { (s.node i).drop k with known := s.learnt (s.node i) p })
    | _, _ => none

end ContestNet

/-! ### Runs in which no verdict is wrong -/

section

variable (C : Codecs) (good : Cid → Bool) (blocks : List Bytes) (b : ℕ)

/-- A bundle is fully verified, and a valid verdict on it cached, only if it is good; it is evicted
only if it is not. What is encoded is one of the blocks, and a gossiped block is the encoding of its
bundle. No prune runs at a bucket after `b`, or while the checks of a bundle that is not good are
not recorded. -/
def NodeInput.Truthful (n : ContestNode) : NodeInput → Prop
  | .sign bundle => ∀ x ∈ encodeBundle C bundle, x ∈ blocks
  | .hear bytes => bytes ∈ blocks ∧
      ∀ bundle ∈ decodeBundle C bytes, encodeBundle C bundle = some bytes
  | .record e settled nameSettled =>
      (n.held.record e settled nameSettled).isFullyVerified e.cid = true → good e.cid = true
  | .settle cid key => (n.held.settle cid key).isFullyVerified cid = true → good cid = true
  | .evict cid => good cid = false
  | .verdict cid v => v.valid = true → good cid = true
  | .prune bucket => bucket ≤ b ∧
      ∀ e ∈ n.held.crdt.list, n.held.isPending e.cid = false → good e.cid = true
  | .pull root served index => (∀ x ∈ served, x ∈ blocks) ∧
      (∀ chunks ∈ index, ∀ x ∈ C.encodeCanonical (checkpointRootValue chunks), x ∈ blocks) ∧
      ∀ winners ∈ decodeCheckpoint C root (blocksByCid (served.map (blockForBytes C))) index,
        ∀ w ∈ winners, ∀ x ∈ encodeBundle C w, x ∈ blocks
  | .forget _ => True
  | .chase _ _ => True

/-- The condition on all engines. -/
def NetInput.Truthful {ι : Type} (deps : CrdtDeps) (s : ContestNet ι) : NetInput ι → Prop
  | .engine i input => input.Truthful C good blocks b (s.node i)
  | .advertise i bucket => bucket ≤ b ∧
      ∀ r ∈ rootRecordOf C ((s.node i).held.served deps bucket), ∀ block ∈ r.2,
        block.bytes ∈ blocks
  | .finish _ _ => True

instance (n : ContestNode) : DecidablePred (NodeInput.Truthful C good blocks b n) := fun i =>
  match i with
  | .sign bundle => inferInstanceAs (Decidable (∀ x ∈ encodeBundle C bundle, x ∈ blocks))
  | .hear bytes => inferInstanceAs (Decidable (bytes ∈ blocks ∧
      ∀ bundle ∈ decodeBundle C bytes, encodeBundle C bundle = some bytes))
  | .record e settled nameSettled => inferInstanceAs (Decidable
      ((n.held.record e settled nameSettled).isFullyVerified e.cid = true → good e.cid = true))
  | .settle cid key => inferInstanceAs (Decidable
      ((n.held.settle cid key).isFullyVerified cid = true → good cid = true))
  | .evict cid => inferInstanceAs (Decidable (good cid = false))
  | .verdict cid v => inferInstanceAs (Decidable (v.valid = true → good cid = true))
  | .prune bucket => inferInstanceAs (Decidable (bucket ≤ b ∧
      ∀ e ∈ n.held.crdt.list, n.held.isPending e.cid = false → good e.cid = true))
  | .pull root served index => inferInstanceAs (Decidable ((∀ x ∈ served, x ∈ blocks) ∧
      (∀ chunks ∈ index, ∀ x ∈ C.encodeCanonical (checkpointRootValue chunks), x ∈ blocks) ∧
      ∀ winners ∈ decodeCheckpoint C root (blocksByCid (served.map (blockForBytes C))) index,
        ∀ w ∈ winners, ∀ x ∈ encodeBundle C w, x ∈ blocks))
  | .forget _ | .chase _ _ => .isTrue trivial

instance {ι : Type} (deps : CrdtDeps) (s : ContestNet ι) :
    DecidablePred (NetInput.Truthful C good blocks b deps s) := fun i =>
  match i with
  | .engine i input => inferInstanceAs (Decidable (input.Truthful C good blocks b (s.node i)))
  | .advertise i bucket => inferInstanceAs (Decidable (bucket ≤ b ∧
      ∀ r ∈ rootRecordOf C ((s.node i).held.served deps bucket), ∀ block ∈ r.2,
        block.bytes ∈ blocks))
  | .finish _ _ => .isTrue trivial

end

end PubsubVoting
