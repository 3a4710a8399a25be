import PubsubVoting.Lib.Transition
import PubsubVoting.Transport.AcceptedDedup
import PubsubVoting.Transport.Messages
import PubsubVoting.Verify.Cache

/-!
The forward gate of the pubsub topic: concurrent validations of messages, each under a deadline,
with the cache of verdicts between them.

* `layerOne`, `resume`: one validation, from one await to the next.
* `Gossip.step`: any number of validations, their awaits coming back in any order.
* `Effect`: what one await that comes back does to a given address (`effect_of_resume`).
* `accept_stored`: if every admit of a bundle completes in time, or the cache answers for it only
  once it is stored, then an accepted bundle is stored when all validations have settled.
-/

namespace PubsubVoting

open Cbor

/-! ### One validation -/

/-- What gossipsub is told about a message. -/
inductive MessageVerdict where
  | accept
  | reject
  | ignore
  deriving DecidableEq

/-- A failed bundle as a verdict on its message. -/
def VerdictDisposition.message : VerdictDisposition → MessageVerdict
  | .reject => .reject
  | .ignore => .ignore

/-- A verdict on a bundle as one on its message. -/
def BundleVerdict.message : BundleVerdict → MessageVerdict
  | .ok _ => .accept
  | .error fail => fail.disposition.message

/-- What a gate is made with; the calls it injects are answered by the inputs of `Gossip.step`. -/
structure GossipGateDeps where
  codecs : Codecs
  criteria : Criteria
  bucketMath : BucketMath
  maxCached : ℕ
  maxAccepted : ℕ

/-- What the validations share. -/
structure GateMemory where
  cache : VerdictCache
  accepted : FifoSet DedupKey
  /-- the completed calls of `admit` -/
  admitted : List Entry

/-- Where a validation is. One that ended keeps the address it was about. -/
inductive GatePc where
  | parsing (block : Bytes)
  | evaluating (e : Entry)
  | verifying (e : Entry)
  | admitting (e : Entry)
  | ended (cid : Option Cid)

/-- A validation, and what `validate` returned. -/
structure GateCall where
  pc : GatePc
  answer : Option MessageVerdict

/-- What an await comes back with; `none` is a throw. -/
inductive GateEvent where
  | parsed
  | evaluable (answer : Option Bool)
  | verified (answer : Option BundleVerdict)
  /-- `admit`; `onAccept` behind it may throw -/
  | admitted (answer : Option Unit) (notifies : Bool)

section

variable (g : GossipGateDeps)

/-- The address a validation is about. -/
def GatePc.cid? : GatePc → Option Cid
  | .parsing block => some (bundleCidForBytes g.codecs block)
  | .evaluating e => some e.cid
  | .verifying e => some e.cid
  | .admitting e => some e.cid
  | .ended cid => cid

/-- The inner promise settles; `validate` returns its value unless the deadline was first. -/
def GateCall.finish (c : GateCall) (v : MessageVerdict) : GateCall :=
  ⟨.ended (c.pc.cid? g), some (c.answer.getD v)⟩

/-- Size, decode and rate; the block of a bundle message goes on. -/
def layerOne (data : Bytes) (allowed : Bool) : Except MessageVerdict Bytes :=
  if data.length > max (maxBundleMessageBytes g.criteria) maxRootMessageBytes then .error .reject
  else
    match decodeVoteMessage g.codecs data with
    | none => .error .reject
    | some (.root _) =>
      if data.length > maxRootMessageBytes then .error .reject
      else if allowed then .error .accept else .error .ignore
    | some (.bundle block) =>
      if data.length > maxBundleMessageBytes g.criteria then .error .reject
      else if allowed then .ok block else .error .ignore

/-- `validate`, up to the first await. -/
def startValidate (data : Bytes) (allowed : Bool) : GateCall :=
  match layerOne g data allowed with
  | .error v => ⟨.ended none, some v⟩
  | .ok block => ⟨.parsing block, none⟩

/-- The parsed block: a cached verdict answers for it. -/
def afterParse (m : GateMemory) (c : GateCall) (cid : Cid) (bundle : VotesBundle) : GateCall :=
  match m.cache.get? cid with
  | some verdict => c.finish g verdict.message
  | none => { c with pc := .evaluating ⟨cid, bundle⟩ }

/-- The verdict is cached if it is terminal; a valid bundle goes on to `admit`. -/
def afterVerify (m : GateMemory) (c : GateCall) (e : Entry) (verdict : BundleVerdict) :
    GateMemory × GateCall :=
  let m := if isCacheableVerdict verdict then
    { m with cache := m.cache.set g.maxCached e.cid verdict } else m
  match verdict with
  | .error fail => (m, c.finish g fail.disposition.message)
  | .ok _ => (m, { c with pc := .admitting e })

/-- A validation goes on from its await to the next one. A throw ends it with `ignore`. -/
def resume (m : GateMemory) (c : GateCall) (event : GateEvent) : Option (GateMemory × GateCall) :=
  match c.pc, event with
  | .parsing block, .parsed =>
    match decodeBundle g.codecs block with
    | none => some (m, c.finish g .reject)
    | some bundle => some (m, afterParse g m c (bundleCidForBytes g.codecs block) bundle)
  | .evaluating e, .evaluable answer =>
    match answer with
    | some true =>
      if isResignDuplicate g.codecs g.bucketMath m.accepted e.bundle then
        some (m, c.finish g .ignore)
      else some (m, { c with pc := .verifying e })
    | _ => some (m, c.finish g .ignore)
  | .verifying e, .verified answer =>
    match answer with
    | none => some (m, c.finish g .ignore)
    | some verdict => some (afterVerify g m c e verdict)
  | .admitting e, .admitted answer notifies =>
    match answer with
    | none => some (m, c.finish g .ignore)
    | some () =>
      let m := { m with
        accepted := recordAccepted g.codecs g.bucketMath g.maxAccepted m.accepted e.bundle
        admitted := m.admitted ++ [e] }
      some (m, c.finish g (if notifies then .accept else .ignore))
  | _, _ => none

end

/-! ### All validations -/

/-- The validations by number, and what they share. -/
structure Gossip where
  calls : JsMap ℕ GateCall
  memory : GateMemory

/-- A message comes in, an await comes back, or the deadline of a message passes. -/
inductive GossipInput where
  | validate (call : ℕ) (data : Bytes) (allowed : Bool)
  | resume (call : ℕ) (event : GateEvent)
  | deadline (call : ℕ)

namespace Gossip

/-- `makeGossipGate`, with nothing cached. -/
def init : Gossip := ⟨∅, VerdictCache.empty, FifoSet.empty, []⟩

/-- One step; `none` where the input does not come in this state. -/
def step (g : GossipGateDeps) (s : Gossip) : GossipInput → Option Gossip
  | .validate call data allowed =>
    if s.calls.has call then none
    else some { s with calls := s.calls.set call (startValidate g data allowed) }
  | .resume call event =>
    (s.calls.get? call).bind fun c =>
      (resume g s.memory c event).map fun r => ⟨s.calls.set call r.2, r.1⟩
  | .deadline call =>
    (s.calls.get? call).bind fun c =>
      if c.answer = none then
        some { s with calls := s.calls.set call { c with answer := some .ignore } }
      else none

end Gossip

/-! ### One address -/

/-- An admit of the bundle completed. -/
def GateMemory.stored (m : GateMemory) (cid : Cid) : Bool := m.admitted.any fun e => e.cid == cid

/-- The cache holds a valid verdict for the bundle. -/
def GateMemory.cachedValid (m : GateMemory) (cid : Cid) : Bool :=
  (m.cache.get? cid).any BundleVerdict.valid

/-- The validation awaits the verdict on the bundle. -/
def GateCall.verifies (c : GateCall) (cid : Cid) : Bool :=
  match c.pc with
  | .verifying e => e.cid == cid
  | _ => false

/-- The validation awaits the admit of the bundle. -/
def GateCall.admits (c : GateCall) (cid : Cid) : Bool :=
  match c.pc with
  | .admitting e => e.cid == cid
  | _ => false

section

variable (g : GossipGateDeps) (cid : Cid)

/-- What it may do to an address that an await of some validation comes back. -/
inductive Effect (m : GateMemory) (c : GateCall) : GateEvent → GateMemory → GateCall → Prop
  /-- nothing that matters for the address -/
  | quiet {event : GateEvent} {m' : GateMemory} {c' : GateCall} : c.admits cid = false →
      (m'.cachedValid cid = true → m.cachedValid cid = true) → m'.stored cid = m.stored cid →
      (c.pc.cid? g = some cid → c'.answer = some .accept → c.answer = some .accept) →
      Effect m c event m' c'
  /-- the cached verdict answers -/
  | hit {c' : GateCall} : c.pc.cid? g = some cid → c.admits cid = false →
      m.cachedValid cid = true → Effect m c .parsed m c'
  /-- the bundle is valid and goes to `admit` -/
  | verified {names : ResolvedNames} {m' : GateMemory} {c' : GateCall} : c.verifies cid = true →
      c'.admits cid = true → c'.answer = c.answer → m'.stored cid = m.stored cid →
      Effect m c (.verified (some (.ok names))) m' c'
  /-- `admit` throws -/
  | fails {notifies : Bool} {c' : GateCall} : c.admits cid = true →
      (c'.answer = some .accept → c.answer = some .accept) →
      Effect m c (.admitted none notifies) m c'
  /-- `admit` completes -/
  | stores {notifies : Bool} {m' : GateMemory} {c' : GateCall} : m'.stored cid = true →
      Effect m c (.admitted (some ()) notifies) m' c'

end

section

variable {g : GossipGateDeps} {cid : Cid} {m m' : GateMemory} {c c' : GateCall} {event : GateEvent}

/-- Only an answer that accepts makes one that accepts. -/
lemma GateCall.answer_finish {v : MessageVerdict} (hv : v ≠ .accept)
    (h : (c.finish g v).answer = some .accept) : c.answer = some .accept := by
  cases hc : c.answer with
  | none => simp [GateCall.finish, hc, hv] at h
  | some v' => simpa [GateCall.finish, hc] using h

lemma VerdictDisposition.message_ne_accept (d : VerdictDisposition) : d.message ≠ .accept := by
  cases d <;> decide

lemma BundleVerdict.valid_of_message {v : BundleVerdict} (h : v.message = .accept) :
    v.valid = true := by
  cases v with
  | ok names => rfl
  | error fail => exact absurd h fail.disposition.message_ne_accept

/-- An address is valid in the cache behind a verdict only if it was, or it is the verdict's. -/
lemma cachedValid_afterVerify {e : Entry} {verdict : BundleVerdict}
    (h : (afterVerify g m c e verdict).1.cachedValid cid = true) :
    m.cachedValid cid = true ∨ cid = e.cid ∧ verdict.valid = true := by
  have hmem : (afterVerify g m c e verdict).1
      = if isCacheableVerdict verdict then
          { m with cache := m.cache.set g.maxCached e.cid verdict } else m := by
    cases verdict <;> rfl
  rw [hmem] at h
  split_ifs at h with hcache
  · obtain ⟨v, hget, hv⟩ := Option.any_eq_true _ _ |>.mp h
    rcases VerdictCache.get?_set_eq_some hget with hold | ⟨rfl, rfl, -⟩
    · exact .inl (Option.any_eq_true _ _ |>.mpr ⟨v, hold, hv⟩)
    · exact .inr ⟨rfl, hv⟩
  · exact .inl h

lemma stored_afterVerify {e : Entry} {verdict : BundleVerdict} :
    (afterVerify g m c e verdict).1.stored cid = m.stored cid := by
  cases verdict <;> simp only [afterVerify] <;> split_ifs <;> rfl

/-- A validation that ends without accepting. -/
lemma effect_finish {v : MessageVerdict} (hv : v ≠ .accept) (hadmits : c.admits cid = false) :
    Effect g cid m c event m (c.finish g v) :=
  .quiet hadmits id rfl fun _ => c.answer_finish hv

/-- The block is parsed: it is malformed, its verdict is cached, or it goes to the rules. -/
lemma effect_of_parsing {block : Bytes} (hpc : c.pc = .parsing block)
    (h : resume g m c event = some (m', c')) :
    c'.pc.cid? g = c.pc.cid? g ∧ Effect g cid m c event m' c' := by
  have hadmits : c.admits cid = false := by simp [GateCall.admits, hpc]
  cases event with
  | parsed =>
      simp only [resume, hpc] at h
      cases hbundle : decodeBundle g.codecs block with
      | none =>
          simp only [hbundle, Option.some.injEq, Prod.mk.injEq] at h
          obtain ⟨rfl, rfl⟩ := h
          exact ⟨rfl, effect_finish (by decide) hadmits⟩
      | some bundle =>
          simp only [hbundle, Option.some.injEq, Prod.mk.injEq, afterParse] at h
          obtain ⟨rfl, rfl⟩ := h
          cases hget : m.cache.get? (bundleCidForBytes g.codecs block) with
          | none => exact ⟨by rw [hpc]; rfl, .quiet hadmits id rfl fun _ => id⟩
          | some verdict =>
              refine ⟨rfl, ?_⟩
              by_cases hcid : c.pc.cid? g = some cid
              · by_cases hvalid : verdict.valid = true
                · refine .hit hcid hadmits (Option.any_eq_true _ _ |>.mpr ⟨verdict, ?_, hvalid⟩)
                  rw [hpc] at hcid
                  rwa [Option.some.inj hcid] at hget
                · exact effect_finish (fun h => hvalid (BundleVerdict.valid_of_message h)) hadmits
              · exact .quiet hadmits id rfl fun h => absurd h hcid
  | _ => simp [resume, hpc] at h

/-- The rules answer whether the bundle can be evaluated. -/
lemma effect_of_evaluating {e : Entry} (hpc : c.pc = .evaluating e)
    (h : resume g m c event = some (m', c')) :
    c'.pc.cid? g = c.pc.cid? g ∧ Effect g cid m c event m' c' := by
  have hadmits : c.admits cid = false := by simp [GateCall.admits, hpc]
  cases event with
  | evaluable answer =>
      simp only [resume, hpc] at h
      split at h
      · split_ifs at h
        · obtain ⟨rfl, rfl⟩ := Prod.mk.inj (Option.some.inj h)
          exact ⟨rfl, effect_finish (by decide) hadmits⟩
        · obtain ⟨rfl, rfl⟩ := Prod.mk.inj (Option.some.inj h)
          exact ⟨by rw [hpc]; rfl, .quiet hadmits id rfl fun _ => id⟩
      · obtain ⟨rfl, rfl⟩ := Prod.mk.inj (Option.some.inj h)
        exact ⟨rfl, effect_finish (by decide) hadmits⟩
  | _ => simp [resume, hpc] at h

/-- The verdict of a bundle. -/
lemma effect_of_verdict {e : Entry} (hpc : c.pc = .verifying e) {verdict : BundleVerdict}
    (h : resume g m c (.verified (some verdict)) = some (m', c')) :
    c'.pc.cid? g = c.pc.cid? g ∧ Effect g cid m c (.verified (some verdict)) m' c' := by
  have hadmits : c.admits cid = false := by simp [GateCall.admits, hpc]
  simp only [resume, hpc] at h
  have hmem : (afterVerify g m c e verdict).1 = m' := congrArg Prod.fst (Option.some.inj h)
  have hcall : (afterVerify g m c e verdict).2 = c' := congrArg Prod.snd (Option.some.inj h)
  have hstored : m'.stored cid = m.stored cid := hmem ▸ stored_afterVerify
  have hcached : m'.cachedValid cid = true →
      m.cachedValid cid = true ∨ cid = e.cid ∧ verdict.valid = true :=
    hmem ▸ cachedValid_afterVerify
  cases verdict with
  | error fail =>
      obtain rfl := hcall
      refine ⟨rfl, .quiet hadmits (fun h' => ?_) hstored
        fun _ => c.answer_finish fail.disposition.message_ne_accept⟩
      rcases hcached h' with hold | ⟨-, hvalid⟩
      · exact hold
      · cases hvalid
  | ok names =>
      obtain rfl := hcall
      refine ⟨by rw [hpc]; rfl, ?_⟩
      by_cases hcid : e.cid = cid
      · exact .verified (by simp [GateCall.verifies, hpc, hcid])
          (by simp [GateCall.admits, afterVerify, hcid]) rfl hstored
      · refine .quiet hadmits (fun h' => ?_) hstored fun _ => id
        rcases hcached h' with hold | ⟨heq, -⟩
        · exact hold
        · exact absurd heq.symm hcid

/-- The chain check comes back: it throws, or there is a verdict. -/
lemma effect_of_verifying {e : Entry} (hpc : c.pc = .verifying e)
    (h : resume g m c event = some (m', c')) :
    c'.pc.cid? g = c.pc.cid? g ∧ Effect g cid m c event m' c' := by
  cases event with
  | verified answer =>
      cases answer with
      | none =>
          simp only [resume, hpc] at h
          obtain ⟨rfl, rfl⟩ := Prod.mk.inj (Option.some.inj h)
          refine ⟨rfl, effect_finish (by decide) ?_⟩
          simp [GateCall.admits, hpc]
      | some verdict => exact effect_of_verdict hpc h
  | _ => simp [resume, hpc] at h

/-- `admit` comes back: it throws, or the bundle is stored. -/
lemma effect_of_admitting {e : Entry} (hpc : c.pc = .admitting e)
    (h : resume g m c event = some (m', c')) :
    c'.pc.cid? g = c.pc.cid? g ∧ Effect g cid m c event m' c' := by
  cases event with
  | admitted answer notifies =>
      cases answer with
      | none =>
          simp only [resume, hpc] at h
          obtain ⟨rfl, rfl⟩ := Prod.mk.inj (Option.some.inj h)
          refine ⟨rfl, ?_⟩
          by_cases hcid : e.cid = cid
          · exact .fails (by simp [GateCall.admits, hpc, hcid]) (c.answer_finish (by decide))
          · exact effect_finish (by decide) (by simp [GateCall.admits, hpc, hcid])
      | some _ =>
          simp only [resume, hpc] at h
          obtain ⟨rfl, rfl⟩ := Prod.mk.inj (Option.some.inj h)
          refine ⟨rfl, ?_⟩
          by_cases hcid : e.cid = cid
          · exact .stores (by simp [GateMemory.stored, hcid])
          · refine .quiet (by simp [GateCall.admits, hpc, hcid]) id
              (by simp [GateMemory.stored, hcid]) fun h => ?_
            rw [hpc] at h
            exact absurd (Option.some.inj h) hcid
  | _ => simp [resume, hpc] at h

/-- **An await that comes back keeps the address of its validation, and has one of the effects.** -/
theorem effect_of_resume (h : resume g m c event = some (m', c')) :
    c'.pc.cid? g = c.pc.cid? g ∧ Effect g cid m c event m' c' := by
  cases hpc : c.pc with
  | ended of => simp [resume, hpc] at h
  | parsing block =>
      rw [← hpc]
      exact effect_of_parsing hpc h
  | evaluating e =>
      rw [← hpc]
      exact effect_of_evaluating hpc h
  | verifying e =>
      rw [← hpc]
      exact effect_of_verifying hpc h
  | admitting e =>
      rw [← hpc]
      exact effect_of_admitting hpc h

end

/-! ### Runs -/

namespace Gossip

section

variable (g : GossipGateDeps) (s : Gossip) (cid : Cid)

/-- Nothing of an admit of the bundle fails, and none is still to complete at the deadline of its
message. -/
def admitsInTime : GossipInput → Bool
  | .validate .. => true
  | .deadline call => (s.calls.get? call).all fun c => !c.admits cid
  | .resume call (.verified (some (.ok _))) =>
    (s.calls.get? call).all fun c => !c.verifies cid || c.answer.isNone
  | .resume call (.admitted none _) => (s.calls.get? call).all fun c => !c.admits cid
  | .resume .. => true

/-- The cache answers for the bundle only when it is stored. -/
def storedFirst : GossipInput → Bool
  | .resume call .parsed =>
    (s.calls.get? call).all fun c =>
      !decide (c.pc.cid? g = some cid) || !s.memory.cachedValid cid || s.memory.stored cid
  | _ => true

/-- Some validation of the bundle returned accept. -/
def Accepted : Prop :=
  ∃ call, ∃ c ∈ s.calls.get? call, c.pc.cid? g = some cid ∧ c.answer = some .accept

/-- Every validation has returned. -/
def Settled : Prop := ∀ call, ∀ c ∈ s.calls.get? call, c.answer.isSome = true

instance : Decidable (s.Accepted g cid) := decidable_of_iff' _ JsMap.exists_get?_iff

instance : Decidable s.Settled := decidable_of_iff' _ JsMap.forall_get?_iff

/-- The bundle is stored, or about to be by a validation that has not returned. -/
def Backed : Prop :=
  s.memory.stored cid = true
    ∨ ∃ call, ∃ c ∈ s.calls.get? call, c.admits cid = true ∧ c.answer = none

/-- An accepted bundle is backed, and so is one the cache would accept. -/
structure InTime : Prop where
  accepted : s.Accepted g cid → s.Backed cid
  cached : s.memory.cachedValid cid = true → s.Backed cid

end

variable {g : GossipGateDeps} {s s' : Gossip} {cid : Cid}

/-- One step, by what it does to the address: a validation starts or its deadline passes, or an
await comes back. -/
lemma step_cases {i : GossipInput} (cid : Cid) (h : step g s i = some s') :
    (∃ call data allowed, i = .validate call data allowed ∧ s.calls.get? call = none
        ∧ s' = { s with calls := s.calls.set call (startValidate g data allowed) })
      ∨ (∃ call, ∃ c ∈ s.calls.get? call, i = .deadline call ∧ c.answer = none
        ∧ s' = { s with calls := s.calls.set call { c with answer := some .ignore } })
      ∨ ∃ call event, ∃ c ∈ s.calls.get? call, ∃ m' c', i = .resume call event
        ∧ c'.pc.cid? g = c.pc.cid? g ∧ Effect g cid s.memory c event m' c'
        ∧ s' = ⟨s.calls.set call c', m'⟩ := by
  cases i with
  | validate call data allowed =>
      simp only [step] at h
      split_ifs at h with hhas
      refine .inl ⟨call, data, allowed, rfl, ?_, (Option.some.inj h).symm⟩
      rwa [JsMap.get?_eq_none_iff, ← JsMap.has_iff]
  | deadline call =>
      obtain ⟨c, hc, h⟩ := Option.bind_eq_some_iff.mp h
      split_ifs at h with hanswer
      exact .inr (.inl ⟨call, c, hc, rfl, hanswer, (Option.some.inj h).symm⟩)
  | resume call event =>
      obtain ⟨c, hc, h⟩ := Option.bind_eq_some_iff.mp h
      obtain ⟨⟨m', c'⟩, hresume, rfl⟩ := Option.map_eq_some_iff.mp h
      obtain ⟨hcid, heffect⟩ := effect_of_resume hresume
      exact .inr (.inr ⟨call, event, c, hc, m', c', rfl, hcid, heffect, rfl⟩)

/-- No validation of a bundle has accepted when it starts. -/
lemma startValidate_cid {data : Bytes} {allowed : Bool}
    (h : (startValidate g data allowed).pc.cid? g = some cid) :
    (startValidate g data allowed).answer = none := by
  rw [startValidate] at h ⊢
  cases hlayer : layerOne g data allowed with
  | error v => simp [hlayer, GatePc.cid?] at h
  | ok block => rfl

/-- An accept behind a step is one from before, or one of the validation that moved. -/
lemma accepted_set {call : ℕ} {c' : GateCall} {m' : GateMemory}
    (h : Accepted g ⟨s.calls.set call c', m'⟩ cid) :
    s.Accepted g cid ∨ c'.pc.cid? g = some cid ∧ c'.answer = some .accept := by
  obtain ⟨call', c, hc, hcid, hanswer⟩ := h
  simp only [JsMap.get?_set, Option.mem_def] at hc
  split_ifs at hc with hcall
  · obtain rfl := Option.some.inj hc
    exact .inr ⟨hcid, hanswer⟩
  · exact .inl ⟨call', c, hc, hcid, hanswer⟩

/-- A bundle stays backed while the validation that moves is not the one about to store it. -/
lemma Backed.set {call : ℕ} {c' : GateCall} {m' : GateMemory} (h : s.Backed cid)
    (hstored : s.memory.stored cid = true → m'.stored cid = true)
    (hadmits : ∀ c ∈ s.calls.get? call, c.admits cid = false) :
    Backed ⟨s.calls.set call c', m'⟩ cid := by
  rcases h with h | ⟨call', c, hc, hcadmits, hanswer⟩
  · exact .inl (hstored h)
  · refine .inr ⟨call', c, ?_, hcadmits, hanswer⟩
    have hne : call' ≠ call := by
      rintro rfl
      rw [hadmits c hc] at hcadmits
      cases hcadmits
    simpa [hne] using hc

/-- **Every step at which the admits of a bundle are in time keeps it backed.** -/
lemma InTime.step {i : GossipInput} (h : s.InTime g cid) (hok : s.admitsInTime cid i = true)
    (hstep : step g s i = some s') : s'.InTime g cid := by
  rcases step_cases cid hstep with ⟨call, data, allowed, rfl, hnone, rfl⟩
    | ⟨call, c, hc, rfl, hanswer, rfl⟩ | ⟨call, event, c, hc, m', c', rfl, hcid, heffect, rfl⟩
  · have hkept : ∀ c' : GateCall, s.Backed cid → Backed ⟨s.calls.set call c', s.memory⟩ cid :=
      fun c' hb => hb.set id fun c hc => by rw [hnone] at hc; cases hc
    refine ⟨fun hacc => hkept _ ?_, fun hcached => hkept _ (h.cached hcached)⟩
    rcases accepted_set hacc with hacc | ⟨hcid, hanswer⟩
    · exact h.accepted hacc
    · rw [startValidate_cid hcid] at hanswer
      cases hanswer
  · have hadmits : c.admits cid = false := by
      have := hok
      simp only [admitsInTime, Option.mem_def.mp hc, Option.all_some, Bool.not_eq_true'] at this
      exact this
    have hkept : ∀ c' : GateCall, s.Backed cid → Backed ⟨s.calls.set call c', s.memory⟩ cid :=
      fun c' hb => hb.set id fun c₀ hc₀ => by
        rw [Option.mem_unique hc₀ hc]
        exact hadmits
    refine ⟨fun hacc => hkept _ ?_, fun hcached => hkept _ (h.cached hcached)⟩
    rcases accepted_set hacc with hacc | ⟨-, hanswer⟩
    · exact h.accepted hacc
    · cases hanswer
  · have hget : s.calls.get? call = some c := hc
    have haccepted : Accepted g ⟨s.calls.set call c', m'⟩ cid →
        s.Accepted g cid ∨ c.pc.cid? g = some cid ∧ c'.answer = some .accept := by
      rw [← hcid]
      exact accepted_set
    have hold : c.pc.cid? g = some cid → c.answer = some .accept → s.Backed cid :=
      fun hc' hanswer => h.accepted ⟨call, c, hc, hc', hanswer⟩
    cases heffect with
    | quiet hadmits hcached hstored hanswer =>
        have hkept : s.Backed cid → Backed ⟨s.calls.set call c', m'⟩ cid := fun hb =>
          hb.set (fun h => hstored.trans h) fun c₀ hc₀ => by
            rw [Option.mem_unique hc₀ hc]
            exact hadmits
        refine ⟨fun hacc => hkept ?_, fun hc' => hkept (h.cached (hcached hc'))⟩
        rcases haccepted hacc with hacc | ⟨hc', ha⟩
        · exact h.accepted hacc
        · exact hold hc' (hanswer hc' ha)
    | hit _ hadmits hcached =>
        have hkept : Backed ⟨s.calls.set call c', s.memory⟩ cid :=
          (h.cached hcached).set id fun c₀ hc₀ => by
            rw [Option.mem_unique hc₀ hc]
            exact hadmits
        exact ⟨fun _ => hkept, fun _ => hkept⟩
    | verified hverifies hadmits hanswer hstored =>
        have hnone : c.answer = none := by
          simp only [admitsInTime, hget, Option.all_some, hverifies, Bool.not_true, Bool.false_or,
            Option.isNone_iff_eq_none] at hok
          exact hok
        have hbacked : Backed ⟨s.calls.set call c', m'⟩ cid :=
          .inr ⟨call, c', by simp, hadmits, hanswer.trans hnone⟩
        exact ⟨fun _ => hbacked, fun _ => hbacked⟩
    | fails hadmits =>
        simp only [admitsInTime, hget, Option.all_some, hadmits, Bool.not_true] at hok
        cases hok
    | stores hstored => exact ⟨fun _ => .inl hstored, fun _ => .inl hstored⟩

/-- Every step at which the cache answers for the bundle only when it is stored. -/
lemma stored_of_accepted_step {i : GossipInput}
    (h : s.Accepted g cid → s.memory.stored cid = true) (hok : s.storedFirst g cid i = true)
    (hstep : step g s i = some s') (hacc : s'.Accepted g cid) : s'.memory.stored cid = true := by
  rcases step_cases cid hstep with ⟨call, data, allowed, rfl, hnone, rfl⟩
    | ⟨call, c, hc, rfl, hanswer, rfl⟩ | ⟨call, event, c, hc, m', c', rfl, hcid, heffect, rfl⟩
  · rcases accepted_set hacc with hacc | ⟨hcid, hanswer⟩
    · exact h hacc
    · rw [startValidate_cid hcid] at hanswer
      cases hanswer
  · rcases accepted_set hacc with hacc | ⟨-, hanswer⟩
    · exact h hacc
    · cases hanswer
  · have hget : s.calls.get? call = some c := hc
    have haccepted : s.Accepted g cid ∨ c.pc.cid? g = some cid ∧ c'.answer = some .accept := by
      rw [← hcid]
      exact accepted_set hacc
    have hold : c.pc.cid? g = some cid → c.answer = some .accept → s.memory.stored cid = true :=
      fun hc' hanswer => h ⟨call, c, hc, hc', hanswer⟩
    cases heffect with
    | quiet _ _ hstored hanswer =>
        refine hstored.trans ?_
        exact haccepted.elim h fun ⟨hc', ha⟩ => hold hc' (hanswer hc' ha)
    | hit hcid' _ hcached =>
        simp only [storedFirst, hget, Option.all_some, hcid', decide_true, hcached, Bool.not_true,
          Bool.false_or] at hok
        exact hok
    | verified hverifies _ hanswer hstored =>
        refine hstored.trans ?_
        exact haccepted.elim h fun ⟨hc', ha⟩ => hold hc' (hanswer ▸ ha)
    | fails _ hanswer =>
        exact haccepted.elim h fun ⟨hc', ha⟩ => hold hc' (hanswer ha)
    | stores hstored => exact hstored

/-- **An accepted bundle is stored once every validation has returned**, if all its admits complete
before the deadline of their messages, or if the cache answers for it only when it is stored. -/
theorem accept_stored
    (h : Reaches (step g) (fun s i => s.admitsInTime cid i = true) init s
      ∨ Reaches (step g) (fun s i => s.storedFirst g cid i = true) init s)
    (hsettled : s.Settled) (hacc : s.Accepted g cid) : s.memory.stored cid = true := by
  have hnone : ¬ init.Accepted g cid := by
    rintro ⟨call, c, hc, -⟩
    cases hc
  rcases h with h | h
  · have hinv : s.InTime g cid := h.invariant (P := fun s => s.InTime g cid)
      ⟨fun hacc => absurd hacc hnone, fun hcached => by cases hcached⟩
      fun _ _ _ ht hok hst => ht.step hok hst
    rcases hinv.accepted hacc with hstored | ⟨call, c, hc, -, hanswer⟩
    · exact hstored
    · have := hsettled call c hc
      rw [hanswer] at this
      cases this
  · exact h.invariant (P := fun s => s.Accepted g cid → s.memory.stored cid = true)
      (fun hacc => absurd hacc hnone)
      (fun _ _ _ ht hok hst => stored_of_accepted_step ht hok hst) hacc

/-- A gate with the reference codecs. -/
def referenceGate : GossipGateDeps := ⟨.reference, oneVoteCriteria, tenBlocks, 4096, 4096⟩

/-- A withdrawal as a message. -/
def withdrawalMessage : Bytes := (encodeBundleMessage .reference firstWithdrawal.bytes).getD []

/-- The message comes in and verifies, and comes in again with the admit running, which then
ends. -/
def redelivered (answer : Option Unit) (again : List GossipInput) : List GossipInput :=
  [.validate 0 withdrawalMessage true, .resume 0 .parsed, .resume 0 (.evaluable (some true)),
    .resume 0 (.verified (some (.ok ∅)))] ++ again ++ [.resume 0 (.admitted answer true)]

/-- The second delivery, answered from the cache. -/
def secondDelivery : List GossipInput := [.validate 1 withdrawalMessage true, .resume 1 .parsed]

/-- With an admit that completes, the bundle is stored. -/
theorem accept_stored_redelivered : ∃ s,
    runIf (step referenceGate) (fun s i => s.admitsInTime firstWithdrawal.entry.cid i = true)
        (redelivered (some ()) secondDelivery) init = some s
      ∧ s.memory.stored firstWithdrawal.entry.cid = true := by
  have hview : (runIf (step referenceGate)
      (fun s i => s.admitsInTime firstWithdrawal.entry.cid i = true)
      (redelivered (some ()) secondDelivery) init).map
        (fun s => decide (s.Settled ∧ s.Accepted referenceGate firstWithdrawal.entry.cid))
      = some true := by decide +kernel
  obtain ⟨s, hrun, hs⟩ := Option.map_eq_some_iff.mp hview
  obtain ⟨hsettled, hacc⟩ := of_decide_eq_true hs
  exact ⟨s, hrun, accept_stored (.inl (reaches_of_runIf hrun)) hsettled hacc⟩

/-- With an admit that throws, the second delivery is accepted and nothing is ever stored. -/
theorem accept_of_failed_admit : ∃ s,
    (redelivered none secondDelivery).foldlM (step referenceGate) init = some s
      ∧ s.Settled ∧ s.Accepted referenceGate firstWithdrawal.entry.cid
      ∧ s.memory.admitted = [] := by
  have hview : ((redelivered none secondDelivery).foldlM (step referenceGate) init).map
      (fun s => decide (s.Settled ∧ s.Accepted referenceGate firstWithdrawal.entry.cid
        ∧ s.memory.admitted = [])) = some true := by decide +kernel
  obtain ⟨s, hrun, hs⟩ := Option.map_eq_some_iff.mp hview
  exact ⟨s, hrun, of_decide_eq_true hs⟩

end Gossip

end PubsubVoting
