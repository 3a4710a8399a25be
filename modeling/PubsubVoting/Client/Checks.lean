import PubsubVoting.Verify.Drain

/-!
The check state of an engine's bundles: recorded by four ways of admission, settled by the
background verifier.

* `recordChecks`, `settleCheck`, `react`: the map, and what the verifier's callbacks do to it.
* `Engine.step`: admissions and hand-overs in any order, between any steps of the verifier.
* `Owes`: what ties the map, the bundles in flight and the batches that are not handed over yet.
* `idle_settled`: when the verifier is idle and nothing is left to hand over, every check is
  settled.
-/

namespace PubsubVoting

/-! ### The map -/

/-- The deferred checks of one bundle; `nameResolved` is there if the bundle claims a name. -/
structure BundleChecks where
  chainVerified : Bool
  nameResolved : Option Bool
  deriving DecidableEq

/-- Every check settled. -/
def BundleChecks.settled (c : BundleChecks) : Bool :=
  c.chainVerified && decide (c.nameResolved ≠ some false)

/-- The check state by address. -/
abbrev Checks := JsMap Cid BundleChecks

/-- Some vote of the bundle claims a name. -/
def claimsName (bundle : VotesBundle) : Bool := bundle.votes.any (·.community.name.isSome)

/-- `#recordChecks`: whatever is there is replaced. -/
def recordChecks (checks : Checks) (e : Entry) (settled nameSettled : Bool) : Checks :=
  checks.set e.cid (if claimsName e.bundle then ⟨settled, some nameSettled⟩ else ⟨settled, none⟩)

/-- The two checks. -/
inductive CheckKey where
  | chainVerified
  | nameResolved

/-- One check of a bundle settled. -/
def BundleChecks.settle (c : BundleChecks) : CheckKey → BundleChecks
  | .chainVerified => { c with chainVerified := true }
  | .nameResolved => { c with nameResolved := some true }

/-- `#settleCheck`: nothing happens for a bundle that is gone. -/
def settleCheck (checks : Checks) (cid : Cid) (key : CheckKey) : Checks :=
  match checks.get? cid with
  | none => checks
  | some c => checks.set cid (c.settle key)

/-- What the verifier's callbacks do to the map. -/
def react (checks : Checks) : DrainEvent → Checks
  | .told _ (.gateVerified e) => settleCheck checks e.cid .chainVerified
  | .told _ (.nameResolved e) => settleCheck checks e.cid .nameResolved
  | .told _ (.evicted e _) => checks.delete e.cid
  | .told _ (.cached _ _) => checks
  | .error => checks

@[simp] lemma get?_settleCheck (checks : Checks) (cid cid' : Cid) (key : CheckKey) :
    (settleCheck checks cid key).get? cid'
      = if cid' = cid then (checks.get? cid').map (·.settle key) else checks.get? cid' := by
  rw [settleCheck]
  by_cases heq : cid' = cid
  · subst heq
    cases h : checks.get? cid' <;> simp [h]
  · cases checks.get? cid <;> simp [heq]

@[simp] lemma get?_recordChecks (checks : Checks) (e : Entry) (settled nameSettled : Bool)
    (cid : Cid) : (recordChecks checks e settled nameSettled).get? cid
      = if cid = e.cid then
          some (if claimsName e.bundle then ⟨settled, some nameSettled⟩ else ⟨settled, none⟩)
        else checks.get? cid := JsMap.get?_set _ _ _ _

/-- The schema knows no empty name, so a name that is claimed is one the verifier resolves. -/
lemma claimsName_eq {C : Codecs} (b : ValidBundle C) : claimsName b.1 = carriesName b.1 := by
  have hvotes := (votesBundleSchema_iff.mp b.2).2.1
  rw [claimsName, carriesName, Bool.eq_iff_iff, List.any_eq_true, List.any_eq_true]
  refine exists_congr fun v => and_congr_right fun hv => ?_
  have hname := (voteSchema_iff.mp (hvotes v hv)).1
  rw [carriedName]
  cases h : v.community.name with
  | none => simp
  | some name =>
      have hpos : 1 ≤ name.length := by
        have := hname name h
        simp only [nameSchema, Bool.and_eq_true, decide_eq_true_eq] at this
        exact this.1.1
      have hne : name ≠ [] := List.ne_nil_of_length_pos hpos
      simp [hne]

/-! ### The engine -/

/-- The parts of an engine that the check state depends on. -/
structure Engine where
  checks : Checks
  drain : Drain
  /-- what each running chase or restore admitted and has not handed over -/
  held : JsMap ℕ (List Cid)

/-- Admissions and hand-overs, and the steps of the verifier. -/
inductive EngineInput where
  /-- `signVote`, behind `crdt.add` -/
  | signVote (now : ℕ) (cid : Cid) (namesSettled : Bool)
  | gossipAdmit (cid : Cid)
  | chaseAdmit (loop : ℕ) (cid : Cid) (verified : Bool)
  | restoreAdmit (loop : ℕ) (cid : Cid)
  /-- `deferVerify` of a chase, or the `enqueue` of a restore -/
  | handOver (now : ℕ) (loop : ℕ)
  | prune (cids : List Cid)
  | background (i : DrainInput)

/-- The bundle an address stands for. -/
def entryAt {C : Codecs} (bundleAt : Cid → ValidBundle C) (cid : Cid) : Entry :=
  ⟨cid, (bundleAt cid).1⟩

namespace Engine

/-- An engine that never joined. -/
def init : Engine := ⟨∅, Drain.init, ∅⟩

/-- What a loop holds. -/
def heldBy (s : Engine) (loop : ℕ) : List Cid := (s.held.get? loop).getD []

/-- Some loop holds the bundle. -/
def Holds (s : Engine) (cid : Cid) : Prop := ∃ loop, cid ∈ s.heldBy loop

/-- Put a bundle into a loop's batch. -/
def hold (s : Engine) (loop : ℕ) (cid : Cid) : Engine :=
  { s with held := s.held.set loop (s.heldBy loop ++ [cid]) }

section

variable {C : Codecs} (bundleAt : Cid → ValidBundle C) (d : VerifierDeps) (graceMs : ℕ)

/-- One step; `none` where the input does not come. No callback of the verifier throws. -/
def step (s : Engine) : EngineInput → Option Engine
  | .signVote now cid namesSettled =>
    let e := entryAt bundleAt cid
    some { s with
      checks := recordChecks s.checks e false namesSettled
      drain := s.drain.enqueue now [e] }
  | .gossipAdmit cid =>
    some { s with checks := recordChecks s.checks (entryAt bundleAt cid) true true }
  | .chaseAdmit loop cid verified =>
    let s := { s with
      checks := recordChecks s.checks (entryAt bundleAt cid) verified verified }
    some (if verified then s else s.hold loop cid)
  | .restoreAdmit loop cid =>
    let s := { s with checks := recordChecks s.checks (entryAt bundleAt cid) false false }
    some (s.hold loop cid)
  | .handOver now loop =>
    some { s with
      drain := s.drain.enqueue now ((s.heldBy loop).map (entryAt bundleAt))
      held := s.held.set loop [] }
  | .prune cids => some { s with checks := cids.foldl JsMap.delete s.checks }
  | .background i =>
    if i.entries = [] ∧ s.drain.callbacksReturn i = true then
      (s.drain.step d graceMs i).map fun r =>
        { s with checks := r.2.foldl react s.checks, drain := r.1 }
    else none

end

/-- The verifier has nothing of the bundle in flight, or has not got past its gate. -/
def awaitsGate (s : Engine) (cid : Cid) : Bool :=
  s.drain.flights.live.all fun f => decide (f.entry.cid = cid → f.stage = .waiting)

/-- What the verifier has yet to do for a bundle in flight settles what is left of these checks: it
settles both while its gate is still to be announced, and its names until they are answered. -/
def settles (checks : BundleChecks) : Stage → Bool
  | .waiting => true
  | .notified => checks.chainVerified
  | .evicted => checks.settled
  | .resolved => checks.settled

/-- The verifier has nothing of the bundle in flight, or settles what is left of its checks. -/
def willSettle (s : Engine) (cid : Cid) : Bool :=
  s.drain.flights.live.all fun f =>
    decide (f.entry.cid ≠ cid) || (s.checks.get? cid).all fun c => settles c f.stage

/-- No bundle is handed to the verifier with an unsettled check while the verifier is past settling
it. -/
def undisturbed (s : Engine) : EngineInput → Bool
  | .signVote _ cid _ => s.awaitsGate cid
  | .handOver _ loop => (s.heldBy loop).all s.willSettle
  | _ => true

/-- The verifier is idle: nothing queued, no round, no retry. -/
def isIdle (s : Engine) : Bool :=
  match s.drain.phase with
  | .idle => s.drain.queue.isEmpty && !s.drain.retryArmed
  | _ => false

end Engine

/-! ### What is owed -/

section

variable {C : Codecs} {bundleAt : Cid → ValidBundle C}

/-- What ties the map to the bundles in flight and to those held by a loop. -/
structure Owes (bundleAt : Cid → ValidBundle C) (F : Flights) (checks : Checks)
    (held : Cid → Prop) : Prop where
  distinct : F.Distinct
  content : ∀ f ∈ F.live, f.entry.bundle = (bundleAt f.entry.cid).1
  named : ∀ cid, ∀ c ∈ checks.get? cid, c.nameResolved.isSome = claimsName (bundleAt cid).1
  /-- the gate that was announced is recorded, unless the bundle will be handed over again -/
  notified : ∀ f ∈ F.live, f.stage = .notified → ¬ held f.entry.cid →
    ∀ c ∈ checks.get? f.entry.cid, c.chainVerified = true
  /-- a bundle about to leave the verifier has nothing left to settle, with the same exception -/
  leaving : ∀ f ∈ F.live, f.stage = .resolved ∨ f.stage = .evicted → ¬ held f.entry.cid →
    ∀ c ∈ checks.get? f.entry.cid, c.settled = true
  /-- an unsettled check has somebody who will settle it -/
  owed : ∀ cid, ∀ c ∈ checks.get? cid, c.settled = false →
    (∃ f ∈ F.live, f.entry.cid = cid) ∨ held cid

namespace Owes

variable {F F' : Flights} {checks checks' : Checks} {held : Cid → Prop}

/-- A bundle that changes its stage while only its own check changes. -/
lemma restage {k : ℕ} {e : Entry} {stage stage' : Stage} {rest live : List Flight}
    (h : Owes bundleAt F checks held) (hold : F.live.Perm (⟨k, e, stage⟩ :: rest))
    (hnew : live.Perm (⟨k, e, stage'⟩ :: rest))
    (hother : ∀ cid ≠ e.cid, checks'.get? cid = checks.get? cid)
    (hnamed : ∀ c ∈ checks'.get? e.cid, c.nameResolved.isSome = claimsName (bundleAt e.cid).1)
    (hnotified : stage' = .notified → ¬ held e.cid →
      ∀ c ∈ checks'.get? e.cid, c.chainVerified = true)
    (hleaving : stage' = .resolved ∨ stage' = .evicted → ¬ held e.cid →
      ∀ c ∈ checks'.get? e.cid, c.settled = true) :
    Owes bundleAt { F with live } checks' held := by
  have hmem : ∀ f, f ∈ F.live ↔ f = ⟨k, e, stage⟩ ∨ f ∈ rest :=
    fun f => hold.mem_iff.trans List.mem_cons
  have hmem' : ∀ f, f ∈ live ↔ f = ⟨k, e, stage'⟩ ∨ f ∈ rest :=
    fun f => hnew.mem_iff.trans List.mem_cons
  have hne : ∀ f ∈ rest, f.entry.cid ≠ e.cid := by
    intro f hf heq
    have hnodup := (List.nodup_cons.mp (h.distinct.perm hold).cids).1
    exact hnodup (List.mem_map.mpr ⟨f, hf, heq⟩)
  refine ⟨h.distinct.restage hold hnew, fun f hf => ?_, fun cid c hc => ?_,
    fun f hf hstage hnot c hc => ?_, fun f hf hstage hnot c hc => ?_, fun cid c hc hset => ?_⟩
  · rcases (hmem' f).mp hf with rfl | hf
    · exact h.content ⟨k, e, stage⟩ ((hmem _).mpr (.inl rfl))
    · exact h.content f ((hmem f).mpr (.inr hf))
  · by_cases heq : cid = e.cid
    · subst heq
      exact hnamed c hc
    · rw [hother cid heq] at hc
      exact h.named cid c hc
  · rcases (hmem' f).mp hf with rfl | hf
    · exact hnotified hstage hnot c hc
    · rw [hother _ (hne f hf)] at hc
      exact h.notified f ((hmem f).mpr (.inr hf)) hstage hnot c hc
  · rcases (hmem' f).mp hf with rfl | hf
    · exact hleaving hstage hnot c hc
    · rw [hother _ (hne f hf)] at hc
      exact h.leaving f ((hmem f).mpr (.inr hf)) hstage hnot c hc
  · by_cases heq : cid = e.cid
    · exact .inl ⟨⟨k, e, stage'⟩, (hmem' _).mpr (.inl rfl), heq.symm⟩
    · rw [hother cid heq] at hc
      rcases h.owed cid c hc hset with ⟨f, hf, hcid⟩ | hheld
      · rcases (hmem f).mp hf with rfl | hf
        · exact absurd hcid.symm heq
        · exact .inl ⟨f, (hmem' f).mpr (.inr hf), hcid⟩
      · exact .inr hheld

/-- A bundle that leaves the verifier. -/
lemma leave {k : ℕ} {e : Entry} {stage : Stage} {rest : List Flight}
    (h : Owes bundleAt F checks held) (hold : F.live.Perm (⟨k, e, stage⟩ :: rest))
    (hstage : stage = .resolved ∨ stage = .evicted) :
    Owes bundleAt ⟨rest, F.inFlight.filter fun c => c ≠ e.cid, F.tickets⟩ checks held := by
  have hmem : ∀ f, f ∈ F.live ↔ f = ⟨k, e, stage⟩ ∨ f ∈ rest :=
    fun f => hold.mem_iff.trans List.mem_cons
  have hin : ∀ f ∈ rest, f ∈ F.live := fun f hf => (hmem f).mpr (.inr hf)
  refine ⟨h.distinct.leave hold, fun f hf => h.content f (hin f hf), h.named,
    fun f hf => h.notified f (hin f hf), fun f hf => h.leaving f (hin f hf),
    fun cid c hc hset => ?_⟩
  by_cases hheld : held cid
  · exact .inr hheld
  obtain ⟨f, hf, rfl⟩ := (h.owed cid c hc hset).resolve_right hheld
  rcases (hmem f).mp hf with rfl | hf
  · have hsettled := h.leaving _ ((hmem _).mpr (.inl rfl)) hstage hheld c hc
    rw [hset] at hsettled
    cases hsettled
  · exact .inl ⟨f, hf, rfl⟩

/-- **What the verifier does keeps the invariant**, its callbacks included. -/
theorem move {es : List DrainEvent} (h : Owes bundleAt F checks held)
    (hmove : F.Move (fun e => e.bundle = (bundleAt e.cid).1) es F') :
    Owes bundleAt F' (es.foldl react checks) held := by
  cases hmove with
  | shuffle hperm =>
      exact ⟨h.distinct.perm hperm, fun f hf => h.content f (hperm.mem_iff.mpr hf), h.named,
        fun f hf => h.notified f (hperm.mem_iff.mpr hf),
        fun f hf => h.leaving f (hperm.mem_iff.mpr hf),
        fun cid c hc hset => (h.owed cid c hc hset).imp_left
          fun ⟨f, hf, hcid⟩ => ⟨f, hperm.mem_iff.mp hf, hcid⟩⟩
  | fail => exact h
  | @issue e live he hnot hnew =>
      have hmem : ∀ f, f ∈ live ↔ f = ⟨F.tickets, e, .waiting⟩ ∨ f ∈ F.live :=
        fun f => hnew.mem_iff.trans List.mem_cons
      refine ⟨h.distinct.issue hnot hnew, fun f hf => ?_, h.named, fun f hf hstage => ?_,
        fun f hf hstage => ?_, fun cid c hc hset => ?_⟩
      · rcases (hmem f).mp hf with rfl | hf
        · exact he
        · exact h.content f hf
      · rcases (hmem f).mp hf with rfl | hf
        · cases hstage
        · exact h.notified f hf hstage
      · rcases (hmem f).mp hf with rfl | hf
        · rcases hstage with hstage | hstage <;> cases hstage
        · exact h.leaving f hf hstage
      · exact (h.owed cid c hc hset).imp_left
          fun ⟨f, hf, hcid⟩ => ⟨f, (hmem f).mpr (.inr hf), hcid⟩
  | @notify k e rest live hold hnew =>
      refine h.restage hold hnew (fun cid hne => ?_) (fun c hc => ?_) (fun _ _ c hc => ?_)
        (fun hstage => by rcases hstage with hstage | hstage <;> cases hstage)
      · simp [react, hne]
      · simp only [List.foldl_cons, List.foldl_nil, react, get?_settleCheck, if_true,
          Option.mem_def, Option.map_eq_some_iff] at hc
        obtain ⟨c', hc', rfl⟩ := hc
        exact h.named e.cid c' hc'
      · simp only [List.foldl_cons, List.foldl_nil, react, get?_settleCheck, if_true,
          Option.mem_def, Option.map_eq_some_iff] at hc
        obtain ⟨c', hc', rfl⟩ := hc
        rfl
  | reject _ hold hnew | evict _ hold hnew =>
      refine h.restage hold hnew (fun cid hne => ?_) (fun c hc => ?_)
        (fun hstage => by cases hstage)
        (fun _ _ c hc => ?_)
      · simp [react, hne]
      · simp [react] at hc
      · simp [react] at hc
  | @resolve k e rest live hold hnew =>
      have hin : (⟨k, e, .notified⟩ : Flight) ∈ F.live := hold.mem_iff.mpr List.mem_cons_self
      have hclaims : claimsName (bundleAt e.cid).1 = carriesName e.bundle := by
        rw [claimsName_eq, h.content _ hin]
      cases hnames : carriesName e.bundle with
      | true =>
          simp only [if_true, List.foldl_cons, List.foldl_nil, react]
          refine h.restage hold hnew (fun cid hne => ?_) (fun c hc => ?_)
            (fun hstage => by cases hstage) (fun _ hnot c hc => ?_)
          · simp [hne]
          · simp only [get?_settleCheck, if_true, Option.mem_def, Option.map_eq_some_iff] at hc
            obtain ⟨c', hc', rfl⟩ := hc
            rw [hclaims, hnames]
            rfl
          · simp only [get?_settleCheck, if_true, Option.mem_def, Option.map_eq_some_iff] at hc
            obtain ⟨c', hc', rfl⟩ := hc
            have hchain := h.notified _ hin rfl hnot c' hc'
            simp [BundleChecks.settled, BundleChecks.settle, hchain]
      | false =>
          simp only [Bool.false_eq_true, if_false, List.foldl_nil]
          refine h.restage hold hnew (fun _ _ => rfl) (fun c hc => h.named _ c hc)
            (fun hstage => by cases hstage) (fun _ hnot c hc => ?_)
          have hchain := h.notified _ hin rfl hnot c hc
          have hname := h.named e.cid c hc
          rw [hclaims, hnames] at hname
          have hnone : c.nameResolved = none := by simpa using hname
          simp [BundleChecks.settled, hchain, hnone]
  | confirm _ hold => exact h.leave hold (.inl rfl)
  | settle hold => exact h.leave hold (.inr rfl)

/-- Any number of moves. -/
lemma moves {es : List DrainEvent} (h : Owes bundleAt F checks held)
    (hmoves : Moves (Flights.Move fun e => e.bundle = (bundleAt e.cid).1) F es F') :
    Owes bundleAt F' (es.foldl react checks) held := by
  have hstart : Owes bundleAt F (([] : List DrainEvent).foldl react checks) held := h
  have hall := hmoves.invariant (P := fun F es => Owes bundleAt F (es.foldl react checks) held)
    hstart ?_
  · exact hall
  · intro F es F' es' hF hmove
    rw [List.foldl_append]
    exact hF.move hmove

/-- Recording a check that is settled, or for a bundle that will be handed over, or one in flight
whose gate is still to be announced. -/
lemma record (h : Owes bundleAt F checks held) {cid : Cid} {settled nameSettled : Bool}
    (hcases : (settled && nameSettled) = true ∨ held cid ∨
      (∃ f ∈ F.live, f.entry.cid = cid) ∧ ∀ f ∈ F.live, f.entry.cid = cid → f.stage = .waiting) :
    Owes bundleAt F (recordChecks checks (entryAt bundleAt cid) settled nameSettled) held := by
  have hsettled : (settled && nameSettled) = true → ∀ c : BundleChecks,
      c = (if claimsName (bundleAt cid).1 then ⟨settled, some nameSettled⟩ else ⟨settled, none⟩) →
      c.chainVerified = true ∧ c.settled = true := by
    rintro hboth c rfl
    obtain ⟨rfl, rfl⟩ := Bool.and_eq_true_iff.mp hboth
    split_ifs <;> exact ⟨rfl, rfl⟩
  refine ⟨h.distinct, h.content, fun cid' c hc => ?_, fun f hf hstage hnot c hc => ?_,
    fun f hf hstage hnot c hc => ?_, fun cid' c hc hset => ?_⟩
  · simp only [get?_recordChecks, entryAt] at hc
    split_ifs at hc with hcid hclaims
    · subst hcid
      obtain rfl := Option.some.inj hc
      simp [hclaims]
    · subst hcid
      obtain rfl := Option.some.inj hc
      simpa using hclaims
    · exact h.named cid' c hc
  · by_cases hcid : f.entry.cid = cid
    · rcases hcases with hboth | hheld | ⟨-, hwaits⟩
      · simp only [get?_recordChecks, entryAt, hcid, if_true] at hc
        exact (hsettled hboth c (Option.some.inj hc).symm).1
      · exact absurd (hcid ▸ hheld) hnot
      · rw [hwaits f hf hcid] at hstage
        cases hstage
    · simp only [get?_recordChecks, entryAt, hcid, if_false] at hc
      exact h.notified f hf hstage hnot c hc
  · by_cases hcid : f.entry.cid = cid
    · rcases hcases with hboth | hheld | ⟨-, hwaits⟩
      · simp only [get?_recordChecks, entryAt, hcid, if_true] at hc
        exact (hsettled hboth c (Option.some.inj hc).symm).2
      · exact absurd (hcid ▸ hheld) hnot
      · rw [hwaits f hf hcid] at hstage
        rcases hstage with hstage | hstage <;> cases hstage
    · simp only [get?_recordChecks, entryAt, hcid, if_false] at hc
      exact h.leaving f hf hstage hnot c hc
  · by_cases hcid : cid' = cid
    · subst hcid
      rcases hcases with hboth | hheld | ⟨hlive, -⟩
      · simp only [get?_recordChecks, entryAt, if_true] at hc
        have := (hsettled hboth c (Option.some.inj hc).symm).2
        rw [hset] at this
        cases this
      · exact .inr hheld
      · exact .inl hlive
    · simp only [get?_recordChecks, entryAt, hcid, if_false] at hc
      exact h.owed cid' c hc hset

/-- Fewer checks. -/
lemma delete (h : Owes bundleAt F checks held) (cid : Cid) :
    Owes bundleAt F (checks.delete cid) held := by
  have hsub : ∀ cid', ∀ c ∈ (checks.delete cid).get? cid', c ∈ checks.get? cid' := by
    intro cid' c hc
    rw [JsMap.get?_delete] at hc
    split_ifs at hc
    · cases hc
    · exact hc
  exact ⟨h.distinct, h.content, fun cid' c hc => h.named cid' c (hsub cid' c hc),
    fun f hf hstage hnot c hc => h.notified f hf hstage hnot c (hsub _ c hc),
    fun f hf hstage hnot c hc => h.leaving f hf hstage hnot c (hsub _ c hc),
    fun cid' c hc => h.owed cid' c (hsub cid' c hc)⟩

/-- What was held is held by another loop, or in flight where what is left of its checks will be
settled. -/
lemma mono {held' : Cid → Prop} (h : Owes bundleAt F checks held)
    (hheld : ∀ cid, held cid → held' cid ∨ (∃ f ∈ F.live, f.entry.cid = cid) ∧
      ∀ f ∈ F.live, f.entry.cid = cid → ∀ c ∈ checks.get? cid, Engine.settles c f.stage = true) :
    Owes bundleAt F checks held' := by
  refine ⟨h.distinct, h.content, h.named, fun f hf hstage hnot c hc => ?_,
    fun f hf hstage hnot c hc => ?_, fun cid c hc hset => ?_⟩
  · by_cases hwas : held f.entry.cid
    · have hsettles := ((hheld _ hwas).resolve_left hnot).2 f hf rfl c hc
      rwa [hstage] at hsettles
    · exact h.notified f hf hstage hwas c hc
  · by_cases hwas : held f.entry.cid
    · have hsettles := ((hheld _ hwas).resolve_left hnot).2 f hf rfl c hc
      rcases hstage with hstage | hstage
      · rwa [hstage] at hsettles
      · rwa [hstage] at hsettles
    · exact h.leaving f hf hstage hwas c hc
  · rcases h.owed cid c hc hset with hlive | hwas
    · exact .inl hlive
    · exact (hheld cid hwas).symm.imp_left And.left

end Owes

/-! ### Whole runs -/

namespace Engine

variable {d : VerifierDeps} {graceMs : ℕ} {s s' : Engine}

/-- The invariant of an engine. -/
def Inv (bundleAt : Cid → ValidBundle C) (s : Engine) : Prop :=
  Owes bundleAt s.drain.flights s.checks s.Holds

lemma inv_init : init.Inv bundleAt := by
  refine ⟨⟨fun c => ?_, List.nodup_nil, List.nodup_nil, ?_⟩, ?_, ?_, ?_, ?_, ?_⟩
  all_goals simp [init, Drain.init, Drain.flights, DrainPhase.flights, DrainPhase.items]

/-- The verifier with bundles queued by their addresses. -/
lemma owes_enqueue {checks : Checks} {held : Cid → Prop} {drain : Drain}
    (h : Owes bundleAt drain.flights checks held) (now : ℕ) (cids : List Cid) :
    Owes bundleAt (drain.enqueue now (cids.map (entryAt bundleAt))).flights checks held
      ∧ ∀ cid ∈ cids,
        ∃ f ∈ (drain.enqueue now (cids.map (entryAt bundleAt))).flights.live,
          f.entry.cid = cid := by
  have hknown : ∀ e ∈ cids.map (entryAt bundleAt), e.bundle = (bundleAt e.cid).1 := by
    intro e he
    obtain ⟨cid, -, rfl⟩ := List.mem_map.mp he
    rfl
  have hmoves := Drain.does_enqueue (Q := fun e => e.bundle = (bundleAt e.cid).1) now drain hknown
  rw [Drain.Does, ← Drain.flights_enqueue] at hmoves
  have howes := h.moves hmoves
  refine ⟨howes, fun cid hcid => (howes.distinct.inFlight cid).mp ?_⟩
  rw [Drain.mem_inFlight_enqueue]
  exact .inr ⟨entryAt bundleAt cid, List.mem_map.mpr ⟨cid, hcid, rfl⟩, rfl⟩

lemma holds_hold {loop : ℕ} {cid cid' : Cid} :
    (s.hold loop cid).Holds cid' ↔ s.Holds cid' ∨ cid' = cid := by
  constructor
  · rintro ⟨loop', h⟩
    simp only [heldBy, hold, JsMap.get?_set] at h
    split_ifs at h with hloop
    · rcases List.mem_append.mp h with h | h
      · exact .inl ⟨loop, h⟩
      · exact .inr (List.mem_singleton.mp h)
    · exact .inl ⟨loop', h⟩
  · rintro (⟨loop', h⟩ | rfl)
    · refine ⟨loop', ?_⟩
      simp only [heldBy, hold, JsMap.get?_set]
      split_ifs with hloop
      · subst hloop
        exact List.mem_append_left _ h
      · exact h
    · exact ⟨loop, by simp [heldBy, hold]⟩

/-- What `undisturbed` says of a bundle. -/
lemma awaitsGate_iff {cid : Cid} : s.awaitsGate cid = true ↔
    ∀ f ∈ s.drain.flights.live, f.entry.cid = cid → f.stage = .waiting := by
  simp [awaitsGate, imp_iff_not_or]

lemma willSettle_iff {cid : Cid} : s.willSettle cid = true ↔
    ∀ f ∈ s.drain.flights.live, f.entry.cid = cid → ∀ c ∈ s.checks.get? cid,
      settles c f.stage = true := by
  simp [willSettle, imp_iff_not_or, Option.all_eq_true]

/-- An admission that a loop holds. -/
lemma Inv.admitHeld (h : s.Inv bundleAt) (cid : Cid) (loop : ℕ) :
    (({ s with checks := recordChecks s.checks (entryAt bundleAt cid) false false } : Engine).hold
      loop cid).Inv bundleAt := by
  have hheld : Owes bundleAt s.drain.flights s.checks (s.hold loop cid).Holds :=
    h.mono fun cid' h => .inl (holds_hold.mpr (.inl h))
  exact hheld.record (.inr (.inl (holds_hold.mpr (.inr rfl))))

/-- Nothing is in flight in an idle verifier. -/
lemma live_of_isIdle (h : s.isIdle = true) : s.drain.flights.live = [] := by
  rw [isIdle] at h
  cases hphase : s.drain.phase with
  | idle =>
      simp only [hphase, Bool.and_eq_true, List.isEmpty_iff] at h
      simp [Drain.flights, hphase, h.1, DrainPhase.flights, DrainPhase.items]
  | _ => simp [hphase] at h

/-- **Every step that does not disturb keeps the invariant.** -/
theorem Inv.step {i : EngineInput} (h : s.Inv bundleAt) (hok : s.undisturbed i = true)
    (hstep : step bundleAt d graceMs s i = some s') : s'.Inv bundleAt := by
  cases i with
  | signVote now cid namesSettled =>
      obtain rfl := Option.some.inj hstep
      obtain ⟨howes, hlive⟩ := owes_enqueue h now [cid]
      refine Owes.record howes (.inr (.inr ⟨hlive cid List.mem_cons_self, fun f hf hcid => ?_⟩))
      rcases Drain.mem_live_enqueue _ _ _ f hf with hf | hf
      · exact awaitsGate_iff.mp hok f hf hcid
      · exact hf
  | gossipAdmit cid =>
      obtain rfl := Option.some.inj hstep
      exact Owes.record h (.inl rfl)
  | chaseAdmit loop cid verified =>
      obtain rfl := Option.some.inj hstep
      cases verified with
      | true => exact Owes.record h (.inl rfl)
      | false => exact h.admitHeld cid loop
  | restoreAdmit loop cid =>
      obtain rfl := Option.some.inj hstep
      exact h.admitHeld cid loop
  | handOver now loop =>
      obtain rfl := Option.some.inj hstep
      obtain ⟨howes, hlive⟩ := owes_enqueue h now (s.heldBy loop)
      refine howes.mono fun cid ⟨loop', hcid⟩ => ?_
      by_cases hloop : loop' = loop
      · refine .inr ⟨hlive cid (hloop ▸ hcid), fun f hf hfcid c hc => ?_⟩
        have hwill := List.all_eq_true.mp hok cid (hloop ▸ hcid)
        rcases Drain.mem_live_enqueue _ _ _ f hf with hf | hf
        · exact willSettle_iff.mp hwill f hf hfcid c hc
        · rw [hf]
          rfl
      · refine .inl ⟨loop', ?_⟩
        simpa [heldBy, hloop] using hcid
  | prune cids =>
      obtain rfl := Option.some.inj hstep
      have hdelete : ∀ (cids : List Cid) (checks : Checks),
          Owes bundleAt s.drain.flights checks s.Holds →
          Owes bundleAt s.drain.flights (cids.foldl JsMap.delete checks) s.Holds := by
        intro cids
        induction cids with
        | nil => exact fun checks hchecks => hchecks
        | cons cid cids ih => exact fun checks hchecks => ih _ (hchecks.delete cid)
      exact hdelete cids s.checks h
  | background i =>
      simp only [Engine.step] at hstep
      split_ifs at hstep with hi
      obtain ⟨⟨drain, es⟩, hmach, rfl⟩ := Option.map_eq_some_iff.mp hstep
      have hmoves := Drain.step_moves (Q := fun e => e.bundle = (bundleAt e.cid).1)
        (by simp [hi.1]) hi.2 hmach
      exact h.moves hmoves

/-- **Where no bundle with an unsettled check is handed to a verifier past settling it, an idle
verifier leaves a check unsettled only** if a loop is still to hand its bundle over. -/
theorem idle_settled
    (h : Reaches (step bundleAt d graceMs) (fun s i => s.undisturbed i = true) init s)
    (hidle : s.isIdle = true) :
    ∀ cid, ¬ s.Holds cid → ∀ c ∈ s.checks.get? cid, c.settled = true := by
  have hinv : s.Inv bundleAt :=
    h.invariant (P := Inv bundleAt) inv_init fun t i t' ht hok hst => ht.step hok hst
  intro cid hnot c hc
  by_contra hset
  rcases hinv.owed cid c hc (by simpa using hset) with ⟨f, hf, -⟩ | hholds
  · rw [live_of_isIdle hidle] at hf
    exact absurd hf List.not_mem_nil
  · exact hnot hholds

/-- A ballot with one name. -/
def namedBallot : VotesBundle :=
  { twoKeysBallot with votes := [⟨⟨some (JsString.ofString "a.b"), JsString.ofString "11"⟩, 1⟩] }

/-- Its address. -/
def namedCid : Cid := (bundleCid .reference namedBallot).getD []

/-- What its address stands for. -/
def namedBundle (_ : Cid) : ValidBundle .reference := ⟨namedBallot, by decide +kernel⟩

/-- The ballot is signed, and the verifier gets it through; `meanwhile` comes while it reads the
name. -/
def signedRun (meanwhile : List EngineInput) : List EngineInput :=
  [.signVote 0 namedCid false, .background (.gates (some fun _ => Drain.admitted)),
    .background (.item 0 false)] ++ meanwhile
    ++ [.background (.names (.resolves ∅) false), .background .confirm, .background (.item 0 false),
      .background .next]

/-- With nothing recorded meanwhile, both checks of the ballot are settled at the end. -/
theorem idle_settled_signed : ∃ s,
    runIf (step namedBundle openDeps 0) (fun s i => s.undisturbed i = true) (signedRun []) init
        = some s
      ∧ s.isIdle = true ∧ s.checks.get? namedCid = some ⟨true, some true⟩
      ∧ ∀ cid, ¬ s.Holds cid → ∀ c ∈ s.checks.get? cid, c.settled = true := by
  have hview : (runIf (step namedBundle openDeps 0) (fun s i => s.undisturbed i = true)
      (signedRun []) init).map (fun s => (s.isIdle, s.checks.get? namedCid))
      = some (true, some ⟨true, some true⟩) := by decide +kernel
  obtain ⟨s, hrun, heq⟩ := Option.map_eq_some_iff.mp hview
  obtain ⟨hidle, hchecks⟩ := Prod.mk.inj heq
  exact ⟨s, hrun, hidle, hchecks, idle_settled (reaches_of_runIf hrun) hidle⟩

/-- The same ballot signed again while its name is read: the verifier is idle, no loop holds
anything, and the chain check is unsettled. -/
theorem resign_strands : ∃ s,
    (signedRun [.signVote 1 namedCid false]).foldlM (step namedBundle openDeps 0) init = some s
      ∧ s.isIdle = true ∧ s.held.entries = []
      ∧ s.checks.get? namedCid = some ⟨false, some true⟩ := by
  have hview : ((signedRun [.signVote 1 namedCid false]).foldlM (step namedBundle openDeps 0)
      init).map (fun s => (s.isIdle, s.held.entries.isEmpty, s.checks.get? namedCid))
      = some (true, true, some ⟨false, some true⟩) := by decide +kernel
  obtain ⟨s, hrun, heq⟩ := Option.map_eq_some_iff.mp hview
  obtain ⟨hidle, heq⟩ := Prod.mk.inj heq
  obtain ⟨hheld, hchecks⟩ := Prod.mk.inj heq
  exact ⟨s, hrun, hidle, List.isEmpty_iff.mp hheld, hchecks⟩

end Engine

end

end PubsubVoting
