import PubsubVoting.Crdt.Crdt
import PubsubVoting.Verify.Bundle

/-!
The background verifier: the gate reads and the name resolutions of provisionally admitted bundles,
in rounds over everything queued.

* `gateStage`, `afterGate`, `nameStage`: the stages of a round.
* `enqueue`, `round`, `drain`: the queue over any number of rounds, over a chain and a name registry
  that do not move.
* `Shadowed`: an earlier vote of the bundle carries the same name with the key it resolves to.
* `drain_agrees_iff`: when the background verifier agrees with the inline one.
-/

namespace PubsubVoting

/-! ### The stages of a round -/

/-- A queued bundle; the flags survive a retry so that no stage runs twice. -/
structure QueueItem where
  entry : Entry
  gateDone : Bool
  /-- `onGateVerified` fired -/
  gateNotified : Bool
  resolvedNames : ResolvedNames
  gate : Option GateResult
  queuedAt : ℕ

/-- A bundle as it is enqueued. -/
def QueueItem.fresh (now : ℕ) (e : Entry) : QueueItem := ⟨e, false, false, ∅, none, now⟩

/-- What a batch collapses wallets by. -/
def walletKey (wallet : RuleWallet) : JsString × ℕ :=
  (wallet.address.toLowerCase, wallet.sampleBlock)

section

variable (d : VerifierDeps)

/-- The wallet an item is scored for. -/
def QueueItem.wallet (item : QueueItem) : RuleWallet := ruleWallet d.bucketMath item.entry.bundle

/-- One leaf asked about all the wallets of a batch. -/
def batchedAnswers (leaf : ResolvedGateLeaf) (wallets : List RuleWallet) : List RuleResult :=
  match leaf.rule.evaluateMany with
  | some evaluateMany => evaluateMany wallets
  | none => wallets.map leaf.rule.evaluate

/-- The answer of a leaf about one wallet of a batch: each distinct question is asked once, about
all of them. -/
def batchAnswer (wallets : List RuleWallet) (wallet leaf : ℕ) : Option RuleResult := do
  let questions := dedupeLeaves d.leaves
  let byQuestion := questions.representatives.map (batchedAnswers · wallets)
  let question ← (questions.ofLeaf[leaf]?).join
  let answers ← byQuestion[question]?
  answers[wallet]?

/-- The gate stage of a batch: the answers about each distinct wallet, folded item by item. -/
def gateStage (items : List QueueItem) : Option (List QueueItem) :=
  let pending := items.filter fun item => !item.gateDone
  let wallets := dedupe walletKey (pending.map (·.wallet d))
  items.mapM fun item =>
    if item.gateDone then some item
    else do
      let wallet ← wallets.position.get? (walletKey (item.wallet d))
      let gate ← evaluateGate (batchAnswer d wallets.kept wallet) true false d.criteria.gate
      return { item with gate := some gate, gateDone := true }

/-- Where an item goes from the gate stage. -/
inductive GateFlow where
  | retry
  | reject (verdict : VerifyFail)
  | notYet
  | ignore (verdict : VerifyFail)
  | pass

/-- What the loop of a round does with an item before its names: a refusal the gate blames on the
sender is final, any other one is looked at again until the grace window closes. -/
def afterGate (graceMs now : ℕ) (item : QueueItem) : GateFlow :=
  if !item.gateDone then .retry
  else
    match item.gate with
    | none => .pass
    | some gate =>
      if gate.satisfied = some true then .pass
      else if gatePenalize gate then
        .reject ⟨.reject, "not admitted: " ++ gateReason gate, some (ruleFailures d.leaves gate)⟩
      else if now < item.queuedAt + graceMs then .notYet
      else .ignore ⟨.ignore, "not admitted: " ++ gateReason gate
        ++ " (still true after the grace window)", some (ruleFailures d.leaves gate)⟩

/-- The resolutions of a round, shared by its items. -/
abbrev Resolutions := JsMap JsString (Option JsString)

/-- `item.resolvedNames[name]` is truthy. -/
def isResolved (resolved : ResolvedNames) (name : JsString) : Bool :=
  (resolved.get? name).any fun publicKey => !publicKey.isEmpty

/-- The name checks of one item. A name the item resolved before is not looked at again. -/
def nameStage (resolutions : Resolutions) (resolved : ResolvedNames) :
    List Vote → Resolutions × ResolvedNames × VerifyResult
  | [] => (resolutions, resolved, .ok ())
  | v :: votes =>
    match carriedName v with
    | none => nameStage resolutions resolved votes
    | some name =>
      if isResolved resolved name then nameStage resolutions resolved votes
      else
        match d.nameResolvers.find? (·.canResolve name) with
        | none => (resolutions, resolved, .error (noResolver name))
        | some resolver =>
          let resolution := (resolutions.get? name).getD (resolver.resolve name)
          let resolutions := resolutions.set name resolution
          match resolution with
          | none => (resolutions, resolved, .error (doesNotResolve name))
          | some record =>
            if record ≠ v.community.publicKey then
              (resolutions, resolved,
                .error (resolvesElsewhere name record v.community.publicKey))
            else nameStage resolutions (resolved.set name record) votes

end

/-- Some vote of the bundle carries a name. -/
def carriesName (bundle : VotesBundle) : Bool := bundle.votes.any fun v => (carriedName v).isSome

/-! ### Rounds -/

/-- What the verifier tells the outside. -/
inductive BackgroundEvent where
  | gateVerified (e : Entry)
  | nameResolved (e : Entry)
  | evicted (e : Entry) (verdict : VerifyFail)
  | cached (e : Entry) (verdict : BundleVerdict)

/-- The queue, the addresses queued or in a round, and what was told so far. -/
structure Background where
  queue : List QueueItem
  inFlight : List Cid
  log : List BackgroundEvent

/-- Nothing queued. -/
def Background.empty : Background := ⟨[], [], []⟩

/-- Queue one bundle unless its address is queued or in a round. -/
def Background.push (now : ℕ) (s : Background) (e : Entry) : Background :=
  if s.inFlight.contains e.cid then s
  else { s with queue := s.queue ++ [.fresh now e], inFlight := e.cid :: s.inFlight }

/-- `enqueue` -/
def enqueue (now : ℕ) (s : Background) (entries : List Entry) : Background :=
  entries.foldl (Background.push now) s

/-- The locals of a round beside the state. -/
structure RoundState where
  background : Background
  resolutions : Resolutions
  requeue : List QueueItem
  notYet : List QueueItem

/-- Tell the outside. -/
def RoundState.tell (s : RoundState) (events : List BackgroundEvent) : RoundState :=
  { s with background := { s.background with log := s.background.log ++ events } }

/-- `settle` -/
def RoundState.settle (s : RoundState) (e : Entry) : RoundState :=
  { s with background := { s.background with inFlight := s.background.inFlight.erase e.cid } }

section

variable (d : VerifierDeps) (graceMs : ℕ)

/-- The names of an item the gate admits, and what follows from them. -/
def roundNames (s : RoundState) (item : QueueItem) : RoundState :=
  match nameStage d s.resolutions item.resolvedNames item.entry.bundle.votes with
  | (resolutions, _, .error verdict) =>
    ({ s with resolutions }.tell [.evicted item.entry verdict]).settle item.entry
  | (resolutions, resolvedNames, .ok ()) =>
    (({ s with resolutions }.tell
      (if carriesName item.entry.bundle then [.nameResolved item.entry] else [])).tell
        [.cached item.entry (.ok resolvedNames)]).settle item.entry

/-- The loop body of a round. -/
def roundItem (now : ℕ) (s : RoundState) (item : QueueItem) : RoundState :=
  match afterGate d graceMs now item with
  | .retry => { s with requeue := s.requeue ++ [item] }
  | .reject verdict =>
    (s.tell [.cached item.entry (.error verdict), .evicted item.entry verdict]).settle item.entry
  | .notYet => { s with notYet := s.notYet ++ [{ item with gateDone := false }] }
  | .ignore verdict => (s.tell [.evicted item.entry verdict]).settle item.entry
  | .pass =>
    roundNames d (s.tell (if item.gateNotified then [] else [.gateVerified item.entry])) item

/-- One round over everything queued. -/
def round (now : ℕ) (s : Background) : Background :=
  let batch := (gateStage d s.queue).getD s.queue
  let r := batch.foldl (roundItem d graceMs now) ⟨{ s with queue := [] }, ∅, [], []⟩
  { r.background with queue := r.background.queue ++ r.requeue ++ r.notYet }

/-- What is enqueued before each round, with the time of the call, and the time of each round. -/
structure Schedule where
  arrivals : ℕ → List (ℕ × List Entry)
  clock : ℕ → ℕ

/-- The calls of `enqueue` before a round. -/
def arrive (calls : List (ℕ × List Entry)) (s : Background) : Background :=
  calls.foldl (fun s call => enqueue call.1 s call.2) s

/-- The verifier after `n` rounds. -/
def drain (plan : Schedule) : ℕ → Background
  | 0 => .empty
  | n + 1 => round d graceMs (plan.clock n) (arrive (plan.arrivals n) (drain plan n))

/-- The bundle is in the queue when some round starts. -/
def Enqueued (plan : Schedule) (e : Entry) : Prop :=
  ∃ n, ∃ item ∈ (arrive (plan.arrivals n) (drain d graceMs plan n)).queue, item.entry = e

/-- After some number of rounds the bundle's valid verdict is cached, and its names are announced if
it carries any. -/
def SettlesVerified (plan : Schedule) (e : Entry) : Prop :=
  ∃ n, (∃ names, .cached e (.ok names) ∈ (drain d graceMs plan n).log)
    ∧ (carriesName e.bundle = true → .nameResolved e ∈ (drain d graceMs plan n).log)

end

/-! ### What a stage finds out -/

section

variable {C : Codecs} {d : VerifierDeps}

lemma evaluate_eq_of_walletKey (rule : BoundRule) {a b : RuleWallet}
    (h : walletKey a = walletKey b) : rule.evaluate a = rule.evaluate b := by
  have hlower : a.lower = b.lower := by
    obtain ⟨address, block⟩ := a
    obtain ⟨haddress, hblock⟩ := Prod.mk.inj h
    simp only [RuleWallet.lower, haddress]
    rw [← hblock]
  rw [← rule.evaluate_lower a, hlower, rule.evaluate_lower]

lemma batchedAnswers_eq (leaf : ResolvedGateLeaf) (wallets : List RuleWallet) :
    batchedAnswers leaf wallets = wallets.map leaf.rule.evaluate := by
  rw [batchedAnswers]
  cases h : leaf.rule.evaluateMany with
  | none => rfl
  | some evaluateMany => exact leaf.rule.evaluateMany_eq evaluateMany h wallets

/-- What a batch answers about a wallet in it is what the leaf answers about any wallet with the
same key. -/
lemma batchAnswer_eq (h : d.Resolved C) {wallets : List RuleWallet} {i : ℕ}
    {asked wallet : RuleWallet} (hi : wallets[i]? = some asked)
    (hkey : walletKey asked = walletKey wallet) {leaf : ℕ}
    (hlt : leaf < (gateLeaves d.criteria.gate).length) :
    batchAnswer d wallets i leaf = some ((scoreLeaf d wallet leaf).getD (.success 0)) := by
  rw [← h.length] at hlt
  obtain ⟨q, representative, hq, hrep, hsame, hin⟩ :=
    get?_dedupe ResolvedGateLeaf.key (List.getElem_mem hlt)
  have hrule := h.rule_eq hin (List.getElem_mem hlt) hsame
  have hanswer := evaluate_eq_of_walletKey representative.rule hkey
  simp only [batchAnswer, dedupeLeaves, List.getElem?_map, List.getElem?_eq_getElem hlt,
    Option.map_some, Option.join_some, hq, Option.bind_eq_bind, Option.bind_some, hrep,
    batchedAnswers_eq, hi, hanswer, scoreLeaf, Option.getD_some]
  rw [hrule]

/-- An item behind the gate stage. -/
def Gated (d : VerifierDeps) (item item' : QueueItem) : Prop :=
  ∃ gate : GateResult, gate.satisfied = some (decide (gateAdmits d item.entry.bundle))
    ∧ item' = { item with gate := some gate, gateDone := true }

/-- **The gate stage gives every item what the item's own wallet would get alone**: neither the
collapsed wallets nor the collapsed questions are visible. -/
theorem gateStage_gated (h : d.Resolved C) {items : List QueueItem}
    (hpending : ∀ item ∈ items, item.gateDone = false) :
    ∃ gated, gateStage d items = some gated ∧ List.Forall₂ (Gated d) items gated := by
  refine List.exists_mapM_of_forall fun item hitem => ?_
  have hmem : item.wallet d ∈ (items.filter fun item => !item.gateDone).map (·.wallet d) :=
    List.mem_map.mpr ⟨item, List.mem_filter.mpr ⟨hitem, by simp [hpending item hitem]⟩, rfl⟩
  obtain ⟨i, wallet, hi, hwallet, hkey, -⟩ := get?_dedupe walletKey hmem
  obtain ⟨gate, hgate, hs⟩ := evaluateGate_satisfied false
    (fun leaf hlt => batchAnswer_eq h hwallet hkey hlt) true
  refine ⟨{ item with gate := some gate, gateDone := true }, ?_, gate, ?_, rfl⟩
  · simp [hpending item hitem, hi, hgate]
  · exact hs.trans (congrArg some Bool.decide_eq_true.symm)

/-! ### Names -/

/-- An earlier vote carries the same name with the key the name resolves to, so that the name counts
as resolved when this vote's turn comes. -/
def Shadowed (resolvers : List NameResolver) (earlier : List Vote) (v : Vote) : Prop :=
  ∃ u ∈ earlier, u.community.publicKey ≠ [] ∧ ∃ name ∈ carriedName u, carriedName v = some name
    ∧ resolveName resolvers name = some u.community.publicKey

/-- Every vote's name claim holds or is shadowed. -/
def NamesPass (resolvers : List NameResolver) (votes : List Vote) : Prop :=
  ∀ earlier v later, votes = earlier ++ v :: later →
    NameClaim resolvers v ∨ Shadowed resolvers earlier v

/-- The same where some names are resolved beforehand. -/
def NamesPassFrom (resolvers : List NameResolver) (resolved : ResolvedNames) (votes : List Vote) :
    Prop :=
  ∀ earlier v later, votes = earlier ++ v :: later →
    NameClaim resolvers v ∨ (∃ name ∈ carriedName v, isResolved resolved name = true)
      ∨ Shadowed resolvers earlier v

/-- The shared resolutions are what the resolvers say. -/
def ResolutionsSound (d : VerifierDeps) (resolutions : Resolutions) : Prop :=
  ∀ name record, resolutions.get? name = some record →
    ∀ resolver, d.nameResolvers.find? (·.canResolve name) = some resolver →
      record = resolver.resolve name

lemma ResolutionsSound.set {resolutions : Resolutions} (h : ResolutionsSound d resolutions)
    {name : JsString} {resolver : NameResolver}
    (hfind : d.nameResolvers.find? (·.canResolve name) = some resolver) :
    (resolutions.get? name).getD (resolver.resolve name) = resolver.resolve name
      ∧ ResolutionsSound d (resolutions.set name (resolver.resolve name)) := by
  constructor
  · cases hget : resolutions.get? name with
    | none => rfl
    | some record => exact h name record hget resolver hfind
  · intro name' record hget resolver' hfind'
    rw [JsMap.get?_set] at hget
    split_ifs at hget with hname
    · subst hname
      rw [← Option.some.inj hget, ← Option.some.inj (hfind.symm.trans hfind')]
    · exact h name' record hget resolver' hfind'

/-- What the first vote does to the rest: its name counts as resolved from then on. -/
lemma namesPassFrom_cons {resolvers : List NameResolver} {resolved resolved' : ResolvedNames}
    {v : Vote} {votes : List Vote}
    (hv : NameClaim resolvers v ∨ ∃ name ∈ carriedName v, isResolved resolved name = true)
    (hstep : ∀ name, isResolved resolved' name = true ↔ isResolved resolved name = true
      ∨ (carriedName v = some name ∧ v.community.publicKey ≠ []
        ∧ resolveName resolvers name = some v.community.publicKey)) :
    NamesPassFrom resolvers resolved (v :: votes) ↔ NamesPassFrom resolvers resolved' votes := by
  constructor
  · intro h earlier w later hsplit
    subst hsplit
    rcases h (v :: earlier) w later rfl with hclaim | ⟨name, hname, hres⟩ | hshadow
    · exact .inl hclaim
    · exact .inr (.inl ⟨name, hname, (hstep name).mpr (.inl hres)⟩)
    · obtain ⟨u, hu, hne, name, hun, hwn, hres⟩ := hshadow
      rcases List.mem_cons.mp hu with rfl | hu
      · exact .inr (.inl ⟨name, hwn, (hstep name).mpr (.inr ⟨hun, hne, hres⟩)⟩)
      · exact .inr (.inr ⟨u, hu, hne, name, hun, hwn, hres⟩)
  · intro h earlier w later hsplit
    cases earlier with
    | nil =>
        obtain ⟨rfl, -⟩ := List.cons.inj hsplit
        rcases hv with hv | hv
        · exact .inl hv
        · exact .inr (.inl hv)
    | cons u earlier =>
        obtain ⟨rfl, rfl⟩ := List.cons.inj hsplit
        rcases h earlier w later rfl with hclaim | ⟨name, hname, hres⟩ | hshadow
        · exact .inl hclaim
        · rcases (hstep name).mp hres with hres | ⟨hun, hne, hres⟩
          · exact .inr (.inl ⟨name, hname, hres⟩)
          · exact .inr (.inr ⟨v, List.mem_cons_self, hne, name, hun, hname, hres⟩)
        · obtain ⟨u, hu, hrest⟩ := hshadow
          exact .inr (.inr ⟨u, List.mem_cons_of_mem _ hu, hrest⟩)

/-- A first vote that fails its claim without being resolved fails the list. -/
lemma not_namesPassFrom_cons (resolvers : List NameResolver) {resolved : ResolvedNames} {v : Vote}
    (votes : List Vote) {name : JsString} (hname : carriedName v = some name)
    (hres : isResolved resolved name = false)
    (hclaim : resolveName resolvers name ≠ some v.community.publicKey) :
    ¬ NamesPassFrom resolvers resolved (v :: votes) := by
  intro h
  rcases h [] v votes rfl with hc | ⟨name', hname', hres'⟩ | ⟨u, hu, -⟩
  · exact hclaim (hc name hname)
  · rw [hname] at hname'
    obtain rfl := Option.some.inj hname'
    rw [hres] at hres'
    cases hres'
  · exact absurd hu List.not_mem_nil

/-- **The name stage passes exactly if every claim holds or is shadowed**, and it keeps the shared
resolutions sound. -/
theorem nameStage_spec {resolutions : Resolutions} (hsound : ResolutionsSound d resolutions)
    (resolved : ResolvedNames) (votes : List Vote) :
    ResolutionsSound d (nameStage d resolutions resolved votes).1
      ∧ ((nameStage d resolutions resolved votes).2.2 = .ok () ↔
          NamesPassFrom d.nameResolvers resolved votes) := by
  induction votes generalizing resolutions resolved with
  | nil =>
      refine ⟨hsound, fun _ earlier v later h => ?_, fun _ => rfl⟩
      cases earlier <;> cases h
  | cons v votes ih =>
      rw [nameStage]
      cases hname : carriedName v with
      | none =>
          have hclaim : NameClaim d.nameResolvers v := by
            intro name h
            rw [hname] at h
            cases h
          obtain ⟨hs, hiff⟩ := ih hsound resolved
          refine ⟨hs, hiff.trans (namesPassFrom_cons (.inl hclaim) fun name => ?_).symm⟩
          simp [hname]
      | some name =>
          by_cases hres : isResolved resolved name = true
          · simp only [hres, if_true]
            obtain ⟨hs, hiff⟩ := ih hsound resolved
            refine ⟨hs, hiff.trans (namesPassFrom_cons (.inr ⟨name, hname, hres⟩)
              fun name' => ⟨.inl, ?_⟩).symm⟩
            rintro (h | ⟨h, -⟩)
            · exact h
            · rw [hname] at h
              exact Option.some.inj h ▸ hres
          · rw [Bool.not_eq_true] at hres
            simp only [hres, Bool.false_eq_true, if_false]
            cases hfind : d.nameResolvers.find? (·.canResolve name) with
            | none =>
                have hnot := not_namesPassFrom_cons d.nameResolvers votes hname hres
                  (by simp [resolveName, hfind])
                exact ⟨hsound, iff_of_false (by simp) hnot⟩
            | some resolver =>
                obtain ⟨hmemo, hset⟩ := hsound.set hfind
                have hresolve : resolveName d.nameResolvers name = resolver.resolve name := by
                  simp [resolveName, hfind]
                simp only [hmemo]
                cases hrec : resolver.resolve name with
                | none =>
                    rw [hrec] at hset
                    have hnot := not_namesPassFrom_cons d.nameResolvers votes hname hres
                      (by simp [hresolve, hrec])
                    exact ⟨hset, iff_of_false (by simp) hnot⟩
                | some record =>
                    rw [hrec] at hset hresolve
                    by_cases hkey : record = v.community.publicKey
                    · subst hkey
                      obtain ⟨hs, hiff⟩ := ih hset (resolved.set name v.community.publicKey)
                      simp only [ne_eq, not_true_eq_false, if_false]
                      refine ⟨hs, hiff.trans (namesPassFrom_cons (.inl ?_) fun name' => ?_).symm⟩
                      · intro name' hname'
                        rw [hname] at hname'
                        exact Option.some.inj hname' ▸ hresolve
                      · simp only [isResolved, JsMap.get?_set, hname, Option.some.injEq]
                        by_cases hn : name' = name
                        · subst hn
                          rw [isResolved] at hres
                          simp [hres, hresolve]
                        · simp [hn, Ne.symm hn]
                    · have hnot := not_namesPassFrom_cons d.nameResolvers votes hname hres
                        (by simpa [hresolve] using hkey)
                      simp only [ne_eq, hkey, not_false_eq_true, if_true]
                      exact ⟨hset, iff_of_false (by simp) hnot⟩

lemma namesPassFrom_empty {resolvers : List NameResolver} {votes : List Vote} :
    NamesPassFrom resolvers ∅ votes ↔ NamesPass resolvers votes := by
  simp [NamesPassFrom, NamesPass, isResolved]

/-! ### Runs -/

/-- What the background verifier confirms. -/
def BackgroundPasses (d : VerifierDeps) (bundle : VotesBundle) : Prop :=
  gateAdmits d bundle ∧ NamesPass d.nameResolvers bundle.votes

/-- What was told so far is right: every confirmed bundle passes, and its names were announced. -/
def LogSound (d : VerifierDeps) (log : List BackgroundEvent) : Prop :=
  ∀ e names, .cached e (.ok names) ∈ log →
    BackgroundPasses d e.bundle ∧ (carriesName e.bundle = true → .nameResolved e ∈ log)

/-- The bundle has been confirmed. -/
def Confirmed (log : List BackgroundEvent) (e : Entry) : Prop :=
  ∃ names, .cached e (.ok names) ∈ log

/-- The item is as it was enqueued, a gate stage that did not settle it aside. -/
def QueueItem.Unsettled (item : QueueItem) : Prop :=
  item.gateDone = false ∧ item.resolvedNames = ∅

/-- The state between two items of a round. -/
structure RoundState.Inv (d : VerifierDeps) (s : RoundState) : Prop where
  log : LogSound d s.background.log
  resolutions : ResolutionsSound d s.resolutions
  queue : s.background.queue = []
  requeue : s.requeue = []
  notYet : ∀ item ∈ s.notYet, item.Unsettled

lemma LogSound.append {log events : List BackgroundEvent} (h : LogSound d log)
    (hno : ∀ e names, .cached e (.ok names) ∉ events) : LogSound d (log ++ events) := by
  intro e names hmem
  rcases List.mem_append.mp hmem with hmem | hmem
  · obtain ⟨hpass, hname⟩ := h e names hmem
    exact ⟨hpass, fun hc => List.mem_append_left _ (hname hc)⟩
  · exact absurd hmem (hno e names)

lemma LogSound.confirm {log : List BackgroundEvent} {e : Entry} {names : ResolvedNames}
    (h : LogSound d log) (hpass : BackgroundPasses d e.bundle)
    (hname : carriesName e.bundle = true → .nameResolved e ∈ log) :
    LogSound d (log ++ [.cached e (.ok names)]) := by
  intro e' names' hmem
  rcases List.mem_append.mp hmem with hmem | hmem
  · obtain ⟨hpass, hname⟩ := h e' names' hmem
    exact ⟨hpass, fun hc => List.mem_append_left _ (hname hc)⟩
  · simp only [List.mem_singleton, BackgroundEvent.cached.injEq, Except.ok.injEq] at hmem
    obtain ⟨rfl, -⟩ := hmem
    exact ⟨hpass, fun hc => List.mem_append_left _ (hname hc)⟩

lemma RoundState.Inv.tell {s : RoundState} (hs : s.Inv d) {events : List BackgroundEvent}
    (hlog : LogSound d (s.background.log ++ events)) : (s.tell events).Inv d :=
  ⟨hlog, hs.resolutions, hs.queue, hs.requeue, hs.notYet⟩

lemma RoundState.Inv.settle {s : RoundState} (hs : s.Inv d) (e : Entry) : (s.settle e).Inv d :=
  ⟨hs.log, hs.resolutions, hs.queue, hs.requeue, hs.notYet⟩

/-- What the loop body guarantees of an item: nothing told is lost, and an item that passes is
confirmed. -/
structure RoundState.Handles (d : VerifierDeps) (s : RoundState) (e : Entry) (s' : RoundState) :
    Prop where
  inv : s'.Inv d
  log : s.background.log ⊆ s'.background.log
  confirms : BackgroundPasses d e.bundle → Confirmed s'.background.log e

lemma no_confirm_if (b : Bool) (events events' : List BackgroundEvent)
    (h : ∀ e names, .cached e (.ok names) ∉ events)
    (h' : ∀ e names, .cached e (.ok names) ∉ events') :
    ∀ e names, .cached e (.ok names) ∉ if b = true then events else events' := by
  cases b with
  | true => exact h
  | false => exact h'

/-- The names of an item the gate admits. -/
lemma roundNames_handles {s : RoundState} (hs : s.Inv d) {item : QueueItem}
    (hresolved : item.resolvedNames = ∅) (hadmits : gateAdmits d item.entry.bundle) :
    s.Handles d item.entry (roundNames d s item) := by
  obtain ⟨hsound, hiff⟩ := nameStage_spec hs.resolutions ∅ item.entry.bundle.votes
  rw [namesPassFrom_empty] at hiff
  rw [roundNames]
  rw [hresolved]
  rcases hstage : nameStage d s.resolutions ∅ item.entry.bundle.votes with
    ⟨resolutions, names, verdict⟩
  rw [hstage] at hsound hiff
  have hs' : RoundState.Inv d { s with resolutions } :=
    ⟨hs.log, hsound, hs.queue, hs.requeue, hs.notYet⟩
  cases verdict with
  | error verdict =>
      have hno : ¬ BackgroundPasses d item.entry.bundle := fun h => by cases hiff.mpr h.2
      refine ⟨(hs'.tell (hs.log.append ?_)).settle _, ?_, fun h => absurd h hno⟩
      · simp
      · exact List.subset_append_left _ _
  | ok u =>
      have hpasses : BackgroundPasses d item.entry.bundle := ⟨hadmits, hiff.mp rfl⟩
      have hnamed := hs'.tell (hs.log.append (no_confirm_if (carriesName item.entry.bundle)
        [.nameResolved item.entry] [] (by simp) (by simp)))
      refine ⟨(hnamed.tell (hnamed.log.confirm hpasses ?_)).settle _, ?_, fun _ => ⟨names, ?_⟩⟩
      · intro hname
        simp [RoundState.tell, hname]
      · exact fun event hevent => List.mem_append_left _ (List.mem_append_left _ hevent)
      · exact List.mem_append_right _ (List.mem_singleton_self _)

/-- An item the gate refuses is evicted, now or later. -/
lemma afterGate_refused (d : VerifierDeps) (graceMs now : ℕ) (item : QueueItem) {gate : GateResult}
    (hdone : item.gateDone = true) (hitem : item.gate = some gate)
    (hgate : gate.satisfied = some false) :
    (∃ verdict, afterGate d graceMs now item = .reject verdict)
      ∨ afterGate d graceMs now item = .notYet
      ∨ ∃ verdict, afterGate d graceMs now item = .ignore verdict := by
  simp only [afterGate, hdone, hitem, hgate, Bool.not_true, Bool.false_eq_true, if_false,
    Option.some.injEq]
  split_ifs
  · exact .inl ⟨_, rfl⟩
  · exact .inr (.inl rfl)
  · exact .inr (.inr ⟨_, rfl⟩)

/-- What the loop body does with an item behind the gate stage. -/
theorem roundItem_handles (graceMs now : ℕ) {s : RoundState} (hs : s.Inv d)
    {item item' : QueueItem} (hfresh : item.Unsettled) (hgated : Gated d item item') :
    s.Handles d item.entry (roundItem d graceMs now s item') := by
  obtain ⟨gate, hgate, rfl⟩ := hgated
  by_cases hadmits : gateAdmits d item.entry.bundle
  · rw [decide_eq_true hadmits] at hgate
    have hpass : afterGate d graceMs now { item with gate := some gate, gateDone := true }
        = .pass := by simp [afterGate, hgate]
    have hnotified := hs.tell (hs.log.append (no_confirm_if item.gateNotified []
      [.gateVerified item.entry] (by simp) (by simp)))
    rw [roundItem, hpass]
    have hnames := roundNames_handles hnotified hfresh.2 hadmits
    exact ⟨hnames.inv, List.Subset.trans (List.subset_append_left _ _) hnames.log, hnames.confirms⟩
  · -- refused by the gate: told nothing that confirms it
    rw [decide_eq_false hadmits] at hgate
    have hno : ¬ BackgroundPasses d item.entry.bundle := fun h => hadmits h.1
    rcases afterGate_refused d graceMs now { item with gate := some gate, gateDone := true } rfl
        rfl hgate with ⟨verdict, hflow⟩ | hflow | ⟨verdict, hflow⟩
    · rw [roundItem, hflow]
      exact ⟨(hs.tell (hs.log.append (by simp))).settle _, List.subset_append_left _ _,
        fun h => absurd h hno⟩
    · rw [roundItem, hflow]
      refine ⟨⟨hs.log, hs.resolutions, hs.queue, hs.requeue, ?_⟩, List.Subset.refl _,
        fun h => absurd h hno⟩
      exact List.forall_mem_append.mpr ⟨hs.notYet, by simp [QueueItem.Unsettled, hfresh.2]⟩
    · rw [roundItem, hflow]
      exact ⟨(hs.tell (hs.log.append (by simp))).settle _, List.subset_append_left _ _,
        fun h => absurd h hno⟩

/-- A round handles every item of its batch. -/
lemma foldl_roundItem (graceMs now : ℕ) {items gated : List QueueItem}
    (hgated : List.Forall₂ (Gated d) items gated) (hfresh : ∀ item ∈ items, item.Unsettled)
    {s : RoundState} (hs : s.Inv d) :
    (gated.foldl (roundItem d graceMs now) s).Inv d
      ∧ s.background.log ⊆ (gated.foldl (roundItem d graceMs now) s).background.log
      ∧ ∀ item ∈ items, BackgroundPasses d item.entry.bundle →
          Confirmed (gated.foldl (roundItem d graceMs now) s).background.log item.entry := by
  induction hgated generalizing s with
  | nil => exact ⟨hs, List.Subset.refl _, fun item h => absurd h List.not_mem_nil⟩
  | cons hitem hrest ih =>
      obtain ⟨hfirst, hfresh⟩ := List.forall_mem_cons.mp hfresh
      have hone := roundItem_handles graceMs now hs hfirst hitem
      obtain ⟨hinv, hlog, hconf⟩ := ih hfresh hone.inv
      refine ⟨hinv, List.Subset.trans hone.log hlog,
        List.forall_mem_cons.mpr ⟨fun hpass => ?_, hconf⟩⟩
      obtain ⟨names, hmem⟩ := hone.confirms hpass
      exact ⟨names, hlog hmem⟩

/-- The state between two rounds. -/
structure Background.Inv (d : VerifierDeps) (s : Background) : Prop where
  log : LogSound d s.log
  queue : ∀ item ∈ s.queue, item.Unsettled

lemma Background.Inv.push {s : Background} (hs : s.Inv d) (now : ℕ) (e : Entry) :
    (s.push now e).Inv d := by
  rw [Background.push]
  split_ifs with h
  · exact hs
  · refine ⟨hs.log, List.forall_mem_append.mpr ⟨hs.queue, ?_⟩⟩
    simp [QueueItem.fresh, QueueItem.Unsettled]

lemma Background.Inv.enqueue {s : Background} (hs : s.Inv d) (now : ℕ) (entries : List Entry) :
    (enqueue now s entries).Inv d := by
  rw [PubsubVoting.enqueue]
  induction entries generalizing s with
  | nil => exact hs
  | cons e entries ih => exact ih (hs.push now e)

lemma Background.Inv.arrive {s : Background} (hs : s.Inv d) (calls : List (ℕ × List Entry)) :
    (arrive calls s).Inv d := by
  rw [PubsubVoting.arrive]
  induction calls generalizing s with
  | nil => exact hs
  | cons call calls ih => exact ih (hs.enqueue call.1 call.2)

/-- **One round**: what was told stays right, and whatever queued bundle passes is confirmed. -/
theorem round_spec (h : d.Resolved C) (graceMs now : ℕ) {s : Background} (hs : s.Inv d) :
    (round d graceMs now s).Inv d
      ∧ ∀ item ∈ s.queue, BackgroundPasses d item.entry.bundle →
          Confirmed (round d graceMs now s).log item.entry := by
  obtain ⟨gated, hgated, hall⟩ := gateStage_gated h fun item hitem => (hs.queue item hitem).1
  have hstart : RoundState.Inv d ⟨{ s with queue := [] }, ∅, [], []⟩ := by
    refine ⟨hs.log, ?_, rfl, rfl, fun item hitem => absurd hitem List.not_mem_nil⟩
    intro name record hget
    cases hget
  obtain ⟨hinv, -, hconf⟩ := foldl_roundItem graceMs now hall hs.queue hstart
  rw [round]
  rw [hgated, Option.getD_some]
  refine ⟨⟨hinv.log, ?_⟩, hconf⟩
  simp only [hinv.queue, hinv.requeue, List.nil_append]
  exact hinv.notYet

/-- The verifier between rounds, over a whole run. -/
theorem drain_inv (h : d.Resolved C) (graceMs : ℕ) (plan : Schedule) (n : ℕ) :
    (drain d graceMs plan n).Inv d := by
  induction n with
  | zero =>
      exact ⟨fun e names h => absurd h List.not_mem_nil,
        fun item h => absurd h List.not_mem_nil⟩
  | succ n ih => exact (round_spec h graceMs _ (ih.arrive _)).1

/-- **An enqueued bundle is settled as verified exactly if its gate holds and each name claim holds
or is shadowed**, whatever else is in its batch. -/
theorem settlesVerified_iff (h : d.Resolved C) {graceMs : ℕ} {plan : Schedule} {e : Entry}
    (he : Enqueued d graceMs plan e) :
    SettlesVerified d graceMs plan e ↔ BackgroundPasses d e.bundle := by
  constructor
  · rintro ⟨n, ⟨names, hmem⟩, -⟩
    exact ((drain_inv h graceMs plan n).log e names hmem).1
  · intro hpass
    obtain ⟨n, item, hitem, rfl⟩ := he
    obtain ⟨hinv, hconf⟩ := round_spec h graceMs (plan.clock n)
      ((drain_inv h graceMs plan n).arrive (plan.arrivals n))
    obtain ⟨names, hmem⟩ := hconf item hitem hpass
    exact ⟨n + 1, ⟨names, hmem⟩, (hinv.log _ _ hmem).2⟩

lemma NamesPass.of_forall {resolvers : List NameResolver} {votes : List Vote}
    (h : ∀ v ∈ votes, NameClaim resolvers v) : NamesPass resolvers votes := by
  rintro earlier v later rfl
  exact .inl (h v (by simp))

/-- **When the two verifiers agree about an enqueued bundle**: the gate refuses it, or all its name
claims hold, or one of them fails that no earlier vote shadows. -/
theorem drain_agrees_iff (h : d.Resolved C) {graceMs : ℕ} {plan : Schedule} {e : Entry}
    (he : Enqueued d graceMs plan e) :
    (SettlesVerified d graceMs plan e ↔
        ∃ verdict, verifyOnline d e.bundle = some verdict ∧ verdict.valid = true) ↔
      ¬ gateAdmits d e.bundle ∨ (∀ v ∈ e.bundle.votes, NameClaim d.nameResolvers v)
        ∨ ∃ earlier v later, e.bundle.votes = earlier ++ v :: later
            ∧ ¬ NameClaim d.nameResolvers v ∧ ¬ Shadowed d.nameResolvers earlier v := by
  rw [settlesVerified_iff h he, verifyOnline_valid_iff h, BackgroundPasses]
  have hmono : (∀ v ∈ e.bundle.votes, NameClaim d.nameResolvers v) →
      NamesPass d.nameResolvers e.bundle.votes := NamesPass.of_forall
  have hfails : (∃ earlier v later, e.bundle.votes = earlier ++ v :: later
      ∧ ¬ NameClaim d.nameResolvers v ∧ ¬ Shadowed d.nameResolvers earlier v) ↔
        ¬ NamesPass d.nameResolvers e.bundle.votes := by
    simp only [NamesPass, not_forall, not_or, exists_prop]
  rw [hfails]
  tauto

end

/-! ### One name, two keys -/

/-- A rule that admits everybody. -/
def openRule : BoundRule where
  evaluate _ := .success 1
  evaluateMany := none
  evaluateMany_eq _ h := by cases h
  evaluate_lower _ := rfl

/-- A registry with that rule only. -/
def openRegistry : RuleRegistry := ⟨fun _ => some openRule, fun _ _ _ => rfl⟩

/-- A contest open to everybody, with two votes for each wallet. -/
def openCriteria : Criteria where
  name := JsString.ofString "contest"
  contestId := JsString.ofString "contest"
  voteSchema := ⟨-1, 1⟩
  maxVotesPerAddress := 2
  bucketChainId := 1
  blocksPerBucket := 10
  voteExpiryBuckets := 1
  gate := .rule ⟨JsString.ofString "constant", []⟩
  weight := ⟨JsString.ofString "constant", []⟩
  requires := [JsString.ofString "constant"]

/-- Every name resolves to the shortest key. -/
def openDeps : VerifierDeps where
  criteria := openCriteria
  leaves := (resolveGate .reference openRegistry openCriteria).getD []
  bucketMath := tenBlocks
  nameResolvers := [⟨fun _ => true, fun _ => some (JsString.ofString "11")⟩]
  verifyBundleSignature _ := .ok ()

/-- A ballot that gives one name two keys, the right one first. -/
def twoKeysBallot : VotesBundle where
  address := bytesToHex (List.replicate 20 0)
  votes := [⟨⟨some (JsString.ofString "a.b"), JsString.ofString "11"⟩, 1⟩,
    ⟨⟨some (JsString.ofString "a.b"), JsString.ofString "15R"⟩, 1⟩]
  blockNumber := 10
  signature := ⟨bytesToHex (List.replicate 65 0), JsString.ofString "eip712"⟩

/-- Its entry in the queue. -/
def twoKeysEntry : Entry := ⟨(bundleCid .reference twoKeysBallot).getD [], twoKeysBallot⟩

/-- It is enqueued before the first round. -/
def twoKeysPlan : Schedule where
  arrivals
    | 0 => [(0, [twoKeysEntry])]
    | _ => []
  clock n := n

lemma resolved_openDeps : openDeps.Resolved .reference := by
  refine ⟨openRegistry, ?_⟩
  have hsome : (resolveGate .reference openRegistry openCriteria).isSome = true := by
    decide +kernel
  obtain ⟨leaves, hleaves⟩ := Option.isSome_iff_exists.mp hsome
  simp [openDeps, hleaves]

lemma enqueued_twoKeys : Enqueued openDeps 0 twoKeysPlan twoKeysEntry :=
  ⟨0, .fresh 0 twoKeysEntry, List.mem_singleton_self _, rfl⟩

lemma backgroundPasses_twoKeys : BackgroundPasses openDeps twoKeysBallot := by
  have hsound : ResolutionsSound openDeps ∅ := by
    intro name record hget
    cases hget
  have hstage : (nameStage openDeps ∅ ∅ twoKeysBallot.votes).2.2 = .ok () := by decide +kernel
  exact ⟨by decide +kernel, namesPassFrom_empty.mp ((nameStage_spec hsound ∅ _).2.mp hstage)⟩

/-- The background verifier confirms the ballot, which passes the schema and the offline stage, and
the inline one refuses it. -/
theorem drain_confirms_twoKeys :
    votesBundleSchema .reference twoKeysBallot = true
      ∧ verifyOffline openDeps twoKeysBallot = .ok ()
      ∧ (∃ v ∈ twoKeysBallot.votes, ¬ NameClaim openDeps.nameResolvers v)
      ∧ Enqueued openDeps 0 twoKeysPlan twoKeysEntry
      ∧ SettlesVerified openDeps 0 twoKeysPlan twoKeysEntry
      ∧ ¬ ∃ verdict, verifyOnline openDeps twoKeysBallot = some verdict ∧ verdict.valid = true := by
  have hclaim : ∃ v ∈ twoKeysBallot.votes, ¬ NameClaim openDeps.nameResolvers v := by
    decide +kernel
  refine ⟨by decide +kernel, by decide +kernel, hclaim, enqueued_twoKeys, ?_, ?_⟩
  · exact (settlesVerified_iff resolved_openDeps enqueued_twoKeys).mpr backgroundPasses_twoKeys
  · rw [verifyOnline_valid_iff resolved_openDeps]
    rintro ⟨-, hall⟩
    obtain ⟨v, hv, hno⟩ := hclaim
    exact hno (hall v hv)

/-- The theorem at this ballot. -/
theorem drain_agrees_iff_twoKeys :
    (SettlesVerified openDeps 0 twoKeysPlan twoKeysEntry ↔
        ∃ verdict, verifyOnline openDeps twoKeysBallot = some verdict ∧ verdict.valid = true) ↔
      ¬ gateAdmits openDeps twoKeysBallot
        ∨ (∀ v ∈ twoKeysBallot.votes, NameClaim openDeps.nameResolvers v)
        ∨ ∃ earlier v later, twoKeysBallot.votes = earlier ++ v :: later
            ∧ ¬ NameClaim openDeps.nameResolvers v
            ∧ ¬ Shadowed openDeps.nameResolvers earlier v :=
  drain_agrees_iff resolved_openDeps enqueued_twoKeys

end PubsubVoting
