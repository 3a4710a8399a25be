import PubsubVoting.Lib.Transition
import PubsubVoting.Verify.Background

/-!
The background verifier as a machine: the queue, the rounds with their awaits, the retry timer, and
callbacks that may throw.

* `Drain.step`: one step, from one await or callback to the next; other calls may come in between.
* `Flights`, `Flights.Move`: the abstract life of an enqueued bundle, and `step_moves`: where no
  callback but `onError` throws, the machine does what the abstract model does.
* `Drain.Sound`: nothing in flight is lost, and every enqueued bundle is settled once.
* `drain_sound`: every state of such a run is sound.
-/

namespace PubsubVoting

/-! ### The machine -/

/-- A queued bundle with the number of its enqueue. -/
structure Ticketed where
  ticket : ℕ
  item : QueueItem

/-- The address of the bundle. -/
abbrev Ticketed.cid (t : Ticketed) : Cid := t.item.entry.cid

/-- What the machine does that can be seen outside: an event of a ticket, or `onError`. -/
inductive DrainEvent where
  | told (ticket : ℕ) (event : BackgroundEvent)
  | error

/-- The locals of a round at the head of its loop. -/
structure DrainRound where
  todo : List Ticketed
  requeue : List Ticketed
  notYet : List Ticketed

/-- The items of a round that it has not settled. -/
def DrainRound.items (r : DrainRound) : List Ticketed := r.todo ++ (r.requeue ++ r.notYet)

/-- An item behind `onGateVerified`. -/
abbrev NotifiedItem := {t : Ticketed // t.item.gateNotified = true}

/-- Where the drain is. -/
inductive DrainPhase where
  /-- not draining -/
  | idle
  /-- between two rounds -/
  | between
  /-- awaiting the gate stage -/
  | gating (batch : List Ticketed)
  /-- at the head of the loop -/
  | looping (r : DrainRound)
  /-- awaiting the name stage -/
  | naming (t : NotifiedItem) (r : DrainRound)
  /-- all checks passed, about to cache the verdict -/
  | confirming (t : NotifiedItem) (r : DrainRound)
  /-- behind `onEvict`, about to settle -/
  | settling (t : Ticketed) (r : DrainRound)

/-- The unfinished items of the running round. -/
def DrainPhase.items : DrainPhase → List Ticketed
  | .idle => []
  | .between => []
  | .gating batch => batch
  | .looping r => r.items
  | .naming t r => t.1 :: r.items
  | .confirming t r => t.1 :: r.items
  | .settling t r => t :: r.items

/-- The state of the verifier. `tickets` counts the enqueues. -/
structure Drain where
  queue : List Ticketed
  inFlight : List Cid
  stopped : Bool
  retryArmed : Bool
  failedRounds : ℕ
  phase : DrainPhase
  tickets : ℕ

/-- `makeBackgroundVerifier` -/
def Drain.init : Drain := ⟨[], [], false, false, 0, .idle, 0⟩

/-- How a name stage ends; the names are those resolved so far. -/
inductive NamesOutcome where
  | infra (names : ResolvedNames)
  | evicts (names : ResolvedNames) (verdict : VerifyFail)
  | resolves (names : ResolvedNames)

/-- The calls and the events the machine reacts to. `throws` says that the callback the step makes
throws. -/
inductive DrainInput where
  | enqueue (now : ℕ) (entries : List Entry)
  | stop
  | resume
  | retryFires
  /-- the `while` of the drain -/
  | next
  /-- the gate stage comes back, or throws -/
  | gates (answer : Option (QueueItem → GateResult))
  /-- the loop of the round goes on -/
  | item (now : ℕ) (throws : Bool)
  | names (outcome : NamesOutcome) (throws : Bool)
  | confirm
  | settle

/-- The bundles a call enqueues. -/
def DrainInput.entries : DrainInput → List Entry
  | .enqueue _ entries => entries
  | _ => []

namespace Drain

/-- `kickDrain` -/
def kickDrain (s : Drain) : Drain :=
  match s.phase with
  | .idle =>
    if s.stopped ∨ s.queue = [] ∨ s.retryArmed then s
    else { s with phase := .gating s.queue, queue := [] }
  | _ => s

/-- `armRetry` -/
def armRetry (s : Drain) : Drain := if s.stopped then s else { s with retryArmed := true }

/-- Queue one bundle. -/
def push (now : ℕ) (s : Drain) (e : Entry) : Drain :=
  if s.inFlight.contains e.cid then s
  else
    { s with
      inFlight := e.cid :: s.inFlight
      queue := s.queue ++ [⟨s.tickets, .fresh now e⟩]
      tickets := s.tickets + 1 }

/-- `enqueue` -/
def enqueue (now : ℕ) (entries : List Entry) (s : Drain) : Drain :=
  (entries.foldl (push now) s).kickDrain

/-- `settle`: the address leaves the set. -/
def release (s : Drain) (cid : Cid) : Drain :=
  { s with inFlight := s.inFlight.filter fun c => c ≠ cid }

/-- The end of a round. -/
def finish (s : Drain) (r : DrainRound) (throws : Bool) : Drain × List DrainEvent :=
  if r.requeue ≠ [] then
    let s := { s with
      queue := s.queue ++ (r.requeue ++ r.notYet)
      failedRounds := s.failedRounds + 1 }
    if throws then ({ s with phase := .idle }, [.error])
    else ({ s.armRetry with phase := .between }, [.error])
  else if r.notYet ≠ [] then
    let s := { s with queue := s.queue ++ r.notYet, failedRounds := 0 }
    ({ s.armRetry with phase := .between }, [])
  else ({ s with failedRounds := 0, phase := .between }, [])

/-- An item the gate admits: `onGateVerified` unless it fired before, and then the names. -/
def passStep (s : Drain) (t : Ticketed) (r : DrainRound) (throws : Bool) :
    Drain × List DrainEvent :=
  if h : t.item.gateNotified = true then ({ s with phase := .naming ⟨t, h⟩ r }, [])
  else
    let notified : NotifiedItem := ⟨{ t with item := { t.item with gateNotified := true } }, rfl⟩
    ({ s with phase := if throws then .idle else .naming notified r },
      [.told t.ticket (.gateVerified t.item.entry)])

/-- The loop of a round at an item, up to the next await. A callback that throws ends the round on
the spot, with all its items. -/
def itemStep (s : Drain) (t : Ticketed) (r : DrainRound) (throws : Bool) :
    GateFlow → Drain × List DrainEvent
  | .retry => ({ s with phase := .looping { r with requeue := r.requeue ++ [t] } }, [])
  | .notYet =>
    let t := { t with item := { t.item with gateDone := false } }
    ({ s with phase := .looping { r with notYet := r.notYet ++ [t] } }, [])
  | .reject verdict =>
    ({ s with phase := if throws then .idle else .settling t r },
      [.told t.ticket (.cached t.item.entry (.error verdict)),
        .told t.ticket (.evicted t.item.entry verdict)])
  | .ignore verdict =>
    ({ s with phase := if throws then .idle else .settling t r },
      [.told t.ticket (.evicted t.item.entry verdict)])
  | .pass => s.passStep t r throws

/-- The name stage of an item has ended. An eviction that throws is caught like a failed read. -/
def namesStep (s : Drain) (t : NotifiedItem) (r : DrainRound) (outcome : NamesOutcome)
    (throws : Bool) : Drain × List DrainEvent :=
  let named (names : ResolvedNames) : NotifiedItem :=
    ⟨{ t.1 with item := { t.1.item with resolvedNames := names } }, t.2⟩
  let e := t.1.item.entry
  match outcome with
  | .infra names =>
    ({ s with phase := .looping { r with requeue := r.requeue ++ [(named names).1] } }, [])
  | .evicts names verdict =>
    ({ s with
        phase := if throws then .looping { r with requeue := r.requeue ++ [(named names).1] }
          else .settling (named names).1 r },
      [.told t.1.ticket (.evicted e verdict)])
  | .resolves names =>
    let calls := carriesName e.bundle
    ({ s with phase := if throws && calls then .idle else .confirming (named names) r },
      if calls then [.told t.1.ticket (.nameResolved e)] else [])

/-- An item the gate stage came back for. -/
def gateItem (answer : QueueItem → GateResult) (t : Ticketed) : Ticketed :=
  if t.item.gateDone then t
  else { t with item := { t.item with gate := some (answer t.item), gateDone := true } }

section

variable (d : VerifierDeps) (graceMs : ℕ)

/-- The loop of a round. -/
def roundStep (s : Drain) (r : DrainRound) (now : ℕ) (throws : Bool) : Drain × List DrainEvent :=
  match r.todo with
  | [] => s.finish r throws
  | t :: todo => s.itemStep t { r with todo } throws (afterGate d graceMs now t.item)

/-- One step; `none` where the input does not come in this state. -/
def step (s : Drain) (i : DrainInput) : Option (Drain × List DrainEvent) :=
  match i, s.phase with
  | .enqueue now entries, _ => some (s.enqueue now entries, [])
  | .stop, _ => some ({ s with stopped := true, retryArmed := false }, [])
  | .resume, _ => some ({ s with stopped := false }.kickDrain, [])
  | .retryFires, _ =>
    if s.retryArmed then some ({ s with retryArmed := false }.kickDrain, []) else none
  | .next, .between =>
    if s.queue = [] ∨ s.stopped ∨ s.retryArmed then some ({ s with phase := .idle }, [])
    else some ({ s with phase := .gating s.queue, queue := [] }, [])
  | .gates answer, .gating batch =>
    let todo := answer.elim batch fun answer => batch.map (gateItem answer)
    some ({ s with phase := .looping ⟨todo, [], []⟩ }, [])
  | .item now throws, .looping r => some (roundStep d graceMs s r now throws)
  | .names outcome throws, .naming t r => some (namesStep s t r outcome throws)
  | .confirm, .confirming t r =>
    some ({ s.release t.1.cid with phase := .looping r },
      [.told t.1.ticket (.cached t.1.item.entry (.ok t.1.item.resolvedNames))])
  | .settle, .settling t r => some ({ s.release t.cid with phase := .looping r }, [])
  | _, _ => none

end

/-- The round is at the end of its loop. -/
def atEnd (s : Drain) : Bool :=
  match s.phase with
  | .looping r => r.todo.isEmpty
  | _ => false

/-- No callback throws in the step, `onError` aside: it is the one called at the end of a round. -/
def callbacksReturn (s : Drain) : DrainInput → Bool
  | .item _ throws => !throws || s.atEnd
  | .names _ throws => !throws
  | _ => true

end Drain

/-! ### The life of an enqueued bundle -/

/-- How far a bundle in flight has come. -/
inductive Stage where
  /-- before `onGateVerified` -/
  | waiting
  | notified
  /-- evicted, not yet out of flight -/
  | evicted
  /-- all checks passed, about to be confirmed -/
  | resolved
  deriving DecidableEq

/-- A bundle in flight. -/
structure Flight where
  ticket : ℕ
  entry : Entry
  stage : Stage

/-- The bundles in flight in any order, the addresses held as in flight, and the enqueues so far. -/
structure Flights where
  live : List Flight
  inFlight : List Cid
  tickets : ℕ

namespace Flights

/-- What may happen to the bundles in flight; `Q` is what is known of those that are queued. -/
inductive Move (Q : Entry → Prop) (F : Flights) : List DrainEvent → Flights → Prop
  /-- only the places of the bundles change -/
  | shuffle {live : List Flight} : F.live.Perm live → Move Q F [] { F with live }
  /-- `onError` -/
  | fail : Move Q F [.error] F
  /-- a bundle whose address is not in flight is queued -/
  | issue {e : Entry} {live : List Flight} : Q e → e.cid ∉ F.inFlight →
      live.Perm (⟨F.tickets, e, .waiting⟩ :: F.live) →
      Move Q F [] ⟨live, e.cid :: F.inFlight, F.tickets + 1⟩
  /-- `onGateVerified` -/
  | notify {k : ℕ} {e : Entry} {rest live : List Flight} :
      F.live.Perm (⟨k, e, .waiting⟩ :: rest) → live.Perm (⟨k, e, .notified⟩ :: rest) →
      Move Q F [.told k (.gateVerified e)] { F with live }
  /-- a verdict the gate stands behind, and `onEvict` -/
  | reject {k : ℕ} {e : Entry} {stage : Stage} {verdict : VerifyFail} {rest live : List Flight} :
      stage ≠ .evicted → F.live.Perm (⟨k, e, stage⟩ :: rest) →
      live.Perm (⟨k, e, .evicted⟩ :: rest) →
      Move Q F [.told k (.cached e (.error verdict)), .told k (.evicted e verdict)] { F with live }
  /-- `onEvict` -/
  | evict {k : ℕ} {e : Entry} {stage : Stage} {verdict : VerifyFail} {rest live : List Flight} :
      stage ≠ .evicted → F.live.Perm (⟨k, e, stage⟩ :: rest) →
      live.Perm (⟨k, e, .evicted⟩ :: rest) → Move Q F [.told k (.evicted e verdict)] { F with live }
  /-- the checks of a bundle passed; its names, if it carries any, go to `onNameResolved` -/
  | resolve {k : ℕ} {e : Entry} {rest live : List Flight} :
      F.live.Perm (⟨k, e, .notified⟩ :: rest) → live.Perm (⟨k, e, .resolved⟩ :: rest) →
      Move Q F (if carriesName e.bundle then [.told k (.nameResolved e)] else []) { F with live }
  /-- the valid verdict is cached and the bundle leaves -/
  | confirm (names : ResolvedNames) {k : ℕ} {e : Entry} {rest : List Flight} :
      F.live.Perm (⟨k, e, .resolved⟩ :: rest) →
      Move Q F [.told k (.cached e (.ok names))]
        ⟨rest, F.inFlight.filter fun c => c ≠ e.cid, F.tickets⟩
  /-- an evicted bundle leaves -/
  | settle {k : ℕ} {e : Entry} {rest : List Flight} :
      F.live.Perm (⟨k, e, .evicted⟩ :: rest) →
      Move Q F [] ⟨rest, F.inFlight.filter fun c => c ≠ e.cid, F.tickets⟩

end Flights

/-- The stage of an item that is not being settled. -/
def Ticketed.flight (t : Ticketed) : Flight :=
  ⟨t.ticket, t.item.entry, if t.item.gateNotified then .notified else .waiting⟩

@[simp] lemma Ticketed.flight_ticket (t : Ticketed) : t.flight.ticket = t.ticket := rfl

@[simp] lemma Ticketed.flight_entry (t : Ticketed) : t.flight.entry = t.item.entry := rfl

/-- The bundles in flight of a phase. -/
def DrainPhase.flights : DrainPhase → List Flight
  | .confirming t r => ⟨t.1.ticket, t.1.item.entry, .resolved⟩ :: r.items.map Ticketed.flight
  | .settling t r => ⟨t.ticket, t.item.entry, .evicted⟩ :: r.items.map Ticketed.flight
  | phase => phase.items.map Ticketed.flight

/-- What the abstract model sees of the machine. -/
def Drain.flights (s : Drain) : Flights :=
  ⟨s.queue.map Ticketed.flight ++ s.phase.flights, s.inFlight, s.tickets⟩

/-! ### The machine does what the abstract model does -/

namespace Drain

variable {Q : Entry → Prop} {d : VerifierDeps} {graceMs : ℕ} {s s' : Drain}

/-- Some moves of the abstract model, between states of the machine. -/
abbrev Does (Q : Entry → Prop) (s : Drain) (es : List DrainEvent) (s' : Drain) : Prop :=
  Moves (Flights.Move Q) s.flights es s'.flights

lemma Does.of_eq (h : s'.flights = s.flights) : Does Q s [] s' := by
  rw [Does, h]
  exact .nil _

/-- Moves that only change the places. -/
lemma Does.of_perm (hlive : s.flights.live.Perm s'.flights.live) (hin : s'.inFlight = s.inFlight)
    (htickets : s'.tickets = s.tickets) : Does Q s [] s' := by
  have hmove := Flights.Move.shuffle (Q := Q) hlive
  have heq : s'.flights = { s.flights with live := s'.flights.live } := by
    simp only [flights, hin, htickets]
  rw [Does, heq]
  exact .single hmove

/-- `onError`, and then some moves. -/
lemma Does.error (h : Does Q s [] s') : Does Q s [.error] s' := Moves.cons .fail h

lemma flights_kickDrain (s : Drain) : s.kickDrain.flights = s.flights := by
  rw [kickDrain]
  cases hphase : s.phase with
  | idle =>
      simp only
      split_ifs
      · rfl
      · simp [flights, hphase, DrainPhase.flights, DrainPhase.items]
  | _ => rfl

lemma does_push (now : ℕ) (s : Drain) {e : Entry} (he : Q e) : Does Q s [] (push now s e) := by
  rw [push]
  split_ifs with hin
  · exact .of_eq rfl
  · have hnot : e.cid ∉ s.flights.inFlight := by simpa [flights] using hin
    refine .single (.issue he hnot ?_)
    simp only [flights, List.map_append, List.map_cons, List.map_nil, List.append_assoc,
      List.singleton_append]
    exact List.perm_middle

lemma does_enqueue (now : ℕ) (s : Drain) {entries : List Entry} (hQ : ∀ e ∈ entries, Q e) :
    Does Q s [] (entries.foldl (push now) s) := by
  induction entries generalizing s with
  | nil => exact .of_eq rfl
  | cons e entries ih =>
      obtain ⟨he, hQ⟩ := List.forall_mem_cons.mp hQ
      exact (does_push now s he).trans (ih _ hQ)

/-- What is in flight behind an enqueue. -/
lemma mem_inFlight_enqueue (now : ℕ) (entries : List Entry) (s : Drain) (c : Cid) :
    c ∈ (s.enqueue now entries).flights.inFlight ↔
      c ∈ s.inFlight ∨ ∃ e ∈ entries, e.cid = c := by
  rw [enqueue, flights_kickDrain, flights]
  induction entries generalizing s with
  | nil => simp
  | cons e entries ih =>
      rw [List.foldl_cons, ih, List.exists_mem_cons_iff, ← or_assoc]
      refine or_congr_left ?_
      rw [push]
      split_ifs with hin
      · have hmem : e.cid ∈ s.inFlight := by simpa using hin
        exact ⟨.inl, fun h => h.elim id fun heq => heq ▸ hmem⟩
      · simp [or_comm, eq_comm]

/-- An enqueue adds only bundles whose gate is still to be announced. -/
lemma mem_live_enqueue (now : ℕ) (entries : List Entry) (s : Drain) :
    ∀ f ∈ (s.enqueue now entries).flights.live, f ∈ s.flights.live ∨ f.stage = .waiting := by
  rw [enqueue, flights_kickDrain]
  induction entries generalizing s with
  | nil => exact fun f hf => .inl hf
  | cons e entries ih =>
      intro f hf
      rcases ih _ f hf with hf | hf
      · rw [push] at hf
        split_ifs at hf with hin
        · exact .inl hf
        · simp only [flights, List.map_append, List.map_cons, List.map_nil, List.append_assoc,
            List.singleton_append, List.mem_append, List.mem_cons] at hf ⊢
          rcases hf with hf | rfl | hf
          · exact .inl (.inl hf)
          · exact .inr rfl
          · exact .inl (.inr hf)
      · exact .inr hf

lemma flights_enqueue (now : ℕ) (entries : List Entry) (s : Drain) :
    (s.enqueue now entries).flights = (entries.foldl (push now) s).flights := flights_kickDrain _

/-- The gate stage changes neither the address nor the stage of an item. -/
lemma flight_gateItem (answer : QueueItem → GateResult) (t : Ticketed) :
    (gateItem answer t).flight = t.flight := by
  rw [gateItem]
  split_ifs <;> rfl

lemma does_finish {r : DrainRound} (hphase : s.phase = .looping r) (htodo : r.todo = [])
    (throws : Bool) : Does Q s (s.finish r throws).2 (s.finish r throws).1 := by
  have hitems : s.flights.live
      = s.queue.map Ticketed.flight ++ (r.requeue ++ r.notYet).map Ticketed.flight := by
    simp [flights, hphase, DrainPhase.flights, DrainPhase.items, DrainRound.items, htodo]
  have harm (s : Drain) : s.armRetry.queue = s.queue ∧ s.armRetry.inFlight = s.inFlight
      ∧ s.armRetry.tickets = s.tickets := by
    rw [armRetry]
    split_ifs <;> exact ⟨rfl, rfl, rfl⟩
  rw [finish]
  split_ifs with hrequeue hthrows hnotYet
  · refine Does.error (Does.of_perm ?_ rfl rfl)
    rw [hitems]
    simp [flights, DrainPhase.flights, DrainPhase.items]
  · refine Does.error (Does.of_perm ?_ (harm _).2.1 (harm _).2.2)
    rw [hitems]
    simp [flights, DrainPhase.flights, DrainPhase.items, (harm _).1]
  · rw [not_not] at hrequeue
    refine Does.of_perm ?_ (harm _).2.1 (harm _).2.2
    rw [hitems]
    simp [flights, DrainPhase.flights, DrainPhase.items, (harm _).1, hrequeue]
  · rw [not_not] at hrequeue hnotYet
    refine Does.of_perm ?_ rfl rfl
    rw [hitems]
    simp [flights, DrainPhase.flights, DrainPhase.items, hrequeue, hnotYet]

/-- The unfinished items with one put to the retries. -/
lemma items_requeue (r : DrainRound) (t : Ticketed) :
    ({ r with requeue := r.requeue ++ [t] } : DrainRound).items.Perm (t :: r.items) := by
  simp only [DrainRound.items, List.append_assoc, List.singleton_append]
  exact (List.perm_middle.append_left _).trans List.perm_middle

/-- The unfinished items with one put to those looked at again. -/
lemma items_notYet (r : DrainRound) (t : Ticketed) :
    ({ r with notYet := r.notYet ++ [t] } : DrainRound).items.Perm (t :: r.items) := by
  have hlast := List.perm_append_singleton t (r.todo ++ (r.requeue ++ r.notYet))
  simpa only [DrainRound.items, List.append_assoc] using hlast

/-- The bundles in flight while a round is at an item. -/
def At (s : Drain) (t : Ticketed) (r : DrainRound) : Prop :=
  s.flights.live = s.queue.map Ticketed.flight ++ (t.flight :: r.items.map Ticketed.flight)

lemma At.first {t : Ticketed} {r : DrainRound} (h : At s t r) : s.flights.live.Perm
    (t.flight :: (s.queue.map Ticketed.flight ++ r.items.map Ticketed.flight)) :=
  h ▸ List.perm_middle

/-- Putting the item back into the lists of the round changes only places. -/
lemma At.does_looping {t t' : Ticketed} {r r' : DrainRound} (h : At s t r)
    (hitems : r'.items.Perm (t' :: r.items)) (hflight : t'.flight = t.flight) :
    Does Q s [] { s with phase := .looping r' } := by
  refine Does.of_perm ?_ rfl rfl
  rw [h, ← hflight, ← List.map_cons]
  exact (hitems.symm.map Ticketed.flight).append_left _

lemma flight_notified {t : Ticketed} (h : t.item.gateNotified = true) :
    t.flight = ⟨t.ticket, t.item.entry, .notified⟩ := by
  rw [Ticketed.flight, if_pos h]

lemma flight_stage_ne (t : Ticketed) : t.flight.stage ≠ .evicted := by
  rw [Ticketed.flight]
  split_ifs <;> simp

/-- An item the gate admits. -/
lemma does_passStep {t : Ticketed} {r : DrainRound} (h : At s t r) :
    Does Q s (s.passStep t r false).2 (s.passStep t r false).1 := by
  by_cases hnotified : t.item.gateNotified = true
  · rw [passStep, dif_pos hnotified]
    exact Does.of_perm (List.Perm.of_eq h) rfl rfl
  · rw [passStep, dif_neg hnotified]
    have hfirst := h.first
    rw [Ticketed.flight, if_neg hnotified] at hfirst
    exact .single (.notify hfirst List.perm_middle)

/-- The loop body at an item, where the callback it makes returns. -/
lemma does_itemStep {t : Ticketed} {r : DrainRound} (h : At s t r) (flow : GateFlow) :
    Does Q s (s.itemStep t r false flow).2 (s.itemStep t r false flow).1 := by
  cases flow with
  | retry => exact h.does_looping (items_requeue r t) rfl
  | notYet => exact h.does_looping (items_notYet r _) rfl
  | reject verdict => exact .single (.reject (flight_stage_ne t) h.first List.perm_middle)
  | ignore verdict => exact .single (.evict (flight_stage_ne t) h.first List.perm_middle)
  | pass => exact does_passStep h

/-- The loop of a round, where no callback but `onError` throws. -/
lemma does_roundStep (d : VerifierDeps) (graceMs : ℕ) {r : DrainRound}
    (hphase : s.phase = .looping r) (now : ℕ) {throws : Bool}
    (hok : throws = true → r.todo = []) :
    Does Q s (roundStep d graceMs s r now throws).2 (roundStep d graceMs s r now throws).1 := by
  rw [roundStep]
  cases htodo : r.todo with
  | nil => exact does_finish hphase htodo throws
  | cons t todo =>
      have hthrows : throws = false := by
        cases throws with
        | true => exact absurd (hok rfl) (by simp [htodo])
        | false => rfl
      subst hthrows
      refine does_itemStep ?_ _
      simp [At, flights, hphase, DrainPhase.flights, DrainPhase.items, DrainRound.items, htodo]

/-- The end of a name stage, where the callback it makes returns. -/
lemma does_namesStep {t : NotifiedItem} {r : DrainRound} (h : At s t.1 r)
    (outcome : NamesOutcome) :
    Does Q s (s.namesStep t r outcome false).2 (s.namesStep t r outcome false).1 := by
  cases outcome with
  | infra names => exact h.does_looping (items_requeue r _) rfl
  | evicts names verdict =>
      exact .single (.evict (flight_stage_ne t.1) h.first List.perm_middle)
  | resolves names =>
      have hfirst := h.first
      rw [flight_notified t.2] at hfirst
      exact .single (.resolve hfirst List.perm_middle)

/-- **The machine refines the abstract model**, as long as no callback but `onError` throws. -/
theorem step_moves {i : DrainInput} {es : List DrainEvent} (hQ : ∀ e ∈ i.entries, Q e)
    (hok : callbacksReturn s i = true) (h : step d graceMs s i = some (s', es)) :
    Does Q s es s' := by
  cases i with
  | enqueue now entries =>
      obtain ⟨rfl, rfl⟩ := Prod.mk.inj (Option.some.inj h)
      rw [Does, flights_enqueue]
      exact does_enqueue now s hQ
  | stop =>
      obtain ⟨rfl, rfl⟩ := Prod.mk.inj (Option.some.inj h)
      exact .of_eq rfl
  | resume =>
      obtain ⟨rfl, rfl⟩ := Prod.mk.inj (Option.some.inj h)
      exact .of_eq (flights_kickDrain _)
  | retryFires =>
      simp only [step] at h
      split_ifs at h
      obtain ⟨rfl, rfl⟩ := Prod.mk.inj (Option.some.inj h)
      exact .of_eq (flights_kickDrain _)
  | next =>
      cases hphase : s.phase with
      | between =>
          simp only [step, hphase] at h
          split_ifs at h
          · obtain ⟨rfl, rfl⟩ := Prod.mk.inj (Option.some.inj h)
            exact .of_eq (by simp [flights, hphase, DrainPhase.flights, DrainPhase.items])
          · obtain ⟨rfl, rfl⟩ := Prod.mk.inj (Option.some.inj h)
            exact .of_eq (by simp [flights, hphase, DrainPhase.flights, DrainPhase.items])
      | _ => simp [step, hphase] at h
  | gates answer =>
      cases hphase : s.phase with
      | gating batch =>
          simp only [step, hphase] at h
          obtain ⟨rfl, rfl⟩ := Prod.mk.inj (Option.some.inj h)
          refine .of_eq ?_
          have hmap : (answer.elim batch fun answer => batch.map (gateItem answer)).map
              Ticketed.flight = batch.map Ticketed.flight := by
            cases answer with
            | none => rfl
            | some answer =>
                rw [Option.elim_some, List.map_map]
                exact List.map_congr_left fun t _ => flight_gateItem answer t
          simp [flights, hphase, DrainPhase.flights, DrainPhase.items, DrainRound.items, hmap]
      | _ => simp [step, hphase] at h
  | item now throws =>
      cases hphase : s.phase with
      | looping r =>
          simp only [step, hphase, Option.some.injEq] at h
          have hthrows : throws = true → r.todo = [] := by
            rintro rfl
            simpa [callbacksReturn, atEnd, hphase] using hok
          have hdoes := does_roundStep (Q := Q) d graceMs hphase now hthrows
          rw [h] at hdoes
          exact hdoes
      | _ => simp [step, hphase] at h
  | names outcome throws =>
      cases hphase : s.phase with
      | naming t r =>
          simp only [step, hphase, Option.some.injEq] at h
          obtain rfl : throws = false := by simpa [callbacksReturn] using hok
          have hat : At s t.1 r := by
            simp [At, flights, hphase, DrainPhase.flights, DrainPhase.items]
          have hdoes := does_namesStep (Q := Q) hat outcome
          rw [h] at hdoes
          exact hdoes
      | _ => simp [step, hphase] at h
  | confirm =>
      cases hphase : s.phase with
      | confirming t r =>
          simp only [step, hphase] at h
          obtain ⟨rfl, rfl⟩ := Prod.mk.inj (Option.some.inj h)
          refine .single (.confirm t.1.item.resolvedNames ?_)
          simp only [flights, hphase, DrainPhase.flights, release]
          exact List.perm_middle
      | _ => simp [step, hphase] at h
  | settle =>
      cases hphase : s.phase with
      | settling t r =>
          simp only [step, hphase] at h
          obtain ⟨rfl, rfl⟩ := Prod.mk.inj (Option.some.inj h)
          refine .single (.settle (k := t.ticket) ?_)
          simp only [flights, hphase, DrainPhase.flights, release]
          exact List.perm_middle
      | _ => simp [step, hphase] at h

end Drain

/-! ### Nothing is lost, everything is settled once -/

/-- The event settles the ticket: an eviction or a cached valid verdict. -/
def DrainEvent.settles (k : ℕ) : DrainEvent → Bool
  | .told k' (.evicted _ _) => decide (k' = k)
  | .told k' (.cached _ (.ok _)) => decide (k' = k)
  | _ => false

/-- The event is the eviction of the ticket. -/
def DrainEvent.evicts (k : ℕ) : DrainEvent → Bool
  | .told k' (.evicted _ _) => decide (k' = k)
  | _ => false

/-- The event is `onGateVerified` of the ticket. -/
def DrainEvent.verifiesGate (k : ℕ) : DrainEvent → Bool
  | .told k' (.gateVerified _) => decide (k' = k)
  | _ => false

/-- How often a ticket was settled. -/
def settlements (k : ℕ) (log : List DrainEvent) : ℕ := log.countP (·.settles k)

/-- How often a ticket's gate was announced. -/
def gateNotices (k : ℕ) (log : List DrainEvent) : ℕ := log.countP (·.verifiesGate k)

namespace Flights

/-- The bundles in flight have distinct addresses, those held as in flight, and distinct tickets. -/
structure Distinct (F : Flights) : Prop where
  inFlight : ∀ c, c ∈ F.inFlight ↔ ∃ f ∈ F.live, f.entry.cid = c
  cids : (F.live.map (·.entry.cid)).Nodup
  tickets : (F.live.map (·.ticket)).Nodup
  lt : ∀ f ∈ F.live, f.ticket < F.tickets

variable {Q : Entry → Prop} {F F' : Flights} {es log : List DrainEvent}

lemma Distinct.perm (h : F.Distinct) {live : List Flight} (hperm : F.live.Perm live) :
    ({ F with live } : Flights).Distinct where
  inFlight c := by simp only [h.inFlight c, hperm.mem_iff]
  cids := (hperm.map _).nodup_iff.mp h.cids
  tickets := (hperm.map _).nodup_iff.mp h.tickets
  lt f hf := h.lt f (hperm.mem_iff.mpr hf)

/-- A bundle that only changes its stage. -/
lemma Distinct.restage {k : ℕ} {e : Entry} {stage stage' : Stage} {rest live : List Flight}
    (h : F.Distinct) (hold : F.live.Perm (⟨k, e, stage⟩ :: rest))
    (hnew : live.Perm (⟨k, e, stage'⟩ :: rest)) : ({ F with live } : Flights).Distinct := by
  have h' := h.perm hold
  refine Distinct.perm (F := { F with live := ⟨k, e, stage'⟩ :: rest }) ?_ hnew.symm
  exact ⟨fun c => by simpa using h'.inFlight c, h'.cids, h'.tickets, by simpa using h'.lt⟩

/-- A bundle that leaves. -/
lemma Distinct.leave {k : ℕ} {e : Entry} {stage : Stage} {rest : List Flight} (h : F.Distinct)
    (hold : F.live.Perm (⟨k, e, stage⟩ :: rest)) :
    (⟨rest, F.inFlight.filter fun c => c ≠ e.cid, F.tickets⟩ : Flights).Distinct := by
  have h' := h.perm hold
  have hcids : e.cid ∉ rest.map (·.entry.cid) ∧ (rest.map (·.entry.cid)).Nodup := by
    simpa using h'.cids
  refine ⟨fun c => ?_, hcids.2, (List.nodup_cons.mp h'.tickets).2,
    fun f hf => h'.lt f (List.mem_cons_of_mem _ hf)⟩
  have hin := h'.inFlight c
  simp only [List.exists_mem_cons_iff] at hin
  simp only [List.mem_filter, hin, decide_not, Bool.not_eq_true', decide_eq_false_iff_not]
  constructor
  · rintro ⟨rfl | hrest, hne⟩
    · exact absurd rfl hne
    · exact hrest
  · rintro ⟨f, hf, rfl⟩
    exact ⟨.inr ⟨f, hf, rfl⟩, fun heq => hcids.1 (List.mem_map.mpr ⟨f, hf, heq⟩)⟩

/-- A bundle that is queued. -/
lemma Distinct.issue {e : Entry} {live : List Flight} (h : F.Distinct) (hnot : e.cid ∉ F.inFlight)
    (hnew : live.Perm (⟨F.tickets, e, .waiting⟩ :: F.live)) :
    (⟨live, e.cid :: F.inFlight, F.tickets + 1⟩ : Flights).Distinct := by
  refine Distinct.perm (F := ⟨⟨F.tickets, e, .waiting⟩ :: F.live, _, _⟩) ?_ hnew.symm
  refine ⟨fun c => ?_, ?_, ?_, ?_⟩
  · simp [h.inFlight c, eq_comm]
  · refine List.nodup_cons.mpr ⟨fun hmem => ?_, h.cids⟩
    obtain ⟨f, hf, heq⟩ := List.mem_map.mp hmem
    exact hnot ((h.inFlight _).mpr ⟨f, hf, heq⟩)
  · refine List.nodup_cons.mpr ⟨fun hmem => ?_, h.tickets⟩
    obtain ⟨f, hf, heq⟩ := List.mem_map.mp hmem
    exact absurd (h.lt f hf) (by simp at heq; omega)
  · exact List.forall_mem_cons.mpr
      ⟨Nat.lt_succ_self _, fun f hf => (h.lt f hf).trans (Nat.lt_succ_self _)⟩

/-- **Every move keeps the bundles in flight distinct.** -/
theorem Distinct.move (h : F.Distinct) (hmove : F.Move Q es F') : F'.Distinct := by
  cases hmove with
  | shuffle hperm => exact h.perm hperm
  | fail => exact h
  | issue _ hnot hnew => exact h.issue hnot hnew
  | notify hold hnew => exact h.restage hold hnew
  | reject _ hold hnew => exact h.restage hold hnew
  | evict _ hold hnew => exact h.restage hold hnew
  | resolve hold hnew => exact h.restage hold hnew
  | confirm _ hold => exact h.leave hold
  | settle hold => exact h.leave hold

/-- The log accounts for every ticket. -/
structure Accounts (F : Flights) (log : List DrainEvent) : Prop where
  /-- a bundle in flight is settled only once it is evicted -/
  live : ∀ f ∈ F.live, settlements f.ticket log = if f.stage = .evicted then 1 else 0
  /-- one that is not in flight any more is settled -/
  gone : ∀ k < F.tickets, (∀ f ∈ F.live, f.ticket ≠ k) → settlements k log = 1
  waiting : ∀ f ∈ F.live, f.stage = .waiting → gateNotices f.ticket log = 0
  gate : ∀ k, gateNotices k log ≤ 1
  fresh : ∀ k, F.tickets ≤ k → settlements k log = 0 ∧ gateNotices k log = 0
  /-- no gate is announced after the eviction -/
  order : log.Pairwise fun a b => ∀ k, a.evicts k = true → b.verifiesGate k = false

lemma settlements_append (k : ℕ) (log es : List DrainEvent) :
    settlements k (log ++ es) = settlements k log + settlements k es := List.countP_append

lemma gateNotices_append (k : ℕ) (log es : List DrainEvent) :
    gateNotices k (log ++ es) = gateNotices k log + gateNotices k es := List.countP_append

/-- Events of one ticket at most, or of none. -/
def Only (k : ℕ) (es : List DrainEvent) : Prop :=
  ∀ k' ≠ k, settlements k' es = 0 ∧ gateNotices k' es = 0

lemma only_told (k : ℕ) (events : List BackgroundEvent) : Only k (events.map (.told k)) := by
  intro k' hne
  constructor
  · refine List.countP_eq_zero.mpr fun a ha => ?_
    obtain ⟨event, -, rfl⟩ := List.mem_map.mp ha
    cases event with
    | cached e verdict => cases verdict <;> simp [DrainEvent.settles, hne.symm]
    | _ => simp [DrainEvent.settles, hne.symm]
  · refine List.countP_eq_zero.mpr fun a ha => ?_
    obtain ⟨event, -, rfl⟩ := List.mem_map.mp ha
    cases event with
    | _ => simp [DrainEvent.verifiesGate, hne.symm]

/-- Events without `onGateVerified` keep the order. -/
lemma order_append {log es : List DrainEvent}
    (h : log.Pairwise fun a b => ∀ k, a.evicts k = true → b.verifiesGate k = false)
    (hes : ∀ b ∈ es, ∀ k, b.verifiesGate k = false) :
    (log ++ es).Pairwise fun a b => ∀ k, a.evicts k = true → b.verifiesGate k = false := by
  refine List.pairwise_append.mpr ⟨h, ?_, fun a _ b hb k _ => hes b hb k⟩
  exact List.pairwise_of_forall_mem_list fun a _ b hb k _ => hes b hb k

/-- `onGateVerified` of a ticket that is not settled keeps the order. -/
lemma order_notify {log : List DrainEvent} {k : ℕ} {e : Entry}
    (h : log.Pairwise fun a b => ∀ k, a.evicts k = true → b.verifiesGate k = false)
    (hk : settlements k log = 0) :
    (log ++ [DrainEvent.told k (.gateVerified e)]).Pairwise
      fun a b => ∀ k, a.evicts k = true → b.verifiesGate k = false := by
  refine List.pairwise_append.mpr ⟨h, List.pairwise_singleton _ _, fun a ha b hb k' hevicts => ?_⟩
  rw [List.mem_singleton.mp hb]
  have hnot := List.countP_eq_zero.mp hk a ha
  refine decide_eq_false fun heq => hnot ?_
  subst heq
  cases a with
  | error => cases hevicts
  | told k'' event =>
      cases event with
      | evicted e verdict => exact hevicts
      | _ => cases hevicts

/-- A bundle that changes its stage, with the events that go with it. -/
lemma Accounts.restage {k : ℕ} {e : Entry} {stage stage' : Stage} {rest live : List Flight}
    (hF : F.Distinct) (h : F.Accounts log) (hold : F.live.Perm (⟨k, e, stage⟩ :: rest))
    (hnew : live.Perm (⟨k, e, stage'⟩ :: rest)) (hstage : stage' ≠ .waiting) (honly : Only k es)
    (hsettled : settlements k log + settlements k es = if stage' = .evicted then 1 else 0)
    (hgate : gateNotices k log + gateNotices k es ≤ 1)
    (horder : (log ++ es).Pairwise fun a b => ∀ k, a.evicts k = true → b.verifiesGate k = false) :
    ({ F with live } : Flights).Accounts (log ++ es) := by
  have hmem : ∀ f, f ∈ F.live ↔ f = ⟨k, e, stage⟩ ∨ f ∈ rest :=
    fun f => hold.mem_iff.trans List.mem_cons
  have hmem' : ∀ f, f ∈ live ↔ f = ⟨k, e, stage'⟩ ∨ f ∈ rest :=
    fun f => hnew.mem_iff.trans List.mem_cons
  have hne : ∀ f ∈ rest, f.ticket ≠ k := by
    intro f hf heq
    have hnodup := (List.nodup_cons.mp (hF.perm hold).tickets).1
    exact hnodup (List.mem_map.mpr ⟨f, hf, heq⟩)
  have hlt : k < F.tickets := hF.lt ⟨k, e, stage⟩ ((hmem _).mpr (.inl rfl))
  refine ⟨fun f hf => ?_, fun k' hk' hall => ?_, fun f hf hwaiting => ?_, fun k' => ?_,
    fun k' hk' => ?_, horder⟩
  · rw [settlements_append]
    rcases (hmem' f).mp hf with rfl | hf
    · exact hsettled
    · rw [(honly _ (hne f hf)).1, h.live f ((hmem f).mpr (.inr hf))]
      rfl
  · rw [settlements_append]
    have hk : k' ≠ k := fun heq => hall ⟨k, e, stage'⟩ ((hmem' _).mpr (.inl rfl)) heq.symm
    rw [(honly _ hk).1, h.gone k' hk' fun f hf => ?_]
    rcases (hmem f).mp hf with rfl | hf
    · exact hk.symm
    · exact hall f ((hmem' f).mpr (.inr hf))
  · rcases (hmem' f).mp hf with rfl | hf
    · exact absurd hwaiting hstage
    · rw [gateNotices_append, (honly _ (hne f hf)).2,
        h.waiting f ((hmem f).mpr (.inr hf)) hwaiting]
  · rw [gateNotices_append]
    by_cases hk : k' = k
    · exact hk ▸ hgate
    · rw [(honly _ hk).2]
      exact h.gate k'
  · obtain ⟨hs, hg⟩ := h.fresh k' hk'
    have hk : k' ≠ k := fun heq => absurd hk' (by simp [heq, hlt])
    rw [settlements_append, gateNotices_append, hs, hg, (honly _ hk).1, (honly _ hk).2]
    exact ⟨rfl, rfl⟩

/-- A bundle that leaves, once it is settled. -/
lemma Accounts.leave {k : ℕ} {e : Entry} {stage : Stage} {rest : List Flight} {inFlight : List Cid}
    (hF : F.Distinct) (h : F.Accounts log) (hold : F.live.Perm (⟨k, e, stage⟩ :: rest))
    (honly : Only k es) (hsettled : settlements k log + settlements k es = 1)
    (hgate : ∀ b ∈ es, ∀ k, b.verifiesGate k = false) :
    (⟨rest, inFlight, F.tickets⟩ : Flights).Accounts (log ++ es) := by
  have hmem : ∀ f, f ∈ F.live ↔ f = ⟨k, e, stage⟩ ∨ f ∈ rest :=
    fun f => hold.mem_iff.trans List.mem_cons
  have hne : ∀ f ∈ rest, f.ticket ≠ k := by
    intro f hf heq
    have hnodup := (List.nodup_cons.mp (hF.perm hold).tickets).1
    exact hnodup (List.mem_map.mpr ⟨f, hf, heq⟩)
  have hlt : k < F.tickets := hF.lt ⟨k, e, stage⟩ ((hmem _).mpr (.inl rfl))
  have hnone : ∀ k', gateNotices k' es = 0 :=
    fun k' => List.countP_eq_zero.mpr fun b hb => by simp [hgate b hb k']
  refine ⟨fun f hf => ?_, fun k' hk' hall => ?_, fun f hf hwaiting => ?_, fun k' => ?_,
    fun k' hk' => ?_, order_append h.order hgate⟩
  · rw [settlements_append, (honly _ (hne f hf)).1, h.live f ((hmem f).mpr (.inr hf))]
    rfl
  · rw [settlements_append]
    by_cases hk : k' = k
    · exact hk ▸ hsettled
    · rw [(honly _ hk).1, h.gone k' hk' fun f hf => ?_]
      rcases (hmem f).mp hf with rfl | hf
      · exact Ne.symm hk
      · exact hall f hf
  · rw [gateNotices_append, hnone, h.waiting f ((hmem f).mpr (.inr hf)) hwaiting]
  · rw [gateNotices_append, hnone]
    exact h.gate k'
  · obtain ⟨hs, hg⟩ := h.fresh k' hk'
    have hk : k' ≠ k := fun heq => absurd hk' (by simp [heq, hlt])
    rw [settlements_append, gateNotices_append, hs, hg, (honly _ hk).1, hnone]
    exact ⟨rfl, rfl⟩

/-- A bundle that is queued starts without events. -/
lemma Accounts.issue {e : Entry} {live : List Flight} {inFlight : List Cid} (h : F.Accounts log)
    (hnew : live.Perm (⟨F.tickets, e, .waiting⟩ :: F.live)) :
    (⟨live, inFlight, F.tickets + 1⟩ : Flights).Accounts log := by
  have hmem : ∀ f, f ∈ live ↔ f = ⟨F.tickets, e, .waiting⟩ ∨ f ∈ F.live :=
    fun f => hnew.mem_iff.trans List.mem_cons
  obtain ⟨hs, hg⟩ := h.fresh F.tickets le_rfl
  refine ⟨fun f hf => ?_, fun k hk hall => ?_, fun f hf hwaiting => ?_, h.gate,
    fun k hk => h.fresh k (Nat.le_of_succ_le hk), h.order⟩
  · rcases (hmem f).mp hf with rfl | hf
    · simpa using hs
    · exact h.live f hf
  · have hk' : k ≠ F.tickets := fun heq => hall _ ((hmem _).mpr (.inl rfl)) heq.symm
    exact h.gone k (by simp at hk; omega) fun f hf => hall f ((hmem f).mpr (.inr hf))
  · rcases (hmem f).mp hf with rfl | hf
    · exact hg
    · exact h.waiting f hf hwaiting

/-- **Every move keeps the log in order.** -/
theorem Accounts.move (hF : F.Distinct) (h : F.Accounts log) (hmove : F.Move Q es F') :
    F'.Accounts (log ++ es) := by
  cases hmove with
  | shuffle hperm =>
      rw [List.append_nil]
      exact ⟨fun f hf => h.live f (hperm.mem_iff.mpr hf),
        fun k hk hall => h.gone k hk fun f hf => hall f (hperm.mem_iff.mp hf),
        fun f hf => h.waiting f (hperm.mem_iff.mpr hf), h.gate, h.fresh, h.order⟩
  | fail =>
      have hnone : ∀ k, settlements k [.error] = 0 ∧ gateNotices k [.error] = 0 :=
        fun k => ⟨rfl, rfl⟩
      refine ⟨fun f hf => ?_, fun k hk hall => ?_, fun f hf hwaiting => ?_, fun k => ?_,
        fun k hk => ?_, order_append h.order (by simp [DrainEvent.verifiesGate])⟩
      · rw [settlements_append, (hnone _).1]
        exact h.live f hf
      · rw [settlements_append, (hnone _).1]
        exact h.gone k hk hall
      · rw [gateNotices_append, (hnone _).2]
        exact h.waiting f hf hwaiting
      · rw [gateNotices_append, (hnone _).2]
        exact h.gate k
      · rw [settlements_append, gateNotices_append, (hnone _).1, (hnone _).2]
        exact h.fresh k hk
  | issue _ _ hnew =>
      rw [List.append_nil]
      exact h.issue hnew
  | @notify k e rest live hold hnew =>
      have hin : (⟨k, e, .waiting⟩ : Flight) ∈ F.live := hold.mem_iff.mpr List.mem_cons_self
      have hsettled : settlements k log = 0 := by simpa using h.live _ hin
      have hgate : gateNotices k log = 0 := h.waiting _ hin rfl
      refine h.restage hF hold hnew (by simp) (only_told k [.gateVerified e]) ?_ ?_
        (order_notify h.order hsettled)
      · rw [hsettled]
        simp [settlements, DrainEvent.settles]
      · rw [hgate]
        simp [gateNotices, DrainEvent.verifiesGate]
  | @reject k e stage verdict rest live hstage hold hnew =>
      have hin : (⟨k, e, stage⟩ : Flight) ∈ F.live := hold.mem_iff.mpr List.mem_cons_self
      have hsettled : settlements k log = 0 := by simpa [hstage] using h.live _ hin
      refine h.restage hF hold hnew (by simp)
        (only_told k [.cached e (.error verdict), .evicted e verdict]) ?_ ?_
        (order_append h.order (by simp [DrainEvent.verifiesGate]))
      · rw [hsettled]
        simp [settlements, DrainEvent.settles]
      · simpa [gateNotices, DrainEvent.verifiesGate] using h.gate k
  | @evict k e stage verdict rest live hstage hold hnew =>
      have hin : (⟨k, e, stage⟩ : Flight) ∈ F.live := hold.mem_iff.mpr List.mem_cons_self
      have hsettled : settlements k log = 0 := by simpa [hstage] using h.live _ hin
      refine h.restage hF hold hnew (by simp) (only_told k [.evicted e verdict]) ?_ ?_
        (order_append h.order (by simp [DrainEvent.verifiesGate]))
      · rw [hsettled]
        simp [settlements, DrainEvent.settles]
      · simpa [gateNotices, DrainEvent.verifiesGate] using h.gate k
  | @resolve k e rest live hold hnew =>
      have hin : (⟨k, e, .notified⟩ : Flight) ∈ F.live := hold.mem_iff.mpr List.mem_cons_self
      have hsettled : settlements k log = 0 := by simpa using h.live _ hin
      cases carriesName e.bundle with
      | true =>
          refine h.restage hF hold hnew (by simp) (only_told k [.nameResolved e]) ?_ ?_
            (order_append h.order (by simp [DrainEvent.verifiesGate]))
          · rw [hsettled]
            simp [settlements, DrainEvent.settles]
          · simpa [gateNotices, DrainEvent.verifiesGate] using h.gate k
      | false =>
          refine h.restage hF hold hnew (by simp) (only_told k []) ?_ (h.gate k)
            (order_append h.order (by simp))
          rw [hsettled]
          rfl
  | @confirm names k e rest hold =>
      have hin : (⟨k, e, .resolved⟩ : Flight) ∈ F.live := hold.mem_iff.mpr List.mem_cons_self
      have hsettled : settlements k log = 0 := by simpa using h.live _ hin
      refine h.leave hF hold (only_told k [.cached e (.ok names)]) ?_
        (by simp [DrainEvent.verifiesGate])
      rw [hsettled]
      simp [settlements, DrainEvent.settles]
  | @settle k e rest hold =>
      have hin : (⟨k, e, .evicted⟩ : Flight) ∈ F.live := hold.mem_iff.mpr List.mem_cons_self
      have hsettled : settlements k log = 1 := by simpa using h.live _ hin
      exact h.leave hF hold (only_told k []) (by rw [hsettled]; rfl) (by simp)

end Flights

namespace Drain

/-- One step, with the log of what happened so far. -/
def logStep (d : VerifierDeps) (graceMs : ℕ) (s : Drain × List DrainEvent) (i : DrainInput) :
    Option (Drain × List DrainEvent) :=
  (step d graceMs s.1 i).map fun r => (r.1, s.2 ++ r.2)

/-- The bundles the verifier still owes a verdict: those in the queue and the unfinished items of
the running round. -/
def owed (s : Drain) : List Ticketed := s.queue ++ s.phase.items

/-- Nothing is lost and everything is settled once. -/
structure Sound (s : Drain) (log : List DrainEvent) : Prop where
  /-- the addresses held as in flight are those owed a verdict, once each -/
  inFlight : ∀ c, c ∈ s.inFlight ↔ ∃ t ∈ s.owed, t.cid = c
  distinct : (s.owed.map (·.cid)).Nodup
  /-- one eviction or one cached valid verdict for each enqueue -/
  settled : ∀ k, settlements k log ≤ 1
  /-- what is not owed a verdict any more has got one -/
  kept : ∀ k < s.tickets, (∃ t ∈ s.owed, t.ticket = k) ∨ settlements k log = 1
  gate : ∀ k, gateNotices k log ≤ 1
  order : log.Pairwise fun a b => ∀ k, a.evicts k = true → b.verifiesGate k = false

/-- The abstract model sees every bundle that is owed a verdict. -/
lemma map_flights (s : Drain) :
    s.flights.live.map (fun f => (f.ticket, f.entry.cid))
      = s.owed.map fun t => (t.ticket, t.cid) := by
  have hmap : (fun f : Flight => (f.ticket, f.entry.cid)) ∘ Ticketed.flight
      = fun t => (t.ticket, t.cid) := rfl
  cases hphase : s.phase with
  | _ => simp [flights, owed, hphase, DrainPhase.flights, DrainPhase.items, hmap, Ticketed.cid]

lemma sound_of_accounts {s : Drain} {log : List DrainEvent} (hF : s.flights.Distinct)
    (h : s.flights.Accounts log) : s.Sound log := by
  have hmap := map_flights s
  have hmem : ∀ k c, (∃ f ∈ s.flights.live, f.ticket = k ∧ f.entry.cid = c) ↔
      ∃ t ∈ s.owed, t.ticket = k ∧ t.cid = c := by
    intro k c
    have hpair : (k, c) ∈ s.flights.live.map (fun f => (f.ticket, f.entry.cid)) ↔
        (k, c) ∈ s.owed.map fun t => (t.ticket, t.cid) := by rw [hmap]
    simpa using hpair
  have hgone : ∀ k < s.tickets, (∃ t ∈ s.owed, t.ticket = k) ∨ settlements k log = 1 := by
    intro k hk
    by_cases hlive : ∃ f ∈ s.flights.live, f.ticket = k
    · obtain ⟨f, hf, hfk⟩ := hlive
      obtain ⟨t, ht, htk, -⟩ := (hmem k f.entry.cid).mp ⟨f, hf, hfk, rfl⟩
      exact .inl ⟨t, ht, htk⟩
    · exact .inr (h.gone k hk fun f hf hfk => hlive ⟨f, hf, hfk⟩)
  refine ⟨fun c => (hF.inFlight c).trans ⟨?_, ?_⟩, ?_, fun k => ?_, hgone, h.gate, h.order⟩
  · rintro ⟨f, hf, hc⟩
    obtain ⟨t, ht, -, htc⟩ := (hmem f.ticket c).mp ⟨f, hf, rfl, hc⟩
    exact ⟨t, ht, htc⟩
  · rintro ⟨t, ht, hc⟩
    obtain ⟨f, hf, -, hfc⟩ := (hmem t.ticket c).mpr ⟨t, ht, rfl, hc⟩
    exact ⟨f, hf, hfc⟩
  · have hcids := congrArg (List.map Prod.snd) hmap
    rw [List.map_map, List.map_map] at hcids
    exact hcids ▸ hF.cids
  · rcases Nat.lt_or_ge k s.tickets with hk | hk
    · by_cases hlive : ∃ f ∈ s.flights.live, f.ticket = k
      · obtain ⟨f, hf, rfl⟩ := hlive
        rw [h.live f hf]
        split_ifs <;> omega
      · exact (h.gone k hk fun f hf hfk => hlive ⟨f, hf, hfk⟩).le
    · rw [(h.fresh k hk).1]
      exact Nat.zero_le _

/-- The invariant of a run. -/
theorem accounts_of_reaches {d : VerifierDeps} {graceMs : ℕ} {s : Drain × List DrainEvent}
    (h : Reaches (logStep d graceMs) (fun s i => callbacksReturn s.1 i) (init, []) s) :
    s.1.flights.Distinct ∧ s.1.flights.Accounts s.2 := by
  have hstart : init.flights.Distinct ∧ init.flights.Accounts [] := by
    refine ⟨⟨fun c => ?_, List.nodup_nil, List.nodup_nil, ?_⟩, ⟨?_, ?_, ?_, fun k => Nat.zero_le _,
      fun k _ => ⟨rfl, rfl⟩, .nil⟩⟩
    all_goals simp [init, flights, DrainPhase.flights, DrainPhase.items]
  refine h.invariant (P := fun s => s.1.flights.Distinct ∧ s.1.flights.Accounts s.2) hstart ?_
  rintro ⟨t, log⟩ i ⟨t', log'⟩ hinv hok hstep
  obtain ⟨⟨t'', es⟩, hmach, heq⟩ := Option.map_eq_some_iff.mp hstep
  obtain ⟨rfl, rfl⟩ := Prod.mk.inj heq
  have hmoves := step_moves (Q := fun _ => True) (fun _ _ => trivial) hok hmach
  exact hmoves.invariant (P := fun F log => F.Distinct ∧ F.Accounts log) hinv
    fun F log es F' hF hmove => ⟨hF.1.move hmove, hF.2.move hF.1 hmove⟩

/-- **In a run in which no callback but `onError` throws, nothing is lost and every enqueued bundle
is settled once**, whatever the order of the calls, the awaits and the failures of reads. -/
theorem drain_sound {d : VerifierDeps} {graceMs : ℕ} {s : Drain × List DrainEvent}
    (h : Reaches (logStep d graceMs) (fun s i => callbacksReturn s.1 i) (init, []) s) :
    s.1.Sound s.2 :=
  sound_of_accounts (accounts_of_reaches h).1 (accounts_of_reaches h).2

/-- A gate that admits. -/
def admitted : GateResult := .leaf 0 (some true) 1 none false

/-- One bundle, enqueued and admitted by the gate; then its callback throws or returns. -/
def oneBundle (throws : Bool) : List DrainInput :=
  [.enqueue 0 [twoKeysEntry], .gates (some fun _ => admitted), .item 0 throws]

/-- A run whose callbacks return, up to the confirmation. -/
def confirmedRun : Option (Drain × List DrainEvent) :=
  runIf (logStep openDeps 0) (fun s i => callbacksReturn s.1 i)
    (oneBundle false ++ [.names (.resolves ∅) false, .confirm]) (init, [])

/-- The state it ends in. -/
def confirmedState : Drain × List DrainEvent := confirmedRun.getD (init, [])

/-- The bundle is settled, once. -/
theorem drain_sound_confirmed :
    settlements 0 confirmedState.2 = 1 ∧ confirmedState.1.Sound confirmedState.2 := by
  have hrun : confirmedRun = some confirmedState := rfl
  exact ⟨rfl, drain_sound (reaches_of_runIf hrun)⟩

/-- A callback that throws takes the bundle out of every list and leaves its address in flight. -/
theorem drain_loses_bundle : ∃ s,
    (oneBundle true).foldlM (logStep openDeps 0) (init, []) = some s
      ∧ s.1.owed = [] ∧ s.1.phase = .idle ∧ s.1.inFlight = [twoKeysEntry.cid]
      ∧ settlements 0 s.2 = 0 ∧ ¬ s.1.Sound s.2 := by
  refine ⟨_, rfl, rfl, rfl, rfl, rfl, fun h => ?_⟩
  obtain ⟨t, ht, -⟩ := (h.inFlight twoKeysEntry.cid).mp List.mem_cons_self
  exact absurd ht List.not_mem_nil

end Drain

end PubsubVoting
