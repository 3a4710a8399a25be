import PubsubVoting.Lib.Transition

/-!
Joining and leaving: the engines of one voter, the count of the joined ones, the fetch responder and
the heartbeat timers.

* `EngineLife`, `Voter.step`: `join()` and `leave()` cut at their awaits, calls of any number
  running at once, and the heartbeat that arms itself again.
* `Voter.InOrder`: no join starts the transport while another join or a leave of the engine is under
  way, and no heartbeat tick outlives its session into the next one.
* `EngineLife.Sound`: what holds of one engine between any two steps of a run in order.
* `lifecycle_orderly`: in a run in order, once all calls have completed, flag, transport, count,
  responder and timers agree.
* `lifecycle_not_orderly`: two joins at once, and a tick that outlives a leave.
-/

namespace PubsubVoting

/-! ### One engine -/

/-- The lifecycle fields of an engine, and how many of its calls await what. -/
structure EngineLife where
  joined : Bool
  /-- the transport it holds, and whether that is started -/
  transport : Option Bool
  /-- `#heartbeatTimer` -/
  heartbeatTimer : Option ℕ
  /-- the timers that will fire -/
  armed : List ℕ
  /-- the heartbeat ticks under way -/
  ticks : ℕ
  /-- the next timer -/
  timers : ℕ
  /-- joins that await `transport.start()` -/
  starting : ℕ
  /-- joins that await what follows it -/
  restoring : ℕ
  /-- leaves that await the snapshot flush -/
  flushing : ℕ
  /-- leaves of a joined engine that await `transport.stop()` -/
  leaving : ℕ
  /-- leaves of an engine that was not joined, at the same await -/
  idling : ℕ
  /-- how often the voter was told it joined, less how often it was told it left -/
  counted : ℤ

/-- What an engine tells its voter. -/
inductive LifeNotice where
  | onTopicJoined
  | onTopicLeft

namespace EngineLife

/-- An engine nobody joined. -/
def init : EngineLife := ⟨false, none, none, [], 0, 0, 0, 0, 0, 0, 0, 0⟩

/-- `#armHeartbeat` -/
def armHeartbeat (l : EngineLife) : EngineLife :=
  { l with
    heartbeatTimer := some l.timers
    armed := l.armed ++ [l.timers]
    timers := l.timers + 1 }

/-- `clearTimeout(#heartbeatTimer)`, and the field with it. -/
def clearHeartbeat (l : EngineLife) : EngineLife :=
  { l with
    armed := match l.heartbeatTimer with
      | none => l.armed
      | some t => l.armed.erase t
    heartbeatTimer := none }

/-- `join()` up to its first await: nothing on a joined engine; else a new transport, which starts
or throws. -/
def join (l : EngineLife) (starts : Bool) : EngineLife :=
  if l.joined then l
  else if starts then { l with transport := some true, starting := l.starting + 1 }
  else { l with transport := some false }

/-- `join()` behind `transport.start()`. -/
def started (l : EngineLife) : EngineLife :=
  { l with
    starting := l.starting - 1
    restoring := l.restoring + 1
    joined := true
    counted := l.counted + 1 }.armHeartbeat

/-- `leave()` from behind the flush to `transport.stop()`. -/
def detach (l : EngineLife) : EngineLife :=
  let l := { l with transport := l.transport.map fun _ => false }
  if l.joined then { l with joined := false, leaving := l.leaving + 1 }
  else { l with idling := l.idling + 1 }

/-- `leave()` up to its first await; the flush is awaited if the snapshot timer was armed. -/
def leave (l : EngineLife) (flush : Bool) : EngineLife :=
  if flush then { l.clearHeartbeat with flushing := l.flushing + 1 } else l.clearHeartbeat.detach

/-- The leaves that await `transport.stop()`, of a joined engine or not. -/
def stopping (l : EngineLife) (wasJoined : Bool) : ℕ := if wasJoined then l.leaving else l.idling

/-- `leave()` behind `transport.stop()`, which returned or threw. -/
def stopped (l : EngineLife) (wasJoined returned : Bool) : EngineLife :=
  let l := if wasJoined then { l with leaving := l.leaving - 1 }
    else { l with idling := l.idling - 1 }
  if returned then
    { l with
      transport := none
      counted := if wasJoined then l.counted - 1 else l.counted }
  else l

/-- The end of a heartbeat tick. -/
def ticked (l : EngineLife) : EngineLife :=
  let l := { l with ticks := l.ticks - 1 }
  if l.heartbeatTimer.isSome then l.armHeartbeat else l

/-- The heartbeat timer chains that are alive: timers that will fire, and ticks that will arm
one. -/
def chains (l : EngineLife) : ℕ :=
  l.armed.length + if l.heartbeatTimer.isSome then l.ticks else 0

/-- No call of the engine is under way. -/
def Quiet (l : EngineLife) : Prop :=
  l.starting = 0 ∧ l.restoring = 0 ∧ l.flushing = 0 ∧ l.leaving = 0 ∧ l.idling = 0

instance : DecidablePred Quiet := fun l => inferInstanceAs (Decidable
  (l.starting = 0 ∧ l.restoring = 0 ∧ l.flushing = 0 ∧ l.leaving = 0 ∧ l.idling = 0))

end EngineLife

/-! ### The voter -/

/-- The engines of a voter by topic, and what it counts. -/
structure Voter (κ : Type) where
  engines : κ → EngineLife
  joinedEngines : ℤ
  responderRegistered : Bool

/-- The next thing to happen, at an engine. -/
inductive LifeInput where
  /-- a call of `join()`; its transport starts or throws -/
  | join (starts : Bool)
  | started
  | restored
  /-- a call of `leave()`; it flushes the snapshot or not -/
  | leave (flush : Bool)
  | flushed
  /-- `transport.stop()` returned or threw -/
  | stopped (wasJoined returned : Bool)
  | fires (timer : ℕ)
  | ticked

/-- One step of an engine and what it tells the voter; `none` where the input does not come. -/
def EngineLife.step (l : EngineLife) : LifeInput → Option (EngineLife × Option LifeNotice)
  | .join starts => some (l.join starts, none)
  | .started => if 0 < l.starting then some (l.started, some .onTopicJoined) else none
  | .restored =>
    if 0 < l.restoring then some ({ l with restoring := l.restoring - 1 }, none) else none
  | .leave flush => some (l.leave flush, none)
  | .flushed =>
    if 0 < l.flushing then some ({ l with flushing := l.flushing - 1 }.detach, none) else none
  | .stopped wasJoined returned =>
    if 0 < l.stopping wasJoined then
      some (l.stopped wasJoined returned,
        if wasJoined && returned then some .onTopicLeft else none)
    else none
  | .fires timer =>
    if timer ∈ l.armed then
      some ({ l with armed := l.armed.erase timer, ticks := l.ticks + 1 }, none)
    else none
  | .ticked => if 0 < l.ticks then some (l.ticked, none) else none

namespace Voter

variable {κ : Type}

/-- A voter whose engines nobody joined. -/
def init : Voter κ := ⟨fun _ => .init, 0, false⟩

/-- `#onTopicJoined`, `#onTopicLeft` -/
def notice (v : Voter κ) : Option LifeNotice → Voter κ
  | none => v
  | some .onTopicJoined =>
    { v with joinedEngines := v.joinedEngines + 1, responderRegistered := true }
  | some .onTopicLeft =>
    { v with
      joinedEngines := v.joinedEngines - 1
      responderRegistered := v.responderRegistered && decide (0 < v.joinedEngines - 1) }

variable [DecidableEq κ]

/-- One step of a voter. -/
def step (v : Voter κ) (i : κ × LifeInput) : Option (Voter κ) :=
  ((v.engines i.1).step i.2).map fun r =>
    { v with engines := Function.update v.engines i.1 r.1 }.notice r.2

end Voter

/-- A step of an engine in order. A join starts no transport while another join awaits its own or a
leave is under way; a leave does not come between a join and its transport; a transport that starts
finds no tick of an earlier session; the transport of a joined engine stops without a throw. -/
def EngineLife.InOrder (l : EngineLife) : LifeInput → Prop
  | .join _ => l.joined = true ∨
      l.starting = 0 ∧ l.flushing = 0 ∧ l.leaving = 0 ∧ l.idling = 0
  | .leave _ => l.starting = 0
  | .started => l.ticks = 0
  | .stopped wasJoined returned => returned = true ∨ wasJoined = false
  | _ => True

instance (l : EngineLife) (i : LifeInput) : Decidable (l.InOrder i) := by
  cases i <;> unfold EngineLife.InOrder <;> infer_instance

/-- A step of a voter in order. -/
def Voter.InOrder {κ : Type} (v : Voter κ) (i : κ × LifeInput) : Prop :=
  (v.engines i.1).InOrder i.2

instance {κ : Type} (v : Voter κ) (i : κ × LifeInput) : Decidable (v.InOrder i) :=
  inferInstanceAs (Decidable ((v.engines i.1).InOrder i.2))

/-- **Flag, transport, count, responder and timers agree.** -/
structure Voter.Orderly {κ : Type} (v : Voter κ) : Prop where
  transport : ∀ e, (v.engines e).joined = true ↔ (v.engines e).transport = some true
  counted : ∀ e, (v.engines e).counted = if (v.engines e).joined then 1 else 0
  total : ∃ joined : Finset κ, (∀ e, e ∈ joined ↔ (v.engines e).joined = true) ∧
    v.joinedEngines = joined.card
  responder : v.responderRegistered = true ↔ ∃ e, (v.engines e).joined = true
  heartbeat : ∀ e, (v.engines e).chains ≤ if (v.engines e).joined then 1 else 0

/-! ### One engine between any two steps -/

/-- What holds of an engine in a run in order. -/
structure EngineLife.Sound (l : EngineLife) : Prop where
  starting : 0 < l.starting → l.starting = 1 ∧ l.joined = false ∧ l.transport = some true ∧
    l.flushing = 0 ∧ l.leaving = 0 ∧ l.idling = 0
  joined : l.joined = true → l.transport = some true ∧ l.leaving = 0 ∧ l.idling = 0
  left : l.joined = false → l.starting = 0 → l.transport ≠ some true
  counted : l.counted = (if l.joined then 1 else 0) + l.leaving
  leaving : l.leaving ≤ 1
  timer : l.heartbeatTimer.isSome → l.joined = true ∧ l.flushing = 0
  armed : ∀ t ∈ l.armed, l.heartbeatTimer = some t
  chain : l.armed.length + l.ticks ≤ 1

namespace EngineLife

variable {l l' : EngineLife} {n : Option LifeNotice}

lemma sound_init : init.Sound where
  starting := fun h => absurd h (lt_irrefl 0)
  joined := fun h => nomatch h
  left := fun _ _ h => nomatch h
  counted := rfl
  leaving := Nat.zero_le 1
  timer := fun h => nomatch h
  armed := fun _ ht => nomatch ht
  chain := Nat.zero_le 1

/-- A cleared heartbeat leaves no timer behind. -/
lemma Sound.clearHeartbeat (h : l.Sound) :
    l.clearHeartbeat.heartbeatTimer = none ∧ l.clearHeartbeat.armed = [] := by
  refine ⟨rfl, ?_⟩
  have hlen := h.chain
  cases htimer : l.heartbeatTimer with
  | none =>
      simp only [EngineLife.clearHeartbeat, htimer]
      refine List.eq_nil_iff_forall_not_mem.mpr fun t ht => ?_
      rw [h.armed t ht] at htimer
      cases htimer
  | some t =>
      simp only [EngineLife.clearHeartbeat, htimer]
      refine List.eq_nil_iff_forall_not_mem.mpr fun t' ht' => ?_
      have hmem := List.mem_of_mem_erase ht'
      have heq : t = t' := Option.some.inj (htimer.symm.trans (h.armed t' hmem))
      subst heq
      -- the timer is armed once
      have hone : l.armed.erase t = [] := by
        rw [← List.length_eq_zero_iff, List.length_erase_of_mem hmem]
        omega
      rw [hone] at ht'
      cases ht'

/-- A new timer where none is left. -/
lemma Sound.armHeartbeat (h : l.Sound) (harmed : l.armed = []) (hticks : l.ticks = 0)
    (hjoined : l.joined = true) (hflushing : l.flushing = 0) : l.armHeartbeat.Sound where
  starting := h.starting
  joined := h.joined
  left := h.left
  counted := h.counted
  leaving := h.leaving
  timer := fun _ => ⟨hjoined, hflushing⟩
  armed := fun t ht => by
    simp only [EngineLife.armHeartbeat, harmed, List.nil_append, List.mem_singleton] at ht
    subst ht
    rfl
  chain := by simp [EngineLife.armHeartbeat, harmed, hticks]

lemma Sound.join (h : l.Sound) {starts : Bool} (horder : l.InOrder (.join starts)) :
    (l.join starts).Sound := by
  rw [EngineLife.join]
  split_ifs with hjoined hstarts
  · exact h
  · -- nothing of the engine is under way
    rw [Bool.not_eq_true] at hjoined
    obtain ⟨hs, hf, hl, hi⟩ := horder.resolve_left (by simp [hjoined])
    exact
      { starting := fun _ => ⟨by simp [hs], hjoined, rfl, hf, hl, hi⟩
        joined := fun h' => Bool.noConfusion (hjoined.symm.trans h')
        left := fun _ h0 => absurd h0 (by simp)
        counted := h.counted
        leaving := h.leaving
        timer := h.timer
        armed := h.armed
        chain := h.chain }
  · rw [Bool.not_eq_true] at hjoined
    obtain ⟨hs, hf, hl, hi⟩ := horder.resolve_left (by simp [hjoined])
    exact
      { starting := fun h0 => by simp only [hs] at h0; omega
        joined := fun h' => Bool.noConfusion (hjoined.symm.trans h')
        left := fun _ _ h' => by cases h'
        counted := h.counted
        leaving := h.leaving
        timer := h.timer
        armed := h.armed
        chain := h.chain }

lemma Sound.started (h : l.Sound) (hstarting : 0 < l.starting) (hticks : l.ticks = 0) :
    l.started.Sound := by
  obtain ⟨hone, hjoined, htransport, hf, hl, hi⟩ := h.starting hstarting
  have harmed : l.armed = [] := by
    refine List.eq_nil_iff_forall_not_mem.mpr fun t ht => ?_
    have := (h.timer (by rw [h.armed t ht]; rfl)).1
    rw [hjoined] at this
    cases this
  have hcounted : l.counted = 0 := by simpa [hjoined, hl] using h.counted
  refine Sound.armHeartbeat ?_ harmed hticks rfl hf
  exact
    { starting := fun h0 => by simp only [hone] at h0; omega
      joined := fun _ => ⟨htransport, hl, hi⟩
      left := fun h0 => nomatch h0
      counted := by simp [hcounted, hl]
      leaving := h.leaving
      timer := fun _ => ⟨rfl, hf⟩
      armed := h.armed
      chain := h.chain }

lemma Sound.restored (h : l.Sound) : ({ l with restoring := l.restoring - 1 } : EngineLife).Sound :=
  ⟨h.starting, h.joined, h.left, h.counted, h.leaving, h.timer, h.armed, h.chain⟩

/-- An engine that leaves, its heartbeat cleared before. -/
lemma Sound.detach (h : l.Sound) (hstarting : l.starting = 0) (htimer : l.heartbeatTimer = none) :
    l.detach.Sound := by
  have hstops : l.transport.map (fun _ => false) ≠ some true := by
    cases l.transport with
    | none => exact fun h => nomatch h
    | some b => simp
  rw [EngineLife.detach]
  cases hjoined : l.joined with
  | true =>
      obtain ⟨-, hl, hi⟩ := h.joined hjoined
      have hcounted : l.counted = 1 := by simpa [hjoined, hl] using h.counted
      simp only [if_true]
      exact
        { starting := fun h0 => by simp only [hstarting] at h0; omega
          joined := fun h' => nomatch h'
          left := fun _ _ => hstops
          counted := by simp [hcounted, hl]
          leaving := by simp [hl]
          timer := fun h' => by simp [htimer] at h'
          armed := h.armed
          chain := h.chain }
  | false =>
      simp only [Bool.false_eq_true, if_false]
      exact
        { starting := fun h0 => by simp only [hstarting] at h0; omega
          joined := fun h' => nomatch h'
          left := fun _ _ => hstops
          counted := by simpa [hjoined] using h.counted
          leaving := h.leaving
          timer := fun h' => by simp [htimer] at h'
          armed := h.armed
          chain := h.chain }

lemma Sound.leave (h : l.Sound) {flush : Bool} (hstarting : l.starting = 0) :
    (l.leave flush).Sound := by
  obtain ⟨htimer, harmed⟩ := h.clearHeartbeat
  have hcleared : l.clearHeartbeat.Sound :=
    { starting := h.starting
      joined := h.joined
      left := h.left
      counted := h.counted
      leaving := h.leaving
      timer := fun h' => by simp [htimer] at h'
      armed := fun t ht => by simp [harmed] at ht
      chain := by
        have := h.chain
        rw [harmed]
        simp only [EngineLife.clearHeartbeat, List.length_nil]
        omega }
  rw [EngineLife.leave]
  split_ifs
  · exact
      { starting := fun h0 => absurd h0 (by
          simp only [EngineLife.clearHeartbeat, hstarting]
          omega)
        joined := hcleared.joined
        left := hcleared.left
        counted := hcleared.counted
        leaving := hcleared.leaving
        timer := fun h' => by simp [htimer] at h'
        armed := hcleared.armed
        chain := hcleared.chain }
  · exact hcleared.detach hstarting htimer

lemma Sound.flushed (h : l.Sound) (hflushing : 0 < l.flushing) :
    ({ l with flushing := l.flushing - 1 } : EngineLife).detach.Sound := by
  have hstarting : l.starting = 0 := by
    by_contra h0
    have := (h.starting (Nat.pos_of_ne_zero h0)).2.2.2.1
    omega
  have htimer : l.heartbeatTimer = none := by
    by_contra hsome
    have := (h.timer (Option.isSome_iff_ne_none.mpr hsome)).2
    omega
  refine Sound.detach ?_ hstarting htimer
  exact
    { starting := fun h0 => by simp only [hstarting] at h0; omega
      joined := h.joined
      left := h.left
      counted := h.counted
      leaving := h.leaving
      timer := fun h' => by simp [htimer] at h'
      armed := h.armed
      chain := h.chain }

lemma Sound.stopped (h : l.Sound) {wasJoined returned : Bool}
    (hcall : 0 < l.stopping wasJoined)
    (horder : l.InOrder (.stopped wasJoined returned)) : (l.stopped wasJoined returned).Sound := by
  have hjoined : l.joined = false := by
    by_contra hj
    obtain ⟨-, hl, hi⟩ := h.joined (Bool.eq_true_of_not_eq_false hj)
    cases wasJoined <;> simp [EngineLife.stopping, hl, hi] at hcall
  have hstarting : l.starting = 0 := by
    by_contra h0
    obtain ⟨-, -, -, -, hl, hi⟩ := h.starting (Nat.pos_of_ne_zero h0)
    cases wasJoined <;> simp [EngineLife.stopping, hl, hi] at hcall
  have hcounted := h.counted
  simp only [hjoined, Bool.false_eq_true, if_false, zero_add] at hcounted
  have hlast := h.leaving
  have htimer : ¬ l.heartbeatTimer.isSome := fun h' =>
    Bool.noConfusion (hjoined.symm.trans (h.timer h').1)
  have hstays : ∀ {m : EngineLife}, m.joined = false → m.starting = 0 → m.transport ≠ some true →
      m.counted = m.leaving → m.leaving ≤ 1 → m.heartbeatTimer = l.heartbeatTimer →
      m.armed = l.armed → m.ticks = l.ticks → m.Sound := by
    intro m hj hs ht hc hl1 htm ha htk
    exact
      { starting := fun h0 => by omega
        joined := fun h' => Bool.noConfusion (hj.symm.trans h')
        left := fun _ _ => ht
        counted := by simp [hj, hc]
        leaving := hl1
        timer := fun h' => absurd (htm ▸ h') htimer
        armed := fun t h' => htm ▸ h.armed t (ha ▸ h')
        chain := by rw [ha, htk]; exact h.chain }
  have hleft := h.left hjoined hstarting
  cases wasJoined with
  | true =>
      obtain rfl : returned = true := horder.resolve_right (fun h => nomatch h)
      simp only [EngineLife.stopping, if_true] at hcall
      refine hstays hjoined hstarting (fun h' => nomatch h') ?_ ?_ rfl rfl rfl
      · simp only [EngineLife.stopped, if_true]
        omega
      · simp only [EngineLife.stopped, if_true]
        omega
  | false =>
      cases returned with
      | true => exact hstays hjoined hstarting (fun h' => nomatch h') hcounted hlast rfl rfl rfl
      | false => exact hstays hjoined hstarting hleft hcounted hlast rfl rfl rfl

lemma Sound.fires (h : l.Sound) {timer : ℕ} (hmem : timer ∈ l.armed) :
    ({ l with armed := l.armed.erase timer, ticks := l.ticks + 1 } : EngineLife).Sound :=
  { h with
    armed := fun t ht => h.armed t (List.mem_of_mem_erase ht)
    chain := by
      have := h.chain
      have hpos := List.length_pos_of_mem hmem
      simp only [List.length_erase_of_mem hmem]
      omega }

lemma Sound.ticked (h : l.Sound) (hticks : 0 < l.ticks) : l.ticked.Sound := by
  have hchain := h.chain
  have hdone : ({ l with ticks := l.ticks - 1 } : EngineLife).Sound :=
    { h with chain := by simp only; omega }
  rw [EngineLife.ticked]
  simp only
  split_ifs with htimer
  · obtain ⟨hjoined, hflushing⟩ := h.timer htimer
    have harmed : l.armed.length = 0 := by omega
    have hlast : l.ticks - 1 = 0 := by omega
    exact hdone.armHeartbeat (List.length_eq_zero_iff.mp harmed) hlast hjoined hflushing
  · exact hdone

/-- **A step in order keeps an engine sound.** -/
theorem Sound.step (h : l.Sound) {i : LifeInput} (horder : l.InOrder i)
    (hstep : l.step i = some (l', n)) : l'.Sound := by
  cases i with
  | join starts =>
      obtain ⟨rfl, -⟩ := Prod.mk.inj (Option.some.inj hstep)
      exact h.join horder
  | started =>
      simp only [EngineLife.step] at hstep
      split_ifs at hstep with hstarting
      obtain ⟨rfl, -⟩ := Prod.mk.inj (Option.some.inj hstep)
      exact h.started hstarting horder
  | restored =>
      simp only [EngineLife.step] at hstep
      split_ifs at hstep
      obtain ⟨rfl, -⟩ := Prod.mk.inj (Option.some.inj hstep)
      exact h.restored
  | leave flush =>
      obtain ⟨rfl, -⟩ := Prod.mk.inj (Option.some.inj hstep)
      exact h.leave horder
  | flushed =>
      simp only [EngineLife.step] at hstep
      split_ifs at hstep with hflushing
      obtain ⟨rfl, -⟩ := Prod.mk.inj (Option.some.inj hstep)
      exact h.flushed hflushing
  | stopped wasJoined returned =>
      simp only [EngineLife.step] at hstep
      split_ifs at hstep with hcall hnotice
      · obtain ⟨rfl, -⟩ := Prod.mk.inj (Option.some.inj hstep)
        exact h.stopped hcall horder
      · obtain ⟨rfl, -⟩ := Prod.mk.inj (Option.some.inj hstep)
        exact h.stopped hcall horder
  | fires timer =>
      simp only [EngineLife.step] at hstep
      split_ifs at hstep with hmem
      obtain ⟨rfl, -⟩ := Prod.mk.inj (Option.some.inj hstep)
      exact h.fires hmem
  | ticked =>
      simp only [EngineLife.step] at hstep
      split_ifs at hstep with hticks
      obtain ⟨rfl, -⟩ := Prod.mk.inj (Option.some.inj hstep)
      exact h.ticked hticks

end EngineLife

/-! ### The voter between any two steps -/

/-- What a notice adds to the count. -/
def LifeNotice.delta : Option LifeNotice → ℤ
  | none => 0
  | some .onTopicJoined => 1
  | some .onTopicLeft => -1

lemma EngineLife.counted_step {l l' : EngineLife} {i : LifeInput} {n : Option LifeNotice}
    (hstep : l.step i = some (l', n)) : l'.counted = l.counted + LifeNotice.delta n := by
  have hdetach : ∀ m : EngineLife, m.detach.counted = m.counted := by
    intro m
    rw [EngineLife.detach]
    simp only
    split_ifs <;> rfl
  cases i with
  | join starts =>
      obtain ⟨rfl, rfl⟩ := Prod.mk.inj (Option.some.inj hstep)
      rw [EngineLife.join]
      split_ifs <;> exact (add_zero _).symm
  | started =>
      simp only [EngineLife.step] at hstep
      split_ifs at hstep
      obtain ⟨rfl, rfl⟩ := Prod.mk.inj (Option.some.inj hstep)
      rfl
  | restored =>
      simp only [EngineLife.step] at hstep
      split_ifs at hstep
      obtain ⟨rfl, rfl⟩ := Prod.mk.inj (Option.some.inj hstep)
      exact (add_zero _).symm
  | leave flush =>
      obtain ⟨rfl, rfl⟩ := Prod.mk.inj (Option.some.inj hstep)
      rw [EngineLife.leave]
      split_ifs
      · exact (add_zero _).symm
      · exact (hdetach _).trans (add_zero _).symm
  | flushed =>
      simp only [EngineLife.step] at hstep
      split_ifs at hstep
      obtain ⟨rfl, rfl⟩ := Prod.mk.inj (Option.some.inj hstep)
      exact (hdetach _).trans (add_zero _).symm
  | stopped wasJoined returned =>
      simp only [EngineLife.step] at hstep
      split_ifs at hstep with hcall hnotice
      · obtain ⟨rfl, rfl⟩ := Prod.mk.inj (Option.some.inj hstep)
        obtain ⟨rfl, rfl⟩ := Bool.and_eq_true_iff.mp hnotice
        rfl
      · obtain ⟨rfl, rfl⟩ := Prod.mk.inj (Option.some.inj hstep)
        cases wasJoined with
        | true =>
            cases returned with
            | true => exact absurd rfl hnotice
            | false => exact (add_zero _).symm
        | false =>
            cases returned with
            | true => exact (add_zero _).symm
            | false => exact (add_zero _).symm
  | fires timer =>
      simp only [EngineLife.step] at hstep
      split_ifs at hstep
      obtain ⟨rfl, rfl⟩ := Prod.mk.inj (Option.some.inj hstep)
      exact (add_zero _).symm
  | ticked =>
      simp only [EngineLife.step] at hstep
      split_ifs at hstep
      obtain ⟨rfl, rfl⟩ := Prod.mk.inj (Option.some.inj hstep)
      rw [EngineLife.ticked]
      simp only
      split_ifs <;> exact (add_zero _).symm

namespace Voter

variable {κ : Type}

/-- What holds of a voter in a run in order. -/
structure Sound (v : Voter κ) : Prop where
  engines : ∀ e, (v.engines e).Sound
  total : ∃ F : Finset κ, (∀ e ∉ F, (v.engines e).counted = 0) ∧
    v.joinedEngines = ∑ e ∈ F, (v.engines e).counted
  responder : v.responderRegistered = true ↔ 0 < v.joinedEngines

lemma sound_init : (init : Voter κ).Sound :=
  ⟨fun _ => EngineLife.sound_init, ⟨∅, fun _ _ => rfl, rfl⟩, by simp [init]⟩

lemma Sound.joinedEngines_nonneg {v : Voter κ} (h : v.Sound) : 0 ≤ v.joinedEngines := by
  obtain ⟨F, -, hF⟩ := h.total
  rw [hF]
  refine Finset.sum_nonneg fun e _ => ?_
  rw [(h.engines e).counted]
  split_ifs <;> omega

@[simp] lemma engines_notice (v : Voter κ) (n : Option LifeNotice) :
    (v.notice n).engines = v.engines := by
  rcases n with _ | _ | _ <;> rfl

lemma joinedEngines_notice (v : Voter κ) (n : Option LifeNotice) :
    (v.notice n).joinedEngines = v.joinedEngines + LifeNotice.delta n := by
  rcases n with _ | _ | _
  · exact (add_zero _).symm
  · rfl
  · rfl

lemma responder_notice {v : Voter κ} (hnonneg : 0 ≤ v.joinedEngines)
    (h : v.responderRegistered = true ↔ 0 < v.joinedEngines) (n : Option LifeNotice) :
    (v.notice n).responderRegistered = true ↔ 0 < (v.notice n).joinedEngines := by
  rcases n with _ | _ | _
  · exact h
  · simp only [notice, true_iff]
    omega
  · simp only [notice, Bool.and_eq_true, decide_eq_true_eq, h]
    omega

variable [DecidableEq κ]

/-- **A step in order keeps a voter sound.** -/
theorem Sound.step {v v' : Voter κ} (h : v.Sound) {i : κ × LifeInput} (horder : v.InOrder i)
    (hstep : v.step i = some v') : v'.Sound := by
  obtain ⟨e, i⟩ := i
  obtain ⟨⟨l, n⟩, hl, rfl⟩ := Option.map_eq_some_iff.mp hstep
  have hcounted := EngineLife.counted_step hl
  refine ⟨fun e' => ?_, ?_, ?_⟩
  · rw [engines_notice]
    by_cases he : e' = e
    · subst he
      simp only [Function.update_self]
      exact (h.engines e').step horder hl
    · simp only [Function.update_of_ne he]
      exact h.engines e'
  · obtain ⟨F, hout, htotal⟩ := h.total
    refine ⟨insert e F, fun e' he' => ?_, ?_⟩
    · obtain ⟨hne, hnot⟩ := not_or.mp (Finset.mem_insert.not.mp he')
      simp only [engines_notice, Function.update_of_ne hne]
      exact hout e' hnot
    · -- only the count of this engine changed
      have hrest : ∑ e' ∈ F.erase e, (Function.update v.engines e l e').counted
          = ∑ e' ∈ F.erase e, (v.engines e').counted := by
        refine Finset.sum_congr rfl fun e' he' => ?_
        rw [Function.update_of_ne (Finset.ne_of_mem_erase he')]
      have hold : ∑ e' ∈ F, (v.engines e').counted
          = (v.engines e).counted + ∑ e' ∈ F.erase e, (v.engines e').counted := by
        by_cases he : e ∈ F
        · exact (Finset.add_sum_erase F (fun e' => (v.engines e').counted) he).symm
        · rw [Finset.erase_eq_of_notMem he, hout e he, zero_add]
      calc (Voter.notice { v with engines := Function.update v.engines e l } n).joinedEngines
          = v.joinedEngines + LifeNotice.delta n := joinedEngines_notice _ n
        _ = l.counted + ∑ e' ∈ F.erase e, (v.engines e').counted := by
            rw [htotal, hold, hcounted]
            ring
        _ = ∑ e' ∈ insert e F, (Function.update v.engines e l e').counted := by
            rw [← Finset.insert_erase (Finset.mem_insert_self e F), Finset.erase_insert_eq_erase,
              Finset.sum_insert (Finset.notMem_erase e F), Function.update_self, hrest]
        _ = _ := by rw [engines_notice]
  · exact responder_notice (v := { v with engines := Function.update v.engines e l })
      h.joinedEngines_nonneg h.responder n

/-- With no call under way a sound voter is orderly. -/
theorem Sound.orderly {v : Voter κ} (h : v.Sound) (hquiet : ∀ e, (v.engines e).Quiet) :
    v.Orderly := by
  have hcounted : ∀ e, (v.engines e).counted = if (v.engines e).joined then 1 else 0 := by
    intro e
    rw [(h.engines e).counted, (hquiet e).2.2.2.1]
    exact add_zero _
  obtain ⟨F, hout, htotal⟩ := h.total
  have hjoined : ∀ e, e ∈ F.filter (fun e => (v.engines e).joined = true) ↔
      (v.engines e).joined = true := by
    intro e
    rw [Finset.mem_filter, and_iff_right_iff_imp]
    intro hj
    by_contra hnot
    have := hout e hnot
    rw [hcounted, if_pos hj] at this
    cases this
  have hcard : v.joinedEngines = (F.filter fun e => (v.engines e).joined = true).card := by
    rw [htotal, Finset.card_filter]
    push_cast
    exact Finset.sum_congr rfl fun e _ => hcounted e
  exact
    { transport := fun e => ⟨fun hj => ((h.engines e).joined hj).1, fun ht => by
        by_contra hj
        exact (h.engines e).left (Bool.eq_false_of_not_eq_true hj) (hquiet e).1 ht⟩
      counted := hcounted
      total := ⟨_, hjoined, hcard⟩
      responder := by
        rw [h.responder, hcard, Nat.cast_pos, Finset.card_pos]
        exact exists_congr hjoined
      heartbeat := fun e => by
        have hchain := (h.engines e).chain
        have htimer := (h.engines e).timer
        have harmed := (h.engines e).armed
        rw [EngineLife.chains]
        cases hsome : (v.engines e).heartbeatTimer with
        | none =>
            have hnil : (v.engines e).armed = [] := by
              refine List.eq_nil_iff_forall_not_mem.mpr fun t ht => ?_
              rw [harmed t ht] at hsome
              cases hsome
            simp [hnil]
        | some t =>
            rw [if_pos (htimer (by rw [hsome]; rfl)).1]
            simpa using hchain }

end Voter

/-- **In a run in order, join and leave leave nothing behind.** Once all calls have completed, each
engine is joined exactly if it holds a started transport and exactly if it is counted once, the
responder is registered exactly if some engine is joined, and each engine has one heartbeat timer
chain at most, and none unless it is joined. -/
theorem lifecycle_orderly {κ : Type} [DecidableEq κ] {v : Voter κ}
    (h : Reaches Voter.step Voter.InOrder Voter.init v) (hquiet : ∀ e, (v.engines e).Quiet) :
    v.Orderly :=
  (h.invariant (P := Voter.Sound) Voter.sound_init
    fun _ _ _ hs horder hstep => hs.step horder hstep).orderly hquiet

/-- Two contests are joined; one beats once, is left with a flush, and is joined again. -/
def rejoined : List (Bool × LifeInput) :=
  [(true, .join true), (true, .started), (false, .join true), (false, .started), (true, .restored),
    (false, .restored), (true, .fires 0), (true, .ticked), (true, .leave true), (true, .flushed),
    (true, .stopped true true), (true, .join true), (true, .started), (true, .restored)]

/-- Behind them both contests are joined, and the voter is orderly. -/
theorem lifecycle_orderly_rejoined : ∃ v : Voter Bool, v.joinedEngines = 2 ∧ v.Orderly := by
  have heval : (runIf Voter.step Voter.InOrder rejoined Voter.init).map (fun v =>
      (v.joinedEngines, decide (∀ e, (v.engines e).Quiet))) = some (2, true) := by decide +kernel
  obtain ⟨v, hv, heval⟩ := Option.map_eq_some_iff.mp heval
  obtain ⟨hcount, hquiet⟩ := Prod.mk.inj heval
  exact ⟨v, hcount, lifecycle_orderly (reaches_of_runIf hv) (of_decide_eq_true hquiet)⟩

/-! ### Calls that overlap, and a tick that comes late -/

/-- Two publishes join a contest at once. -/
def twoJoins : List (Unit × LifeInput) :=
  [((), .join true), ((), .join true), ((), .started), ((), .started), ((), .restored),
    ((), .restored)]

/-- A heartbeat tick awaits the head while the contest is left and joined again. -/
def lateTick : List (Unit × LifeInput) :=
  [((), .join true), ((), .started), ((), .restored), ((), .fires 0), ((), .leave false),
    ((), .stopped true true), ((), .join true), ((), .started), ((), .restored), ((), .ticked)]

/-- **Out of order the voter loses count**: two joins at once are counted twice, and a tick that
outlives its session leaves a second timer chain although no two calls overlap. -/
theorem lifecycle_not_orderly :
    (∃ v : Voter Unit, Reaches Voter.step (fun _ _ => True) Voter.init v ∧
      (∀ e, (v.engines e).Quiet) ∧ v.joinedEngines = 2 ∧ ¬ v.Orderly) ∧
    ∃ v : Voter Unit, Reaches Voter.step (fun _ _ => True) Voter.init v ∧
      (∀ e, (v.engines e).Quiet) ∧ (v.engines ()).chains = 2 ∧ ¬ v.Orderly := by
  constructor
  · have heval : (runIf Voter.step (fun _ _ => True) twoJoins Voter.init).map (fun v =>
        (v.joinedEngines, (v.engines ()).counted, decide (∀ e, (v.engines e).Quiet)))
        = some (2, 2, true) := by decide +kernel
    obtain ⟨v, hv, heval⟩ := Option.map_eq_some_iff.mp heval
    simp only [Prod.mk.injEq, decide_eq_true_eq] at heval
    obtain ⟨hcount, hcounted, hquiet⟩ := heval
    refine ⟨v, reaches_of_runIf hv, hquiet, hcount, fun horderly => ?_⟩
    have hone := horderly.counted ()
    rw [hcounted] at hone
    split_ifs at hone <;> omega
  · have heval : (runIf Voter.step (fun _ _ => True) lateTick Voter.init).map (fun v =>
        ((v.engines ()).chains, decide (∀ e, (v.engines e).Quiet))) = some (2, true) := by
      decide +kernel
    obtain ⟨v, hv, heval⟩ := Option.map_eq_some_iff.mp heval
    obtain ⟨hchains, hquiet⟩ := Prod.mk.inj heval
    refine ⟨v, reaches_of_runIf hv, of_decide_eq_true hquiet, hchains, fun horderly => ?_⟩
    have hone := horderly.heartbeat ()
    rw [hchains] at hone
    split_ifs at hone <;> omega

end PubsubVoting
