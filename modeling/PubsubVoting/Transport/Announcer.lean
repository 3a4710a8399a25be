import PubsubVoting.Lib.Transition

/-!
The announcer of provider records on Node (`transport/announce/node.ts`): timers that trigger
announces, and one announce at a time, which runs again for triggers that came in meanwhile.

* `Announcer.step`: `makeAnnouncer` cut at its awaits: the keys, the signature, the requests to the
  routers; a failure hook may throw.
* `Announcer.Sound`: the timers follow `started`, and `running` is the announce under way.
* `Announcer.Covered`: an announce began after the last change, or a trigger for one is set.
* `announcer_covers`: between a change and the next stop every change is covered, announces do not
  overlap, and there is at most one for each firing of a timer.
-/

namespace PubsubVoting

/-! ### The machine -/

/-- What an announce awaits; the requests are counted down. -/
inductive AnnouncePhase
  | keys
  | signing
  | requests (left : ℕ)

/-- A pass of `announceNow`'s loop, with the number of changes when it asked for the keys. -/
structure AnnouncePass where
  since : ℕ
  phase : AnnouncePhase

/-- The closure of `makeAnnouncer`. -/
structure Announcer where
  started : Bool
  intervalTimer : Bool
  debounceTimer : Bool
  running : Bool
  rerun : Bool
  /-- the calls of `announceNow` that are in their loop -/
  passes : List AnnouncePass
  /-- the changes notified while it was started -/
  changes : ℕ
  /-- the latest start of a pass that has ended -/
  ended : Option ℕ
  /-- how many passes have begun -/
  begun : ℕ
  /-- how often a timer has fired -/
  fired : ℕ

/-- What happens next. -/
inductive AnnouncerInput
  | start
  | stop
  | notifyChange
  | intervalFires
  | debounceFires
  /-- the keys are there; `announces` is whether there are any, and an address -/
  | keys (i : ℕ) (announces : Bool)
  | keysThrew (i : ℕ)
  | signed (i : ℕ)
  /-- the signer throws, which is reported for every router; a report may throw -/
  | signThrew (i : ℕ) (threw : Bool)
  /-- a request is through, or its failure is reported; the report may throw -/
  | requested (i : ℕ) (threw : Bool)

namespace Announcer

/-- Just made. -/
def init : Announcer := ⟨false, false, false, false, false, [], 0, none, 0, 0⟩

variable (routers : ℕ) (s : Announcer)

/-- A pass begins: it asks for the keys. -/
def pass : AnnouncePass := ⟨s.changes, .keys⟩

/-- `announceNow` -/
def announceNow : Announcer :=
  if s.running then { s with rerun := true }
  else
    { s with
      running := true
      rerun := false
      passes := s.passes ++ [s.pass]
      begun := s.begun + 1 }

/-- The foot of the loop, where a pass has ended. -/
def again (i : ℕ) (p : AnnouncePass) : Announcer :=
  let s := { s with ended := some (max (s.ended.getD 0) p.since) }
  if s.rerun then
    { s with rerun := false, passes := s.passes.set i s.pass, begun := s.begun + 1 }
  else { s with running := false, passes := s.passes.eraseIdx i }

/-- The loop is left by a throw. -/
def leave (i : ℕ) (p : AnnouncePass) : Announcer :=
  { s with
    ended := some (max (s.ended.getD 0) p.since)
    running := false
    passes := s.passes.eraseIdx i }

/-- A pass goes on. -/
def put (i : ℕ) (p : AnnouncePass) (phase : AnnouncePhase) : Announcer :=
  { s with passes := s.passes.set i { p with phase := phase } }

/-- The requests that are left, if any. -/
def await (i : ℕ) (p : AnnouncePass) (left : ℕ) : Announcer :=
  if left = 0 then s.again i p else s.put i p (.requests left)

/-- One event. The other requests of a pass that a report has thrown out of settle unheard. -/
def step : AnnouncerInput → Option Announcer
  | .start => some (if s.started then s else { s with started := true, intervalTimer := true })
  | .stop =>
      some (if s.started then
        { s with started := false, intervalTimer := false, debounceTimer := false }
      else s)
  | .notifyChange =>
      some (if s.started then { s with changes := s.changes + 1, debounceTimer := true } else s)
  | .intervalFires =>
      if s.intervalTimer then some { s with fired := s.fired + 1 }.announceNow else none
  | .debounceFires =>
      if s.debounceTimer then
        some { s with debounceTimer := false, fired := s.fired + 1 }.announceNow
      else none
  | .keys i announces =>
      match s.passes[i]? with
      | some ⟨since, .keys⟩ =>
          some (if announces then s.put i ⟨since, .keys⟩ .signing else s.again i ⟨since, .keys⟩)
      | _ => none
  | .keysThrew i =>
      match s.passes[i]? with
      | some ⟨since, .keys⟩ => some (s.leave i ⟨since, .keys⟩)
      | _ => none
  | .signed i =>
      match s.passes[i]? with
      | some ⟨since, .signing⟩ => some (s.await i ⟨since, .signing⟩ routers)
      | _ => none
  | .signThrew i threw =>
      match s.passes[i]? with
      | some ⟨since, .signing⟩ =>
          some (if threw then s.leave i ⟨since, .signing⟩ else s.again i ⟨since, .signing⟩)
      | _ => none
  | .requested i threw =>
      match s.passes[i]? with
      | some ⟨since, .requests left⟩ =>
          some (if threw then s.leave i ⟨since, .requests left⟩
            else s.await i ⟨since, .requests left⟩ (left - 1))
      | _ => none

/-- The announcer is not stopped, and nothing throws out of an announce that is to run again. -/
def Undisturbed : AnnouncerInput → Prop
  | .stop => False
  | .keysThrew _ | .signThrew _ true | .requested _ true => s.rerun = false
  | _ => True

/-- The timers follow `started`, there is one pass at most, which is what `running` says, and every
pass has its firing. -/
structure Sound : Prop where
  interval : s.intervalTimer = s.started
  debounce : s.debounceTimer = true → s.started = true
  running : s.passes.length = if s.running then 1 else 0
  since : ∀ p ∈ s.passes, p.since ≤ s.changes
  begun : s.begun + (if s.running && s.rerun then 1 else 0) ≤ s.fired

/-- A pass began after the first `n` changes and has ended or is under way, or one will begin. -/
def CoveredTo (n : ℕ) : Prop :=
  (∃ e ∈ s.ended, n ≤ e) ∨ (∃ p ∈ s.passes, n ≤ p.since) ∨ s.debounceTimer = true ∨
    s.running = true ∧ s.rerun = true

/-! ### What every event keeps -/

variable {routers s} {i : ℕ} {p : AnnouncePass}

/-- A pass that is under way is the only one. -/
lemma Sound.single (h : s.Sound) (hp : s.passes[i]? = some p) :
    s.running = true ∧ s.passes = [p] ∧ i = 0 := by
  obtain ⟨hi, hget⟩ := List.getElem?_eq_some_iff.mp hp
  have hlength := h.running
  split_ifs at hlength with hrunning
  · obtain ⟨q, hq⟩ := List.length_eq_one_iff.mp hlength
    have hzero : i = 0 := by omega
    subst hzero
    refine ⟨hrunning, ?_, rfl⟩
    simp only [hq, List.getElem_cons_zero] at hget
    rw [hq, hget]
  · omega

lemma Sound.put (h : s.Sound) (hp : s.passes[i]? = some p) (phase : AnnouncePhase) :
    (s.put i p phase).Sound := by
  obtain ⟨hrunning, hpasses, rfl⟩ := h.single hp
  refine ⟨h.interval, h.debounce, ?_, ?_, h.begun⟩
  · rw [Announcer.put, List.length_set]
    exact h.running
  · intro q hq
    rw [Announcer.put, hpasses] at hq
    obtain rfl := List.mem_singleton.mp hq
    exact h.since p (List.mem_of_getElem? hp)

lemma Sound.again (h : s.Sound) (hp : s.passes[i]? = some p) : (s.again i p).Sound := by
  obtain ⟨hrunning, hpasses, rfl⟩ := h.single hp
  have hbegun := h.begun
  rw [Announcer.again]
  dsimp only
  split_ifs with hrerun
  · rw [hrunning, hrerun] at hbegun
    refine ⟨h.interval, h.debounce, ?_, ?_, ?_⟩
    · rw [List.length_set]
      exact h.running
    · intro q hq
      rw [hpasses] at hq
      obtain rfl := List.mem_singleton.mp hq
      exact le_rfl
    · simpa using hbegun
  · refine ⟨h.interval, h.debounce, ?_, ?_, (Nat.le_add_right _ _).trans hbegun⟩
    · simp [hpasses]
    · simp [hpasses]

lemma Sound.leave (h : s.Sound) (hp : s.passes[i]? = some p) : (s.leave i p).Sound := by
  obtain ⟨hrunning, hpasses, rfl⟩ := h.single hp
  refine ⟨h.interval, h.debounce, ?_, ?_, (Nat.le_add_right _ _).trans h.begun⟩
  · simp [Announcer.leave, hpasses]
  · simp [Announcer.leave, hpasses]

/-- A trigger begins a pass or sets `rerun`. -/
lemma Sound.announceNow (h : s.Sound) (debounceTimer : Bool)
    (hdebounce : debounceTimer = true → s.debounceTimer = true) :
    ({ s with debounceTimer := debounceTimer, fired := s.fired + 1 } :
      Announcer).announceNow.Sound := by
  have hbegun := h.begun
  have hlength := h.running
  rw [Announcer.announceNow]
  dsimp only
  split_ifs with hrunning
  · refine ⟨h.interval, fun hd => h.debounce (hdebounce hd), h.running, h.since, ?_⟩
    split_ifs at hbegun ⊢ <;> dsimp only <;> omega
  · rw [if_neg hrunning] at hlength
    have hnil : s.passes = [] := List.length_eq_zero_iff.mp hlength
    refine ⟨h.interval, fun hd => h.debounce (hdebounce hd), ?_, ?_, ?_⟩
    · simp [hnil]
    · intro q hq
      rw [hnil] at hq
      obtain rfl := List.mem_singleton.mp hq
      exact le_rfl
    · show s.begun + 1 + 0 ≤ s.fired + 1
      split_ifs at hbegun <;> omega

/-- What an event can do: the timers alone change, a change is noted, a timer fires, or a pass goes
on, ends, or is thrown out of. -/
lemma step_cases {e : AnnouncerInput} {t : Announcer} (hstep : s.step routers e = some t) :
    t = s ∨ t = { s with started := true, intervalTimer := true } ∨
    e = .stop ∧ t = { s with started := false, intervalTimer := false, debounceTimer := false } ∨
    s.started = true ∧ t = { s with changes := s.changes + 1, debounceTimer := true } ∨
    (∃ debounceTimer, (debounceTimer = true → s.debounceTimer = true) ∧
      t = { s with debounceTimer := debounceTimer, fired := s.fired + 1 }.announceNow) ∨
    ∃ i p, s.passes[i]? = some p ∧ ((∃ phase, t = s.put i p phase) ∨ t = s.again i p ∨
      t = s.leave i p ∧ (s.Undisturbed e → s.rerun = false)) := by
  have hawait : ∀ {i p} left, s.passes[i]? = some p →
      ∃ i' p', s.passes[i']? = some p' ∧ ((∃ phase, s.await i p left = s.put i' p' phase) ∨
        s.await i p left = s.again i' p' ∨
        s.await i p left = s.leave i' p' ∧ (s.Undisturbed e → s.rerun = false)) := by
    intro i p left hp
    rw [await]
    split_ifs
    · exact ⟨i, p, hp, .inr (.inl rfl)⟩
    · exact ⟨i, p, hp, .inl ⟨_, rfl⟩⟩
  cases e with
  | start =>
      obtain rfl := Option.some.inj hstep
      split_ifs
      · exact .inl rfl
      · exact .inr (.inl rfl)
  | stop =>
      obtain rfl := Option.some.inj hstep
      split_ifs
      · exact .inr (.inr (.inl ⟨rfl, rfl⟩))
      · exact .inl rfl
  | notifyChange =>
      obtain rfl := Option.some.inj hstep
      split_ifs with hstarted
      · exact .inr (.inr (.inr (.inl ⟨hstarted, rfl⟩)))
      · exact .inl rfl
  | intervalFires =>
      rw [Announcer.step] at hstep
      split_ifs at hstep
      obtain rfl := Option.some.inj hstep
      exact .inr (.inr (.inr (.inr (.inl ⟨s.debounceTimer, id, rfl⟩))))
  | debounceFires =>
      rw [Announcer.step] at hstep
      split_ifs at hstep
      obtain rfl := Option.some.inj hstep
      exact .inr (.inr (.inr (.inr (.inl ⟨false, fun hd => absurd hd Bool.false_ne_true, rfl⟩))))
  | keys i announces =>
      rw [Announcer.step] at hstep
      split at hstep
      next since hp =>
        obtain rfl := Option.some.inj hstep
        refine .inr (.inr (.inr (.inr (.inr ⟨i, _, hp, ?_⟩))))
        split_ifs
        · exact .inl ⟨_, rfl⟩
        · exact .inr (.inl rfl)
      next => cases hstep
  | keysThrew i =>
      rw [Announcer.step] at hstep
      split at hstep
      next since hp =>
        obtain rfl := Option.some.inj hstep
        exact .inr (.inr (.inr (.inr (.inr ⟨i, _, hp, .inr (.inr ⟨rfl, id⟩)⟩))))
      next => cases hstep
  | signed i =>
      rw [Announcer.step] at hstep
      split at hstep
      next since hp =>
        obtain rfl := Option.some.inj hstep
        exact .inr (.inr (.inr (.inr (.inr (hawait routers hp)))))
      next => cases hstep
  | signThrew i threw =>
      rw [Announcer.step] at hstep
      split at hstep
      next since hp =>
        obtain rfl := Option.some.inj hstep
        refine .inr (.inr (.inr (.inr (.inr ⟨i, _, hp, ?_⟩))))
        cases threw with
        | false => exact .inr (.inl rfl)
        | true => exact .inr (.inr ⟨rfl, id⟩)
      next => cases hstep
  | requested i threw =>
      rw [Announcer.step] at hstep
      split at hstep
      next since left hp =>
        obtain rfl := Option.some.inj hstep
        cases threw with
        | false => exact .inr (.inr (.inr (.inr (.inr (hawait (left - 1) hp)))))
        | true => exact .inr (.inr (.inr (.inr (.inr ⟨i, _, hp, .inr (.inr ⟨rfl, id⟩)⟩))))
      next => cases hstep

/-- An event keeps the announcer sound. -/
lemma Sound.step (h : s.Sound) {e : AnnouncerInput} {t : Announcer}
    (hstep : s.step routers e = some t) : t.Sound := by
  rcases step_cases hstep with rfl | rfl | ⟨-, rfl⟩ | ⟨hstarted, rfl⟩ | ⟨debounceTimer, hd, rfl⟩ |
    ⟨i, p, hp, ⟨phase, rfl⟩ | rfl | ⟨rfl, -⟩⟩
  · exact h
  · exact ⟨rfl, fun _ => rfl, h.running, h.since, h.begun⟩
  · exact ⟨rfl, fun hd => absurd hd Bool.false_ne_true, h.running, h.since, h.begun⟩
  · exact ⟨h.interval, fun _ => hstarted, h.running,
      fun q hq => (h.since q hq).trans (Nat.le_succ _), h.begun⟩
  · exact h.announceNow debounceTimer hd
  · exact h.put hp phase
  · exact h.again hp
  · exact h.leave hp

/-! ### Every change is covered -/

lemma CoveredTo.mono {n m : ℕ} (h : s.CoveredTo n) (hle : m ≤ n) : s.CoveredTo m := by
  rcases h with ⟨e, he, hn⟩ | ⟨q, hq, hn⟩ | h
  · exact .inl ⟨e, he, hle.trans hn⟩
  · exact .inr (.inl ⟨q, hq, hle.trans hn⟩)
  · exact .inr (.inr h)

lemma le_ended {n : ℕ} (h : (∃ e ∈ s.ended, n ≤ e) ∨ n ≤ p.since) :
    n ≤ max (s.ended.getD 0) p.since := by
  rcases h with ⟨e, he, hn⟩ | hn
  · rw [Option.mem_def.mp he]
    exact hn.trans (le_max_left _ _)
  · exact hn.trans (le_max_right _ _)

lemma CoveredTo.put {n : ℕ} (hsound : s.Sound) (h : s.CoveredTo n) (hp : s.passes[i]? = some p)
    (phase : AnnouncePhase) : (s.put i p phase).CoveredTo n := by
  obtain ⟨-, hpasses, rfl⟩ := hsound.single hp
  rcases h with h | ⟨q, hq, hn⟩ | h
  · exact .inl h
  · rw [hpasses] at hq
    obtain rfl := List.mem_singleton.mp hq
    exact .inr (.inl ⟨{ q with phase := phase }, by simp [Announcer.put, hpasses], hn⟩)
  · exact .inr (.inr h)

/-- A pass that ends covers what it covered, and a trigger that was set begins the next one. -/
lemma CoveredTo.again {n : ℕ} (hsound : s.Sound) (h : s.CoveredTo n) (hn : n ≤ s.changes)
    (hp : s.passes[i]? = some p) : (s.again i p).CoveredTo n := by
  obtain ⟨-, hpasses, rfl⟩ := hsound.single hp
  rw [Announcer.again]
  dsimp only
  split_ifs with hrerun
  · exact .inr (.inl ⟨⟨s.changes, .keys⟩, by simp [hpasses, pass], hn⟩)
  · rcases h with h | ⟨q, hq, hnq⟩ | h | ⟨-, hset⟩
    · exact .inl ⟨_, rfl, le_ended (.inl h)⟩
    · rw [hpasses] at hq
      obtain rfl := List.mem_singleton.mp hq
      exact .inl ⟨_, rfl, le_ended (.inr hnq)⟩
    · exact .inr (.inr (.inl h))
    · exact absurd hset hrerun

lemma CoveredTo.leave {n : ℕ} (hsound : s.Sound) (h : s.CoveredTo n) (hrerun : s.rerun = false)
    (hp : s.passes[i]? = some p) : (s.leave i p).CoveredTo n := by
  obtain ⟨-, hpasses, rfl⟩ := hsound.single hp
  rcases h with h | ⟨q, hq, hnq⟩ | h | ⟨-, hset⟩
  · exact .inl ⟨_, rfl, le_ended (.inl h)⟩
  · rw [hpasses] at hq
    obtain rfl := List.mem_singleton.mp hq
    exact .inl ⟨_, rfl, le_ended (.inr hnq)⟩
  · exact .inr (.inr (.inl h))
  · rw [hrerun] at hset
    cases hset

/-- A trigger covers everything so far. -/
lemma covered_announceNow (debounceTimer : Bool) {n : ℕ} (hn : n ≤ s.changes) :
    ({ s with debounceTimer := debounceTimer, fired := s.fired + 1 } :
      Announcer).announceNow.CoveredTo n := by
  rw [Announcer.announceNow]
  dsimp only
  split_ifs with hrunning
  · exact .inr (.inr (.inr ⟨hrunning, rfl⟩))
  · exact .inr (.inl ⟨⟨s.changes, .keys⟩, List.mem_append_right _ (by simp [pass]), hn⟩)

/-- A change arms the timer. -/
lemma covered_notifyChange {t : Announcer} (hstarted : s.started = true)
    (hstep : s.step routers .notifyChange = some t) (n : ℕ) : t.CoveredTo n := by
  obtain rfl := Option.some.inj hstep
  rw [if_pos hstarted]
  exact .inr (.inr (.inl rfl))

/-- All changes so far are covered. -/
def Covered (s : Announcer) : Prop := s.CoveredTo s.changes

/-- An event of an undisturbed run keeps every change covered. -/
lemma Covered.step (hsound : s.Sound) (h : s.Covered) {e : AnnouncerInput} (he : s.Undisturbed e)
    {t : Announcer} (hstep : s.step routers e = some t) : t.Covered := by
  rcases step_cases hstep with rfl | rfl | ⟨rfl, -⟩ | ⟨-, rfl⟩ | ⟨debounceTimer, -, rfl⟩ |
    ⟨i, p, hp, ⟨phase, rfl⟩ | rfl | ⟨rfl, hrerun⟩⟩
  · exact h
  · exact h
  · exact he.elim
  · exact .inr (.inr (.inl rfl))
  · have hchanges : ({ s with debounceTimer := debounceTimer, fired := s.fired + 1 } :
        Announcer).announceNow.changes = s.changes := by
      rw [announceNow]
      dsimp only
      split_ifs <;> rfl
    rw [Covered, hchanges]
    exact covered_announceNow debounceTimer le_rfl
  · exact h.put hsound hp phase
  · have hchanges : (s.again i p).changes = s.changes := by
      rw [again]
      dsimp only
      split_ifs <;> rfl
    rw [Covered, hchanges]
    exact h.again hsound le_rfl hp
  · exact h.leave hsound (hrerun he) hp

instance (s : Announcer) : DecidablePred s.Undisturbed := fun e =>
  match e with
  | .stop => .isFalse id
  | .keysThrew _ | .signThrew _ true | .requested _ true =>
      inferInstanceAs (Decidable (s.rerun = false))
  | .start | .notifyChange | .intervalFires | .debounceFires | .keys _ _ | .signed _
  | .signThrew _ false | .requested _ false => .isTrue trivial

end Announcer

open Announcer in
/-- From a change on that is notified while the announcer is started, in whatever state, and until
it is stopped or something throws out of an announce that is to run again, every change is covered:
an announce that asked for the keys after it has ended or is under way, or a timer or the flag for
one is set. Announces never overlap, there are no more of them than firings of timers, and the
timers are set only while the announcer is started. -/
theorem announcer_covers {routers : ℕ} {s₀ s₁ s : Announcer}
    (h₀ : Reaches (step routers) (fun _ _ => True) init s₀) (hstarted : s₀.started = true)
    (h₁ : s₀.step routers .notifyChange = some s₁) (h : Reaches (step routers) Undisturbed s₁ s) :
    (∀ n ≤ s.changes, (∃ e ∈ s.ended, n ≤ e) ∨ (∃ p ∈ s.passes, n ≤ p.since) ∨
      s.debounceTimer = true ∨ s.running = true ∧ s.rerun = true) ∧
    s.passes.length = (if s.running then 1 else 0) ∧ s.begun ≤ s.fired ∧
    (s.intervalTimer = true ↔ s.started = true) ∧
    (s.debounceTimer = true → s.started = true) := by
  have hsound₀ : s₀.Sound := by
    refine h₀.invariant (P := Announcer.Sound) ?_ fun t i t' ht _ hstep => ht.step hstep
    exact ⟨rfl, fun hd => absurd hd Bool.false_ne_true, rfl,
      fun p hp => (List.not_mem_nil hp).elim, le_rfl⟩
  obtain ⟨hsound, hcovered⟩ : s.Sound ∧ s.Covered := by
    refine h.invariant (P := fun s => s.Sound ∧ s.Covered)
      ⟨hsound₀.step h₁, covered_notifyChange hstarted h₁ _⟩ ?_
    rintro t i t' ⟨hsound, hcovered⟩ hundisturbed hstep
    exact ⟨hsound.step hstep, hcovered.step hsound hundisturbed hstep⟩
  exact ⟨fun n hn => CoveredTo.mono hcovered hn, hsound.running,
    (Nat.le_add_right _ _).trans hsound.begun, by rw [hsound.interval], hsound.debounce⟩

/-- A second change comes in while the announce of the first one is on its way to two routers. -/
def announcedTwice : List AnnouncerInput :=
  [.debounceFires, .keys 0 true, .signed 0, .requested 0 false, .notifyChange, .debounceFires,
    .requested 0 false]

open Announcer in
/-- The announce runs again for the second change. -/
theorem announcer_covers_rerun : ∃ s : Announcer, s.changes = 2 ∧
    ((∃ e ∈ s.ended, 2 ≤ e) ∨ (∃ p ∈ s.passes, 2 ≤ p.since) ∨ s.debounceTimer = true ∨
      s.running = true ∧ s.rerun = true) ∧ s.passes.length = 1 := by
  obtain ⟨s₀, hs₀⟩ : ∃ s, runIf (step 2) (fun _ _ => True) [.start] init = some s := ⟨_, rfl⟩
  have h₀ := reaches_of_runIf hs₀
  obtain rfl := Option.some.inj hs₀
  obtain ⟨s, hs⟩ : ∃ s, runIf (step 2) Undisturbed announcedTwice
      ⟨true, true, true, false, false, [], 1, none, 0, 0⟩ = some s := ⟨_, rfl⟩
  have h := reaches_of_runIf hs
  obtain rfl := Option.some.inj hs
  obtain ⟨hall, hlength, -⟩ := announcer_covers h₀ rfl rfl h
  exact ⟨_, rfl, hall 2 le_rfl, hlength⟩

end PubsubVoting
