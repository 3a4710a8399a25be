import PubsubVoting.Lib.Transition
import PubsubVoting.Rules.Memo
import Mathlib.Order.CompletePartialOrder
import Mathlib.Order.SetNotation

/-!
Runs of a rule: any number of evaluations side by side over caches that share a store.

* `RuleMemory.handle`: what an evaluation is answered, by the caches or by the chain.
* `RuleRuns.step`: an evaluation starts, one is answered, or the store moves on its own.
* `RuleRuns.Inv`, `inv_of_reaches`: if the rule keeps to its contract, the caches stay truthful, and
  every evaluation meets its postcondition, in every run. `logged_of_reaches`: so is everything the
  caches answered, and every purge was one that the rule may ask for.
* `completes`: an evaluation goes on until it has an outcome, and it has one in the end.
-/

namespace PubsubVoting

section

variable {R : Type} (A : R → Type) (Call α : Type)

/-- What evaluations were answered by the chain, each under its number. -/
abbrev Observations : Type := Set (ℕ × Σ r, A r)

/-- What evaluations share: the caches. The observations are kept for the statements. -/
structure RuleMemory where
  caches : RuleCaches
  observed : List (ℕ × Σ r, A r)

/-- An evaluation on a front, as far as it has gone. -/
structure RunningCall where
  call : Call
  front : ℕ
  proc : RuleProc A α

/-- The evaluations of a rule and what they share. -/
structure RuleRuns where
  memory : RuleMemory A
  calls : ℕ → Option (RunningCall A Call α)

/-- One step: an evaluation starts, one is answered at a position, or the store moves. -/
inductive RuleInput where
  | start (k front : ℕ) (call : Call)
  | advance (k : ℕ) (path : List ℕ) (answers : (r : R) → A r)
  | store (e : StoreEvent)

/-- A step whose reads are all answered by one function. -/
inductive ScriptedInput where
  | start (k front : ℕ) (call : Call)
  | advance (k : ℕ) (path : List ℕ)
  | store (e : StoreEvent)

end

/-- Play a step under some answers. -/
def ScriptedInput.play {R : Type} {A : R → Type} {Call : Type} (answers : (r : R) → A r) :
    ScriptedInput Call → RuleInput A Call
  | .start k front call => .start k front call
  | .advance k path => .advance k path answers
  | .store e => .store e

section

variable {R : Type} {A : R → Type} {Call α : Type} (body : Call → RuleProc A α) (maxEntries : ℕ)
  (ns : JsString)

/-- What has been observed. -/
def RuleMemory.seen (m : RuleMemory A) : Observations A := {o | o ∈ m.observed}

/-- Answer what an evaluation asks. -/
def RuleMemory.handle (k front : ℕ) (answers : (r : R) → A r) (m : RuleMemory A) :
    (op : RuleOp R) → RuleOp.Answer A op × RuleMemory A
  | .cache op =>
    let answered := m.caches.handle maxEntries ns front op
    (answered.1, { m with caches := answered.2 })
  | .read r => (answers r, { m with observed := m.observed ++ [(k, ⟨r, answers r⟩)] })

namespace RuleRuns

variable (s : RuleRuns A Call α)

/-- An evaluation has been answered. -/
def moveTo (k : ℕ) (c : RunningCall A Call α) (moved : RuleProc A α × RuleMemory A) :
    RuleRuns A Call α :=
  ⟨moved.2, Function.update s.calls k (some { c with proc := moved.1 })⟩

/-- A step. -/
def step : RuleInput A Call → Option (RuleRuns A Call α)
  | .start k front call =>
    if (s.calls k).isSome then none
    else some { s with calls := Function.update s.calls k (some ⟨call, front, body call⟩) }
  | .advance k path answers => (s.calls k).bind fun c =>
    (c.proc.stepAt (RuleMemory.handle maxEntries ns k c.front answers) s.memory path).map
      (s.moveTo k c)
  | .store e => (s.memory.caches.storeStep e).map fun caches =>
    { s with memory := { s.memory with caches := caches } }

/-- Caches over which nothing is evaluated yet. -/
def onCaches (caches : RuleCaches) : RuleRuns A Call α := ⟨⟨caches, []⟩, fun _ => none⟩

/-- The chain answers a read as it may. -/
def Honest (allowed : (r : R) → A r → Prop) : RuleInput A Call → Prop
  | .advance _ _ answers => ∀ r, allowed r (answers r)
  | _ => True

end RuleRuns

/-- What a read gives an evaluation: the observation, and that the answer is an allowed one. -/
def readsOf (allowed : (r : R) → A r → Prop) (k : ℕ) (w : Observations A) (r : R) (a : A r) :
    Prop :=
  (k, ⟨r, a⟩) ∈ w ∧ allowed r a

/-- What the caches have done was right: what they have answered is true, and a purge in flight was
allowed. -/
structure RuleMemory.Logged (T : CacheTruth (Observations A))
    (mayPurge : ℕ → ℕ → Option JsString → (Observations A →o Prop)) (m : RuleMemory A) : Prop where
  answers : ∀ a ∈ m.caches.answers, ∀ v ∈ a.value, T.holds m.seen a.key a.epoch v
  purges : ∀ task ∈ m.caches.purgeTasks, ∃ k keyPrefix,
    mayPurge k task.epoch keyPrefix m.seen ∧
      task.keyPrefix = RuleCaches.purgePrefix ns keyPrefix

/-- What holds in every run of a rule that keeps to its contract: the caches hold what is true, and
every evaluation keeps to the contract. -/
structure RuleRuns.Inv (T : CacheTruth (Observations A))
    (mayPurge : ℕ → ℕ → Option JsString → (Observations A →o Prop))
    (allowed : (r : R) → A r → Prop) (post : ℕ → Call → Observations A → Option α → Prop)
    (s : RuleRuns A Call α) : Prop where
  truthful : T.Truthful ns s.memory.seen s.memory.caches
  calls : ∀ k c, s.calls k = some c → Proc.Keeps
    (ruleContract T (mayPurge k) (readsOf allowed k)) c.proc (post k c.call) s.memory.seen

end

namespace RuleRuns

section

variable {R : Type} {A : R → Type} {Call α : Type} {body : Call → RuleProc A α} {maxEntries : ℕ}
  {ns : JsString} {T : CacheTruth (Observations A)}
  {mayPurge : ℕ → ℕ → Option JsString → (Observations A →o Prop)}
  {allowed : (r : R) → A r → Prop} {post : ℕ → Call → Observations A → Option α → Prop}
  {s t : RuleRuns A Call α}

/-- The observations grow. -/
lemma seen_le_handle (maxEntries : ℕ) (ns : JsString) (k front : ℕ) (answers : (r : R) → A r)
    (m : RuleMemory A) (op : RuleOp R) :
    m.seen ≤ (m.handle maxEntries ns k front answers op).2.seen := by
  cases op with
  | cache op => exact le_rfl
  | read r => exact fun o ho => List.mem_append_left _ ho

/-- Truthful caches and an honest chain honour the contract. -/
lemma handle_honours {k front : ℕ} {answers : (r : R) → A r} {m : RuleMemory A}
    (h : T.Truthful ns m.seen m.caches) (hallowed : ∀ r, allowed r (answers r)) (op : RuleOp R) :
    m.seen ≤ (m.handle maxEntries ns k front answers op).2.seen ∧
      (ruleContract T (mayPurge k) (readsOf allowed k)).ok
        (m.handle maxEntries ns k front answers op).2.seen op
        (m.handle maxEntries ns k front answers op).1 := by
  refine ⟨seen_le_handle maxEntries ns k front answers m op, ?_⟩
  cases op with
  | cache op => exact handle_ok h op
  | read r => exact ⟨List.mem_append_right _ (List.mem_singleton.mpr rfl), hallowed r⟩

/-- What an evaluation may ask keeps the caches truthful. -/
lemma truthful_handle {k front : ℕ} {answers : (r : R) → A r} {m : RuleMemory A}
    (h : T.Truthful ns m.seen m.caches) {op : RuleOp R} (hmay : T.may (mayPurge k) m.seen op) :
    T.Truthful ns (m.handle maxEntries ns k front answers op).2.seen
      (m.handle maxEntries ns k front answers op).2.caches := by
  cases op with
  | read r => exact CacheTruth.Truthful.mono h (seen_le_handle maxEntries ns k front answers m _)
  | cache op => exact CacheTruth.Truthful.handle h hmay

/-- What it may ask is logged as it should be. -/
lemma logged_handle {k front : ℕ} {answers : (r : R) → A r} {m : RuleMemory A}
    (htruth : T.Truthful ns m.seen m.caches) (h : m.Logged ns T mayPurge) {op : RuleOp R}
    (hmay : T.may (mayPurge k) m.seen op) :
    (m.handle maxEntries ns k front answers op).2.Logged ns T mayPurge := by
  cases op with
  | read r =>
      have hle := seen_le_handle maxEntries ns k front answers m (.read r)
      refine ⟨fun a ha v hv => T.holds_mono hle (h.answers a ha v hv), fun task htask => ?_⟩
      obtain ⟨k', pre, hpurge, hpre⟩ := h.purges task htask
      exact ⟨k', pre, (mayPurge k' _ _).monotone hle hpurge, hpre⟩
  | cache op =>
      refine ⟨fun a ha v hv => ?_, fun task htask => ?_⟩
      · rcases RuleCaches.mem_answers_handle ha with hold | hheld
        · exact h.answers a hold v hv
        · exact htruth _ _ v (hheld v hv)
      · rcases RuleCaches.mem_purgeTasks_handle htask with hold | ⟨pre, rfl, hpre⟩
        · exact h.purges task hold
        · exact ⟨k, pre, hmay, hpre⟩

lemma logged_storeStep {m : RuleMemory A} (h : m.Logged ns T mayPurge) {e : StoreEvent}
    {caches : RuleCaches} (hstep : m.caches.storeStep e = some caches) :
    RuleMemory.Logged ns T mayPurge { m with caches := caches } where
  answers := fun a ha => h.answers a (RuleCaches.answers_storeStep hstep ▸ ha)
  purges := fun task htask => by
    obtain ⟨task', hmem, hepoch, hpre⟩ := RuleCaches.mem_purgeTasks_storeStep hstep htask
    obtain ⟨k, pre, hpurge, hpre'⟩ := h.purges task' hmem
    exact ⟨k, pre, hepoch ▸ hpurge, hpre ▸ hpre'⟩

/-- An evaluation is answered: it keeps to its contract, and the memory moves by one question it
may ask, or not at all. -/
lemma Inv.moved (h : s.Inv ns T mayPurge allowed post) (hpost : ∀ k c, Lasting (post k c))
    {k : ℕ} {path : List ℕ} {answers : (r : R) → A r} {c : RunningCall A Call α}
    {p : RuleProc A α} {m : RuleMemory A} (hallowed : ∀ r, allowed r (answers r))
    (hcall : s.calls k = some c)
    (hmoved : c.proc.stepAt (RuleMemory.handle maxEntries ns k c.front answers) s.memory path
      = some (p, m)) :
    s.memory.seen ≤ m.seen ∧
      p.Keeps (ruleContract T (mayPurge k) (readsOf allowed k)) (post k c.call) m.seen ∧
      (m = s.memory ∨ ∃ op, T.may (mayPurge k) s.memory.seen op ∧
        m = (s.memory.handle maxEntries ns k c.front answers op).2) :=
  (h.calls k c hcall).stepAt RuleMemory.seen (hpost k c.call)
    (fun op _ => handle_honours h.truthful hallowed op) hmoved

/-- Every honest step keeps the invariant. -/
lemma Inv.step (h : s.Inv ns T mayPurge allowed post) (hpost : ∀ k c, Lasting (post k c))
    (hbody : ∀ k c w, (body c).Keeps (ruleContract T (mayPurge k) (readsOf allowed k)) (post k c) w)
    {i : RuleInput A Call} (hok : Honest allowed i) (hstep : s.step body maxEntries ns i = some t) :
    t.Inv ns T mayPurge allowed post := by
  cases i with
  | start k front call =>
      unfold RuleRuns.step at hstep
      dsimp only at hstep
      split_ifs at hstep
      obtain rfl := Option.some.inj hstep
      refine ⟨h.truthful, fun k' c' hc' => ?_⟩
      dsimp only at hc' ⊢
      by_cases hk : k' = k
      · subst hk
        rw [Function.update_self] at hc'
        obtain rfl := Option.some.inj hc'
        exact hbody k' call _
      · rw [Function.update_of_ne hk] at hc'
        exact h.calls k' c' hc'
  | advance k path answers =>
      obtain ⟨c, hcall, hmap⟩ := Option.bind_eq_some_iff.mp hstep
      obtain ⟨⟨p, m⟩, hmoved, rfl⟩ := Option.map_eq_some_iff.mp hmap
      obtain ⟨hle, hkeeps, hmem⟩ := h.moved hpost hok hcall hmoved
      refine ⟨?_, fun k' c' hc' => ?_⟩
      · show T.Truthful ns m.seen m.caches
        rcases hmem with rfl | ⟨op, hmay, rfl⟩
        · exact h.truthful
        · exact truthful_handle h.truthful hmay
      · rw [moveTo] at hc' ⊢
        dsimp only at hc' ⊢
        by_cases hk : k' = k
        · subst hk
          rw [Function.update_self] at hc'
          obtain rfl := Option.some.inj hc'
          exact hkeeps
        · rw [Function.update_of_ne hk] at hc'
          exact (h.calls k' c' hc').later (hpost k' c'.call) hle
  | store e =>
      obtain ⟨caches, hcaches, rfl⟩ := Option.map_eq_some_iff.mp hstep
      exact ⟨CacheTruth.Truthful.storeStep h.truthful hcaches, h.calls⟩

/-- Every honest step is logged as it should be. -/
lemma Inv.logged_step (h : s.Inv ns T mayPurge allowed post) (hpost : ∀ k c, Lasting (post k c))
    (hlogged : s.memory.Logged ns T mayPurge) {i : RuleInput A Call} (hok : Honest allowed i)
    (hstep : s.step body maxEntries ns i = some t) : t.memory.Logged ns T mayPurge := by
  cases i with
  | start k front call =>
      unfold RuleRuns.step at hstep
      dsimp only at hstep
      split_ifs at hstep
      obtain rfl := Option.some.inj hstep
      exact hlogged
  | advance k path answers =>
      obtain ⟨c, hcall, hmap⟩ := Option.bind_eq_some_iff.mp hstep
      obtain ⟨⟨p, m⟩, hmoved, rfl⟩ := Option.map_eq_some_iff.mp hmap
      obtain ⟨-, -, hmem⟩ := h.moved hpost hok hcall hmoved
      show m.Logged ns T mayPurge
      rcases hmem with rfl | ⟨op, hmay, rfl⟩
      · exact hlogged
      · exact logged_handle h.truthful hlogged hmay
  | store e =>
      obtain ⟨caches, hcaches, rfl⟩ := Option.map_eq_some_iff.mp hstep
      exact logged_storeStep hlogged hcaches

/-- **The invariant holds in every run** over caches that hold what is true. -/
theorem inv_of_reaches (mayPurge : ℕ → ℕ → Option JsString → (Observations A →o Prop))
    (post : ℕ → Call → Observations A → Option α → Prop) {caches : RuleCaches}
    (hpost : ∀ k c, Lasting (post k c))
    (hbody : ∀ k c w, (body c).Keeps (ruleContract T (mayPurge k) (readsOf allowed k)) (post k c) w)
    (htruth : T.Truthful ns ∅ caches)
    (h : Reaches (RuleRuns.step body maxEntries ns) (fun _ i => Honest allowed i)
      (onCaches caches) t) : t.Inv ns T mayPurge allowed post :=
  h.invariant ⟨htruth.mono (Set.empty_subset _), nofun⟩
    fun _ _ _ hs hok hstep => hs.step hpost hbody hok hstep

/-- From a fresh start, what the caches have done is right in every run. -/
theorem logged_of_reaches (mayPurge : ℕ → ℕ → Option JsString → (Observations A →o Prop))
    (post : ℕ → Call → Observations A → Option α → Prop) (hpost : ∀ k c, Lasting (post k c))
    (hbody : ∀ k c w, (body c).Keeps (ruleContract T (mayPurge k) (readsOf allowed k)) (post k c) w)
    (htruth : T.Truthful ns ∅ RuleCaches.empty)
    (h : Reaches (RuleRuns.step body maxEntries ns) (fun _ i => Honest allowed i)
      (onCaches RuleCaches.empty) t) : t.memory.Logged ns T mayPurge := by
  have hboth := h.invariant
    (P := fun s => s.Inv ns T mayPurge allowed post ∧ s.memory.Logged ns T mayPurge)
    ⟨⟨htruth.mono (Set.empty_subset _), nofun⟩, nofun, nofun⟩ fun _ _ _ hs hok hstep =>
      ⟨hs.1.step hpost hbody hok hstep, hs.1.logged_step hpost hs.2 hok hstep⟩
  exact hboth.2

/-- A run on a script whose answers are all allowed. -/
lemma reaches_of_script {answers : (r : R) → A r} (hallowed : ∀ r, allowed r (answers r))
    {script : List (ScriptedInput Call)} {start : RuleRuns A Call α}
    (h : runIf (fun s j => RuleRuns.step body maxEntries ns s (ScriptedInput.play answers j))
      (fun _ _ => True) script start = some t) :
    Reaches (RuleRuns.step body maxEntries ns) (fun _ i => Honest allowed i) start t :=
  (reaches_of_runIf h).map fun _ j _ => by
    cases j with
    | start k front call => trivial
    | advance k path => exact hallowed
    | store e => trivial

/-! ### The end of an evaluation -/

/-- A step of an evaluation, whatever the others do in between. -/
def OwnStep (body : Call → RuleProc A α) (maxEntries : ℕ) (ns : JsString) (p' p : RuleProc A α) :
    Prop :=
  ∃ (s t : RuleRuns A Call α) (k : ℕ) (path : List ℕ) (answers : (r : R) → A r)
    (c c' : RunningCall A Call α), s.calls k = some c ∧ c.proc = p ∧
      s.step body maxEntries ns (.advance k path answers) = some t ∧ t.calls k = some c' ∧
      c'.proc = p'

/-- Evaluations come to an end: one without an outcome can go on, and each goes on only so often. -/
structure Completes (body : Call → RuleProc A α) (maxEntries : ℕ) (ns : JsString)
    (allowed : (r : R) → A r → Prop) : Prop where
  goes_on : ∀ (s : RuleRuns A Call α) (k : ℕ) (c : RunningCall A Call α), s.calls k = some c →
    c.proc.outcome? = none → ∃ path answers t, (∀ r, allowed r (answers r)) ∧
      s.step body maxEntries ns (.advance k path answers) = some t
  ends : WellFounded (OwnStep body maxEntries ns)

/-- **Evaluations come to an end** where every read has an allowed answer. -/
theorem completes (body : Call → RuleProc A α) (maxEntries : ℕ) (ns : JsString)
    (hallowed : ∀ r, ∃ a, allowed r a) : Completes body maxEntries ns allowed where
  goes_on := fun s k c hcall hout => by
    choose answers hanswers using hallowed
    obtain ⟨path, p, m, hstep⟩ := Proc.exists_stepAt
      (RuleMemory.handle maxEntries ns k c.front answers) s.memory c.proc hout
    refine ⟨path, answers, s.moveTo k c (p, m), hanswers, ?_⟩
    show (s.calls k).bind _ = _
    rw [hcall, Option.bind_some, hstep, Option.map_some]
  ends := by
    refine Subrelation.wf ?_ (Proc.next_wf (RuleMemory A))
    rintro p' p ⟨s, t, k, path, answers, c, c', hcall, rfl, hstep, hcall', rfl⟩
    obtain ⟨c₀, hc₀, hmap⟩ := Option.bind_eq_some_iff.mp hstep
    obtain rfl : c = c₀ := Option.some.inj (hcall.symm.trans hc₀)
    obtain ⟨⟨q, m⟩, hmoved, rfl⟩ := Option.map_eq_some_iff.mp hmap
    obtain rfl : { c with proc := q } = c' := by
      rw [moveTo] at hcall'
      dsimp only at hcall'
      rw [Function.update_self] at hcall'
      exact Option.some.inj hcall'
    exact ⟨_, path, _, _, hmoved⟩

end

end RuleRuns

end PubsubVoting
