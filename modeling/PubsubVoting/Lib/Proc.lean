import Mathlib.Tactic

/-!
Computations that ask for answers, one after the other or all of a family at once, and a rule for
what they return.

* `Proc`: a computation; `Proc.bind`, `Proc.mapAll`: going on with a result, and waiting for one
  computation per item of a list.
* `Proc.stepAt`: one of the answers a computation waits for is given by a handler.
* `Contract`: what a computation may ask for and what it relies on of the answers, in worlds that
  grow; `Proc.Keeps`: it keeps to the contract and its outcome meets a postcondition.
* `Keeps.bind`, `Keeps.mapAll`: the rules of composition; `Keeps.stepAt`: a step of a handler that
  honours the contract.
* `exists_stepAt`, `next_wf`: a computation that has no outcome yet can take a step, and there is
  an end to the steps it takes.
-/

universe u

/-- A computation that asks for answers. `all` waits for the results of a family of computations,
which go on side by side. -/
inductive Proc (ε : Type) (ρ : ε → Type) : Type → Type 1
  | done {α : Type} (a : α) : Proc ε ρ α
  | throw {α : Type} : Proc ε ρ α
  | ask {α : Type} (e : ε) (k : ρ e → Proc ε ρ α) : Proc ε ρ α
  | all {α β : Type} (n : ℕ) (ps : Fin n → Proc ε ρ β) (k : (Fin n → β) → Proc ε ρ α) : Proc ε ρ α

namespace Proc

variable {ε : Type} {ρ : ε → Type} {α β γ : Type}

/-! ### Composition -/

/-- Go on with the result. -/
def bind {α : Type} : Proc ε ρ α → (α → Proc ε ρ β) → Proc ε ρ β
  | .done a, f => f a
  | .throw, _ => .throw
  | .ask e k, f => .ask e fun r => (k r).bind f
  | .all n ps k, f => .all n ps fun bs => (k bs).bind f

/-- Run one computation per item side by side, and wait for all results. -/
def mapAll (xs : List γ) (f : γ → Proc ε ρ β) : Proc ε ρ (List β) :=
  .all xs.length (fun i => f (xs.get i)) fun bs => .done (List.ofFn bs)

/-! ### Outcomes -/

/-- The result of a computation that is done. -/
def result? {α : Type} : Proc ε ρ α → Option α
  | .done a => some a
  | _ => none

/-- A computation has thrown, or one of those it waits for has. -/
def rejected {α : Type} : Proc ε ρ α → Bool
  | .throw => true
  | .all _ ps _ => decide (∃ i, (ps i).rejected = true)
  | _ => false

/-- The outcome: a result, or a rejection. -/
def outcome? {α : Type} (p : Proc ε ρ α) : Option (Option α) :=
  if p.rejected then some none else p.result?.map some

/-- All results of a family, once there are. -/
def collect {n : ℕ} (ps : Fin n → Proc ε ρ β) : Option (Fin n → β) :=
  if h : ∀ i, (ps i).result?.isSome then some fun i => (ps i).result?.get (h i) else none

lemma collect_eq_some {n : ℕ} {ps : Fin n → Proc ε ρ β} {bs : Fin n → β}
    (h : collect ps = some bs) (i : Fin n) : (ps i).result? = some (bs i) := by
  rw [collect] at h
  split_ifs at h
  rw [← Option.some.inj h, Option.some_get]

/-! ### Steps -/

section

variable {σ : Type u} (handle : σ → (e : ε) → ρ e × σ) (s : σ)

/-- The answer at a position: a question there is answered, a family there whose members are all
done is joined. -/
def stepAt {α : Type} : Proc ε ρ α → List ℕ → Option (Proc ε ρ α × σ)
  | .ask e k, [] => some (k (handle s e).1, (handle s e).2)
  | .all _ ps k, [] => (collect ps).map fun bs => (k bs, s)
  | .all n ps k, i :: path =>
    if h : i < n then
      ((ps ⟨i, h⟩).stepAt path).map fun r => (.all n (Function.update ps ⟨i, h⟩ r.1) k, r.2)
    else none
  | _, _ => none

end

/-- The question at a position. -/
def askedAt {α : Type} : Proc ε ρ α → List ℕ → Option ε
  | .ask e _, [] => some e
  | .all n ps _, i :: path => if h : i < n then (ps ⟨i, h⟩).askedAt path else none
  | _, _ => none

/-- A computation without an outcome can take a step. -/
theorem exists_stepAt {σ : Type u} (handle : σ → (e : ε) → ρ e × σ) (s : σ) (p : Proc ε ρ α)
    (h : p.outcome? = none) : ∃ path p' s', p.stepAt handle s path = some (p', s') := by
  induction p with
  | done a => simp [outcome?, rejected, result?] at h
  | throw => simp [outcome?, rejected] at h
  | ask e k => exact ⟨[], _, _, rfl⟩
  | all n ps k ih =>
      have hnot : ∀ i, (ps i).rejected = false := by
        intro i
        by_contra hi
        have hrej : (Proc.all n ps k).rejected = true :=
          decide_eq_true ⟨i, Bool.not_eq_false _ |>.mp hi⟩
        simp [outcome?, hrej] at h
      by_cases hall : ∀ i, (ps i).result?.isSome
      · exact ⟨[], _, _, by rw [stepAt, collect, dif_pos hall]; rfl⟩
      · -- a member that is not done has no outcome either
        obtain ⟨i, hi⟩ := not_forall.mp hall
        have hopen : (ps i).outcome? = none := by
          rw [outcome?, hnot i]
          simpa using hi
        obtain ⟨path, p', s', hstep⟩ := ih i hopen
        exact ⟨i :: path, _, _, by rw [stepAt, dif_pos i.isLt, hstep]; rfl⟩

/-! ### Termination -/

/-- One item of a family steps. -/
def StepsIn {X : Type u} (r : X → X → Prop) {n : ℕ} (ys xs : Fin n → X) : Prop :=
  ∃ i y, r y (xs i) ∧ ys = Function.update xs i y

lemma acc_cons {X : Type u} {r : X → X → Prop} {n : ℕ} {x : X} {xs : Fin n → X} (hx : Acc r x)
    (hxs : Acc (StepsIn r) xs) : Acc (StepsIn r) (Fin.cons x xs : Fin (n + 1) → X) := by
  induction hx generalizing xs with
  | intro x _ ihx =>
      induction hxs with
      | intro xs hxs ihxs =>
          refine Acc.intro _ ?_
          rintro ys ⟨i, y, hr, rfl⟩
          cases i using Fin.cases with
          | zero =>
              rw [Fin.update_cons_zero]
              exact ihx y hr (Acc.intro xs hxs)
          | succ j =>
              rw [← Fin.cons_update]
              exact ihxs _ ⟨j, y, hr, rfl⟩

/-- A family whose items step only so often steps only so often. -/
lemma acc_family {X : Type u} {r : X → X → Prop} {n : ℕ} (xs : Fin n → X) (h : ∀ i, Acc r (xs i)) :
    Acc (StepsIn r) xs := by
  induction n with
  | zero => exact Acc.intro _ fun ys ⟨i, _⟩ => i.elim0
  | succ n ih =>
      rw [← Fin.cons_self_tail xs]
      exact acc_cons (h 0) (ih _ fun i => h i.succ)

/-- A step that some handler on states of a type makes in some state. -/
def Next (σ : Type u) (p' p : Proc ε ρ α) : Prop :=
  ∃ (handle : σ → (e : ε) → ρ e × σ) (path : List ℕ) (s s' : σ),
    p.stepAt handle s path = some (p', s')

/-- **Every computation comes to an end**, whatever it is answered and in whatever order. -/
theorem next_wf (σ : Type u) : WellFounded (Next (α := α) (ε := ε) (ρ := ρ) σ) := by
  refine ⟨fun p => ?_⟩
  induction p with
  | done a => exact Acc.intro _ fun p' ⟨_, _, _, _, h⟩ => by cases h
  | throw => exact Acc.intro _ fun p' ⟨_, _, _, _, h⟩ => by cases h
  | ask e k ih =>
      refine Acc.intro _ fun p' ⟨_, path, _, _, h⟩ => ?_
      cases path with
      | cons i path => cases h
      | nil =>
          cases h
          exact ih _
  | all n ps k ihps ihk =>
      have hps := acc_family ps ihps
      induction hps with
      | intro ps _ ih =>
          refine Acc.intro _ fun p' ⟨handle, path, s, s', h⟩ => ?_
          cases path with
          | nil =>
              obtain ⟨bs, -, heq⟩ := Option.map_eq_some_iff.mp h
              cases heq
              exact ihk bs
          | cons i path =>
              rw [stepAt] at h
              split_ifs at h with hi
              obtain ⟨⟨q, t⟩, hq, heq⟩ := Option.map_eq_some_iff.mp h
              cases heq
              have hq' : Next σ q (ps ⟨i, hi⟩) := ⟨handle, path, s, _, hq⟩
              refine ih _ ⟨⟨i, hi⟩, q, hq', rfl⟩ fun j => ?_
              by_cases hj : j = ⟨i, hi⟩
              · subst hj
                rw [Function.update_self]
                exact (ihps _).inv hq'
              · rw [Function.update_of_ne hj]
                exact ihps j

/-! ### Contracts -/

end Proc

/-- What a computation may ask for in a world, and what it relies on of an answer given in a world.
What may be asked for once may be asked for in every later world. -/
structure Contract (W : Type) [Preorder W] (ε : Type) (ρ : ε → Type) where
  may : W → ε → Prop
  may_mono : ∀ {w w' : W} {e : ε}, w ≤ w' → may w e → may w' e
  ok : W → (e : ε) → ρ e → Prop

/-- A postcondition that holds on in later worlds. -/
def Lasting {W α : Type} [Preorder W] (Q : W → Option α → Prop) : Prop :=
  ∀ ⦃w w' : W⦄, w ≤ w' → ∀ o, Q w o → Q w' o

namespace Proc

variable {ε : Type} {ρ : ε → Type} {α β γ : Type} {W : Type} [Preorder W] (C : Contract W ε ρ)

/-- A computation keeps to a contract, and its outcome meets a postcondition. The members of a
family have postconditions of their own. -/
def Keeps {α : Type} : Proc ε ρ α → (W → Option α → Prop) → W → Prop
  | .done a, post, w => post w (some a)
  | .throw, post, w => post w none
  | .ask e k, post, w => C.may w e ∧ ∀ w', w ≤ w' → ∀ r, C.ok w' e r → (k r).Keeps post w'
  | .all (β := β) n ps k, post, w => ∃ Q : Fin n → W → Option β → Prop, (∀ i, Lasting (Q i)) ∧
      (∀ i, (ps i).Keeps (Q i) w) ∧
      (∀ w', w ≤ w' → ∀ bs, (∀ i, Q i w' (some (bs i))) → (k bs).Keeps post w') ∧
      ∀ w', w ≤ w' → ∀ i, Q i w' none → post w' none

variable {C} {w w' : W} {post post' : W → Option α → Prop}

lemma Keeps.later {p : Proc ε ρ α} (hpost : Lasting post) (h : p.Keeps C post w) (hw : w ≤ w') :
    p.Keeps C post w' := by
  induction p with
  | done a => exact hpost hw _ h
  | throw => exact hpost hw _ h
  | ask e k _ => exact ⟨C.may_mono hw h.1, fun w₂ hw₂ => h.2 w₂ (hw.trans hw₂)⟩
  | all n ps k ihps _ =>
      obtain ⟨Q, hQ, hps, hk, hthrow⟩ := h
      exact ⟨Q, hQ, fun i => ihps i (hQ i) (hps i), fun w₂ hw₂ => hk w₂ (hw.trans hw₂),
        fun w₂ hw₂ => hthrow w₂ (hw.trans hw₂)⟩

lemma Keeps.imp {p : Proc ε ρ α} (h : p.Keeps C post w)
    (himp : ∀ w', w ≤ w' → ∀ o, post w' o → post' w' o) : p.Keeps C post' w := by
  induction p generalizing w with
  | done a => exact himp w le_rfl _ h
  | throw => exact himp w le_rfl _ h
  | ask e k ih =>
      exact ⟨h.1, fun w₁ hw₁ r hr => ih r (h.2 w₁ hw₁ r hr) fun w₂ hw₂ => himp w₂ (hw₁.trans hw₂)⟩
  | all n ps k _ ihk =>
      obtain ⟨Q, hQ, hps, hk, hthrow⟩ := h
      exact ⟨Q, hQ, hps,
        fun w₁ hw₁ bs hbs => ihk bs (hk w₁ hw₁ bs hbs) fun w₂ hw₂ => himp w₂ (hw₁.trans hw₂),
        fun w₁ hw₁ i hi => himp w₁ hw₁ _ (hthrow w₁ hw₁ i hi)⟩

/-- **Going on with the result.** -/
theorem Keeps.bind {p : Proc ε ρ α} {f : α → Proc ε ρ β} {after : W → Option β → Prop}
    (h : p.Keeps C post w)
    (hdone : ∀ w', w ≤ w' → ∀ a, post w' (some a) → (f a).Keeps C after w')
    (hthrow : ∀ w', w ≤ w' → post w' none → after w' none) : (p.bind f).Keeps C after w := by
  induction p generalizing w with
  | done a => exact hdone w le_rfl a h
  | throw => exact hthrow w le_rfl h
  | ask e k ih =>
      exact ⟨h.1, fun w₁ hw₁ r hr => ih r (h.2 w₁ hw₁ r hr)
        (fun w₂ hw₂ => hdone w₂ (hw₁.trans hw₂)) fun w₂ hw₂ => hthrow w₂ (hw₁.trans hw₂)⟩
  | all n ps k _ ihk =>
      obtain ⟨Q, hQ, hps, hk, hrej⟩ := h
      exact ⟨Q, hQ, hps, fun w₁ hw₁ bs hbs => ihk bs (hk w₁ hw₁ bs hbs)
        (fun w₂ hw₂ => hdone w₂ (hw₁.trans hw₂)) (fun w₂ hw₂ => hthrow w₂ (hw₁.trans hw₂)),
        fun w₁ hw₁ i hi => hthrow w₁ hw₁ (hrej w₁ hw₁ i hi)⟩

/-- **One computation per item**: the results meet the items' postconditions one by one; it throws
only if one of them does. -/
theorem Keeps.mapAll (xs : List γ) (f : γ → Proc ε ρ β) (Q : γ → W → Option β → Prop)
    (hQ : ∀ x ∈ xs, Lasting (Q x)) (h : ∀ x ∈ xs, (f x).Keeps C (Q x) w) :
    (mapAll xs f).Keeps C (fun w' o => match o with
      | some bs => List.Forall₂ (fun x b => Q x w' (some b)) xs bs
      | none => ∃ x ∈ xs, Q x w' none) w := by
  refine ⟨fun i => Q (xs.get i), fun i => hQ _ (List.get_mem _ _), fun i => h _ (List.get_mem _ _),
    fun w' _ bs hbs => ?_, fun w' _ i hi => ⟨_, List.get_mem _ _, hi⟩⟩
  show List.Forall₂ (fun x b => Q x w' (some b)) xs (List.ofFn bs)
  rw [List.forall₂_iff_get]
  refine ⟨by simp, fun i hi hi' => ?_⟩
  have hget : (List.ofFn bs).get ⟨i, hi'⟩ = bs ⟨i, hi⟩ := by simp
  rw [hget]
  exact hbs ⟨i, hi⟩

lemma Keeps.result {p : Proc ε ρ α} (h : p.Keeps C post w) {a : α} (ha : p.result? = some a) :
    post w (some a) := by
  cases p with
  | done b =>
      obtain rfl := Option.some.inj ha
      exact h
  | throw => cases ha
  | ask e k => cases ha
  | all n ps k => cases ha

lemma Keeps.rejected {p : Proc ε ρ α} (h : p.Keeps C post w) (hrej : p.rejected = true) :
    post w none := by
  induction p with
  | done a => cases hrej
  | throw => exact h
  | ask e k => cases hrej
  | all n ps k ihps _ =>
      obtain ⟨Q, hQ, hps, hk, hthrow⟩ := h
      obtain ⟨i, hi⟩ := of_decide_eq_true hrej
      exact hthrow w le_rfl i (ihps i (hps i) hi)

/-- The outcome meets the postcondition. -/
theorem Keeps.outcome {p : Proc ε ρ α} (h : p.Keeps C post w) {o : Option α}
    (ho : p.outcome? = some o) : post w o := by
  rw [outcome?] at ho
  split_ifs at ho with hrej
  · rw [← Option.some.inj ho]
    exact h.rejected hrej
  · obtain ⟨a, ha, rfl⟩ := Option.map_eq_some_iff.mp ho
    exact h.result ha

/-- What a computation asks, it may ask. -/
lemma Keeps.asked {p : Proc ε ρ α} (h : p.Keeps C post w) {path : List ℕ} {e : ε}
    (he : p.askedAt path = some e) : C.may w e := by
  induction p generalizing path with
  | done a => cases he
  | throw => cases he
  | ask e' k _ =>
      cases path with
      | nil =>
          obtain rfl := Option.some.inj he
          exact h.1
      | cons i path => cases he
  | all n ps k ihps _ =>
      obtain ⟨Q, -, hps, -, -⟩ := h
      cases path with
      | nil => cases he
      | cons i path =>
          rw [askedAt] at he
          split_ifs at he with hi
          exact ihps ⟨i, hi⟩ (hps _) he

/-! ### Steps of a handler -/

section

variable {σ : Type u} {handle : σ → (e : ε) → ρ e × σ} (world : σ → W) {s s' : σ}

/-- **A step of a handler that honours the contract.** It moves the handler by one question the
computation may ask, or not at all, and the computation keeps to the contract. -/
theorem Keeps.stepAt {p p' : Proc ε ρ α} {path : List ℕ} (hpost : Lasting post)
    (hhandle : ∀ e, C.may (world s) e → world s ≤ world (handle s e).2 ∧
      C.ok (world (handle s e).2) e (handle s e).1)
    (h : p.Keeps C post (world s)) (hstep : p.stepAt handle s path = some (p', s')) :
    world s ≤ world s' ∧ p'.Keeps C post (world s') ∧
      (s' = s ∨ ∃ e, C.may (world s) e ∧ s' = (handle s e).2) := by
  induction p generalizing path with
  | done a => cases hstep
  | throw => cases hstep
  | ask e k _ =>
      cases path with
      | cons i path => cases hstep
      | nil =>
          cases hstep
          obtain ⟨hle, hok⟩ := hhandle e h.1
          exact ⟨hle, h.2 _ hle _ hok, .inr ⟨e, h.1, rfl⟩⟩
  | all n ps k ihps _ =>
      obtain ⟨Q, hQ, hps, hk, hthrow⟩ := h
      cases path with
      | nil =>
          obtain ⟨bs, hbs, heq⟩ := Option.map_eq_some_iff.mp hstep
          cases heq
          exact ⟨le_rfl, hk _ le_rfl bs fun i => (hps i).result (collect_eq_some hbs i), .inl rfl⟩
      | cons i path =>
          rw [Proc.stepAt] at hstep
          split_ifs at hstep with hi
          obtain ⟨⟨q, t⟩, hq, heq⟩ := Option.map_eq_some_iff.mp hstep
          cases heq
          obtain ⟨hle, hkeep, hmoved⟩ := ihps ⟨i, hi⟩ (hQ _) (hps _) hq
          refine ⟨hle, ⟨Q, hQ, fun j => ?_, fun w hw => hk w (hle.trans hw),
            fun w hw => hthrow w (hle.trans hw)⟩, hmoved⟩
          by_cases hj : j = ⟨i, hi⟩
          · subst hj
            rw [Function.update_self]
            exact hkeep
          · rw [Function.update_of_ne hj]
            exact (hps j).later (hQ j) hle

end

end Proc
