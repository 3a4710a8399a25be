import Mathlib.Logic.Relation
import PubsubVoting.Lib.Proc

/-!
Runs of a computation beside others that move the state its handler answers from, with a log of the
questions in the order they are answered.

* `Runs`: a computation steps, or others move the state.
* `runs_ask`, `Runs.mapAll_ask`: a run of a question, and of one question per item side by side.
* `Threaded`, `Runs.threaded`: the states in which the questions were answered, one after the other.
* `exists_settled`: every run can be continued to an outcome; `runs_of_drive`: a run on given
  positions.
-/

namespace Proc

variable {ε : Type} {ρ : ε → Type} {α β γ σ : Type}

/-- A run of a computation, from a state to a state. Others may move the state at any time. The log
has the questions answered, each with the state it was answered in. -/
inductive Runs (handle : σ → (e : ε) → ρ e × σ) (env : σ → σ → Prop) {α : Type} :
    Proc ε ρ α → σ → Proc ε ρ α → σ → List (σ × ε) → Prop
  | stop (p : Proc ε ρ α) (s : σ) : Runs handle env p s p s []
  | step {p p₁ q : Proc ε ρ α} {s s₁ t : σ} {path : List ℕ} {log : List (σ × ε)} :
      p.stepAt handle s path = some (p₁, s₁) → Runs handle env p₁ s₁ q t log →
      Runs handle env p s q t ((p.askedAt path).toList.map (fun e => (s, e)) ++ log)
  | others {p q : Proc ε ρ α} {s s₁ t : σ} {log : List (σ × ε)} :
      env s s₁ → Runs handle env p s₁ q t log → Runs handle env p s q t log

variable {handle : σ → (e : ε) → ρ e × σ} {env : σ → σ → Prop} {s s₁ t : σ}
  {log : List (σ × ε)}

/-! ### Steps, one by one -/

lemma Runs.trans {p q r : Proc ε ρ α} {u : σ} {log' : List (σ × ε)}
    (h : Runs handle env p s q t log) (h' : Runs handle env q t r u log') :
    Runs handle env p s r u (log ++ log') := by
  induction h with
  | stop p s => exact h'
  | step hstep _ ih =>
      rw [List.append_assoc]
      exact .step hstep (ih h')
  | others henv _ ih => exact .others henv (ih h')

lemma stepAt_done (a : α) (path : List ℕ) :
    (Proc.done a : Proc ε ρ α).stepAt handle s path = none := by
  cases path <;> rfl

lemma stepAt_throw (path : List ℕ) : (Proc.throw : Proc ε ρ α).stepAt handle s path = none := by
  cases path <;> rfl

/-- A computation that is done stays as it is. -/
lemma runs_done {a : α} {q : Proc ε ρ α} (h : Runs handle env (.done a) s q t log) :
    q = .done a ∧ log = [] := by
  generalize hp : Proc.done a = p at h
  induction h with
  | stop p s => exact ⟨rfl, rfl⟩
  | step hstep _ _ =>
      rw [← hp, stepAt_done] at hstep
      cases hstep
  | others _ _ ih => exact ih hp

/-- A computation that has thrown stays as it is. -/
lemma runs_throw {q : Proc ε ρ α} (h : Runs handle env .throw s q t log) :
    q = .throw ∧ log = [] := by
  generalize hp : (Proc.throw : Proc ε ρ α) = p at h
  induction h with
  | stop p s => exact ⟨rfl, rfl⟩
  | step hstep _ _ =>
      rw [← hp, stepAt_throw] at hstep
      cases hstep
  | others _ _ ih => exact ih hp

/-- A question is still to be answered, or it was, and the run goes on with the answer. -/
lemma runs_ask {e : ε} {k : ρ e → Proc ε ρ α} {q : Proc ε ρ α}
    (h : Runs handle env (.ask e k) s q t log) : q = .ask e k ∧ log = [] ∨
      ∃ s₁ rest, Runs handle env (k (handle s₁ e).1) (handle s₁ e).2 q t rest ∧
        log = (s₁, e) :: rest := by
  generalize hp : Proc.ask e k = p at h
  induction h with
  | stop p s => exact .inl ⟨rfl, rfl⟩
  | @step p p₁ q s s₁ t path log hstep hrest _ =>
      subst hp
      cases path with
      | cons i path => cases hstep
      | nil =>
          cases hstep
          exact .inr ⟨s, log, hrest, rfl⟩
  | others _ _ ih => exact ih hp

/-! ### One question per item -/

section

variable {n : ℕ} (question : Fin n → ε) (answer : (i : Fin n) → ρ (question i) → β)

/-- A member of a family of single questions, answered in a state or not yet. -/
def member (handle : σ → (e : ε) → ρ e × σ) (i : Fin n) : Option σ → Proc ε ρ β
  | none => .ask (question i) fun r => .done (answer i r)
  | some s => .done (answer i (handle s (question i)).1)

variable {question answer}

lemma rejected_member (i : Fin n) (o : Option σ) :
    (member question answer handle i o).rejected = false := by cases o <;> rfl

/-- A family of single questions is still to be joined, or each question has been answered once, in
some order, and the run goes on with the answers. -/
lemma runs_family {asked : Fin n → Option σ} {k : (Fin n → β) → Proc ε ρ α} {q : Proc ε ρ α}
    (h : Runs handle env (.all n (fun i => member question answer handle i (asked i)) k)
      s q t log) :
    q.outcome? = none ∨ ∃ (at' : Fin n → σ) (order : List (Fin n)) (s₁ : σ) (after : List (σ × ε)),
      (∀ i s₀, asked i = some s₀ → at' i = s₀) ∧ order.Nodup ∧ (∀ i, i ∈ order ↔ asked i = none) ∧
      Runs handle env (k fun i => answer i (handle (at' i) (question i)).1) s₁ q t after ∧
      log = order.map (fun i => (at' i, question i)) ++ after := by
  generalize hp : Proc.all n (fun i => member question answer handle i (asked i)) k = p at h
  induction h generalizing asked with
  | stop p s =>
      subst hp
      refine .inl ?_
      have hnot : (Proc.all n (fun i => member question answer handle i (asked i)) k).rejected
          = false := by
        refine decide_eq_false ?_
        rintro ⟨i, hi⟩
        rw [rejected_member] at hi
        cases hi
      rw [outcome?, hnot]
      rfl
  | @step p p₁ q s s₁ t path log hstep hrest ih =>
      subst hp
      cases path with
      | nil =>
          -- every question has been answered, and the family is joined
          obtain ⟨bs, hbs, heq⟩ := Option.map_eq_some_iff.mp hstep
          cases heq
          have hdone : ∀ i, ∃ s₀, asked i = some s₀ ∧
              bs i = answer i (handle s₀ (question i)).1 := by
            intro i
            have hresult := collect_eq_some hbs i
            cases hasked : asked i with
            | none =>
                rw [hasked] at hresult
                cases hresult
            | some s₀ =>
                rw [hasked] at hresult
                exact ⟨s₀, rfl, (Option.some.inj hresult).symm⟩
          choose at' hat hvalue using hdone
          refine .inr ⟨at', [], s, log, fun i s₀ hi => ?_, List.nodup_nil, fun i => ?_, ?_, rfl⟩
          · rw [hat i] at hi
            exact Option.some.inj hi
          · simp [hat i]
          · rwa [← funext hvalue]
      | cons i path =>
          rw [stepAt] at hstep
          split_ifs at hstep with hi
          obtain ⟨⟨p', s'⟩, hp', heq⟩ := Option.map_eq_some_iff.mp hstep
          cases heq
          cases hasked : asked ⟨i, hi⟩ with
          | some s₀ =>
              rw [hasked, member, stepAt_done] at hp'
              cases hp'
          | none =>
              rw [hasked] at hp'
              cases path with
              | cons j path => cases hp'
              | nil =>
                  cases hp'
                  -- this question is answered now, and no other
                  have hfamily : Function.update
                      (fun j => member question answer handle j (asked j)) ⟨i, hi⟩
                      (Proc.done (answer ⟨i, hi⟩ (handle s (question ⟨i, hi⟩)).1))
                      = fun j => member question answer handle j
                          (Function.update asked ⟨i, hi⟩ (some s) j) := by
                    funext j
                    by_cases hj : j = ⟨i, hi⟩
                    · subst hj
                      rw [Function.update_self, Function.update_self]
                      rfl
                    · rw [Function.update_of_ne hj, Function.update_of_ne hj]
                  rcases ih (by rw [hfamily]) with hopen | ⟨at', order, s₁, after, hat, hnodup,
                    hmem, hlater, hlog⟩
                  · exact .inl hopen
                  · have hnow : at' ⟨i, hi⟩ = s := hat _ s (Function.update_self _ _ _)
                    have hnew : (⟨i, hi⟩ : Fin n) ∉ order := fun hin => by
                      rw [hmem, Function.update_self] at hin
                      cases hin
                    refine .inr ⟨at', ⟨i, hi⟩ :: order, s₁, after, fun j s₀ hj => ?_,
                      List.nodup_cons.mpr ⟨hnew, hnodup⟩, fun j => ?_, hlater, ?_⟩
                    · refine hat j s₀ ?_
                      rwa [Function.update_of_ne (fun heq => by rw [heq, hasked] at hj; cases hj)]
                    · rw [List.mem_cons, hmem]
                      by_cases hj : j = ⟨i, hi⟩
                      · simp [hj, hasked]
                      · simp [hj]
                    · have hquestion : (Proc.all n
                          (fun i => member question answer handle i (asked i)) k).askedAt [i]
                          = some (question ⟨i, hi⟩) := by
                        rw [askedAt, dif_pos hi, hasked]
                        rfl
                      rw [hquestion, hlog, List.map_cons, hnow]
                      rfl
  | others henv _ ih => exact ih hp

end

/-- **One question per item, side by side**: a run that has an outcome has answered each question
once, in some order, and goes on with the answers in the order of the items. -/
theorem Runs.mapAll_ask {xs : List γ} {question : γ → ε} {answer : (x : γ) → ρ (question x) → β}
    {f : List β → Proc ε ρ α} {q : Proc ε ρ α}
    (h : Runs handle env ((mapAll xs fun x => .ask (question x) fun r => .done (answer x r)).bind f)
      s q t log) (hq : q.outcome?.isSome = true) :
    ∃ (at' : Fin xs.length → σ) (s₁ : σ) (before after : List (σ × ε)),
      Runs handle env (f (List.ofFn fun i => answer (xs.get i)
        (handle (at' i) (question (xs.get i))).1)) s₁ q t after ∧
      log = before ++ after ∧
      before.Perm ((List.finRange xs.length).map fun i => (at' i, question (xs.get i))) := by
  replace h : Runs handle env (.all xs.length (fun i => member (fun i => question (xs.get i))
    (fun i => answer (xs.get i)) handle i none) fun bs => f (List.ofFn bs)) s q t log := h
  rcases runs_family h with
    hopen | ⟨at', order, s₁, after, -, hnodup, hmem, hlater, hlog⟩
  · rw [hopen] at hq
    cases hq
  · refine ⟨at', s₁, _, after, hlater, hlog, List.Perm.map _ ?_⟩
    refine (List.perm_ext_iff_of_nodup hnodup (List.nodup_finRange _)).mpr fun i => ?_
    simp [hmem]

/-! ### The states of a run -/

/-- The states in which questions were answered follow on each other, but for what others do. -/
inductive Threaded (handle : σ → (e : ε) → ρ e × σ) (env : σ → σ → Prop) :
    σ → List (σ × ε) → σ → Prop
  | nil {s t : σ} : Relation.ReflTransGen env s t → Threaded handle env s [] t
  | cons {s s₁ t : σ} {e : ε} {log : List (σ × ε)} : Relation.ReflTransGen env s s₁ →
      Threaded handle env (handle s₁ e).2 log t → Threaded handle env s ((s₁, e) :: log) t

lemma Threaded.others (henv : env s s₁) (h : Threaded handle env s₁ log t) :
    Threaded handle env s log t := by
  cases h with
  | nil hmoves => exact .nil (hmoves.head henv)
  | cons hmoves hlater => exact .cons (hmoves.head henv) hlater

/-- A step answers the question it is about, or joins a family and leaves the state. -/
lemma stepAt_state {p p₁ : Proc ε ρ α} {path : List ℕ}
    (h : p.stepAt handle s path = some (p₁, s₁)) :
    (p.askedAt path = none ∧ s₁ = s) ∨ ∃ e, p.askedAt path = some e ∧ s₁ = (handle s e).2 := by
  induction p generalizing path with
  | done a =>
      rw [stepAt_done] at h
      cases h
  | throw =>
      rw [stepAt_throw] at h
      cases h
  | ask e k _ =>
      cases path with
      | cons i path => cases h
      | nil =>
          cases h
          exact .inr ⟨e, rfl, rfl⟩
  | all n ps k ihps _ =>
      cases path with
      | nil =>
          obtain ⟨bs, -, heq⟩ := Option.map_eq_some_iff.mp h
          cases heq
          exact .inl ⟨rfl, rfl⟩
      | cons i path =>
          rw [stepAt] at h
          split_ifs at h with hi
          obtain ⟨⟨p', s'⟩, hp', heq⟩ := Option.map_eq_some_iff.mp h
          cases heq
          rw [askedAt, dif_pos hi]
          exact ihps ⟨i, hi⟩ hp'

/-- The log of a run tells the states it went through. -/
theorem Runs.threaded {p q : Proc ε ρ α} (h : Runs handle env p s q t log) :
    Threaded handle env s log t := by
  induction h with
  | stop p s => exact .nil .refl
  | others henv _ ih => exact ih.others henv
  | step hstep _ ih =>
      rcases stepAt_state hstep with ⟨hnone, rfl⟩ | ⟨e, hasked, rfl⟩
      · rw [hnone]
        exact ih
      · rw [hasked]
        exact .cons .refl ih

/-! ### Outcomes -/

/-- **Every run can be continued to an outcome.** -/
theorem exists_settled (handle : σ → (e : ε) → ρ e × σ) (env : σ → σ → Prop) (p : Proc ε ρ α)
    (s : σ) : ∃ q t log, Runs handle env p s q t log ∧ q.outcome?.isSome = true := by
  induction p using (next_wf σ).induction generalizing s with
  | _ p ih =>
      cases hout : p.outcome? with
      | some o => exact ⟨p, s, [], .stop p s, by rw [hout]; rfl⟩
      | none =>
          obtain ⟨path, p', s', hstep⟩ := exists_stepAt handle s p hout
          obtain ⟨q, t, log, hruns, hq⟩ := ih p' ⟨handle, path, s, s', hstep⟩ s'
          exact ⟨q, t, _, .step hstep hruns, hq⟩

/-- The computation driven by steps at given positions, beside nobody. -/
def drive (handle : σ → (e : ε) → ρ e × σ) :
    List (List ℕ) → Proc ε ρ α → σ → Option (Proc ε ρ α × σ × List (σ × ε))
  | [], p, s => some (p, s, [])
  | path :: paths, p, s => (p.stepAt handle s path).bind fun r =>
    (drive handle paths r.1 r.2).map fun d =>
      (d.1, d.2.1, (p.askedAt path).toList.map (fun e => (s, e)) ++ d.2.2)

/-- A driven computation runs. -/
lemma runs_of_drive {paths : List (List ℕ)} {p : Proc ε ρ α}
    {d : Proc ε ρ α × σ × List (σ × ε)} (h : drive handle paths p s = some d) :
    Runs handle env p s d.1 d.2.1 d.2.2 := by
  induction paths generalizing p s d with
  | nil =>
      obtain rfl := Option.some.inj h
      exact .stop p s
  | cons path paths ih =>
      obtain ⟨r, hstep, hrest⟩ := Option.bind_eq_some_iff.mp h
      obtain ⟨d', hd', rfl⟩ := Option.map_eq_some_iff.mp hrest
      exact .step hstep (ih hd')

end Proc
