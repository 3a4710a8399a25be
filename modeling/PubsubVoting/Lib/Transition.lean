import Mathlib.Tactic

/-!
Runs of a step function, and sequences of abstract moves that emit events.

* `Reaches step ok s t`: a run from `s` to `t` all of whose steps meet `ok`.
* `Reaches.invariant`: the invariant rule; `reaches_of_runIf`: a run on given inputs.
* `forall_prefix_iff`: where a total step keeps a property exactly when its input meets a condition,
  the property holds all along a run exactly when every step of it does.
* `Moves move s es t`: moves that emit `es` together; `Moves.invariant`: the invariant rule of a
  state and the events emitted so far.
-/

universe u v w

section Reaches

variable {σ : Type u} {ι : Type v}

/-- A run whose steps all meet a condition on the state before and the input. -/
inductive Reaches (step : σ → ι → Option σ) (ok : σ → ι → Prop) (s : σ) : σ → Prop
  | refl : Reaches step ok s s
  | tail {t t' : σ} {i : ι} : Reaches step ok s t → ok t i → step t i = some t' →
      Reaches step ok s t'

variable {step : σ → ι → Option σ} {ok ok' : σ → ι → Prop} {s t : σ}

/-- What holds at the start and is preserved by every step that meets the condition holds of every
state reached. -/
theorem Reaches.invariant {P : σ → Prop} (h : Reaches step ok s t) (hs : P s)
    (hstep : ∀ t i t', P t → ok t i → step t i = some t' → P t') : P t := by
  induction h with
  | refl => exact hs
  | tail _ hok hst ih => exact hstep _ _ _ ih hok hst

lemma Reaches.mono (h : Reaches step ok s t) (hok : ∀ t i, ok t i → ok' t i) :
    Reaches step ok' s t := by
  induction h with
  | refl => exact .refl
  | tail _ hoki hst ih => exact ih.tail (hok _ _ hoki) hst

lemma Reaches.trans {t' : σ} (h : Reaches step ok s t) (h' : Reaches step ok t t') :
    Reaches step ok s t' := by
  induction h' with
  | refl => exact h
  | tail _ hok hst ih => exact ih.tail hok hst

/-- A run whose inputs are given in another form. -/
lemma Reaches.map {κ : Type w} {f : κ → ι} {okf : σ → κ → Prop}
    (h : Reaches (fun s j => step s (f j)) okf s t) (hok : ∀ t j, okf t j → ok t (f j)) :
    Reaches step ok s t := by
  induction h with
  | refl => exact .refl
  | tail _ hokj hst ih => exact ih.tail (hok _ _ hokj) hst

/-- The run on a list of inputs, as long as they meet the condition. -/
def runIf (step : σ → ι → Option σ) (ok : σ → ι → Prop) [∀ s i, Decidable (ok s i)] (is : List ι)
    (s : σ) : Option σ := is.foldlM (fun s i => if ok s i then step s i else none) s

theorem reaches_of_runIf [∀ s i, Decidable (ok s i)] {is : List ι}
    (h : runIf step ok is s = some t) : Reaches step ok s t := by
  induction is generalizing s with
  | nil =>
      obtain rfl := Option.some.inj h
      exact .refl
  | cons i is ih =>
      rw [runIf, List.foldlM_cons, Option.bind_eq_bind, Option.bind_eq_some_iff] at h
      obtain ⟨s', hs', h⟩ := h
      split_ifs at hs' with hok
      exact (Reaches.tail .refl hok hs').trans (ih h)

end Reaches

section Histories

variable {σ : Type u} {ι : Type v} {step : σ → ι → σ} {P : σ → Prop} {ok : σ → ι → Prop} {s : σ}

/-- A property that a step keeps exactly when its input meets a condition holds in every state of a
run exactly when every step of the run meets the condition. -/
theorem forall_prefix_iff (hs : P s) (hstep : ∀ t i, P t → (P (step t i) ↔ ok t i))
    (inputs : List ι) :
    (∀ done, done <+: inputs → P (done.foldl step s)) ↔
      ∀ done i, done ++ [i] <+: inputs → ok (done.foldl step s) i := by
  constructor
  · intro hall done i hpre
    have hbefore : P (done.foldl step s) := hall done ((List.prefix_append done [i]).trans hpre)
    have hafter : P ((done ++ [i]).foldl step s) := hall _ hpre
    rw [List.foldl_concat] at hafter
    exact (hstep _ _ hbefore).mp hafter
  · intro hok done
    induction done using List.reverseRecOn with
    | nil => exact fun _ => hs
    | append_singleton done i ih =>
        intro hpre
        have hbefore : P (done.foldl step s) := ih ((List.prefix_append done [i]).trans hpre)
        rw [List.foldl_concat]
        exact (hstep _ _ hbefore).mpr (hok done i hpre)

end Histories

section Moves

variable {σ : Type u} {ε : Type w}

/-- Moves one after the other, and the events they emit. -/
inductive Moves (move : σ → List ε → σ → Prop) : σ → List ε → σ → Prop
  | nil (s : σ) : Moves move s [] s
  | cons {s t t' : σ} {es es' : List ε} : move s es t → Moves move t es' t' →
      Moves move s (es ++ es') t'

variable {move : σ → List ε → σ → Prop} {s t t' : σ} {es es' : List ε}

lemma Moves.single (h : move s es t) : Moves move s es t := by
  have := Moves.cons h (.nil t)
  rwa [List.append_nil] at this

lemma Moves.trans (h : Moves move s es t) (h' : Moves move t es' t') :
    Moves move s (es ++ es') t' := by
  induction h with
  | nil => exact h'
  | cons hmove _ ih =>
      rw [List.append_assoc]
      exact .cons hmove (ih h')

/-- What every move preserves of a state and a log holds after all of them. -/
theorem Moves.invariant {P : σ → List ε → Prop} {log : List ε} (h : Moves move s es t)
    (hs : P s log) (hmove : ∀ s log es t, P s log → move s es t → P t (log ++ es)) :
    P t (log ++ es) := by
  induction h generalizing log with
  | nil => rwa [List.append_nil]
  | cons hfirst _ ih =>
      rw [← List.append_assoc]
      exact ih (hmove _ _ _ _ hs hfirst)

end Moves
