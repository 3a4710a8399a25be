import Mathlib.Tactic

/-!
A limiter of concurrency, as its callers see it: tasks are handed to it, it starts them when it
likes, and hears when they settle.

* `LimiterCall`, `waiting`, `running`: its history, the last call first, and who waits and runs.
* `Limiter`: whom it may start behind a history. `Limiter.Serves`: the histories it leads to.
* `Limiter.Capped`, `Limiter.Prompt`: what a limiter promises, not more than so many at once, and
  somebody who waits is let start while there is room.
* `Serves.distinct`, `Serves.bounded`: in a history everybody is there once, and so many run at
  most.
* `fifoLimiter`: the limiter that starts who waited longest keeps both promises.
-/

/-- A task is handed over, starts, or settles. -/
inductive LimiterCall (α : Type*) where
  | submit (j : α)
  | start (j : α)
  | finish (j : α)
  deriving DecidableEq

namespace LimiterCall

variable {α : Type*} [DecidableEq α]

/-- Who was handed over and has not started, who waited longest first. -/
def waiting : List (LimiterCall α) → List α
  | [] => []
  | .submit j :: log => waiting log ++ [j]
  | .start j :: log => (waiting log).erase j
  | .finish _ :: log => waiting log

/-- Who has started and not settled. -/
def running : List (LimiterCall α) → List α
  | [] => []
  | .submit _ :: log => running log
  | .start j :: log => running log ++ [j]
  | .finish j :: log => (running log).erase j

end LimiterCall

/-- Whom a limiter may start behind a history. -/
abbrev Limiter (α : Type*) := List (LimiterCall α) → α → Bool

namespace Limiter

open LimiterCall

variable {α : Type*} [DecidableEq α] {L : Limiter α} {limit : ℕ} {log : List (LimiterCall α)}
  {j k : α}

/-- A history of a limiter: nobody is handed over while it is there, the limiter lets start who
does, and who settles had started. -/
inductive Serves (L : Limiter α) : List (LimiterCall α) → Prop
  | nil : Serves L []
  | submit {log : List (LimiterCall α)} {j : α} : Serves L log → j ∉ waiting log →
      j ∉ running log → Serves L (.submit j :: log)
  | start {log : List (LimiterCall α)} {j : α} : Serves L log → L log j = true →
      Serves L (.start j :: log)
  | finish {log : List (LimiterCall α)} {j : α} : Serves L log → j ∈ running log →
      Serves L (.finish j :: log)

/-- Who may start waits, and less than so many run. -/
structure Capped (L : Limiter α) (limit : ℕ) : Prop where
  waits : ∀ {log j}, L.Serves log → L log j = true → j ∈ waiting log
  room : ∀ {log j}, L.Serves log → L log j = true → (running log).length < limit

/-- While somebody waits and less than so many run, somebody may start. -/
def Prompt (L : Limiter α) (limit : ℕ) : Prop :=
  ∀ {log}, L.Serves log → waiting log ≠ [] → (running log).length < limit → ∃ j, L log j = true

/-! ### Histories -/

/-- In a history everybody waits or runs once. -/
lemma Serves.distinct (hcapped : L.Capped limit) (h : L.Serves log) :
    (waiting log ++ running log).Nodup := by
  induction h with
  | nil => exact List.nodup_nil
  | @submit log j _ hwaiting hrunning ih =>
      have hj : j ∉ waiting log ++ running log := by
        rw [List.mem_append]
        exact not_or.mpr ⟨hwaiting, hrunning⟩
      have hperm : (waiting log ++ [j] ++ running log).Perm
          (j :: (waiting log ++ running log)) := by
        rw [List.append_assoc, List.singleton_append]
        exact List.perm_middle
      exact hperm.nodup_iff.mpr (List.nodup_cons.mpr ⟨hj, ih⟩)
  | @start log j h hlet ih =>
      have hperm : ((waiting log).erase j ++ (running log ++ [j])).Perm
          (waiting log ++ running log) := by
        rw [← List.append_assoc]
        refine (List.perm_append_singleton j _).trans ?_
        exact (List.perm_cons_erase (hcapped.waits h hlet)).symm.append_right (running log)
      exact hperm.nodup_iff.mpr ih
  | @finish log j _ _ ih =>
      have hsub : (waiting log ++ (running log).erase j).Sublist (waiting log ++ running log) :=
        (List.Sublist.refl _).append List.erase_sublist
      exact hsub.nodup ih

/-- **Never more than so many run.** -/
theorem Serves.bounded (hcapped : L.Capped limit) (h : L.Serves log) :
    (running log).length ≤ limit := by
  induction h with
  | nil => exact Nat.zero_le limit
  | submit _ _ _ ih => exact ih
  | @start log j h hlet _ =>
      show (running log ++ [j]).length ≤ limit
      rw [List.length_append, List.length_singleton]
      exact hcapped.room h hlet
  | finish _ _ ih => exact le_trans List.length_erase_le ih

/-- Who waits behind a start is not the one who started. -/
lemma Serves.mem_waiting_start (hcapped : L.Capped limit) (h : L.Serves log) :
    k ∈ waiting (.start j :: log) ↔ k ≠ j ∧ k ∈ waiting log :=
  (List.nodup_append.mp (h.distinct hcapped)).1.mem_erase_iff

/-- Who runs behind a settled task is not that one. -/
lemma Serves.mem_running_finish (hcapped : L.Capped limit) (h : L.Serves log) :
    k ∈ running (.finish j :: log) ↔ k ≠ j ∧ k ∈ running log :=
  (List.nodup_append.mp (h.distinct hcapped)).2.1.mem_erase_iff

/-- Nobody waits, and nobody runs. -/
def Idle (log : List (LimiterCall α)) : Prop := waiting log = [] ∧ running log = []

instance : Decidable (Idle log) := inferInstanceAs (Decidable (_ ∧ _))

/-- A limiter at which somebody is, nobody of whom runs, lets somebody start. -/
lemma Prompt.exists_start (hprompt : L.Prompt limit) (hlimit : 0 < limit) (h : L.Serves log)
    (hidle : ¬ Idle log) (hrunning : running log = []) : ∃ j, L log j = true := by
  refine hprompt h (fun hwaiting => hidle ⟨hwaiting, hrunning⟩) ?_
  rw [hrunning]
  exact hlimit

/-! ### First in, first out -/

/-- The limiter that starts who waited longest, once there is room. -/
def fifoLimiter (limit : ℕ) : Limiter α := fun log j =>
  decide ((running log).length < limit) && decide ((waiting log).head? = some j)

lemma fifoLimiter_eq_true : fifoLimiter limit log j = true ↔
    (running log).length < limit ∧ (waiting log).head? = some j := by
  simp [fifoLimiter]

lemma fifoLimiter_capped : (fifoLimiter limit : Limiter α).Capped limit where
  waits _ hlet := List.mem_of_mem_head? (fifoLimiter_eq_true.mp hlet).2
  room _ hlet := (fifoLimiter_eq_true.mp hlet).1

lemma fifoLimiter_prompt : (fifoLimiter limit : Limiter α).Prompt limit := by
  intro log _ hwaiting hroom
  exact ⟨_, fifoLimiter_eq_true.mpr ⟨hroom, List.head?_eq_some_head hwaiting⟩⟩

end Limiter
