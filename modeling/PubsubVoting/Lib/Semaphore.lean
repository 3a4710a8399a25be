import Mathlib.Tactic

/-!
A counting semaphore: so many holders at once, the others wait in order.

* `Semaphore.acquire`, `Semaphore.release`: taking a slot, and handing it on to who waited longest.
* `engaged_acquire`, `engaged_release`: nobody is lost, and a slot that is released is given up.
* `Bounded`, `Bounded.acquire`, `Bounded.release`: no more than the limit hold a slot.
* `Full`, `Full.acquire`, `Full.release`: somebody waits only while all slots are taken.
-/

/-- Who holds a slot, and who waits for one. -/
structure Semaphore where
  running : List ℕ
  waiting : List ℕ

namespace Semaphore

/-- Nobody holds or waits. -/
def empty : Semaphore := ⟨[], []⟩

/-- Take a slot if there is one, or wait. -/
def acquire (limit : ℕ) (s : Semaphore) (j : ℕ) : Semaphore :=
  if s.running.length < limit then { s with running := s.running ++ [j] }
  else { s with waiting := s.waiting ++ [j] }

/-- Give a slot up. Who waited longest tries again. -/
def release (limit : ℕ) (s : Semaphore) (j : ℕ) : Semaphore :=
  match s.waiting with
  | [] => { s with running := s.running.erase j }
  | k :: rest => acquire limit ⟨s.running.erase j, rest⟩ k

/-- Holds a slot or waits for one. -/
def Engaged (s : Semaphore) (j : ℕ) : Prop := j ∈ s.running ∨ j ∈ s.waiting

/-- Everybody is there once. -/
def Distinct (s : Semaphore) : Prop := (s.running ++ s.waiting).Nodup

/-- No more than so many hold a slot. -/
def Bounded (limit : ℕ) (s : Semaphore) : Prop := s.running.length ≤ limit

/-- Somebody waits only while all slots are taken. -/
def Full (limit : ℕ) (s : Semaphore) : Prop := s.waiting ≠ [] → limit ≤ s.running.length

variable {limit : ℕ} {s : Semaphore} {j k : ℕ}

lemma perm_acquire : ((s.acquire limit j).running ++ (s.acquire limit j).waiting).Perm
    (j :: (s.running ++ s.waiting)) := by
  rw [acquire]
  split_ifs
  · show (s.running ++ [j] ++ s.waiting).Perm _
    rw [List.append_assoc, List.singleton_append]
    exact List.perm_middle
  · show (s.running ++ (s.waiting ++ [j])).Perm _
    rw [← List.append_assoc]
    exact List.perm_append_singleton j _

lemma engaged_iff : s.Engaged j ↔ j ∈ s.running ++ s.waiting := List.mem_append.symm

/-- Who takes or awaits a slot is there, with those who were. -/
lemma engaged_acquire : (s.acquire limit j).Engaged k ↔ k = j ∨ s.Engaged k := by
  rw [engaged_iff, perm_acquire.mem_iff, List.mem_cons, engaged_iff]

lemma Distinct.acquire (h : s.Distinct) (hj : ¬ s.Engaged j) : (s.acquire limit j).Distinct := by
  rw [engaged_iff] at hj
  exact perm_acquire.nodup_iff.mpr (List.nodup_cons.mpr ⟨hj, h⟩)

lemma perm_release : ((s.release limit j).running ++ (s.release limit j).waiting).Perm
    (s.running.erase j ++ s.waiting) := by
  rw [release]
  cases hs : s.waiting with
  | nil => exact List.Perm.refl _
  | cons k rest => exact perm_acquire.trans List.perm_middle.symm

/-- Only who gives its slot up leaves. -/
lemma engaged_release (h : s.Distinct) (hj : j ∈ s.running) :
    (s.release limit j).Engaged k ↔ k ≠ j ∧ s.Engaged k := by
  obtain ⟨hrunning, -, hdisjoint⟩ := List.nodup_append.mp h
  rw [engaged_iff, perm_release.mem_iff, List.mem_append, hrunning.mem_erase_iff, Engaged]
  constructor
  · rintro (⟨hne, hk⟩ | hk)
    · exact ⟨hne, .inl hk⟩
    · exact ⟨fun heq => hdisjoint j hj k hk heq.symm, .inr hk⟩
  · rintro ⟨hne, hk⟩
    exact hk.imp (fun hk => ⟨hne, hk⟩) id

lemma Distinct.release (h : s.Distinct) : (s.release limit j).Distinct := by
  have hsub : (s.running.erase j ++ s.waiting).Sublist (s.running ++ s.waiting) :=
    List.erase_sublist.append (List.Sublist.refl _)
  exact perm_release.nodup_iff.mpr (hsub.nodup h)

lemma bounded_empty : empty.Bounded limit := Nat.zero_le limit

lemma Bounded.acquire (h : s.Bounded limit) : (s.acquire limit j).Bounded limit := by
  rw [Semaphore.acquire]
  split_ifs with hslot
  · show (s.running ++ [j]).length ≤ limit
    rw [List.length_append, List.length_singleton]
    exact hslot
  · exact h

/-- A slot that is handed on is the one that was given up. -/
lemma Bounded.release (h : s.Bounded limit) : (s.release limit j).Bounded limit := by
  have herase : (s.running.erase j).length ≤ limit := le_trans (List.length_erase_le) h
  rw [Semaphore.release]
  cases s.waiting with
  | nil => exact herase
  | cons k rest => exact Bounded.acquire herase

lemma full_empty : empty.Full limit := fun h => absurd rfl h

lemma Full.acquire (h : s.Full limit) : (s.acquire limit j).Full limit := by
  intro hwaiting
  rw [Semaphore.acquire] at hwaiting ⊢
  split_ifs at hwaiting ⊢ with hslot
  · have hfull := h hwaiting
    omega
  · exact not_lt.mp hslot

/-- **A slot that is given up does not stay free while somebody waits.** -/
lemma Full.release (h : s.Full limit) (hj : j ∈ s.running) : (s.release limit j).Full limit := by
  rw [Semaphore.release]
  cases hs : s.waiting with
  | nil => exact fun hwaiting => absurd rfl hwaiting
  | cons k rest =>
      have hfull : limit ≤ s.running.length := h (by rw [hs]; exact List.cons_ne_nil _ _)
      have herase : (s.running.erase j).length + 1 = s.running.length := by
        rw [List.length_erase_of_mem hj]
        have hpos := List.length_pos_of_mem hj
        omega
      intro _
      dsimp only
      rw [Semaphore.acquire]
      split_ifs with hslot
      · show limit ≤ (s.running.erase j ++ [k]).length
        rw [List.length_append, List.length_singleton]
        omega
      · exact not_lt.mp hslot

/-- While somebody is there, somebody holds a slot. -/
lemma Full.exists_running (h : s.Full limit) (hlimit : 0 < limit) (hj : s.Engaged j) :
    ∃ k, k ∈ s.running := by
  rcases hj with hj | hj
  · exact ⟨j, hj⟩
  · have hfull := h (List.ne_nil_of_mem hj)
    exact List.exists_mem_of_length_pos (by omega)

end Semaphore
