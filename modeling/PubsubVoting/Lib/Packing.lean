import Mathlib.Tactic

/-!
Greedy packing: items in order into groups, a new group whenever the next item would not fit.

* `Packing`, `Packing.add`, `Packing.groups`: the loop, one item at a time.
* `Packing.Sound`: what holds of the groups so far; `Packing.Sound.add` is the step.
* `pack_map`: the groups depend on the sizes only.
* `pack_flatten`, `pack_ne_nil`, `pack_fits`, `pack_maximal`: nothing is lost, no group is empty, a
  group fits or holds a single item, and no group's first item would have fitted before it.
-/

/-- The closed groups, the group being filled, and the size of what is in it. -/
structure Packing (α : Type) where
  closed : List (List α)
  current : List α
  size : ℕ
  deriving DecidableEq

namespace Packing

variable {α : Type} (fits : ℕ → Bool) (size : α → ℕ)

/-- Nothing packed yet. -/
def start : Packing α := ⟨[], [], 0⟩

/-- Put one item of the given size in: into the current group if that is empty or the item fits,
into a new one otherwise. -/
def add (p : Packing α) (x : α) (n : ℕ) : Packing α :=
  if p.current ≠ [] ∧ fits (p.size + n) = false then ⟨p.closed ++ [p.current], [x], n⟩
  else ⟨p.closed, p.current ++ [x], p.size + n⟩

/-- All groups, the current one included unless it is empty. -/
def groups (p : Packing α) : List (List α) :=
  if p.current = [] then p.closed else p.closed ++ [p.current]

/-- The groups of a list. -/
def pack (xs : List α) : List (List α) :=
  (xs.foldl (fun p x => p.add fits x (size x)) start).groups

/-- The size of a group. -/
def total (group : List α) : ℕ := (group.map size).sum

/-- A group fits, or it holds a single item. -/
def Bounded (group : List α) : Prop := fits (total size group) = true ∨ group.length = 1

/-- The next group's first item would not have fitted into the group. -/
def Full (group next : List α) : Prop := ∀ x ∈ next.head?, fits (total size group + size x) = false

/-- What holds of the groups after the items `xs`. -/
structure Sound (p : Packing α) (xs : List α) : Prop where
  flatten : p.closed.flatten ++ p.current = xs
  size_eq : p.size = total size p.current
  ne_nil : ∀ group ∈ p.closed, group ≠ []
  closed_nil : p.current = [] → p.closed = []
  closed_bounded : ∀ group ∈ p.closed, Bounded fits size group
  current_bounded : p.current ≠ [] → Bounded fits size p.current
  full : (p.closed ++ [p.current]).IsChain (Full fits size)

variable {fits size} {p : Packing α} {xs : List α}

lemma sound_start : Sound fits size (start : Packing α) [] where
  flatten := rfl
  size_eq := rfl
  ne_nil _ hmem := absurd hmem List.not_mem_nil
  closed_nil _ := rfl
  closed_bounded _ hmem := absurd hmem List.not_mem_nil
  current_bounded hne := absurd rfl hne
  full := .singleton _

/-- **One more item**: by cases on whether it opens a new group. -/
lemma Sound.add (h : Sound fits size p xs) (x : α) :
    Sound fits size (p.add fits x (size x)) (xs ++ [x]) := by
  have htotal : total size [x] = size x := by simp [total]
  rw [Packing.add]
  split_ifs with hopen
  · obtain ⟨hne, hfull⟩ := hopen
    refine ⟨?_, htotal.symm, ?_, fun hnil => absurd hnil (List.cons_ne_nil _ _), ?_,
      fun _ => Or.inr rfl,
      ?_⟩
    · rw [List.flatten_append, List.flatten_singleton, h.flatten]
    · rw [List.forall_mem_append, List.forall_mem_singleton]
      exact ⟨h.ne_nil, hne⟩
    · rw [List.forall_mem_append, List.forall_mem_singleton]
      exact ⟨h.closed_bounded, h.current_bounded hne⟩
    · refine h.full.append (.singleton _) fun group hgroup next hnext y hy => ?_
      rw [List.getLast?_concat, Option.mem_some_iff] at hgroup
      rw [List.head?_cons, Option.mem_some_iff] at hnext
      subst hgroup hnext
      rw [List.head?_cons, Option.mem_some_iff] at hy
      rw [← hy, ← h.size_eq, hfull]
  · refine ⟨?_, ?_, h.ne_nil, fun hnil => absurd hnil (by simp), h.closed_bounded, fun _ => ?_, ?_⟩
    · rw [← List.append_assoc, h.flatten]
    · rw [h.size_eq]
      simp [total]
    · by_cases hnil : p.current = []
      · exact Or.inr (by simp [hnil])
      · refine Or.inl ?_
        have hfits : fits (p.size + size x) = true := by
          by_contra hnot
          exact hopen ⟨hnil, by simpa using hnot⟩
        simpa [total, h.size_eq] using hfits
    · by_cases hnil : p.current = []
      · rw [h.closed_nil hnil, List.nil_append]
        exact .singleton _
      · -- the head of the group being filled stays what it was
        have hfull := List.isChain_append.mp h.full
        refine List.isChain_append.mpr
          ⟨hfull.1, .singleton _, fun group hgroup next hnext y hy => ?_⟩
        rw [List.head?_cons, Option.mem_some_iff] at hnext
        subst hnext
        refine hfull.2.2 group hgroup p.current rfl y ?_
        rwa [List.head?_append_of_ne_nil _ hnil] at hy

lemma sound_foldl (xs : List α) :
    Sound fits size (xs.foldl (fun p x => p.add fits x (size x)) Packing.start) xs := by
  induction xs using List.reverseRecOn with
  | nil => exact sound_start
  | append_singleton xs x ih =>
      rw [List.foldl_append]
      exact ih.add x

lemma forall_groups {P : List α → Prop} (hclosed : ∀ group ∈ p.closed, P group)
    (hcurrent : p.current ≠ [] → P p.current) :
    ∀ group ∈ p.groups, P group := by
  rw [groups]
  split_ifs with hnil
  · exact hclosed
  · rw [List.forall_mem_append, List.forall_mem_singleton]
    exact ⟨hclosed, hcurrent hnil⟩

/-- **Nothing is lost, and the order stays.** -/
theorem pack_flatten (xs : List α) : (pack fits size xs).flatten = xs := by
  have h : Sound fits size (xs.foldl (fun p x => p.add fits x (size x)) start) xs := sound_foldl xs
  rw [pack, groups]
  split_ifs with hnil
  · rw [← List.append_nil (List.flatten _), ← hnil]
    exact h.flatten
  · rw [List.flatten_append, List.flatten_singleton]
    exact h.flatten

/-- The same packing of other items. -/
def map {β : Type} (f : α → β) (p : Packing α) : Packing β :=
  ⟨p.closed.map fun group => group.map f, p.current.map f, p.size⟩

/-- **No group is empty.** -/
theorem pack_ne_nil (xs : List α) : ∀ group ∈ pack fits size xs, group ≠ [] :=
  have h : Sound fits size (xs.foldl (fun p x => p.add fits x (size x)) start) xs := sound_foldl xs
  forall_groups h.ne_nil id

/-- **A group fits, or it holds a single item.** -/
theorem pack_fits (xs : List α) : ∀ group ∈ pack fits size xs, Bounded fits size group :=
  have h : Sound fits size (xs.foldl (fun p x => p.add fits x (size x)) start) xs := sound_foldl xs
  forall_groups h.closed_bounded h.current_bounded

/-- **No group's first item would have fitted into the group before it.** -/
theorem pack_maximal (xs : List α) : (pack fits size xs).IsChain (Full fits size) := by
  have h : Sound fits size (xs.foldl (fun p x => p.add fits x (size x)) start) xs := sound_foldl xs
  rw [pack, groups]
  split_ifs with hnil
  · exact h.full.left_of_append
  · exact h.full

end Packing
