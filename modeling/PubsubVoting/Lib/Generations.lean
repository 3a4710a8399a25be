import Mathlib.Tactic

/-!
Two generations of a store: new entries go to the front one, the back one holds the older entries
until it is dropped and the front takes its place.

* `shadow`: a lookup through both, the front first. `Within`: the answers are those of a given map.
* `within_update_iff`, `within_exchange_iff`: what an update of the front and an exchange of the two
  generations do to the answers.
* `Lane`: the dated copies of one entry in the two generations. `Lane.Sound`: while its newest
  copy has not been dropped, that copy is the first one.
* `Lane.Step`: the writes and shifts that keep it so (`Lane.Step.sound`), and let no lookup bring a
  value that is older than a given write (`Lane.Step.shows`, `Lane.Step.since`).
-/

section Shadow

variable {κ α : Type}

/-- A lookup in the front, and in the back where the front has nothing. -/
def shadow (front back : κ → Option α) (k : κ) : Option α := (front k).or (back k)

/-- Every answer is the one that `last` has, or there is none. -/
def Within (answer last : κ → Option α) : Prop := ∀ k, answer k = none ∨ answer k = last k

variable {front back last : κ → Option α}

lemma shadow_none_front : shadow (fun _ => none) back = back :=
  funext fun _ => Option.none_or

lemma Within.of_shadow (h : Within (shadow front back) last) : Within front last := by
  intro k
  cases hk : front k with
  | none => exact .inl rfl
  | some v =>
      have hanswer : shadow front back k = some v := by rw [shadow, hk, Option.some_or]
      refine .inr ?_
      rcases h k with hnone | hlast
      · rw [hanswer] at hnone
        cases hnone
      · rw [← hlast, hanswer]

lemma Within.update [DecidableEq κ] (h : Within front last) (k : κ) (o : Option α) :
    Within (Function.update front k o) (Function.update last k o) := by
  intro k'
  by_cases hk : k' = k
  · subst hk
    exact .inr (by rw [Function.update_self, Function.update_self])
  · rw [Function.update_of_ne hk, Function.update_of_ne hk]
    exact h k'

/-- An update of the front shows the back only where it takes a value away. -/
lemma within_update_iff [DecidableEq κ] (h : Within (shadow front back) last) (k : κ)
    (o : Option α) :
    Within (shadow (Function.update front k o) back) (Function.update last k o) ↔
      (o = none → back k = none) := by
  constructor
  · rintro hafter rfl
    rcases hafter k with hnone | hlast
    · rwa [shadow, Function.update_self, Option.none_or] at hnone
    · rwa [shadow, Function.update_self, Option.none_or, Function.update_self] at hlast
  · intro hback k'
    by_cases hk : k' = k
    · subst hk
      rw [shadow, Function.update_self, Function.update_self]
      cases o with
      | none => exact .inl (by rw [hback rfl, Option.or_none])
      | some v => exact .inr Option.some_or
    · rw [shadow, Function.update_of_ne hk, Function.update_of_ne hk]
      exact h k'

/-- Front and back may change places exactly when they agree where both have a value. -/
lemma within_exchange_iff (h : Within (shadow front back) last) :
    Within (shadow back front) last ↔
      ∀ k v v', front k = some v → back k = some v' → v' = v := by
  constructor
  · intro hafter k v v' hv hv'
    have hlast : front k = none ∨ front k = last k := h.of_shadow k
    have hlast' : back k = none ∨ back k = last k := hafter.of_shadow k
    rw [hv] at hlast
    rw [hv'] at hlast'
    have heq : some v' = some v := (hlast'.resolve_left (Option.some_ne_none v')).trans
      (hlast.resolve_left (Option.some_ne_none v)).symm
    exact Option.some.inj heq
  · intro hagree k
    have hk := h k
    rw [shadow] at hk ⊢
    cases hv : front k with
    | none => rwa [hv, Option.none_or, ← @Option.or_none _ (back k)] at hk
    | some v =>
        rw [hv, Option.some_or] at hk
        cases hv' : back k with
        | none => exact hk
        | some v' => rwa [Option.some_or, hagree k v v' hv hv']

end Shadow

section Lane

/-- A copy of an entry: its value, or a null, and the date of the write it goes back to. -/
structure Dated (α : Type) where
  value : Option α
  date : ℕ

/-- The value of a copy with its date, unless there is none. -/
def hit {α : Type} (copy : Option (Dated α)) : Option (α × ℕ) :=
  copy.bind fun c => c.value.map fun v => (v, c.date)

/-- One entry: its copies in the two generations, the date of its newest write, and the newest date
whose copy was dropped while no other copy was as new. -/
structure Lane (α : Type) where
  front : Option (Dated α)
  back : Option (Dated α)
  newest : ℕ
  dropped : ℕ

namespace Lane

variable {α : Type} {l : Lane α} {c : Dated α} {d d' : ℕ} {floors : List ℕ}

/-- Write a copy to the front. -/
def write (c : Dated α) (l : Lane α) : Lane α :=
  { l with front := some c, newest := max l.newest c.date }

/-- The date of the copy that a shift drops, unless the front holds one that is as new. -/
def lost (front back : Option (Dated α)) : ℕ :=
  match back with
  | none => 0
  | some c => if front.any (fun c' => c.date ≤ c'.date) then 0 else c.date

/-- Drop the back, and put the front in its place. -/
def shift (l : Lane α) : Lane α :=
  { l with front := none, back := l.front, dropped := max l.dropped (lost l.front l.back) }

/-- No copy is newer than the newest write, and the copy of the newest write comes first, unless it
was dropped. -/
structure Sound (l : Lane α) : Prop where
  front_le : ∀ c ∈ l.front, c.date ≤ l.newest
  back_le : ∀ c ∈ l.back, c.date ≤ l.newest
  dropped_le : l.dropped ≤ l.newest
  held : l.dropped < l.newest →
    (∃ c ∈ l.front, c.date = l.newest) ∨ (l.front = none ∧ ∃ c ∈ l.back, c.date = l.newest)

/-- The front holds a null and the back a value. -/
def veiled (l : Lane α) : Bool := l.front.any (fun c => c.value.isNone) && (hit l.back).isSome

/-- Every value held is of a given date or newer. -/
def Since (d : ℕ) (l : Lane α) : Prop :=
  (∀ p ∈ hit l.front, d ≤ p.2) ∧ ∀ p ∈ hit l.back, d ≤ p.2

/-- A lookup brings a value of a given date or newer, if it brings one, or a copy of that date or
newer was dropped. -/
def Shows (d : ℕ) (l : Lane α) : Prop :=
  ((∀ p ∈ hit l.front, d ≤ p.2) ∧ (hit l.front = none → ∀ p ∈ hit l.back, d ≤ p.2)) ∨ d ≤ l.dropped

/-- A write may not go behind the newest one, unless that one was dropped; and over a value older
than one of the dates that lookups may not go behind it may not be a null. -/
structure Admits (l : Lane α) (floors : List ℕ) (c : Dated α) : Prop where
  current : l.newest ≤ c.date ∨ l.newest ≤ l.dropped
  shows_none : c.value = none → ∀ p ∈ hit l.back, ∀ d ∈ floors, d ≤ p.2 ∨ d ≤ l.dropped

lemma hit_eq_some {copy : Option (Dated α)} {p : α × ℕ} (h : hit copy = some p) :
    copy = some ⟨some p.1, p.2⟩ := by
  obtain ⟨⟨value, date⟩, hc, hp⟩ := Option.bind_eq_some_iff.mp h
  obtain ⟨v, hv, rfl⟩ := Option.map_eq_some_iff.mp hp
  rw [hc]
  exact congrArg some (congrArg (Dated.mk · date) hv)

lemma lost_le {front back : Option (Dated α)} (h : ∀ c ∈ back, c.date ≤ d) :
    lost front back ≤ d := by
  unfold lost
  split
  · exact Nat.zero_le d
  · next c =>
      split_ifs
      · exact Nat.zero_le d
      · exact h c rfl

/-- A write that is admitted keeps the lane sound. -/
lemma Sound.write (h : l.Sound) (hc : l.Admits floors c) : (l.write c).Sound where
  front_le := by
    intro c' hc'
    obtain rfl := Option.some.inj hc'
    exact le_max_right _ _
  back_le := fun c' hc' => (h.back_le c' hc').trans (le_max_left _ _)
  dropped_le := h.dropped_le.trans (le_max_left _ _)
  held := by
    intro hlt
    refine .inl ⟨c, rfl, ?_⟩
    have hlt' : l.dropped < max l.newest c.date := hlt
    show c.date = max l.newest c.date
    rcases hc.current with hcurrent | hdropped
    · exact (max_eq_right hcurrent).symm
    · omega

/-- A shift keeps the lane sound: the copy it leaves is the newest one, or it dropped that. -/
lemma Sound.shift (h : l.Sound) : l.shift.Sound where
  front_le := fun _ hc => by cases hc
  back_le := h.front_le
  dropped_le := max_le h.dropped_le (lost_le h.back_le)
  held := by
    intro hlt
    have hlt' : max l.dropped (lost l.front l.back) < l.newest := hlt
    refine .inr ⟨rfl, ?_⟩
    rcases h.held ((le_max_left _ _).trans_lt hlt') with ⟨c, hc, hdate⟩ | ⟨hfront, c, hc, hdate⟩
    · exact ⟨c, hc, hdate⟩
    · have hlost : lost l.front l.back = l.newest := by
        rw [Option.mem_def.mp hc, hfront, ← hdate]
        rfl
      omega

lemma veiled_eq_true {c : Dated α} (hfront : l.front = some c) (hvalue : c.value = none)
    {p : α × ℕ} (hp : hit l.back = some p) : l.veiled = true := by
  rw [veiled, hfront, hp, Option.any_some, hvalue]
  rfl

/-- Where no null hides a value, a lookup brings nothing that is older than a write. -/
lemma Sound.shows (h : l.Sound) (hveiled : l.veiled = false) (hd : d ≤ l.newest) : l.Shows d := by
  by_cases hlt : l.dropped < l.newest
  · refine .inl ⟨fun p hp => ?_, fun hnone p hp => ?_⟩
    · have hfront : l.front = some ⟨some p.1, p.2⟩ := hit_eq_some hp
      rcases h.held hlt with ⟨c, hc, hdate⟩ | ⟨hnone, -⟩
      · obtain rfl : _ = c := Option.some.inj (hfront.symm.trans hc)
        have hdate' : p.2 = l.newest := hdate
        omega
      · rw [hfront] at hnone
        cases hnone
    · rcases h.held hlt with ⟨c, hc, -⟩ | ⟨-, c, hc, hdate⟩
      · have hvalue : c.value = none := by
          rw [hit, Option.mem_def.mp hc, Option.bind_some, Option.map_eq_none_iff] at hnone
          exact hnone
        rw [veiled_eq_true hc hvalue hp] at hveiled
        cases hveiled
      · obtain rfl : _ = c := Option.some.inj ((hit_eq_some hp).symm.trans hc)
        have hdate' : p.2 = l.newest := hdate
        omega
  · exact .inr (by omega)

lemma Shows.max (h : l.Shows d) (h' : l.Shows d') : l.Shows (max d d') := by
  rcases max_choice d d' with hmax | hmax
  · rwa [hmax]
  · rwa [hmax]

/-- A value found in the front is not older than the date a lookup may not go behind. -/
lemma Shows.front (h : l.Shows d) {p : α × ℕ} (hp : hit l.front = some p) :
    d ≤ p.2 ∨ d ≤ l.dropped :=
  h.imp_left fun hshows => hshows.1 p hp

/-- Where the front has no value, none that is held is older. -/
lemma Shows.since (h : l.Shows d) (hnone : hit l.front = none) : l.Since d ∨ d ≤ l.dropped :=
  h.imp_left fun hshows => ⟨hshows.1, hshows.2 hnone⟩

/-- An admitted write lets no lookup go behind a date that it may not go behind. -/
lemma Shows.write (h : l.Shows d) (hd : d ≤ l.newest) (hmem : d ∈ floors)
    (hc : l.Admits floors c) : (l.write c).Shows d := by
  rcases h with - | hdropped
  · rcases hc.current with hcurrent | hcurrent
    · cases hvalue : c.value with
      | some v =>
          have hfront : hit (l.write c).front = some (v, c.date) := by
            show (some c).bind _ = _
            rw [Option.bind_some, hvalue, Option.map_some]
          refine .inl ⟨fun p hp => ?_, fun hnone => ?_⟩
          · obtain rfl := Option.some.inj (hfront.symm.trans hp)
            exact hd.trans hcurrent
          · rw [hfront] at hnone
            cases hnone
      | none =>
          have hfront : hit (l.write c).front = none := by
            show (some c).bind _ = _
            rw [Option.bind_some, hvalue, Option.map_none]
          have hshown := hc.shows_none hvalue
          cases hp : hit l.back with
          | none =>
              refine .inl ⟨fun p hp' => ?_, fun _ p hp' => ?_⟩
              · rw [hfront] at hp'
                cases hp'
              · cases hp.symm.trans hp'
          | some p =>
              refine (hshown p hp d hmem).imp_left fun hp' => ⟨fun p hfound => ?_, ?_⟩
              · rw [hfront] at hfound
                cases hfound
              · rintro - q hq
                obtain rfl := Option.some.inj (hp.symm.trans hq)
                exact hp'
    · exact .inr (hd.trans hcurrent)
  · exact .inr hdropped

lemma Shows.shift (h : l.Shows d) : l.shift.Shows d := by
  rcases h with ⟨hfront, -⟩ | hdropped
  · exact .inl ⟨fun p hp => absurd hp (Option.not_mem_none p), fun _ => hfront⟩
  · exact .inr (hdropped.trans (le_max_left _ _))

/-- An admitted write brings no value that is older than a write that was not dropped. -/
lemma Since.write (h : l.Since d) (hd : d ≤ l.newest) (hc : l.Admits floors c) :
    (l.write c).Since d ∨ d ≤ l.dropped := by
  rcases hc.current with hcurrent | hdropped
  · refine .inl ⟨fun p hp => ?_, h.2⟩
    have hfront : some c = some ⟨some p.1, p.2⟩ := hit_eq_some hp
    obtain rfl := Option.some.inj hfront
    exact hd.trans hcurrent
  · exact .inr (hd.trans hdropped)

lemma Since.shift (h : l.Since d) : l.shift.Since d :=
  ⟨fun p hp => absurd hp (Option.not_mem_none p), h.1⟩

/-- What may happen to an entry at once, with the dates that lookups may not go behind. -/
inductive Step (l : Lane α) (floors : List ℕ) : Lane α → Prop
  | keep : Step l floors l
  | write {c : Dated α} : l.Admits floors c → Step l floors (l.write c)
  | shift : Step l floors l.shift

variable {l' : Lane α}

lemma Step.sound (hstep : l.Step floors l') (h : l.Sound) : l'.Sound := by
  cases hstep with
  | keep => exact h
  | write hc => exact h.write hc
  | shift => exact h.shift

lemma Step.newest_le (hstep : l.Step floors l') : l.newest ≤ l'.newest := by
  cases hstep with
  | keep => exact le_rfl
  | write hc => exact le_max_left _ _
  | shift => exact le_rfl

lemma Step.dropped_le (hstep : l.Step floors l') : l.dropped ≤ l'.dropped := by
  cases hstep with
  | keep => exact le_rfl
  | write hc => exact le_rfl
  | shift => exact le_max_left _ _

/-- No step brings a value back that is older than a write that was not dropped. -/
lemma Step.since (hstep : l.Step floors l') (hd : d ≤ l.newest) (h : l.Since d ∨ d ≤ l.dropped) :
    l'.Since d ∨ d ≤ l'.dropped := by
  rcases h with h | h
  · cases hstep with
    | keep => exact .inl h
    | write hc => exact h.write hd hc
    | shift => exact .inl h.shift
  · exact .inr (h.trans hstep.dropped_le)

/-- No step lets a lookup go behind a date that it may not go behind. -/
lemma Step.shows (hstep : l.Step floors l') (hd : d ≤ l.newest) (hmem : d ∈ floors)
    (h : l.Shows d) : l'.Shows d := by
  cases hstep with
  | keep => exact h
  | write hc => exact h.write hd hmem hc
  | shift => exact h.shift

end Lane

end Lane
