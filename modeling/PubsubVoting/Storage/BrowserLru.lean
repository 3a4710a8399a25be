import PubsubVoting.Lib.Generations
import PubsubVoting.Lib.JsMap
import PubsubVoting.Lib.JsString
import PubsubVoting.Lib.Transition

/-!
The browser's LRU store (`storage/browser.ts`): two databases of which one is active, and the other
one keeps the older entries until it is cleared. A stored null is a cell without a value.

* `Halves`: the two databases, with the operations of `#init`: `openHalves`, `swap`, `grow`.
* `setItem`, `getItem`, `removeItem`, `clear`: the operations of the store, one after the other.
* `setItem_of_fills`, `setItem_of_not_fills`: a `setItem` writes the active half, and where it fills
  that one it becomes the inactive half.
* `browserLru_serves_iff`: a history serves no superseded value exactly if no null is stored over a
  value of the inactive half, and no re-open picks the other half while the two differ on a key.
* `browserLru_superseded`: two histories that serve one.
-/

namespace PubsubVoting

/-! ### The two databases -/

/-- The closure of `#init`: which database is active, and the count of the entries written to it.
A `C` is what a database keeps under a key. -/
structure Halves (C : Type) where
  active : JsMap JsString C
  inactive : JsMap JsString C
  activeIsFirst : Bool
  activeSize : ℕ

namespace Halves

section

variable {C : Type} (maxItems : ℕ)

/-- `database1` -/
def database1 (h : Halves C) : JsMap JsString C := if h.activeIsFirst then h.active else h.inactive

/-- `database2` -/
def database2 (h : Halves C) : JsMap JsString C := if h.activeIsFirst then h.inactive else h.active

/-- The size rule of `#init`: the first database is the active one. -/
def picksFirst (size1 size2 : ℕ) : Bool :=
  (decide (size1 ≥ size2) && decide (size1 ≠ maxItems)) || decide (size2 = maxItems)

/-- `#init`: the largest database is the active one, unless it is full. -/
def openHalves (database1 database2 : JsMap JsString C) : Halves C :=
  if picksFirst maxItems database1.entries.length database2.entries.length then
    ⟨database1, database2, true, database1.entries.length⟩
  else
    ⟨database2, database1, false, database2.entries.length⟩

/-- `swap`: the databases swap roles, and the new active one is cleared. -/
def swap (h : Halves C) : Halves C := ⟨∅, h.active, !h.activeIsFirst, 0⟩

/-- The part of `grow` after the active database was counted. -/
def reconcile (length : ℕ) (h : Halves C) : Halves C :=
  let counted := { h with activeSize := length }
  if counted.activeSize ≥ maxItems then counted.swap else counted

/-- `grow` -/
def grow (h : Halves C) : Halves C :=
  let grown := { h with activeSize := h.activeSize + 1 }
  if grown.activeSize ≥ maxItems then grown.reconcile maxItems grown.active.entries.length
  else grown

/-- `active().setItem` -/
def write (key : JsString) (cell : C) (h : Halves C) : Halves C :=
  { h with active := h.active.set key cell }

end

/-! ### The store, one operation after the other -/

variable {V : Type} (maxItems : ℕ)

/-- The value under a key, unless there is none or it is a null. -/
def look (database : JsMap JsString (Option V)) (key : JsString) : Option V :=
  (database.get? key).join

/-- `setItem`, of a value or a null. -/
def setItem (key : JsString) (value : Option V) (h : Halves (Option V)) : Halves (Option V) :=
  let existing := look h.active key
  let written := h.write key value
  if existing.isNone then written.grow maxItems else written

/-- `getItem`: a hit in the inactive half is promoted. -/
def getItem (key : JsString) (h : Halves (Option V)) : Halves (Option V) × Option V :=
  match look h.active key with
  | some value => (h, some value)
  | none =>
      match look h.inactive key with
      | none => (h, none)
      | some older => (h.setItem maxItems key (some older), some older)

/-- `removeItem` -/
def removeItem (key : JsString) (h : Halves (Option V)) : Halves (Option V) :=
  { h with active := h.active.delete key, inactive := h.inactive.delete key }

/-- `clear` -/
def clear (h : Halves (Option V)) : Halves (Option V) := { h with active := ∅, inactive := ∅ }

/-- A fresh instance over the two databases. -/
def reopen (h : Halves (Option V)) : Halves (Option V) :=
  openHalves maxItems h.database1 h.database2

variable {maxItems} {h : Halves (Option V)} {key : JsString}

/-! ### What the operations do to a lookup -/

@[simp] lemma look_empty : look (∅ : JsMap JsString (Option V)) = fun _ => none := rfl

lemma look_set (database : JsMap JsString (Option V)) (key : JsString) (value : Option V) :
    look (database.set key value) = Function.update (look database) key value := by
  funext key'
  rw [look, JsMap.get?_set]
  by_cases hk : key' = key
  · rw [if_pos hk, hk, Function.update_self]
    rfl
  · rw [if_neg hk, Function.update_of_ne hk]
    rfl

lemma look_delete (database : JsMap JsString (Option V)) (key : JsString) :
    look (database.delete key) = Function.update (look database) key none := by
  funext key'
  rw [look, JsMap.get?_delete]
  by_cases hk : key' = key
  · rw [if_pos hk, hk, Function.update_self]
    rfl
  · rw [if_neg hk, Function.update_of_ne hk]
    rfl

/-- A `setItem` fills the active half: its write is counted, and the count and the length it is
reconciled with reach the bound. -/
def Fills (maxItems : ℕ) (key : JsString) (value : Option V) (h : Halves (Option V)) : Prop :=
  look h.active key = none ∧ maxItems ≤ h.activeSize + 1 ∧
    maxItems ≤ (h.active.set key value).entries.length

/-- A `setItem` that fills the active half makes it the inactive one. -/
lemma setItem_of_fills {value : Option V} (hfills : Fills maxItems key value h) :
    (h.setItem maxItems key value).active = ∅ ∧
      (h.setItem maxItems key value).inactive = h.active.set key value := by
  obtain ⟨hnone, hcount, hlength⟩ := hfills
  have hset : h.setItem maxItems key value
      = ({ h.write key value with
            activeSize := (h.active.set key value).entries.length }).swap := by
    rw [setItem, hnone, grow]
    simp only [Option.isNone_none, if_true]
    rw [if_pos (by exact hcount), reconcile]
    exact if_pos hlength
  rw [hset]
  exact ⟨rfl, rfl⟩

lemma grow_of_short {g : Halves (Option V)}
    (hshort : maxItems ≤ g.activeSize + 1 → ¬ maxItems ≤ g.active.entries.length) :
    (g.grow maxItems).active = g.active ∧ (g.grow maxItems).inactive = g.inactive := by
  rw [grow]
  dsimp only
  split_ifs with hcount
  · rw [reconcile]
    dsimp only
    rw [if_neg (by exact hshort hcount)]
    exact ⟨rfl, rfl⟩
  · exact ⟨rfl, rfl⟩

/-- A `setItem` that does not fill the active half leaves the inactive one. -/
lemma setItem_of_not_fills {value : Option V} (hfills : ¬ Fills maxItems key value h) :
    (h.setItem maxItems key value).active = h.active.set key value ∧
      (h.setItem maxItems key value).inactive = h.inactive := by
  rw [setItem]
  cases hexisting : look h.active key with
  | some v => exact ⟨rfl, rfl⟩
  | none =>
      exact grow_of_short fun hcount hlength => hfills ⟨hexisting, hcount, hlength⟩

/-- What a `getItem` returns. -/
lemma getItem_snd (h : Halves (Option V)) (key : JsString) :
    (h.getItem maxItems key).2 = shadow (look h.active) (look h.inactive) key := by
  rw [getItem, shadow]
  cases look h.active key with
  | some v => rfl
  | none =>
      cases look h.inactive key with
      | some v => rfl
      | none => rfl

/-- A re-open picks the half that was active, or the other one. -/
lemma reopen_cases (maxItems : ℕ) (h : Halves (Option V)) :
    (picksFirst maxItems h.database1.entries.length h.database2.entries.length = h.activeIsFirst ∧
      (h.reopen maxItems).active = h.active ∧ (h.reopen maxItems).inactive = h.inactive) ∨
    (picksFirst maxItems h.database1.entries.length h.database2.entries.length ≠ h.activeIsFirst ∧
      (h.reopen maxItems).active = h.inactive ∧ (h.reopen maxItems).inactive = h.active) := by
  unfold reopen openHalves
  cases hpick : picksFirst maxItems h.database1.entries.length h.database2.entries.length with
  | true => cases hfirst : h.activeIsFirst <;> simp [database1, database2, hfirst]
  | false => cases hfirst : h.activeIsFirst <;> simp [database1, database2, hfirst]

end Halves

/-! ### Histories -/

/-- An operation of a history; a `setItem` of null or undefined sets `none`. -/
inductive LruInput (V : Type)
  | setItem (key : JsString) (value : Option V)
  | getItem (key : JsString)
  | removeItem (key : JsString)
  | clear
  | reopen

/-- The store after a history, and the value that was set last under each key, with none after a
`removeItem` or a `clear`. -/
structure LruHistory (V : Type) where
  store : Halves (Option V)
  last : JsString → Option V

namespace LruHistory

open Halves JsString

variable {V : Type} (maxItems : ℕ)

/-- One operation. -/
def step (s : LruHistory V) : LruInput V → LruHistory V
  | .setItem key value => ⟨s.store.setItem maxItems key value, Function.update s.last key value⟩
  | .getItem key => { s with store := (s.store.getItem maxItems key).1 }
  | .removeItem key => ⟨s.store.removeItem key, Function.update s.last key none⟩
  | .clear => ⟨s.store.clear, fun _ => none⟩
  | .reopen => { s with store := s.store.reopen maxItems }

/-- Two databases that were never written. -/
def start : LruHistory V := ⟨openHalves maxItems ∅ ∅, fun _ => none⟩

/-- The state after a history. -/
def run (inputs : List (LruInput V)) : LruHistory V := inputs.foldl (step maxItems) (start maxItems)

/-- Every `getItem` returns the value of the last `setItem` of its key, or undefined. -/
def Serves (s : LruHistory V) : Prop :=
  ∀ key, (s.store.getItem maxItems key).2 = none ∨ (s.store.getItem maxItems key).2 = s.last key

/-- No null is stored over a value of the inactive half, unless its `setItem` drops that half. A
re-open picks the half that was active, or the halves agree on the keys that both have. -/
def Keeps (s : LruHistory V) : LruInput V → Prop
  | .setItem key none => look s.store.inactive key = none ∨ Fills maxItems key none s.store
  | .reopen =>
      picksFirst maxItems s.store.database1.entries.length s.store.database2.entries.length
          = s.store.activeIsFirst ∨
        ∀ key v v', look s.store.active key = some v → look s.store.inactive key = some v' → v' = v
  | _ => True

variable {maxItems} {s : LruHistory V}

lemma serves_iff_within :
    s.Serves maxItems ↔ Within (shadow (look s.store.active) (look s.store.inactive)) s.last := by
  refine forall_congr' fun key => ?_
  rw [getItem_snd]

lemma serves_of_halves {h : Halves (Option V)} {front back last : JsString → Option V}
    (hactive : look h.active = front) (hinactive : look h.inactive = back) :
    (LruHistory.mk h last).Serves maxItems ↔ Within (shadow front back) last := by
  rw [serves_iff_within, hactive, hinactive]

lemma serves_start : (start maxItems : LruHistory V).Serves maxItems := by
  refine serves_iff_within.mpr fun key => .inl ?_
  unfold start openHalves
  split_ifs <;> rfl

/-- The write of a value, or of a null that hides none, is the last value served. -/
lemma serves_setItem_iff (h : s.Serves maxItems) (key : JsString) (value : Option V) :
    (s.step maxItems (.setItem key value)).Serves maxItems ↔
      (value = none → look s.store.inactive key = none ∨ Fills maxItems key none s.store) := by
  have hwithin := serves_iff_within.mp h
  by_cases hfills : Fills maxItems key value s.store
  · obtain ⟨hactive, hinactive⟩ := setItem_of_fills hfills
    have hserves : (s.step maxItems (.setItem key value)).Serves maxItems := by
      rw [step, serves_of_halves (congrArg look hactive) (congrArg look hinactive), look_set]
      rw [look_empty, shadow_none_front]
      exact hwithin.of_shadow.update key value
    refine iff_of_true hserves ?_
    rintro rfl
    exact .inr hfills
  · obtain ⟨hactive, hinactive⟩ := setItem_of_not_fills hfills
    rw [step, serves_of_halves (congrArg look hactive) (congrArg look hinactive), look_set,
      within_update_iff hwithin]
    refine imp_congr_right ?_
    rintro rfl
    exact (or_iff_left hfills).symm

/-- A `getItem` serves what it did before: a promoted value is the one that was served. -/
lemma serves_getItem (h : s.Serves maxItems) (key : JsString) :
    (s.step maxItems (.getItem key)).Serves maxItems := by
  rw [step, Halves.getItem]
  cases hactive : look s.store.active key with
  | some value => exact h
  | none =>
      cases hinactive : look s.store.inactive key with
      | none => exact h
      | some older =>
          have hread : (s.store.getItem maxItems key).2 = some older := by
            rw [getItem_snd, shadow, hactive, hinactive, Option.none_or]
          have hlast : s.last key = some older := by
            rcases h key with hnone | hlast
            · rw [hread] at hnone
              cases hnone
            · rw [← hlast, hread]
          have hpromoted := (serves_setItem_iff h key (some older)).mpr fun hnull => by cases hnull
          rw [step, ← hlast, Function.update_eq_self, hlast] at hpromoted
          exact hpromoted

lemma serves_removeItem (h : s.Serves maxItems) (key : JsString) :
    (s.step maxItems (.removeItem key)).Serves maxItems := by
  rw [step, serves_of_halves (look_delete _ _) (look_delete _ _)]
  intro key'
  by_cases hk : key' = key
  · exact .inl (by rw [hk, shadow, Function.update_self, Function.update_self, Option.none_or])
  · rw [shadow, Function.update_of_ne hk, Function.update_of_ne hk, Function.update_of_ne hk]
    exact serves_iff_within.mp h key'

lemma serves_clear : (s.step maxItems .clear).Serves maxItems :=
  serves_iff_within.mpr fun _ => .inl rfl

lemma serves_reopen_iff (h : s.Serves maxItems) :
    (s.step maxItems .reopen).Serves maxItems ↔ s.Keeps maxItems .reopen := by
  have hwithin := serves_iff_within.mp h
  rcases reopen_cases maxItems s.store with
    ⟨hpick, hactive, hinactive⟩ | ⟨hpick, hactive, hinactive⟩
  · refine iff_of_true ?_ (.inl hpick)
    rw [step, serves_of_halves (congrArg look hactive) (congrArg look hinactive)]
    exact hwithin
  · rw [step, serves_of_halves (congrArg look hactive) (congrArg look hinactive),
      within_exchange_iff hwithin]
    exact (or_iff_right hpick).symm

/-- What one operation keeps. -/
lemma serves_step_iff (s : LruHistory V) (i : LruInput V) (h : s.Serves maxItems) :
    (s.step maxItems i).Serves maxItems ↔ s.Keeps maxItems i := by
  cases i with
  | setItem key value =>
      rw [serves_setItem_iff h]
      cases value with
      | none => exact ⟨fun hnull => hnull rfl, fun hkeeps _ => hkeeps⟩
      | some v => exact iff_of_true (fun hnull => by cases hnull) trivial
  | getItem key => exact iff_of_true (serves_getItem h key) trivial
  | removeItem key => exact iff_of_true (serves_removeItem h key) trivial
  | clear => exact iff_of_true serves_clear trivial
  | reopen => exact serves_reopen_iff h

/-- All along a history every `getItem` returns the value of the last `setItem` of its key, or
undefined, exactly if every operation of the history keeps the older half from being served: no
`setItem` of null leaves a value of its key in the inactive half, and no re-open picks the other
half while the two hold different values under one key. -/
theorem browserLru_serves_iff (maxItems : ℕ) (inputs : List (LruInput V)) :
    (∀ done, done <+: inputs → (run maxItems done).Serves maxItems) ↔
      ∀ done i, done ++ [i] <+: inputs → (run maxItems done).Keeps maxItems i :=
  forall_prefix_iff serves_start (fun s i h => serves_step_iff s i h) inputs

section

/-- Two keys of a store for two entries. -/
def lruKeyA : JsString := ofString "a"

/-- See `lruKeyA`. -/
def lruKeyB : JsString := ofString "b"

/-- The halves swap at the second key, the first is set again, and a removal leaves both halves
with one entry; the re-open takes the older half for the active one. -/
def misledReopen : List (LruInput ℕ) :=
  [.setItem lruKeyA (some 1), .setItem lruKeyB (some 1), .setItem lruKeyA (some 2),
    .removeItem lruKeyB, .reopen]

/-- The halves swap at the second key, and the first one is set to null. -/
def nullOverOlder : List (LruInput ℕ) :=
  [.setItem lruKeyA (some 1), .setItem lruKeyB (some 1), .setItem lruKeyA none]

/-- A re-open that the sizes mislead serves the value before the last one, and so does a `getItem`
after a null was set. -/
theorem browserLru_superseded :
    ¬ (run 2 misledReopen).Serves 2 ∧ ¬ (run 2 nullOverOlder).Serves 2 := by
  have hreopen : ((run 2 misledReopen).store.getItem 2 lruKeyA).2 = some 1
      ∧ (run 2 misledReopen).last lruKeyA = some 2 := by decide +kernel
  have hnull : ((run 2 nullOverOlder).store.getItem 2 lruKeyA).2 = some 1
      ∧ (run 2 nullOverOlder).last lruKeyA = none := by decide +kernel
  refine ⟨fun h => ?_, fun h => ?_⟩
  · have hserved := h lruKeyA
    rw [hreopen.1, hreopen.2] at hserved
    exact absurd hserved (by decide)
  · have hserved := h lruKeyA
    rw [hnull.1, hnull.2] at hserved
    exact absurd hserved (by decide)

end

end LruHistory

end PubsubVoting
