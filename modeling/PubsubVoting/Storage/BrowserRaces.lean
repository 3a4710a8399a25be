import PubsubVoting.Storage.BrowserLru

/-!
Concurrent `getItem` and `setItem` calls on one open browser store (`storage/browser.ts`). A call
runs from one `await` to the next in one step, the calls interleave in any order, and a request
takes effect in its database when it is issued. A copy is dated by the write it goes back to: the
`setItem` calls of a key are numbered in the order of their writes, a promotion copies the date of
the value it read, and what the databases hold at first has date 0.

* `OpenStore.step`: the start of a call, or the next part of one.
* `OpenStore.Guarded`: no promotion is written after a newer `setItem` of its key, unless that one
  was evicted, and no null is left over a value of the inactive half.
* `OpenStore.Coherent`: what holds in every state of a run whose steps are all guarded.
* `browserLru_notUndone`: in such a run no `getItem` that starts after a `setItem` completed returns
  an older value.
* `browserLru_undone`: a promotion undoes a `setItem` that completed.
-/

namespace PubsubVoting

open Halves JsString

/-! ### Calls -/

/-- Where a `setItem` is suspended; `looked` and `written` remember whether the active database had
a value, `counted` its length. -/
inductive SetPhase
  | called
  | looked (existing : Bool)
  | written (existing : Bool)
  | counted (length : ℕ)
  | cleared
  | returned
  deriving DecidableEq

/-- Where a `getItem` is suspended, with what its last request answered. -/
inductive GetPhase (V : Type)
  | called
  | looked (value : Option (V × ℕ))
  | lookedOlder (older : Option (V × ℕ))
  | promoting (older : V × ℕ) (phase : SetPhase)
  | returned (result : Option (V × ℕ))
  deriving DecidableEq

/-- A call under way or returned. A `setItem` has the date of its write, a `getItem` the date of the
newest `setItem` that was settled when it started. -/
inductive Call (V : Type)
  | setItem (key : JsString) (value : Option V) (date : ℕ) (phase : SetPhase)
  | getItem (key : JsString) (floor : ℕ) (phase : GetPhase V)
  deriving DecidableEq

/-- The call has returned. -/
def Call.finished {V : Type} : Call V → Bool
  | .setItem _ _ _ .returned => true
  | .getItem _ _ (.returned _) => true
  | _ => false

/-- One open store. `newest` is the date of the newest write of a key, `dropped` the newest date
whose entry was evicted, and `settled` that of the newest `setItem` that completed with no other
one started since. -/
structure OpenStore (V : Type) where
  halves : Halves (Dated V)
  calls : List (Call V)
  newest : JsString → ℕ
  dropped : JsString → ℕ
  settled : JsString → ℕ

/-- What a client does, or which call goes on. -/
inductive StoreInput (V : Type)
  | setItem (key : JsString) (value : Option V)
  | getItem (key : JsString)
  | resume (i : ℕ)

namespace OpenStore

variable {V : Type} (maxItems : ℕ)

/-- `active().setItem` -/
def write (key : JsString) (cell : Dated V) (s : OpenStore V) : OpenStore V :=
  { s with
    halves := s.halves.write key cell
    newest := Function.update s.newest key (max (s.newest key) cell.date) }

/-- `swap`, which evicts the entries that the new inactive half has not in a copy as new. -/
def swap (s : OpenStore V) : OpenStore V :=
  { s with
    halves := s.halves.swap
    dropped := fun key =>
      max (s.dropped key) (Lane.lost (s.halves.active.get? key) (s.halves.inactive.get? key)) }

/-- Set the count of the active half. -/
def count (size : ℕ) (s : OpenStore V) : OpenStore V :=
  { s with halves := { s.halves with activeSize := size } }

/-- `setItem` and `grow`, from where the call is suspended to its next `await`. -/
def setStep (key : JsString) (cell : Dated V) (s : OpenStore V) : SetPhase → OpenStore V × SetPhase
  | .called => (s, .looked (hit (s.halves.active.get? key)).isSome)
  | .looked existing => (s.write key cell, .written existing)
  | .written existing =>
      if existing then (s, .returned)
      else
        let grown := s.count (s.halves.activeSize + 1)
        if grown.halves.activeSize ≥ maxItems then
          (grown, .counted grown.halves.active.entries.length)
        else (grown, .returned)
  | .counted length =>
      let counted := s.count length
      if counted.halves.activeSize ≥ maxItems then (counted.swap, .cleared)
      else (counted, .returned)
  | .cleared => (s, .returned)
  | .returned => (s, .returned)

/-- A `setItem` that returns is settled, with the date of its write. -/
def settle (key : JsString) (date : ℕ) (phase : SetPhase) (s : OpenStore V) : OpenStore V :=
  if phase = .returned then
    { s with settled := Function.update s.settled key (max (s.settled key) date) }
  else s

/-- The date of a `setItem`'s write: the next one of its key, where the write comes next. -/
def dateAt (s : OpenStore V) (key : JsString) (date : ℕ) : SetPhase → ℕ
  | .looked _ => s.newest key + 1
  | _ => date

/-- A `setItem` goes on. -/
def resumeSet (key : JsString) (value : Option V) (date : ℕ) (phase : SetPhase) (s : OpenStore V) :
    OpenStore V × Call V :=
  let date' := s.dateAt key date phase
  let next := s.setStep maxItems key ⟨value, date'⟩ phase
  (next.1.settle key date' next.2, .setItem key value date' next.2)

/-- `getItem` goes on; a promotion is the `setItem` of the older value. -/
def resumeGet (key : JsString) (s : OpenStore V) : GetPhase V → OpenStore V × GetPhase V
  | .called => (s, .looked (hit (s.halves.active.get? key)))
  | .looked (some value) => (s, .returned (some value))
  | .looked none => (s, .lookedOlder (hit (s.halves.inactive.get? key)))
  | .lookedOlder none => (s, .returned none)
  | .lookedOlder (some older) => (s, .promoting older .called)
  | .promoting older phase =>
      let next := s.setStep maxItems key ⟨some older.1, older.2⟩ phase
      (next.1, if next.2 = .returned then .returned (some older) else .promoting older next.2)
  | .returned result => (s, .returned result)

/-- A call goes on. -/
def resume (s : OpenStore V) : Call V → OpenStore V × Call V
  | .setItem key value date phase => s.resumeSet maxItems key value date phase
  | .getItem key floor phase =>
      let next := s.resumeGet maxItems key phase
      (next.1, .getItem key floor next.2)

/-- One step. -/
def step (s : OpenStore V) : StoreInput V → Option (OpenStore V)
  | .setItem key value =>
      some { s with
        calls := s.calls ++ [.setItem key value 0 .called]
        settled := Function.update s.settled key 0 }
  | .getItem key => some { s with calls := s.calls ++ [.getItem key (s.settled key) .called] }
  | .resume i =>
      match s.calls[i]? with
      | none => none
      | some call =>
          if call.finished then none
          else
            let next := s.resume maxItems call
            some { next.1 with calls := s.calls.set i next.2 }

/-- What a database holds at first. -/
def undated (database : JsMap JsString (Option V)) : JsMap JsString (Dated V) where
  entries := database.entries.map fun e => (e.1, ⟨e.2, 0⟩)
  nodup := by
    rw [List.map_map]
    exact database.nodup

/-- The store opened over two databases, with no call under way. -/
def start (database1 database2 : JsMap JsString (Option V)) : OpenStore V :=
  ⟨openHalves maxItems (undated database1) (undated database2), [], fun _ => 0, fun _ => 0,
    fun _ => 0⟩

/-- No `getItem` returned a value older than the newest `setItem` of its key that had completed when
it started, with no other one started since, unless that entry was evicted. -/
def Kept (s : OpenStore V) : Prop :=
  ∀ key floor v date, .getItem key floor (.returned (some (v, date))) ∈ s.calls →
    floor ≤ date ∨ floor ≤ s.dropped key

/-- The copies of one entry in the two halves. -/
def lane (s : OpenStore V) (key : JsString) : Lane V :=
  ⟨s.halves.active.get? key, s.halves.inactive.get? key, s.newest key, s.dropped key⟩

/-- The dates that the lookups of a key may not go behind: that of the settled `setItem`, and those
that `getItem` calls which are yet to look started from. -/
def floors (s : OpenStore V) (key : JsString) : List ℕ :=
  s.settled key :: s.calls.filterMap fun
    | .getItem key' floor .called => if key' = key then some floor else none
    | _ => none

/-- A call whose next part is a write: a promotion is written only while its value is the newest one
written under its key, or the newest one was evicted; a null only where the inactive half has no
value, or one that the lookups of the key may return. -/
def WritesInTurn (s : OpenStore V) : Call V → Prop
  | .setItem key none _ (.looked _) =>
      ∀ older ∈ hit (s.halves.inactive.get? key), ∀ floor ∈ s.floors key,
        floor ≤ older.2 ∨ floor ≤ s.dropped key
  | .getItem key _ (.promoting older (.looked _)) =>
      s.newest key ≤ older.2 ∨ s.newest key ≤ s.dropped key
  | _ => True

/-- The next part of a `setItem` is its last: its write is not counted, or the count or the length
is short of the bound, or the old half was cleared. -/
def isLast (s : OpenStore V) : SetPhase → Bool
  | .written existing => existing || decide (s.halves.activeSize + 1 < maxItems)
  | .counted length => decide (length < maxItems)
  | .cleared => true
  | _ => false

/-- A `setItem` whose next part is its last leaves no null over a value of the inactive half. -/
def EndsUnveiled (s : OpenStore V) : Call V → Prop
  | .setItem key _ _ phase => s.isLast maxItems phase = true → (s.lane key).veiled = false
  | _ => True

/-- A step in which no write is out of turn, and no `setItem` ends that left a null over a value. -/
def Guarded (s : OpenStore V) : StoreInput V → Prop
  | .resume i => ∀ call ∈ s.calls[i]?, s.WritesInTurn call ∧ s.EndsUnveiled maxItems call
  | _ => True

instance [DecidableEq V] (s : OpenStore V) (call : Call V) : Decidable (s.WritesInTurn call) := by
  unfold WritesInTurn
  split <;> infer_instance

instance (s : OpenStore V) (call : Call V) : Decidable (s.EndsUnveiled maxItems call) := by
  unfold EndsUnveiled
  split <;> infer_instance

instance [DecidableEq V] (s : OpenStore V) (i : StoreInput V) : Decidable (s.Guarded maxItems i) :=
  match i with
  | .resume i => inferInstanceAs
      (Decidable (∀ call ∈ s.calls[i]?, s.WritesInTurn call ∧ s.EndsUnveiled maxItems call))
  | .setItem _ _ => instDecidableTrue
  | .getItem _ => instDecidableTrue

/-! ### The entries of a key -/

variable {maxItems} {s t : OpenStore V} {key : JsString}

lemma lane_write_self (key : JsString) (cell : Dated V) (s : OpenStore V) :
    (s.write key cell).lane key = (s.lane key).write cell := by
  have hfront : (s.write key cell).halves.active.get? key = some cell := by
    rw [write, Halves.write, JsMap.get?_set, if_pos rfl]
  have hnewest : (s.write key cell).newest key = max (s.newest key) cell.date :=
    Function.update_self _ _ _
  rw [lane, hfront, hnewest]
  rfl

lemma lane_write_of_ne {key' : JsString} (hne : key' ≠ key) (cell : Dated V) (s : OpenStore V) :
    (s.write key cell).lane key' = s.lane key' := by
  have hfront : (s.write key cell).halves.active.get? key' = s.halves.active.get? key' := by
    rw [write, Halves.write, JsMap.get?_set, if_neg hne]
  have hnewest : (s.write key cell).newest key' = s.newest key' := Function.update_of_ne hne _ _
  rw [lane, hfront, hnewest]
  rfl

lemma lane_swap (s : OpenStore V) (key : JsString) : s.swap.lane key = (s.lane key).shift := rfl

/-- What a part of a `setItem` can do: write, count the active half, or swap the halves. -/
lemma setStep_cases (maxItems : ℕ) (s : OpenStore V) (key : JsString) (cell : Dated V)
    (phase : SetPhase) :
    (∃ existing, phase = .looked existing ∧
      (s.setStep maxItems key cell phase).1 = s.write key cell) ∨
    (∃ size, (s.setStep maxItems key cell phase).1 = s.count size) ∨
    ∃ size, (s.setStep maxItems key cell phase).1 = (s.count size).swap := by
  cases phase with
  | looked existing => exact .inl ⟨existing, rfl, rfl⟩
  | written existing =>
      refine .inr (.inl ?_)
      rw [setStep]
      dsimp only
      split_ifs
      · exact ⟨s.halves.activeSize, rfl⟩
      · exact ⟨_, rfl⟩
      · exact ⟨_, rfl⟩
  | counted length =>
      unfold setStep
      dsimp only
      split_ifs
      · exact .inr (.inr ⟨length, rfl⟩)
      · exact .inr (.inl ⟨length, rfl⟩)
  | called => exact .inr (.inl ⟨s.halves.activeSize, rfl⟩)
  | cleared => exact .inr (.inl ⟨s.halves.activeSize, rfl⟩)
  | returned => exact .inr (.inl ⟨s.halves.activeSize, rfl⟩)

/-- What it does to every entry, if its write is admitted. -/
lemma step_lane_setStep (maxItems : ℕ) (s : OpenStore V) (key : JsString) (cell : Dated V)
    (phase : SetPhase)
    (hwrite : ∀ existing, phase = .looked existing → (s.lane key).Admits (s.floors key) cell)
    (key' : JsString) :
    (s.lane key').Step (s.floors key') ((s.setStep maxItems key cell phase).1.lane key') := by
  rcases setStep_cases maxItems s key cell phase with
    ⟨existing, hphase, hs⟩ | ⟨size, hs⟩ | ⟨size, hs⟩
  · rw [hs]
    by_cases hkey : key' = key
    · rw [hkey, lane_write_self]
      exact .write (hwrite existing hphase)
    · rw [lane_write_of_ne hkey]
      exact .keep
  · rw [hs]
    exact .keep
  · rw [hs, lane_swap]
    exact .shift

/-- A `setItem` that returns only counted. -/
lemma setStep_returned (cell : Dated V) {phase : SetPhase}
    (hreturned : (s.setStep maxItems key cell phase).2 = .returned) :
    phase = .returned ∨ s.isLast maxItems phase = true ∧
      ∃ size, (s.setStep maxItems key cell phase).1 = s.count size := by
  cases phase with
  | called => cases hreturned
  | looked existing => cases hreturned
  | written existing =>
      unfold setStep at hreturned ⊢
      dsimp only at hreturned ⊢
      split_ifs at hreturned ⊢ with hexisting hcount
      · exact .inr ⟨by simp [isLast, hexisting], s.halves.activeSize, rfl⟩
      · have hshort : s.halves.activeSize + 1 < maxItems := Nat.lt_of_not_ge hcount
        exact .inr ⟨by simp [isLast, hshort], _, rfl⟩
  | counted length =>
      unfold setStep at hreturned ⊢
      dsimp only at hreturned ⊢
      split_ifs at hreturned ⊢ with hcount
      have hshort : length < maxItems := Nat.lt_of_not_ge hcount
      exact .inr ⟨by simp [isLast, hshort], _, rfl⟩
  | cleared => exact .inr ⟨rfl, s.halves.activeSize, rfl⟩
  | returned => exact .inl rfl

lemma settled_setStep (s : OpenStore V) (key : JsString) (cell : Dated V) (phase : SetPhase) :
    (s.setStep maxItems key cell phase).1.settled = s.settled := by
  rcases setStep_cases maxItems s key cell phase with
    ⟨_, -, hs⟩ | ⟨_, hs⟩ | ⟨_, hs⟩
  all_goals rw [hs]; rfl

/-- After a part of a `setItem` its date is not newer than the newest write. -/
lemma dateAt_le_newest (maxItems : ℕ) (value : Option V) {date : ℕ} (phase : SetPhase)
    (hdate : date ≤ s.newest key) :
    s.dateAt key date phase
      ≤ (s.setStep maxItems key ⟨value, s.dateAt key date phase⟩ phase).1.newest key := by
  cases phase with
  | looked existing =>
      show s.newest key + 1
        ≤ Function.update s.newest key (max (s.newest key) (s.newest key + 1)) key
      rw [Function.update_self]
      exact le_max_right _ _
  | called => exact hdate
  | written existing =>
      have hstep := step_lane_setStep maxItems s key ⟨value, date⟩ (.written existing)
        (fun _ h => SetPhase.noConfusion h) key
      exact hdate.trans hstep.newest_le
  | counted length =>
      have hstep := step_lane_setStep maxItems s key ⟨value, date⟩ (.counted length)
        (fun _ h => SetPhase.noConfusion h) key
      exact hdate.trans hstep.newest_le
  | cleared => exact hdate
  | returned => exact hdate

/-! ### The invariant -/

/-- A value read for a key is not older than a write, unless that one was evicted. -/
def Current (s : OpenStore V) (key : JsString) (floor : ℕ) (read : V × ℕ) : Prop :=
  floor ≤ read.2 ∨ floor ≤ s.dropped key

/-- What holds of a call: a date is not newer than the newest one; a `getItem` that is yet to look
finds nothing older than it may; what it has read is current; and where it found nothing in the
active half, nothing that is held is older. -/
def Carries (s : OpenStore V) : Call V → Prop
  | .setItem key _ date _ => date ≤ s.newest key
  | .getItem key floor phase => floor ≤ s.newest key ∧
      match phase with
      | .called => (s.lane key).Shows floor
      | .looked (some read) => s.Current key floor read
      | .looked none => (s.lane key).Since floor ∨ floor ≤ s.dropped key
      | .lookedOlder older => ∀ read ∈ older, s.Current key floor read
      | .promoting older _ => s.Current key floor older
      | .returned result => ∀ read ∈ result, s.Current key floor read

/-- What holds in every state of a guarded run. -/
structure Coherent (s : OpenStore V) : Prop where
  sound : ∀ key, (s.lane key).Sound
  settled_le : ∀ key, s.settled key ≤ s.newest key
  shows : ∀ key, (s.lane key).Shows (s.settled key)
  calls : ∀ call ∈ s.calls, s.Carries call

lemma Current.mono {floor : ℕ} {read : V × ℕ} (h : s.Current key floor read)
    (hstep : (s.lane key).Step (s.floors key) (t.lane key)) : t.Current key floor read :=
  h.imp_right fun hdropped => hdropped.trans hstep.dropped_le

lemma mem_floors {floor : ℕ} (h : .getItem key floor .called ∈ s.calls) :
    floor ∈ s.floors key :=
  List.mem_cons_of_mem _ (List.mem_filterMap.mpr ⟨_, h, if_pos rfl⟩)

/-- A call keeps what holds of it while other calls go on. -/
lemma Carries.mono {call : Call V} (h : s.Carries call) (hmem : call ∈ s.calls)
    (hstep : ∀ key, (s.lane key).Step (s.floors key) (t.lane key)) : t.Carries call := by
  cases call with
  | setItem key value date phase => exact le_trans h (hstep key).newest_le
  | getItem key floor phase =>
      obtain ⟨hfloor, hphase⟩ := h
      refine ⟨hfloor.trans (hstep key).newest_le, ?_⟩
      cases phase with
      | called => exact (hstep key).shows hfloor (mem_floors hmem) hphase
      | looked value =>
          cases value with
          | some read => exact Current.mono hphase (hstep key)
          | none => exact (hstep key).since hfloor hphase
      | lookedOlder older => exact fun read hread => Current.mono (hphase read hread) (hstep key)
      | promoting older phase => exact Current.mono hphase (hstep key)
      | returned result => exact fun read hread => Current.mono (hphase read hread) (hstep key)

/-! ### Guarded steps -/

/-- A client's write is the newest one; it is admitted unless it is a null that shows a value older
than it may. -/
lemma admits_setItem {value : Option V} {date : ℕ} {existing : Bool}
    (h : s.WritesInTurn (.setItem key value date (.looked existing))) :
    (s.lane key).Admits (s.floors key) ⟨value, s.newest key + 1⟩ where
  current := .inl (Nat.le_succ _)
  shows_none := by
    rintro rfl
    exact h

/-- A promotion's write is admitted where it is the newest one, or the newest one was evicted. -/
lemma admits_promotion (s : OpenStore V) (key : JsString) {older : V × ℕ}
    (hnewest : s.newest key ≤ older.2 ∨ s.newest key ≤ s.dropped key) :
    (s.lane key).Admits (s.floors key) ⟨some older.1, older.2⟩ where
  current := hnewest
  shows_none := fun h => by cases h

lemma lane_settle (key key' : JsString) (date : ℕ) (phase : SetPhase) (s : OpenStore V) :
    (s.settle key date phase).lane key' = s.lane key' := by
  rw [settle]
  split_ifs <;> rfl

lemma newest_settle (key : JsString) (date : ℕ) (phase : SetPhase) (s : OpenStore V) :
    (s.settle key date phase).newest = s.newest := by
  rw [settle]
  split_ifs <;> rfl

lemma settled_settle_le (hsettled : ∀ key', s.settled key' ≤ s.newest key') {date : ℕ}
    (hdate : date ≤ s.newest key) (phase : SetPhase) (key' : JsString) :
    (s.settle key date phase).settled key' ≤ s.newest key' := by
  rw [settle]
  split_ifs
  · show Function.update s.settled key (max (s.settled key) date) key' ≤ s.newest key'
    by_cases hkey : key' = key
    · rw [hkey, Function.update_self]
      exact max_le (hsettled key) hdate
    · rw [Function.update_of_ne hkey]
      exact hsettled key'
  · exact hsettled key'

lemma step_lane_resumeSet (maxItems : ℕ) {value : Option V} {date : ℕ} {phase : SetPhase}
    (hturn : s.WritesInTurn (.setItem key value date phase)) (key' : JsString) :
    (s.lane key').Step (s.floors key')
      ((s.resumeSet maxItems key value date phase).1.lane key') := by
  show Lane.Step _ _ ((settle _ _ _ _).lane key')
  rw [lane_settle]
  refine step_lane_setStep maxItems s key _ phase (fun existing hphase => ?_) key'
  subst hphase
  exact admits_setItem hturn

/-- A `setItem` that returns is settled with a date that was written. -/
lemma settled_resumeSet_le (hsettled : ∀ key', s.settled key' ≤ s.newest key') {value : Option V}
    {date : ℕ} {phase : SetPhase} (hdate : date ≤ s.newest key)
    (hstep : ∀ key', (s.lane key').Step (s.floors key')
      ((s.resumeSet maxItems key value date phase).1.lane key')) (key' : JsString) :
    (s.resumeSet maxItems key value date phase).1.settled key'
      ≤ (s.resumeSet maxItems key value date phase).1.newest key' := by
  have hnewest : ∀ key',
      s.newest key' ≤ (s.resumeSet maxItems key value date phase).1.newest key' :=
    fun key' => (hstep key').newest_le
  rw [OpenStore.resumeSet, newest_settle] at hnewest ⊢
  refine settled_settle_le (fun key' => ?_) (dateAt_le_newest maxItems value phase hdate) _ key'
  rw [settled_setStep]
  exact (hsettled key').trans (hnewest key')

/-- A `setItem` that ends has left no null over a value, so that no lookup goes behind its write. -/
lemma shows_resumeSet (hsound : (s.lane key).Sound)
    (hshows : ∀ key', (s.lane key').Shows (s.settled key'))
    (hsettled : ∀ key', s.settled key' ≤ s.newest key') {value : Option V} {date : ℕ}
    {phase : SetPhase} (hopen : phase ≠ .returned) (hdate : date ≤ s.newest key)
    (hends : s.isLast maxItems phase = true → (s.lane key).veiled = false)
    (hstep : ∀ key', (s.lane key').Step (s.floors key')
      ((s.resumeSet maxItems key value date phase).1.lane key')) (key' : JsString) :
    ((s.resumeSet maxItems key value date phase).1.lane key').Shows
      ((s.resumeSet maxItems key value date phase).1.settled key') := by
  have hkept := (hstep key').shows (hsettled key') List.mem_cons_self (hshows key')
  rw [OpenStore.resumeSet, lane_settle] at hkept ⊢
  dsimp only at hkept ⊢
  rw [settle]
  split_ifs with hreturned
  · dsimp only
    by_cases hkey : key' = key
    · subst hkey
      rw [Function.update_self, settled_setStep]
      refine hkept.max ?_
      rcases setStep_returned _ hreturned with hphase | ⟨hlast, size, hs⟩
      · exact absurd hphase hopen
      · have hdate' : s.dateAt key' date phase ≤ s.newest key' := by
          have hnewest := dateAt_le_newest maxItems value phase hdate
          rwa [hs] at hnewest
        rw [hs]
        exact hsound.shows (hends hlast) hdate'
    · rw [Function.update_of_ne hkey, settled_setStep]
      exact hkept
  · rw [settled_setStep]
    exact hkept

lemma carries_resumeSet (maxItems : ℕ) (value : Option V) {date : ℕ} (phase : SetPhase)
    (hdate : date ≤ s.newest key) :
    (s.resumeSet maxItems key value date phase).1.Carries
      (s.resumeSet maxItems key value date phase).2 := by
  show s.dateAt key date phase ≤ (settle _ _ _ _).newest key
  rw [newest_settle]
  exact dateAt_le_newest maxItems value phase hdate

lemma step_lane_resumeGet (maxItems : ℕ) {phase : GetPhase V}
    (hnewest : ∀ older existing, phase = .promoting older (.looked existing) →
      s.newest key ≤ older.2 ∨ s.newest key ≤ s.dropped key) (key' : JsString) :
    (s.lane key').Step (s.floors key') ((s.resumeGet maxItems key phase).1.lane key') := by
  cases phase with
  | called => exact .keep
  | looked value => cases value <;> exact .keep
  | lookedOlder older => cases older <;> exact .keep
  | promoting older phase =>
      refine step_lane_setStep maxItems s key _ phase (fun existing hphase => ?_) key'
      exact admits_promotion s key (hnewest older existing (congrArg _ hphase))
  | returned result => exact .keep

lemma settled_resumeGet (maxItems : ℕ) (s : OpenStore V) (key : JsString) (phase : GetPhase V) :
    (s.resumeGet maxItems key phase).1.settled = s.settled := by
  cases phase with
  | called => rfl
  | looked value => cases value <;> rfl
  | lookedOlder older => cases older <;> rfl
  | promoting older phase => exact settled_setStep s key _ phase
  | returned result => rfl

/-- What a `getItem` reads is current, and so is what it promotes and returns. -/
lemma carries_resumeGet {floor : ℕ} {phase : GetPhase V}
    (hcall : s.Carries (.getItem key floor phase)) (hmem : .getItem key floor phase ∈ s.calls)
    (hstep : ∀ key', (s.lane key').Step (s.floors key')
      ((s.resumeGet maxItems key phase).1.lane key')) :
    (s.resumeGet maxItems key phase).1.Carries
      (.getItem key floor (s.resumeGet maxItems key phase).2) := by
  obtain ⟨hfloor, hphase⟩ := hcall.mono hmem hstep
  refine ⟨hfloor, ?_⟩
  cases phase with
  | called =>
      rw [resumeGet]
      dsimp only
      cases hactive : hit (s.halves.active.get? key) with
      | some read => exact Lane.Shows.front hcall.2 hactive
      | none => exact Lane.Shows.since hcall.2 hactive
  | looked value =>
      cases value with
      | some read =>
          intro read' hread
          obtain rfl := Option.some.inj hread
          exact hphase
      | none =>
          intro read hread
          exact hphase.imp_left fun hsince => hsince.2 read hread
  | lookedOlder older =>
      cases older with
      | none => exact fun read hread => absurd hread (Option.not_mem_none read)
      | some older => exact hphase older rfl
  | promoting older phase =>
      rw [resumeGet] at hphase ⊢
      dsimp only at hphase ⊢
      split_ifs
      · intro read hread
        obtain rfl := Option.some.inj hread
        exact hphase
      · exact hphase
  | returned result => exact hphase

/-! ### Guarded runs -/

lemma get?_undated (database : JsMap JsString (Option V)) (key : JsString) :
    (undated database).get? key = (database.get? key).map fun value => ⟨value, 0⟩ :=
  lookup_map (fun value => Dated.mk value 0) key

lemma coherent_start (maxItems : ℕ) (database1 database2 : JsMap JsString (Option V)) :
    (start maxItems database1 database2).Coherent where
  sound := by
    have hdate : ∀ (database : JsMap JsString (Option V)) key,
        ∀ c ∈ (undated database).get? key, c.date ≤ 0 := by
      intro database key c hc
      rw [get?_undated] at hc
      obtain ⟨value, -, rfl⟩ := Option.map_eq_some_iff.mp hc
      exact le_rfl
    intro key
    refine ⟨?_, ?_, le_rfl, fun hlt => absurd hlt (lt_irrefl 0)⟩
    all_goals
      unfold start openHalves
      split_ifs
      · exact hdate _ key
      · exact hdate _ key
  settled_le := fun _ => le_rfl
  shows := fun _ => .inr (Nat.zero_le _)
  calls := fun _ hcall => absurd hcall List.not_mem_nil

/-- A call that goes on, in a guarded step. -/
lemma Coherent.resume (h : s.Coherent) (maxItems : ℕ) {i : ℕ} {call : Call V}
    (hcall : s.calls[i]? = some call) (hopen : call.finished = false)
    (hok : s.Guarded maxItems (.resume i)) :
    (∀ key, (s.lane key).Step (s.floors key) ((s.resume maxItems call).1.lane key)) ∧
      (∀ key, (s.resume maxItems call).1.settled key ≤ (s.resume maxItems call).1.newest key) ∧
      (∀ key, ((s.resume maxItems call).1.lane key).Shows
        ((s.resume maxItems call).1.settled key)) ∧
      (s.resume maxItems call).1.Carries (s.resume maxItems call).2 := by
  have hmem := List.mem_of_getElem? hcall
  have hcarries := h.calls call hmem
  obtain ⟨hturn, hends⟩ := hok call hcall
  cases call with
  | setItem key value date phase =>
      have hstep : ∀ key', (s.lane key').Step (s.floors key')
          ((s.resumeSet maxItems key value date phase).1.lane key') :=
        step_lane_resumeSet maxItems hturn
      have hphase : phase ≠ .returned := by
        rintro rfl
        cases hopen
      exact ⟨hstep, settled_resumeSet_le h.settled_le hcarries hstep,
        shows_resumeSet (h.sound key) h.shows h.settled_le hphase hcarries hends hstep,
        carries_resumeSet maxItems value phase hcarries⟩
  | getItem key floor phase =>
      have hstep : ∀ key', (s.lane key').Step (s.floors key')
          ((s.resumeGet maxItems key phase).1.lane key') := by
        refine step_lane_resumeGet maxItems (fun older existing hphase => ?_)
        subst hphase
        exact hturn
      have hsettled : (s.resumeGet maxItems key phase).1.settled = s.settled :=
        settled_resumeGet maxItems s key phase
      refine ⟨hstep, fun key' => ?_, fun key' => ?_, carries_resumeGet hcarries hmem hstep⟩
      · calc (s.resumeGet maxItems key phase).1.settled key'
            = s.settled key' := by rw [hsettled]
          _ ≤ s.newest key' := h.settled_le key'
          _ ≤ (s.resumeGet maxItems key phase).1.newest key' := (hstep key').newest_le
      · have hshows := (hstep key').shows (h.settled_le key') List.mem_cons_self (h.shows key')
        show Lane.Shows ((s.resumeGet maxItems key phase).1.settled key') _
        rw [hsettled]
        exact hshows

/-- A guarded step keeps the invariant. -/
lemma Coherent.step (h : s.Coherent) {i : StoreInput V} (hok : s.Guarded maxItems i)
    (hstep : s.step maxItems i = some t) : t.Coherent := by
  cases i with
  | setItem key value =>
      obtain rfl := Option.some.inj hstep
      refine ⟨h.sound, fun key' => ?_, fun key' => ?_, fun call hcall => ?_⟩
      · by_cases hkey : key' = key
        · rw [hkey]
          exact (Function.update_self key 0 s.settled).le.trans (Nat.zero_le _)
        · exact (Function.update_of_ne hkey 0 s.settled).le.trans (h.settled_le key')
      · show (s.lane key').Shows (Function.update s.settled key 0 key')
        by_cases hkey : key' = key
        · rw [hkey, Function.update_self]
          exact .inr (Nat.zero_le _)
        · rw [Function.update_of_ne hkey]
          exact h.shows key'
      · rcases List.mem_append.mp hcall with hbefore | hnew
        · exact h.calls call hbefore
        · obtain rfl := List.mem_singleton.mp hnew
          exact Nat.zero_le _
  | getItem key =>
      obtain rfl := Option.some.inj hstep
      refine ⟨h.sound, h.settled_le, h.shows, fun call hcall => ?_⟩
      rcases List.mem_append.mp hcall with hbefore | hnew
      · exact h.calls call hbefore
      · obtain rfl := List.mem_singleton.mp hnew
        exact ⟨h.settled_le key, h.shows key⟩
  | resume i =>
      rw [OpenStore.step] at hstep
      cases hcall : s.calls[i]? with
      | none =>
          rw [hcall] at hstep
          cases hstep
      | some call =>
          rw [hcall] at hstep
          dsimp only at hstep
          split_ifs at hstep with hfinished
          obtain rfl := Option.some.inj hstep
          obtain ⟨hlanes, hsettled, hshows, hcarries⟩ :=
            h.resume maxItems hcall (Bool.eq_false_iff.mpr hfinished) hok
          refine ⟨fun key => (hlanes key).sound (h.sound key), hsettled, hshows,
            fun other hother => ?_⟩
          rcases List.mem_or_eq_of_mem_set hother with hbefore | rfl
          · exact (h.calls other hbefore).mono hbefore hlanes
          · exact hcarries

lemma Coherent.kept (h : s.Coherent) : s.Kept := fun _ _ _ _ hmem => (h.calls _ hmem).2 _ rfl

/-- In every run of concurrent calls on an open store in which no promotion is written after a newer
`setItem` of its key, unless that one was evicted, and no null is written over a value of the
inactive half that a lookup may not return, or left over one when a `setItem` of the key ends, a
`getItem` that starts after a `setItem` completed, and before another one starts or the entry is
evicted, returns no older value. -/
theorem browserLru_notUndone (maxItems : ℕ) (database1 database2 : JsMap JsString (Option V))
    {t : OpenStore V}
    (h : Reaches (step maxItems) (fun s i => s.Guarded maxItems i)
      (start maxItems database1 database2) t) : t.Kept :=
  (h.invariant (coherent_start maxItems database1 database2) fun _ _ _ hs hok hstep =>
    hs.step hok hstep).kept

section

/-- The key two calls meet on. -/
def sharedKey : JsString := ofString "a"

/-- A full half, which is the inactive one: `sharedKey` and another key. -/
def fullHalf : JsMap JsString (Option ℕ) :=
  JsMap.ofEntries [(sharedKey, some 1), (ofString "b", some 1)]

/-- A `getItem` finds the value in the full half and promotes it; after that a `setItem` replaces
it, and another `getItem` reads that. -/
def promotedFirst : List (StoreInput ℕ) :=
  [.getItem sharedKey] ++ List.replicate 6 (.resume 0) ++ [.setItem sharedKey (some 2)]
    ++ List.replicate 3 (.resume 1) ++ [.getItem sharedKey] ++ List.replicate 2 (.resume 2)

/-- A `setItem` completes after the `getItem` read the value in the full half and before that one
writes it. -/
def promotedLate : List (StoreInput ℕ) :=
  [.getItem sharedKey] ++ List.replicate 3 (.resume 0) ++ [.setItem sharedKey (some 2)]
    ++ List.replicate 3 (.resume 1) ++ List.replicate 3 (.resume 0) ++ [.getItem sharedKey]
    ++ List.replicate 2 (.resume 2)

/-- A promotion in turn: the next value set is the one that is read. -/
theorem browserLru_notUndone_promoted : ∃ t,
    Reaches (step 2) (fun s i => s.Guarded 2 i) (start 2 ∅ fullHalf) t
      ∧ .getItem sharedKey 1 (.returned (some (2, 1))) ∈ t.calls ∧ t.Kept := by
  have hrun : (runIf (step 2) (fun s i => s.Guarded 2 i) promotedFirst (start 2 ∅ fullHalf)).any
      (fun t => .getItem sharedKey 1 (.returned (some (2, 1))) ∈ t.calls) = true := by
    decide +kernel
  obtain ⟨t, ht, hread⟩ := (Option.any_eq_true _ _).mp hrun
  exact ⟨t, reaches_of_runIf ht, of_decide_eq_true hread,
    browserLru_notUndone 2 ∅ fullHalf (reaches_of_runIf ht)⟩

/-- A null that fills the active half: the value it is written over goes before its `setItem`
ends. -/
example :
    (runIf (step 2) (fun s i => s.Guarded 2 i)
      ([.setItem (ofString "c") (some 2)] ++ List.replicate 3 (.resume 0)
        ++ [.setItem sharedKey none] ++ List.replicate 5 (.resume 1)
        ++ [.getItem sharedKey] ++ List.replicate 3 (.resume 2))
      (start 2 ∅ fullHalf)).any (fun t => .getItem sharedKey 1 (.returned none) ∈ t.calls)
        = true := by
  decide +kernel

/-- A promotion undoes a `setItem` that completed while it was under way: a `getItem` that starts
later returns the older value, with nothing evicted. -/
theorem browserLru_undone : ¬ ∀ t : OpenStore ℕ,
    Reaches (step 2) (fun _ _ => True) (start 2 ∅ fullHalf) t → t.Kept := by
  intro h
  have hrun : (runIf (step 2) (fun _ _ => True) promotedLate (start 2 ∅ fullHalf)).any
      (fun t => .getItem sharedKey 1 (.returned (some (1, 0))) ∈ t.calls ∧ t.dropped sharedKey = 0)
        = true := by
    decide +kernel
  obtain ⟨t, ht, hread⟩ := (Option.any_eq_true _ _).mp hrun
  obtain ⟨hmem, hdropped⟩ := of_decide_eq_true hread
  rcases h t (reaches_of_runIf ht) _ _ _ _ hmem with hdate | hevicted
  · exact absurd hdate (by decide)
  · rw [hdropped] at hevicted
    exact absurd hevicted (by decide)

end

end OpenStore

end PubsubVoting
