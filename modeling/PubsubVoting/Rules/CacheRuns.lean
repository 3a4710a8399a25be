import PubsubVoting.Rules.Cache

/-!
Runs of the rule caches over one store: what a `get` may be answered.

* `RuleCaches.step`: any caller on any front asks, the store moves, or everything but the store is
  gone.
* `RuleCaches.Uncontested`: no tier has another value for an entry than the one that is set.
* `cacheRuns_answer`: in every run whose `set` steps are uncontested, a `get` is answered the value
  that applies or none, and that value is the store's.
* `cacheRuns_replaced`: a contested `set` replaces a value that applies.
-/

namespace PubsubVoting

open JsString

/-- One step of the caches over a store. -/
inductive CacheInput where
  /-- a caller asks on a front -/
  | op (front : ℕ) (op : CacheOp)
  | store (e : StoreEvent)
  /-- the process starts again, over the same store -/
  | restart

/-- A `get` is answered the value that applies to its entry, or none. -/
def CacheAnswer.Applying (a : CacheAnswer) : Prop :=
  ∀ v ∈ a.value, ∀ w ∈ a.applies, v = w

namespace RuleCaches

section

variable (maxEntries : ℕ) (ns : JsString) (s : RuleCaches)

/-- Only the store survives. -/
def restart : RuleCaches := { s with fronts := ∅, lookups := ∅, purgeTasks := [] }

/-- A step. -/
def step : CacheInput → Option RuleCaches
  | .op front op => some (s.handle maxEntries ns front op).2
  | .store e => s.storeStep e
  | .restart => some s.restart

/-- Every value that some tier has for the entry is this one: the store, every front, and every
lookup on its way from the store to a front. -/
def Uncontested (key : JsString) (epoch : ℕ) (value : JsString) : Prop :=
  ∀ v ∈ s.held ns key epoch, v = value

instance (key : JsString) (epoch : ℕ) (value : JsString) :
    Decidable (s.Uncontested ns key epoch value) := by unfold Uncontested; infer_instance

/-- The condition on a step: what is set is uncontested. -/
def SetsUncontested : CacheInput → Prop
  | .op _ (.set key epoch value) => s.Uncontested ns key epoch value
  | _ => True

instance (i : CacheInput) : Decidable (s.SetsUncontested ns i) :=
  match i with
  | .op _ (.set key epoch value) => inferInstanceAs (Decidable (s.Uncontested ns key epoch value))
  | .op _ (.memGet _ _) => .isTrue trivial
  | .op _ (.getItem _ _) => .isTrue trivial
  | .op _ (.settle _) => .isTrue trivial
  | .op _ (.purgeBelow _ _) => .isTrue trivial
  | .store _ => .isTrue trivial
  | .restart => .isTrue trivial

/-- The tiers agree on every entry, the store has what applies, and so have the answers had. -/
structure Agreeing : Prop where
  tiers : ∀ key epoch, ∀ v ∈ s.held ns key epoch, ∀ w ∈ s.held ns key epoch, v = w
  applies : ∀ item v, s.applies.get? item = some v → s.store.get? item = some v
  answers : ∀ a ∈ s.answers, a.Applying

end

section

variable {maxEntries : ℕ} {ns : JsString} {s t : RuleCaches} {front : ℕ} {key : JsString}
  {epoch : ℕ} {value v w : JsString}

lemma agreeing_empty : empty.Agreeing ns where
  tiers := fun key epoch v hv => by
    rw [mem_held_iff] at hv
    simp [empty] at hv
  applies := fun item v h => by cases h
  answers := nofun

/-- What applies to an entry is held. -/
lemma Agreeing.mem_held (h : s.Agreeing ns)
    (hw : s.applies.get? (storeKey ns key epoch) = some w) : w ∈ s.held ns key epoch :=
  mem_held_iff.mpr (.inl (h.applies _ _ hw))

/-- A value that is held may be the answer. -/
lemma Agreeing.answer (h : s.Agreeing ns) {value : Option JsString}
    (hvalue : ∀ v ∈ value, v ∈ s.held ns key epoch) :
    (s.answer ns key epoch value).Agreeing ns where
  tiers := fun key epoch v hv w hw =>
    h.tiers key epoch v ((within_answer _).mem_held hv) w ((within_answer _).mem_held hw)
  applies := h.applies
  answers := fun a ha => by
    rcases List.mem_append.mp ha with ha | ha
    · exact h.answers a ha
    · obtain rfl := List.mem_singleton.mp ha
      exact fun v hv w hw => h.tiers key epoch v (hvalue v hv) w (h.mem_held hw)

/-- A step that adds no value to a tier and keeps the store and the answers. -/
lemma Agreeing.of_held (h : s.Agreeing ns)
    (hheld : ∀ key epoch, ∀ v ∈ t.held ns key epoch, v ∈ s.held ns key epoch)
    (happlies : ∀ item v, t.applies.get? item = some v → t.store.get? item = some v)
    (hanswers : t.answers = s.answers) : t.Agreeing ns where
  tiers := fun key epoch v hv w hw =>
    h.tiers key epoch v (hheld key epoch v hv) w (hheld key epoch w hw)
  applies := happlies
  answers := by
    rw [hanswers]
    exact h.answers

lemma Agreeing.memGet (h : s.Agreeing ns) : (s.memGet ns front key epoch).2.Agreeing ns := by
  rw [RuleCaches.memGet]
  cases hmem : (s.frontAt front).mem.get? (entryKey key epoch) with
  | none => exact h
  | some v =>
      refine h.answer fun w hw => ?_
      obtain rfl := Option.mem_some_iff.mp hw
      exact mem_held_of_frontAt hmem

lemma Agreeing.getItem (h : s.Agreeing ns) : (s.getItem ns front key epoch).2.Agreeing ns := by
  have hheld : ∀ key' epoch', ∀ v ∈ (s.getItem ns front key epoch).2.held ns key' epoch',
      v ∈ s.held ns key' epoch' := fun _ _ _ => mem_held_getItem
  rw [RuleCaches.getItem] at hheld ⊢
  cases hitem : s.store.get? (storeKey ns key epoch) with
  | none =>
      refine h.answer fun v hv => ?_
      cases hv
  | some v =>
      rw [hitem] at hheld
      exact h.of_held hheld h.applies rfl

lemma Agreeing.settle (h : s.Agreeing ns) (l : Lookup) :
    (s.settle maxEntries ns l).2.Agreeing ns := by
  have hheld : ∀ key' epoch', ∀ v ∈ (s.settle maxEntries ns l).2.held ns key' epoch',
      v ∈ s.held ns key' epoch' := fun _ _ _ => mem_held_settle
  rw [RuleCaches.settle] at hheld ⊢
  cases hl : s.lookups.get? l with
  | none => exact h
  | some value =>
      rw [hl] at hheld
      refine ⟨fun key' epoch' v hv w hw => ?_, h.applies, fun a ha => ?_⟩
      · exact h.tiers key' epoch' v (hheld _ _ v hv) w (hheld _ _ w hw)
      · -- the answer is the value that was in flight, and that was held
        rcases List.mem_append.mp ha with ha | ha
        · exact h.answers a ha
        · obtain rfl := List.mem_singleton.mp ha
          intro v hv w hw
          obtain rfl := Option.mem_some_iff.mp hv
          exact h.tiers _ _ _ (mem_held_of_lookup hl) w (h.mem_held hw)

/-- An uncontested `set`: what was held is the value that is set, so the store keeps what it had. -/
lemma Agreeing.set (h : s.Agreeing ns) (hset : s.Uncontested ns key epoch value) :
    (s.set maxEntries ns front key epoch value).Agreeing ns where
  tiers := fun key' epoch' v hv w hw => by
    rcases mem_held_set hv with hold | ⟨rfl, rfl, rfl⟩
    · rcases mem_held_set hw with hold' | ⟨rfl, rfl, rfl⟩
      · exact h.tiers key' epoch' v hold w hold'
      · exact hset v hold
    · rcases mem_held_set hw with hold' | ⟨-, -, rfl⟩
      · exact (hset w hold').symm
      · rfl
  applies := fun item v hv => by
    rw [RuleCaches.set, JsMap.get?_set]
    by_cases hitem : item = storeKey ns key epoch
    · subst hitem
      rw [if_pos rfl]
      rw [RuleCaches.set] at hv
      dsimp only at hv
      split_ifs at hv
      · rw [hset v (h.mem_held hv)]
      · rwa [JsMap.get?_set, if_pos rfl] at hv
    · rw [if_neg hitem]
      rw [RuleCaches.set] at hv
      dsimp only at hv
      split_ifs at hv
      · exact h.applies item v hv
      · rw [JsMap.get?_set, if_neg hitem] at hv
        exact h.applies item v hv
  answers := h.answers

lemma Agreeing.purgeBelow (h : s.Agreeing ns) (keyPrefix : Option JsString) :
    (s.purgeBelow ns front epoch keyPrefix).Agreeing ns := by
  have hheld : ∀ key' epoch', ∀ v ∈ (s.purgeBelow ns front epoch keyPrefix).held ns key' epoch',
      v ∈ s.held ns key' epoch' := fun _ _ _ => (within_purgeBelow keyPrefix).mem_held
  rw [RuleCaches.purgeBelow] at hheld ⊢
  dsimp only at hheld ⊢
  split_ifs at hheld ⊢
  · exact h
  · exact h.of_held hheld h.applies rfl

/-- An item leaves the store, and with it what applied. -/
lemma Agreeing.removeItem (h : s.Agreeing ns) (item : JsString) :
    (s.removeItem item).Agreeing ns := by
  refine h.of_held (fun _ _ _ => (within_removeItem item).mem_held) (fun item' v hv => ?_) rfl
  rw [RuleCaches.removeItem, JsMap.get?_delete] at hv ⊢
  split_ifs at hv with hitem
  rw [if_neg hitem]
  exact h.applies item' v hv

lemma Agreeing.purgeNext (h : s.Agreeing ns) (task : ℕ) (purge : PurgeTask) :
    (s.purgeNext task purge).Agreeing ns := by
  obtain ⟨epoch, keyPrefix, items⟩ := purge
  cases items with
  | nil => exact ⟨h.tiers, h.applies, h.answers⟩
  | cons item items =>
      unfold RuleCaches.purgeNext
      dsimp only
      split_ifs
      · have hremoved := h.removeItem item
        exact ⟨hremoved.tiers, hremoved.applies, hremoved.answers⟩
      · exact ⟨h.tiers, h.applies, h.answers⟩

/-- What a restart leaves was there. -/
lemma Agreeing.restart (h : s.Agreeing ns) : s.restart.Agreeing ns := by
  have hwithin : Within s.restart s :=
    ⟨fun _ _ hv => hv, fun f cache hf => by simp [RuleCaches.restart] at hf,
      fun l v hl => by simp [RuleCaches.restart] at hl⟩
  exact h.of_held (fun _ _ _ => hwithin.mem_held) h.applies rfl

/-- Every step whose `set` is uncontested keeps the tiers in agreement. -/
lemma Agreeing.step (h : s.Agreeing ns) {i : CacheInput} (hok : s.SetsUncontested ns i)
    (hstep : s.step maxEntries ns i = some t) : t.Agreeing ns := by
  cases i with
  | op front op =>
      obtain rfl := Option.some.inj hstep
      cases op with
      | memGet key epoch => exact h.memGet
      | getItem key epoch => exact h.getItem
      | settle l => exact h.settle l
      | set key epoch value => exact h.set hok
      | purgeBelow epoch keyPrefix => exact h.purgeBelow keyPrefix
  | store e =>
      cases e with
      | evict item =>
          obtain rfl := Option.some.inj hstep
          exact h.removeItem item
      | purgeNext task =>
          obtain ⟨purge, -, rfl⟩ := Option.map_eq_some_iff.mp hstep
          exact h.purgeNext task purge
  | restart =>
      obtain rfl := Option.some.inj hstep
      exact h.restart

/-- In every run of callers on any fronts over one store, restarts included, in which no `set` is
given another value than the tiers have for its entry, every `get` is answered the value that
applies to its entry or none, and the store has what applies. -/
theorem cacheRuns_answer (maxEntries : ℕ) (ns : JsString) {t : RuleCaches}
    (h : Reaches (step maxEntries ns) (fun s i => s.SetsUncontested ns i) empty t) :
    (∀ a ∈ t.answers, a.Applying) ∧
      ∀ item v, t.applies.get? item = some v → t.store.get? item = some v := by
  have hagree : t.Agreeing ns := h.invariant agreeing_empty fun _ _ _ hs hok hstep =>
    hs.step hok hstep
  exact ⟨hagree.answers, hagree.applies⟩

end

section

/-- A wallet's balance within the window of block 60. -/
def headBalance : JsString := ofString "head/bal/0xaa"

/-- A value is memoised, and asked for after a restart. -/
def askedAfterRestart (value : JsString) : List CacheInput :=
  [.op 0 (.set headBalance 60 value), .restart, .op 0 (.memGet headBalance 60),
    .op 0 (.getItem headBalance 60), .op 0 (.settle ⟨0, 0, headBalance, 60⟩),
    .op 0 (.memGet headBalance 60)]

/-- A run in which one value is memoised twice, and both lookups after the restart find it. -/
theorem cacheRuns_answer_restart : ∃ t,
    Reaches (step 4096 (ofString "gate")) (fun s i => s.SetsUncontested (ofString "gate") i) empty t
      ∧ t.answers.map (·.value) = [some (decimal 1), some (decimal 1)]
      ∧ ((∀ a ∈ t.answers, a.Applying) ∧
        ∀ item v, t.applies.get? item = some v → t.store.get? item = some v) := by
  have hrun : (runIf (step 4096 (ofString "gate"))
      (fun s i => s.SetsUncontested (ofString "gate") i)
      (.op 0 (.set headBalance 60 (decimal 1)) :: askedAfterRestart (decimal 1)) empty).any
        (fun t => t.answers.map (·.value) = [some (decimal 1), some (decimal 1)]) = true := by
    decide +kernel
  obtain ⟨t, ht, hanswers⟩ := (Option.any_eq_true _ _).mp hrun
  exact ⟨t, reaches_of_runIf ht, of_decide_eq_true hanswers,
    cacheRuns_answer 4096 (ofString "gate") (reaches_of_runIf ht)⟩

/-- Two evaluations read a wallet's balance at different heads of one window: the second value
replaces the first in the store, and after a restart it is the answer. -/
theorem cacheRuns_replaced : ¬ ∀ t,
    Reaches (step 4096 (ofString "gate")) (fun _ _ => True) empty t →
      ∀ a ∈ t.answers, a.Applying := by
  intro h
  have hrun : (runIf (step 4096 (ofString "gate")) (fun _ _ => True)
      (.op 0 (.set headBalance 60 (decimal 0)) :: askedAfterRestart (decimal 1)) empty).any
        (fun t => t.answers.any fun a =>
          decide (a.value = some (decimal 1) ∧ a.applies = some (decimal 0))) = true := by
    decide +kernel
  obtain ⟨t, ht, hany⟩ := (Option.any_eq_true _ _).mp hrun
  obtain ⟨a, ha, hdec⟩ := List.any_eq_true.mp hany
  obtain ⟨hvalue, happlies⟩ := of_decide_eq_true hdec
  have heq : decimal 1 = decimal 0 :=
    h t (reaches_of_runIf ht) a ha (decimal 1) (by simp [hvalue]) (decimal 0) (by simp [happlies])
  exact absurd (decimal_injective heq) (by decide)

end

end RuleCaches

end PubsubVoting
