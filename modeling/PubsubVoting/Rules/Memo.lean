import PubsubVoting.Lib.Proc
import PubsubVoting.Lib.Scatter
import PubsubVoting.Rules.Cache
import Mathlib.Order.Hom.Basic

/-!
What a rule does with its cache: single lookups, and many keys memoised over one batched read.

* `RuleOp`, `RuleProc`: the body of a rule asks its cache and the chain.
* `RuleCache.get`, `RuleCache.memoMany`: the operations as a caller awaits them.
* `CacheTruth`, `ruleContract`: what entries stand for, and the contract of a rule that memoises
  only what is true. `handle_ok`: the caches honour it.
* `keeps_memoMany`: every value a batch returns is true of its key, position by position.
-/

namespace PubsubVoting

/-! ### The body of a rule -/

/-- What a rule awaits: its cache, or one of its reads. -/
inductive RuleOp (R : Type) where
  | cache (op : CacheOp)
  | read (r : R)

/-- What it is answered. -/
abbrev RuleOp.Answer {R : Type} (A : R → Type) : RuleOp R → Type
  | .cache op => op.Answer
  | .read r => A r

/-- The body of a rule. -/
abbrev RuleProc {R : Type} (A : R → Type) (α : Type) : Type 1 :=
  Proc (RuleOp R) (RuleOp.Answer A) α

namespace RuleCache

variable {R : Type} {A : R → Type}

/-- `get`: the front, else the store and then the front again. -/
def get (key : JsString) (epoch : ℕ) : RuleProc A (Option JsString) :=
  .ask (.cache (.memGet key epoch)) fun
    | some value => .done (some value)
    | none => .ask (.cache (.getItem key epoch)) fun
      | some lookup => .ask (.cache (.settle lookup)) fun value => .done value
      | none => .done none

/-- A batch so far: the values by position, and the keys to be read, each with its positions. -/
structure MemoFill where
  values : List (Option JsString)
  missing : List (JsString × List ℕ)

/-- Write one value to all positions of a key. -/
def fillAt (values : List (Option JsString)) (ats : List ℕ) (value : JsString) :
    List (Option JsString) := scatter values ats (ats.map fun _ => some value)

/-- One key has been looked up. -/
def MemoFill.look (acc : MemoFill) : (JsString × List ℕ) × Option JsString → MemoFill
  | ((_, ats), some value) => { acc with values := fillAt acc.values ats value }
  | (entry, none) => { acc with missing := acc.missing ++ [entry] }

/-- The values by position, all of them written by now. -/
def allFilled (values : List (Option JsString)) : List JsString := values.map (·.getD [])

/-- Memoise what was read, and write it to its positions. -/
def memoise (epoch : ℕ) :
    List ((JsString × List ℕ) × JsString) → List (Option JsString) → RuleProc A (List JsString)
  | [], values => .done (allFilled values)
  | ((key, ats), value) :: rest, values =>
    .ask (.cache (.set key epoch value)) fun _ => memoise epoch rest (fillAt values ats value)

/-- `memoMany`: the distinct keys are looked up side by side, and what is missing is read at once,
in order. -/
def memoMany (keys : List JsString) (epoch : ℕ)
    (read : List JsString → RuleProc A (List JsString)) : RuleProc A (List JsString) :=
  let positions := (groupPositions keys.zipIdx).entries
  (Proc.mapAll positions fun entry => get entry.1 epoch).bind fun hits =>
    let looked := (positions.zip hits).foldl MemoFill.look ⟨keys.map fun _ => none, []⟩
    if looked.missing = [] then .done (allFilled looked.values)
    else (read (looked.missing.map Prod.fst)).bind fun values =>
      if values.length ≠ looked.missing.length then .throw
      else memoise epoch (looked.missing.zip values) looked.values

end RuleCache

/-! ### What is true of an entry -/

/-- What the entries of a cache stand for, in worlds that grow. -/
structure CacheTruth (W : Type) [Preorder W] where
  holds : W → JsString → ℕ → JsString → Prop
  holds_mono : ∀ {w w' : W} {key : JsString} {epoch : ℕ} {value : JsString}, w ≤ w' →
    holds w key epoch value → holds w' key epoch value

section

variable {W R : Type} [Preorder W] {A : R → Type} (T : CacheTruth W)
  (mayPurge : ℕ → Option JsString → (W →o Prop)) (okRead : W → (r : R) → A r → Prop)

/-- What a rule may ask: to memoise what is true, and the purges it is allowed. -/
def CacheTruth.may (w : W) : RuleOp R → Prop
  | .cache (.set key epoch value) => T.holds w key epoch value
  | .cache (.purgeBelow epoch keyPrefix) => mayPurge epoch keyPrefix w
  | _ => True

/-- What it relies on: a value it is answered is true of its entry. -/
def CacheTruth.ok (w : W) : (op : RuleOp R) → RuleOp.Answer A op → Prop
  | .cache (.memGet key epoch), hit => ∀ value ∈ hit, T.holds w key epoch value
  | .cache (.getItem key epoch), lookup => ∀ l ∈ lookup, l.key = key ∧ l.epoch = epoch
  | .cache (.settle lookup), found => ∀ value ∈ found, T.holds w lookup.key lookup.epoch value
  | .cache (.set _ _ _), _ => True
  | .cache (.purgeBelow _ _), _ => True
  | .read r, a => okRead w r a

/-- The contract of a rule. -/
def ruleContract : Contract W (RuleOp R) (RuleOp.Answer A) where
  may := T.may mayPurge
  may_mono := by
    intro w w' op hw h
    cases op with
    | read r => trivial
    | cache op =>
        cases op with
        | set key epoch value => exact T.holds_mono hw h
        | purgeBelow epoch keyPrefix => exact (mayPurge epoch keyPrefix).monotone hw h
        | memGet key epoch => trivial
        | getItem key epoch => trivial
        | settle lookup => trivial
  ok := T.ok okRead

/-- Every value that some tier holds is true. -/
def CacheTruth.Truthful (ns : JsString) (w : W) (s : RuleCaches) : Prop :=
  ∀ key epoch, ∀ value ∈ s.held ns key epoch, T.holds w key epoch value

end

section

variable {W R : Type} [Preorder W] {A : R → Type} {T : CacheTruth W}
  {mayPurge : ℕ → Option JsString → (W →o Prop)} {okRead : W → (r : R) → A r → Prop}
  {maxEntries front : ℕ} {ns : JsString} {w w' : W}
  {s t : RuleCaches}

lemma CacheTruth.Truthful.mono (h : T.Truthful ns w s) (hw : w ≤ w') : T.Truthful ns w' s :=
  fun key epoch value hv => T.holds_mono hw (h key epoch value hv)

/-- What a rule may ask keeps the caches truthful. -/
lemma CacheTruth.Truthful.handle (h : T.Truthful ns w s) {op : CacheOp}
    (hmay : T.may (R := R) mayPurge w (.cache op)) :
    T.Truthful ns w (s.handle maxEntries ns front op).2 := fun key epoch value hv => by
  rcases RuleCaches.mem_held_handle hv with hold | rfl
  · exact h key epoch value hold
  · exact hmay

/-- What the store does on its own keeps the caches truthful. -/
lemma CacheTruth.Truthful.storeStep (h : T.Truthful ns w s) {e : StoreEvent}
    (hstep : s.storeStep e = some t) : T.Truthful ns w t := fun key epoch value hv =>
  h key epoch value (RuleCaches.mem_held_storeStep hstep hv)

/-- **Truthful caches honour the contract.** -/
theorem handle_ok (h : T.Truthful ns w s) (op : CacheOp) :
    T.ok okRead w (.cache op) (s.handle maxEntries ns front op).1 := by
  cases op with
  | memGet key epoch =>
      intro value hvalue
      unfold RuleCaches.handle RuleCaches.memGet at hvalue
      dsimp only at hvalue
      split at hvalue
      · next v hv =>
          rw [Option.mem_some_iff.mp hvalue] at hv
          exact h key epoch value (RuleCaches.mem_held_of_frontAt hv)
      · cases hvalue
  | getItem key epoch =>
      intro lookup hlookup
      unfold RuleCaches.handle RuleCaches.getItem at hlookup
      dsimp only at hlookup
      split at hlookup
      · obtain rfl := Option.mem_some_iff.mp hlookup
        exact ⟨rfl, rfl⟩
      · cases hlookup
  | settle lookup =>
      intro value hvalue
      refine h lookup.key lookup.epoch value (RuleCaches.mem_held_of_lookup ?_)
      unfold RuleCaches.handle RuleCaches.settle at hvalue
      dsimp only at hvalue
      split at hvalue
      · next v hv => rwa [Option.mem_some_iff.mp hvalue] at hv
      · cases hvalue
  | set key epoch value => trivial
  | purgeBelow epoch keyPrefix => trivial

/-! ### A memoised batch -/

/-- The values written so far are those of their keys, and all positions of the covered keys are
written. -/
structure Filled (P : JsString → JsString → Prop) (keys : List JsString)
    (values : List (Option JsString)) (covered : JsString → Prop) : Prop where
  length : values.length = keys.length
  sound : ∀ (i : ℕ) (key v : JsString), keys[i]? = some key → values[i]? = some (some v) → P key v
  full : ∀ (i : ℕ) (key : JsString), keys[i]? = some key → covered key →
    ∃ v, values[i]? = some (some v)

/-- A key of the list with its positions there. -/
structure PositionsOf (keys : List JsString) (entry : JsString × List ℕ) : Prop where
  mem : entry.1 ∈ keys
  mem_iff : ∀ i, i ∈ entry.2 ↔ keys[i]? = some entry.1

lemma positionsOf_entries {keys : List JsString} {entry : JsString × List ℕ}
    (h : entry ∈ (groupPositions keys.zipIdx).entries) : PositionsOf keys entry := by
  have hget := JsMap.get?_eq_some_iff.mpr h
  obtain ⟨i, hi⟩ := exists_position hget
  refine ⟨List.mem_of_getElem? (List.mk_mem_zipIdx_iff_getElem?.mp hi), fun j => ?_⟩
  rw [mem_groupPositions hget, List.mk_mem_zipIdx_iff_getElem?]

variable {P P' : JsString → JsString → Prop} {keys : List JsString}
  {values : List (Option JsString)} {covered covered' : JsString → Prop} {v : JsString}

lemma Filled.mono (h : Filled P keys values covered) (hP : ∀ key v, P key v → P' key v)
    (hcovered : ∀ key, covered' key → covered key) : Filled P' keys values covered' :=
  ⟨h.length, fun i key v hkey hv => hP _ _ (h.sound i key v hkey hv),
    fun i key hkey hc => h.full i key hkey (hcovered key hc)⟩

lemma filled_nothing (P : JsString → JsString → Prop) (keys : List JsString) :
    Filled P keys (keys.map fun _ => none) fun _ => False where
  length := List.length_map _
  sound := fun i key v _ hv => by
    rw [List.getElem?_map, Option.map_eq_some_iff] at hv
    obtain ⟨_, _, hnone⟩ := hv
    cases hnone
  full := fun _ _ _ h => h.elim

/-- A value is written to all positions of its key. -/
lemma Filled.fillAt {entry : JsString × List ℕ} (h : Filled P keys values covered)
    (hentry : PositionsOf keys entry) (hv : P entry.1 v) :
    Filled P keys (RuleCache.fillAt values entry.2 v) fun key => covered key ∨ key = entry.1 where
  length := by rw [RuleCache.fillAt, length_scatter, h.length]
  sound := fun i key u hkey hu => by
    rcases mem_zip_or_of_scatter hu with ⟨hold, -⟩ | hmem
    · exact h.sound i key u hkey hold
    · obtain ⟨hat, hval⟩ := List.of_mem_zip hmem
      obtain ⟨-, -, hu⟩ := List.mem_map.mp hval
      obtain rfl := Option.some.inj hu
      rw [(hentry.mem_iff i).mp hat] at hkey
      exact Option.some.inj hkey ▸ hv
  full := fun i key hkey hc => by
    have hi : i < values.length := by
      rw [h.length]
      exact (List.getElem?_eq_some_iff.mp hkey).1
    have hsome : ∃ u, (RuleCache.fillAt values entry.2 v)[i]? = some u :=
      ⟨_, List.getElem?_eq_getElem (by rwa [RuleCache.fillAt, length_scatter])⟩
    obtain ⟨u, hu⟩ := hsome
    rcases mem_zip_or_of_scatter hu with ⟨hold, hnot⟩ | hmem
    · -- no value was written here, so this is a position of another key
      rcases hc with hc | rfl
      · obtain ⟨w, hw⟩ := h.full i key hkey hc
        rw [hw] at hold
        exact ⟨w, by rw [hu, ← hold]⟩
      · have hat : i ∈ entry.2 := (hentry.mem_iff i).mpr hkey
        obtain ⟨j, hj, hget⟩ := List.mem_iff_getElem.mp hat
        have hzip : (i, some v) ∈ entry.2.zip (entry.2.map fun _ => some v) :=
          List.mem_iff_getElem.mpr ⟨j, by simpa using hj, by simp [hget]⟩
        exact absurd rfl (hnot _ hzip)
    · obtain ⟨-, hval⟩ := List.of_mem_zip hmem
      obtain ⟨-, -, rfl⟩ := List.mem_map.mp hval
      exact ⟨v, hu⟩

/-- Once every key is covered, the values are those of the keys. -/
lemma Filled.forall₂ (h : Filled P keys values covered) (hall : ∀ key ∈ keys, covered key) :
    List.Forall₂ P keys (RuleCache.allFilled values) := by
  rw [forall₂_iff_getElem?]
  refine ⟨by rw [RuleCache.allFilled, List.length_map, h.length], fun i key v hkey hv => ?_⟩
  obtain ⟨u, hu⟩ := h.full i key hkey (hall key (List.mem_of_getElem? hkey))
  rw [RuleCache.allFilled, List.getElem?_map, hu] at hv
  obtain rfl := Option.some.inj hv
  exact h.sound i key u hkey hu

/-- What the lookups of a batch leave: the hits are written, the misses are still to be read. -/
structure Looked (P : JsString → JsString → Prop) (keys : List JsString)
    (looked : RuleCache.MemoFill) (seen : JsString → Prop) : Prop where
  filled : Filled P keys looked.values fun key => seen key ∧ key ∉ looked.missing.map Prod.fst
  missing : ∀ entry ∈ looked.missing, PositionsOf keys entry ∧ seen entry.1
  nodup : (looked.missing.map Prod.fst).Nodup

lemma Looked.look {looked : RuleCache.MemoFill} {seen : JsString → Prop}
    {entry : JsString × List ℕ} {hit : Option JsString} (h : Looked P keys looked seen)
    (hentry : PositionsOf keys entry) (hnew : ¬ seen entry.1) (hhit : ∀ v ∈ hit, P entry.1 v) :
    Looked P keys (looked.look (entry, hit)) fun key => seen key ∨ key = entry.1 := by
  cases hit with
  | none =>
      refine ⟨h.filled.mono (fun _ _ hP => hP) ?_, fun e he => ?_, ?_⟩
      · rintro key ⟨hseen | rfl, hnot⟩
        · exact ⟨hseen, fun hmem => hnot (by simp [RuleCache.MemoFill.look, hmem])⟩
        · exact absurd (by simp [RuleCache.MemoFill.look]) hnot
      · rcases List.mem_append.mp he with he | he
        · exact ⟨(h.missing e he).1, .inl (h.missing e he).2⟩
        · obtain rfl := List.mem_singleton.mp he
          exact ⟨hentry, .inr rfl⟩
      · -- the key has not been seen, so it is not missing yet
        have hnot : entry.1 ∉ looked.missing.map Prod.fst := fun hmem => by
          obtain ⟨e, he, hkey⟩ := List.mem_map.mp hmem
          exact hnew (hkey ▸ (h.missing e he).2)
        show ((looked.missing ++ [entry]).map Prod.fst).Nodup
        rw [List.map_append, List.map_singleton, ← List.concat_eq_append]
        exact List.Nodup.concat hnot h.nodup
  | some v =>
      refine ⟨(h.filled.fillAt hentry (hhit v rfl)).mono (fun _ _ hP => hP) ?_,
        fun e he => ⟨(h.missing e he).1, .inl (h.missing e he).2⟩, h.nodup⟩
      rintro key ⟨hseen | rfl, hnot⟩
      · exact .inl ⟨hseen, hnot⟩
      · exact .inr rfl

/-- All lookups of a batch. -/
lemma Looked.foldl {entries : List (JsString × List ℕ)} {hits : List (Option JsString)}
    (hhits : List.Forall₂ (fun entry hit => PositionsOf keys entry ∧ ∀ v ∈ hit, P entry.1 v)
      entries hits) {looked : RuleCache.MemoFill} {seen : JsString → Prop}
    (hnodup : (entries.map Prod.fst).Nodup) (hnew : ∀ entry ∈ entries, ¬ seen entry.1)
    (h : Looked P keys looked seen) :
    Looked P keys ((entries.zip hits).foldl RuleCache.MemoFill.look looked)
      fun key => seen key ∨ key ∈ entries.map Prod.fst := by
  induction hhits generalizing looked seen with
  | nil => exact ⟨h.filled.mono (fun _ _ hP => hP) (by simp),
      fun e he => ⟨(h.missing e he).1, .inl (h.missing e he).2⟩, h.nodup⟩
  | @cons entry hit entries hits hhit _ ih =>
      rw [List.map_cons, List.nodup_cons] at hnodup
      have hnext := ih hnodup.2 (fun e he => ?_)
        (h.look hhit.1 (hnew entry (by simp)) hhit.2)
      · refine ⟨hnext.filled.mono (fun _ _ hP => hP) ?_, fun e he => ?_, hnext.nodup⟩
        · rintro key ⟨hseen, hnot⟩
          refine ⟨?_, hnot⟩
          simpa [or_assoc] using hseen
        · refine ⟨(hnext.missing e he).1, ?_⟩
          simpa [or_assoc] using (hnext.missing e he).2
      · rintro (hseen | heq)
        · exact hnew e (by simp [he]) hseen
        · exact hnodup.1 (heq ▸ List.mem_map_of_mem he)

/-! ### The rules of the operations -/

section

variable {W R : Type} [Preorder W] {A : R → Type} {T : CacheTruth W}
  {mayPurge : ℕ → Option JsString → (W →o Prop)} {okRead : W → (r : R) → A r → Prop} {w : W}
  {epoch : ℕ}

/-- A lookup that throws nothing, and whose hit is true of its entry. -/
def CacheTruth.Hit (T : CacheTruth W) (key : JsString) (epoch : ℕ) (w : W) :
    Option (Option JsString) → Prop
  | some hit => ∀ v ∈ hit, T.holds w key epoch v
  | none => False

lemma lasting_hit (key : JsString) : Lasting (T.Hit key epoch) := by
  intro w w' hw o ho
  cases o with
  | none => exact ho
  | some hit => exact fun v hv => T.holds_mono hw (ho v hv)

/-- `get` answers what is true of the entry, or misses. -/
lemma keeps_get (key : JsString) :
    (RuleCache.get key epoch).Keeps (ruleContract T mayPurge okRead) (T.Hit key epoch) w := by
  refine ⟨trivial, fun w₁ _ hit hhit => ?_⟩
  cases hit with
  | some v => exact hhit
  | none =>
      refine ⟨trivial, fun w₂ _ lookup hlookup => ?_⟩
      cases lookup with
      | none => exact nofun
      | some l =>
          obtain ⟨rfl, rfl⟩ := hlookup l rfl
          exact ⟨trivial, fun w₃ _ found hfound => hfound⟩

/-- The outcome of a batch: values that are true of the keys, or a rejection of the read. -/
def CacheTruth.Memoised (T : CacheTruth W) (keys : List JsString) (epoch : ℕ) (fails : W → Prop)
    (w : W) : Option (List JsString) → Prop
  | some values => List.Forall₂ (fun key v => T.holds w key epoch v) keys values
  | none => fails w

lemma forall₂_holds_mono {keys vs : List JsString} {w' : W} (hw : w ≤ w')
    (h : List.Forall₂ (fun key v => T.holds w key epoch v) keys vs) :
    List.Forall₂ (fun key v => T.holds w' key epoch v) keys vs :=
  h.imp fun _ _ => T.holds_mono hw

/-- What was read is memoised and written to its positions. -/
lemma keeps_memoise {keys : List JsString} {fails : W → Prop}
    (entries : List (JsString × List ℕ)) {vs : List JsString} {values : List (Option JsString)}
    {covered : JsString → Prop} (hentries : ∀ entry ∈ entries, PositionsOf keys entry)
    (hvs : List.Forall₂ (fun key v => T.holds w key epoch v) (entries.map Prod.fst) vs)
    (h : Filled (fun key v => T.holds w key epoch v) keys values covered)
    (hall : ∀ key ∈ keys, covered key ∨ key ∈ entries.map Prod.fst) :
    (RuleCache.memoise epoch (entries.zip vs) values).Keeps (ruleContract T mayPurge okRead)
      (T.Memoised keys epoch fails) w := by
  induction entries generalizing w vs values covered with
  | nil => exact h.forall₂ fun key hkey => (hall key hkey).resolve_right (by simp)
  | cons entry entries ih =>
      rcases hvs with - | ⟨hv, hvs⟩
      refine ⟨hv, fun w' hw _ _ => ?_⟩
      have hfilled := (h.mono (fun key u hu => T.holds_mono hw hu) fun _ hc => hc).fillAt
        (hentries entry (by simp)) (T.holds_mono hw hv)
      refine ih (fun e he => hentries e (by simp [he])) (forall₂_holds_mono hw hvs) hfilled
        fun key hkey => ?_
      simpa [or_assoc] using hall key hkey

/-- **`memoMany`**: every value is true of the key at its position, whether it was held or read;
the batch rejects only if the read of some of its keys does. -/
theorem keeps_memoMany {keys : List JsString} {fails : W → Prop}
    {read : List JsString → RuleProc A (List JsString)}
    (hread : ∀ w', w ≤ w' → ∀ missing, (∀ key ∈ missing, key ∈ keys) → missing.Nodup →
      missing ≠ [] → (read missing).Keeps (ruleContract T mayPurge okRead)
        (T.Memoised missing epoch fails) w') :
    (RuleCache.memoMany keys epoch read).Keeps (ruleContract T mayPurge okRead)
      (T.Memoised keys epoch fails) w := by
  have hlookups := Proc.Keeps.mapAll (C := ruleContract T mayPurge okRead) (w := w)
    (groupPositions keys.zipIdx).entries (fun entry => RuleCache.get entry.1 epoch)
    (fun entry => T.Hit entry.1 epoch) (fun entry _ => lasting_hit entry.1)
    fun entry _ => keeps_get entry.1
  refine hlookups.bind (fun w₁ hw₁ hits hhits => ?_) fun w₁ _ hnone => ?_
  · -- the misses are read, in the order of the lookups
    have hpositions : List.Forall₂ (fun (entry : JsString × List ℕ) hit => PositionsOf keys entry ∧
        ∀ v ∈ hit, T.holds w₁ entry.1 epoch v) (groupPositions keys.zipIdx).entries hits := by
      refine List.forall₂_iff_zip.mpr ⟨hhits.length_eq, fun {entry hit} hmem => ⟨?_, ?_⟩⟩
      · exact positionsOf_entries (List.of_mem_zip hmem).1
      · exact (List.forall₂_iff_zip.mp hhits).2 hmem
    have hstart : Looked (fun key v => T.holds w₁ key epoch v) keys
        ⟨keys.map fun _ => none, []⟩ fun _ => False :=
      ⟨(filled_nothing _ keys).mono (fun _ _ hP => hP) fun _ hc => hc.1.elim, nofun,
        List.nodup_nil⟩
    have hlooked := hstart.foldl hpositions (groupPositions keys.zipIdx).nodup fun _ _ h => h
    have hkeys : ∀ key ∈ keys, key ∈ (groupPositions keys.zipIdx).entries.map Prod.fst := by
      intro key hkey
      obtain ⟨i, hi⟩ := List.mem_iff_getElem?.mp hkey
      obtain ⟨ats, hats, -⟩ := exists_group (List.mk_mem_zipIdx_iff_getElem?.mpr hi)
      exact List.mem_map.mpr ⟨(key, ats), JsMap.get?_eq_some_iff.mp hats, rfl⟩
    dsimp only
    split_ifs with hmissing
    · refine hlooked.filled.forall₂ fun key hkey => ⟨.inr (hkeys key hkey), ?_⟩
      rw [hmissing]
      exact List.not_mem_nil
    · refine (hread w₁ hw₁ _ (fun key hkey => ?_) hlooked.nodup (by simpa using hmissing)).bind
        (fun w₂ hw₂ values hvalues => ?_) fun w₂ _ hfails => hfails
      · obtain ⟨entry, hentry, rfl⟩ := List.mem_map.mp hkey
        exact (hlooked.missing entry hentry).1.mem
      · have hlen : values.length = (((groupPositions keys.zipIdx).entries.zip hits).foldl
            RuleCache.MemoFill.look ⟨keys.map fun _ => none, []⟩).missing.length := by
          rw [← List.Forall₂.length_eq hvalues, List.length_map]
        rw [if_neg (not_not.mpr hlen)]
        refine keeps_memoise _ (fun entry hentry => (hlooked.missing entry hentry).1) hvalues
          (hlooked.filled.mono (fun key v hv => T.holds_mono hw₂ hv) fun _ hc => hc)
          fun key hkey => ?_
        by_cases hin : key ∈ List.map Prod.fst (((groupPositions keys.zipIdx).entries.zip
              hits).foldl RuleCache.MemoFill.look ⟨keys.map fun _ => none, []⟩).missing
        · exact .inr hin
        · exact .inl ⟨.inr (hkeys key hkey), hin⟩
  · obtain ⟨entry, -, hfalse⟩ := hnone
    exact hfalse.elim

end

end

end PubsubVoting
