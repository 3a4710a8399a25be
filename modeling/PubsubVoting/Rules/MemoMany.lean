import PubsubVoting.Lib.ProcRun
import PubsubVoting.Rules.Memo
import PubsubVoting.Rules.MemoryCache

/-!
The batch lookup of the rule caches, over any cache and any read.

* `memoManyOver`: the body, for a cache given by its `get` and `set`; `memoMany_eq`: the rules'
  `memoMany` is this body over the persistent cache.
* `MemoCall`, `memoManyCalls`: the body as it asks its cache and its read, one question per call.
* `missingKeys`, `MemoSettled`, `MemoExact`: what the questions and the outcome of a settled call
  are to be.
* `memoMany_exact`: beside whatever others do, every call settles, and what it has asked and
  answered then is exact, position by position.
* `memoMany_memory`: the same for the in-memory cache when nobody else uses it.
-/

namespace PubsubVoting

open JsString Proc

/-! ### The body -/

section

variable {ε : Type} {ρ : ε → Type}

open RuleCache

/-- Memoise what was read, and write it to its positions. -/
def memoiseOver (set : JsString → JsString → ε) :
    List ((JsString × List ℕ) × JsString) → List (Option JsString) → Proc ε ρ (List JsString)
  | [], values => .done (allFilled values)
  | ((key, ats), value) :: rest, values =>
    .ask (set key value) fun _ => memoiseOver set rest (fillAt values ats value)

/-- The rest of a call whose lookups are answered: what is missing is read at once, in order. -/
def readMissing (set : JsString → JsString → ε) (read : List JsString → Proc ε ρ (List JsString))
    (looked : MemoFill) : Proc ε ρ (List JsString) :=
  if looked.missing = [] then .done (allFilled looked.values)
  else (read (looked.missing.map Prod.fst)).bind fun values =>
    if values.length ≠ looked.missing.length then .throw
    else memoiseOver set (looked.missing.zip values) looked.values

/-- `memoManyOver`: the distinct keys are looked up side by side, and what is missing is read. -/
def memoManyOver (get : JsString → Proc ε ρ (Option JsString)) (set : JsString → JsString → ε)
    (read : List JsString → Proc ε ρ (List JsString)) (keys : List JsString) :
    Proc ε ρ (List JsString) :=
  let positions := (groupPositions keys.zipIdx).entries
  (mapAll positions fun entry => get entry.1).bind fun hits =>
    readMissing set read
      ((positions.zip hits).foldl MemoFill.look ⟨keys.map fun _ => none, []⟩)

/-- The rules' `memoMany` is this body over their persistent cache. -/
theorem memoMany_eq {R : Type} {A : R → Type} (keys : List JsString) (epoch : ℕ)
    (read : List JsString → RuleProc A (List JsString)) :
    RuleCache.memoMany keys epoch read = memoManyOver (fun key => RuleCache.get key epoch)
      (fun key value => .cache (.set key epoch value)) read keys := by
  have hmemoise : ∀ entries values, RuleCache.memoise (A := A) epoch entries values
      = memoiseOver (fun key value => .cache (.set key epoch value)) entries values := by
    intro entries
    induction entries with
    | nil => exact fun _ => rfl
    | cons entry entries ih =>
        intro values
        rw [RuleCache.memoise, memoiseOver]
        exact congrArg _ (funext fun _ => ih _)
  unfold RuleCache.memoMany memoManyOver readMissing
  simp only [hmemoise]

end

/-! ### What a call asks -/

/-- What a call asks of its cache, and of the read it is given. -/
inductive MemoCall (E : Type) where
  | get (key : JsString) (epoch : E)
  | set (key : JsString) (epoch : E) (value : JsString)
  | read (keys : List JsString)

/-- What it is answered. A read answers any number of values, or rejects. -/
abbrev MemoCall.Answer {E : Type} : MemoCall E → Type
  | .get _ _ => Option JsString
  | .set _ _ _ => Unit
  | .read _ => Option (List JsString)

section

variable {E σ : Type}

/-- The read as one question. -/
def readCall (missing : List JsString) : Proc (MemoCall E) MemoCall.Answer (List JsString) :=
  .ask (.read missing) fun
    | some values => .done values
    | none => .throw

/-- `memoMany`, each of its calls a question. -/
def memoManyCalls (keys : List JsString) (epoch : E) :
    Proc (MemoCall E) MemoCall.Answer (List JsString) :=
  memoManyOver (fun key => .ask (.get key epoch) fun hit => .done hit)
    (fun key value => .set key epoch value) readCall keys

/-- The distinct keys without a hit, in the order they are first met. -/
def missingKeys (keys : List JsString) (hit : JsString → Option JsString) : List JsString :=
  keys.eraseDups.filter fun key => (hit key).isNone

/-- What a call does once its lookups are answered, and its outcome: there is nothing to be read;
the read rejects; it answers a wrong number of values; or its values are memoised in order, and
every key has its hit or the value read for it. -/
inductive MemoSettled (handle : σ → (e : MemoCall E) → e.Answer × σ) (keys : List JsString)
    (epoch : E) (hit : JsString → Option JsString) :
    List (σ × MemoCall E) → Option (List JsString) → Prop
  | allHit {values : List JsString} : missingKeys keys hit = [] →
      List.Forall₂ (fun key v => hit key = some v) keys values →
      MemoSettled handle keys epoch hit [] (some values)
  | rejected {s : σ} : missingKeys keys hit ≠ [] →
      (handle s (.read (missingKeys keys hit))).1 = none →
      MemoSettled handle keys epoch hit [(s, .read (missingKeys keys hit))] none
  | wrongCount {s : σ} {read : List JsString} : missingKeys keys hit ≠ [] →
      (handle s (.read (missingKeys keys hit))).1 = some read →
      read.length ≠ (missingKeys keys hit).length →
      MemoSettled handle keys epoch hit [(s, .read (missingKeys keys hit))] none
  | memoised {s : σ} {read values : List JsString} {sets : List (σ × MemoCall E)} :
      missingKeys keys hit ≠ [] → (handle s (.read (missingKeys keys hit))).1 = some read →
      read.length = (missingKeys keys hit).length →
      sets.map Prod.snd = ((missingKeys keys hit).zip read).map (fun e => .set e.1 epoch e.2) →
      List.Forall₂ (fun key v => hit key = some v ∨
        hit key = none ∧ (key, v) ∈ (missingKeys keys hit).zip read) keys values →
      MemoSettled handle keys epoch hit ((s, .read (missingKeys keys hit)) :: sets) (some values)

/-- What a settled call has asked, and its outcome: every distinct key was looked up once, each in
some state and in some order, and nothing else was asked before all were. -/
def MemoExact (handle : σ → (e : MemoCall E) → e.Answer × σ) (keys : List JsString) (epoch : E)
    (log : List (σ × MemoCall E)) (o : Option (List JsString)) : Prop :=
  ∃ (at' : JsString → σ) (lookups later : List (σ × MemoCall E)), log = lookups ++ later ∧
    lookups.Perm (keys.eraseDups.map fun key => (at' key, .get key epoch)) ∧
    MemoSettled handle keys epoch (fun key => (handle (at' key) (.get key epoch)).1) later o

/-! ### The values of a call -/

variable {keys : List JsString} {epoch : E} {hit : JsString → Option JsString}

/-- The misses are kept in order. -/
lemma missing_foldl_look (entries : List (JsString × List ℕ)) (looked : RuleCache.MemoFill) :
    ((entries.zip (entries.map fun entry => hit entry.1)).foldl RuleCache.MemoFill.look
      looked).missing = looked.missing ++ entries.filter fun entry => (hit entry.1).isNone := by
  induction entries generalizing looked with
  | nil => simp
  | cons entry entries ih =>
      rw [List.map_cons, List.zip_cons_cons, List.foldl_cons, ih]
      cases hhit : hit entry.1 with
      | none => simp [RuleCache.MemoFill.look, hhit]
      | some v => simp [RuleCache.MemoFill.look, hhit]

/-- Values written to the positions of their keys. -/
def fillAll (values : List (Option JsString)) (entries : List ((JsString × List ℕ) × JsString)) :
    List (Option JsString) :=
  entries.foldl (fun acc e => RuleCache.fillAt acc e.1.2 e.2) values

/-- Writing the values of some more keys covers these keys as well. -/
lemma Filled.fillAll {P : JsString → JsString → Prop} {covered : JsString → Prop}
    {entries : List (JsString × List ℕ)} {vs : List JsString} {values : List (Option JsString)}
    (h : Filled P keys values covered)
    (hvs : List.Forall₂ (fun entry v => PositionsOf keys entry ∧ P entry.1 v) entries vs) :
    Filled P keys (PubsubVoting.fillAll values (entries.zip vs))
      fun key => covered key ∨ key ∈ entries.map Prod.fst := by
  induction hvs generalizing values covered with
  | nil => exact h.mono (fun _ _ hP => hP) (by simp)
  | @cons entry v entries vs hv _ ih =>
      refine (ih (h.fillAt hv.1 hv.2)).mono (fun _ _ hP => hP) fun key hkey => ?_
      simpa [or_assoc] using hkey

/-! ### Runs of a call -/

variable {handle : σ → (e : MemoCall E) → e.Answer × σ} {env : σ → σ → Prop} {s t : σ}
  {log : List (σ × MemoCall E)} {p : Proc (MemoCall E) MemoCall.Answer (List JsString)}
  {o : Option (List JsString)}

/-- What was read is memoised in order, and written to its positions. -/
lemma runs_memoiseOver {entries : List ((JsString × List ℕ) × JsString)}
    {values : List (Option JsString)}
    (h : Runs handle env (memoiseOver (fun key value => .set key epoch value) entries values)
      s p t log) (ho : p.outcome? = some o) :
    log.map Prod.snd = entries.map (fun e => .set e.1.1 epoch e.2) ∧
      o = some (RuleCache.allFilled (fillAll values entries)) := by
  induction entries generalizing values s log with
  | nil =>
      obtain ⟨rfl, rfl⟩ := runs_done h
      exact ⟨rfl, (Option.some.inj ho).symm⟩
  | cons entry entries ih =>
      rcases runs_ask h with ⟨rfl, -⟩ | ⟨s₁, rest, hrest, rfl⟩
      · cases ho
      · obtain ⟨hsets, hvalues⟩ := ih hrest
        exact ⟨by rw [List.map_cons, hsets, List.map_cons], hvalues⟩

/-- The positions of a batch. -/
lemma forall_positions : ∀ entry ∈ (groupPositions keys.zipIdx).entries, PositionsOf keys entry :=
  fun _ => positionsOf_entries

lemma keys_positions :
    (groupPositions keys.zipIdx).entries.map Prod.fst = keys.eraseDups := by
  show (groupPositions keys.zipIdx).keys = keys.eraseDups
  rw [keys_groupPositions, List.zipIdx_map_fst]

/-- The hits are written to their positions. -/
lemma filled_looked (keys : List JsString) (hit : JsString → Option JsString) :
    let positions := (groupPositions keys.zipIdx).entries
    Looked (fun key v => hit key = some v) keys
      ((positions.zip (positions.map fun entry => hit entry.1)).foldl RuleCache.MemoFill.look
        ⟨keys.map fun _ => none, []⟩) fun key => False ∨ key ∈ positions.map Prod.fst := by
  refine Looked.foldl ?_ (groupPositions keys.zipIdx).nodup (fun _ _ h => h)
    ⟨(filled_nothing _ keys).mono (fun _ _ hP => hP) fun _ hc => hc.1.elim, nofun, List.nodup_nil⟩
  refine List.forall₂_iff_zip.mpr ⟨(List.length_map _).symm, fun {entry hit'} hmem => ?_⟩
  refine ⟨forall_positions entry (List.of_mem_zip hmem).1, fun v hv => ?_⟩
  obtain ⟨i, hi, hget⟩ := List.mem_iff_getElem.mp hmem
  rw [List.getElem_zip, Prod.mk.injEq, List.getElem_map] at hget
  rw [← hget.1, hget.2]
  exact hv

/-- A function of the positions of a batch as one of its keys. -/
lemma exists_of_positions (s : σ) (states : Fin (groupPositions keys.zipIdx).entries.length → σ) :
    ∃ at' : JsString → σ, ∀ i, at' ((groupPositions keys.zipIdx).entries.get i).1 = states i := by
  have hinj : Function.Injective fun i : Fin (groupPositions keys.zipIdx).entries.length =>
      ((groupPositions keys.zipIdx).entries.get i).1 := by
    have hnodup := (groupPositions keys.zipIdx).nodup
    intro i j hij
    exact List.nodup_iff_injective_get.mp (hnodup.of_map _)
      (List.inj_on_of_nodup_map hnodup (List.get_mem _ i) (List.get_mem _ j) hij)
  exact ⟨_, fun i => hinj.extend_apply states (fun _ => s) i⟩

/-- What a call does once its lookups are answered. -/
lemma memoSettled_of_runs (hit : JsString → Option JsString) {looked : RuleCache.MemoFill}
    (hlooked : looked = (((groupPositions keys.zipIdx).entries.zip
      ((groupPositions keys.zipIdx).entries.map fun entry => hit entry.1)).foldl
        RuleCache.MemoFill.look ⟨keys.map fun _ => none, []⟩))
    (h : Runs handle env (readMissing (fun key value => .set key epoch value) readCall looked)
      s p t log) (ho : p.outcome? = some o) : MemoSettled handle keys epoch hit log o := by
  have hfill := filled_looked keys hit
  dsimp only at hfill
  rw [← hlooked, keys_positions] at hfill
  have hmissing : looked.missing
      = (groupPositions keys.zipIdx).entries.filter fun entry => (hit entry.1).isNone := by
    rw [hlooked, missing_foldl_look, List.nil_append]
  have hkeys : looked.missing.map Prod.fst = missingKeys keys hit := by
    rw [hmissing, missingKeys, ← keys_positions, List.filter_map]
    rfl
  have hseen : ∀ key ∈ keys, False ∨ key ∈ keys.eraseDups := fun key hkey =>
    .inr (List.mem_eraseDups.mpr hkey)
  rw [readMissing] at h
  rw [hkeys] at h
  split_ifs at h with hnone
  · -- nothing is missing
    obtain ⟨rfl, rfl⟩ := runs_done h
    rw [← Option.some.inj ho]
    refine .allHit (by rw [← hkeys, hnone]; rfl) (hfill.filled.forall₂ fun key hkey => ?_)
    refine ⟨hseen key hkey, ?_⟩
    rw [hnone]
    exact List.not_mem_nil
  · have hne : missingKeys keys hit ≠ [] := by
      rw [← hkeys]
      simpa using hnone
    rcases runs_ask h with ⟨rfl, -⟩ | ⟨s₁, rest, hrest, rfl⟩
    · cases ho
    · cases hread : (handle s₁ (.read (missingKeys keys hit))).1 with
      | none =>
          dsimp only at hrest
          rw [hread] at hrest
          obtain ⟨rfl, rfl⟩ := runs_throw hrest
          rw [← Option.some.inj ho]
          exact .rejected hne hread
      | some read =>
          dsimp only at hrest
          rw [hread] at hrest
          replace hrest : Runs handle env (if read.length ≠ looked.missing.length then .throw
            else memoiseOver (fun key value => .set key epoch value) (looked.missing.zip read)
              looked.values) (handle s₁ (.read (missingKeys keys hit))).2 p t rest := hrest
          have hlen : looked.missing.length = (missingKeys keys hit).length := by
            rw [← hkeys, List.length_map]
          split_ifs at hrest with hwrong
          · obtain ⟨rfl, rfl⟩ := runs_throw hrest
            rw [← Option.some.inj ho]
            exact .wrongCount hne hread (hlen ▸ hwrong)
          · obtain ⟨hsets, rfl⟩ := runs_memoiseOver hrest ho
            have hcount : read.length = looked.missing.length := not_not.mp hwrong
            have hzip : (missingKeys keys hit).zip read
                = (looked.missing.zip read).map (Prod.map Prod.fst id) := by
              rw [← hkeys, List.zip_map_left]
            refine .memoised hne hread (hlen ▸ hcount) ?_ ?_
            · rw [hsets, hzip, List.map_map]
              rfl
            · have hread' : List.Forall₂ (fun entry v => PositionsOf keys entry ∧
                  (hit entry.1 = some v ∨
                    hit entry.1 = none ∧ (entry.1, v) ∈ (missingKeys keys hit).zip read))
                  looked.missing read := by
                refine List.forall₂_iff_zip.mpr ⟨hcount.symm, fun {entry v} hmem => ?_⟩
                have hentry : entry ∈ looked.missing := (List.of_mem_zip hmem).1
                refine ⟨(hfill.missing entry hentry).1, .inr ⟨?_, ?_⟩⟩
                · rw [hmissing, List.mem_filter] at hentry
                  exact Option.isNone_iff_eq_none.mp hentry.2
                · rw [hzip]
                  exact List.mem_map.mpr ⟨(entry, v), hmem, rfl⟩
              refine ((hfill.filled.mono (fun key v hv => .inl hv) fun _ hc => hc).fillAll
                hread').forall₂ fun key hkey => ?_
              by_cases hin : key ∈ looked.missing.map Prod.fst
              · exact .inr hin
              · exact .inl ⟨hseen key hkey, hin⟩

/-- **A settled call is exact.** -/
lemma memoExact_of_runs (h : Runs handle env (memoManyCalls keys epoch) s p t log)
    (ho : p.outcome? = some o) : MemoExact handle keys epoch log o := by
  obtain ⟨states, s₁, lookups, later, hlater, hlog, hperm⟩ :=
    Runs.mapAll_ask h (by rw [ho]; rfl)
  -- the state each key was looked up in
  obtain ⟨at', hat⟩ := exists_of_positions s states
  have hstates : ∀ {β : Type} (f : σ → JsString → β), (List.ofFn fun i =>
      f (states i) ((groupPositions keys.zipIdx).entries.get i).1)
        = (groupPositions keys.zipIdx).entries.map fun entry => f (at' entry.1) entry.1 := by
    intro β f
    rw [← List.ofFn_getElem_eq_map]
    exact congrArg List.ofFn (funext fun i => by rw [← hat i]; rfl)
  refine ⟨at', lookups, later, hlog, hperm.trans (.of_eq ?_), ?_⟩
  · rw [← keys_positions, List.map_map, ← List.ofFn_eq_map]
    exact hstates fun s key => (s, MemoCall.get key epoch)
  · have hhits := hstates fun s key => (handle s (MemoCall.get key epoch)).1
    rw [hhits] at hlater
    exact memoSettled_of_runs _ rfl hlater ho

/-- **The batch lookup is positionally exact**: beside whatever others do to the cache, every call
can be continued to an outcome; its log tells the states it found; and once it has settled, each
distinct key has been looked up once, the distinct keys without a hit have been read at once, in the
order they are first met, or nothing was read where there are none, and then either every value read
has been memoised and every key of the list has its hit or the value read for it, or the read has
rejected or answered a wrong number of values, the call has thrown and nothing has been memoised. -/
theorem memoMany_exact (handle : σ → (e : MemoCall E) → e.Answer × σ) (env : σ → σ → Prop)
    (keys : List JsString) (epoch : E)
    (h : Runs handle env (memoManyCalls keys epoch) s p t log) :
    (∃ q u log', Runs handle env (memoManyCalls keys epoch) s q u (log ++ log') ∧
      q.outcome?.isSome = true) ∧ Threaded handle env s log t ∧
      ∀ o, p.outcome? = some o → MemoExact handle keys epoch log o := by
  refine ⟨?_, h.threaded, fun o ho => memoExact_of_runs h ho⟩
  obtain ⟨q, u, log', hrest, hq⟩ := exists_settled handle env p t
  exact ⟨q, u, log', h.trans hrest, hq⟩

/-! ### The in-memory cache on its own -/

lemma missingKeys_congr {hit' : JsString → Option JsString}
    (h : ∀ key ∈ keys, hit key = hit' key) : missingKeys keys hit = missingKeys keys hit' := by
  refine List.filter_congr fun key hkey => ?_
  rw [h key (List.mem_eraseDups.mp hkey)]

/-- Only the hits of the keys matter. -/
lemma MemoSettled.congr {hit' : JsString → Option JsString} (hkeys : ∀ key ∈ keys,
    hit key = hit' key) (h : MemoSettled handle keys epoch hit log o) :
    MemoSettled handle keys epoch hit' log o := by
  have hmissing := missingKeys_congr hkeys
  cases h with
  | allHit hnone hvalues =>
      exact .allHit (hmissing ▸ hnone)
        (forall₂_imp_mem (fun key hkey v hv => hkeys key hkey ▸ hv) hvalues)
  | rejected hne hread =>
      rw [hmissing] at hne hread ⊢
      exact .rejected hne hread
  | wrongCount hne hread hwrong =>
      rw [hmissing] at hne hread hwrong ⊢
      exact .wrongCount hne hread hwrong
  | memoised hne hread hcount hsets hvalues =>
      rw [hmissing] at hne hread hcount hsets hvalues ⊢
      exact .memoised hne hread hcount hsets
        (forall₂_imp_mem (fun key hkey v hv => hkeys key hkey ▸ hv) hvalues)

end

section

variable {N : Type} (J : JsNumbers N) (maxEntries : ℕ)
  (read : List JsString → Option (List JsString))

/-- The in-memory cache and a read, as they answer a call. -/
def MemoryRuleCache.answer (cache : MemoryRuleCache) : (e : MemoCall N) → e.Answer × MemoryRuleCache
  | .get key epoch => (cache.get? (J.entryKey key epoch), cache)
  | .set key epoch value => ((), cache.set maxEntries (J.entryKey key epoch) value)
  | .read keys => (read keys, cache)

variable {J maxEntries read} {cache t : MemoryRuleCache} {log : List (MemoryRuleCache × MemoCall N)}

/-- Nobody else moves the cache. -/
lemma eq_of_quiet {c c' : MemoryRuleCache} (h : Relation.ReflTransGen (fun _ _ => False) c c') :
    c' = c := (Relation.reflTransGen_iff_eq fun _ hfalse => hfalse).mp h

/-- Then the cache is moved by the questions of the call alone. -/
lemma foldl_of_threaded (h : Threaded (MemoryRuleCache.answer J maxEntries read) (fun _ _ => False)
    cache log t) :
    t = (log.map Prod.snd).foldl (fun c e => (c.answer J maxEntries read e).2) cache := by
  induction h with
  | nil hmoves => exact eq_of_quiet hmoves
  | cons hmoves _ ih =>
      obtain rfl := eq_of_quiet hmoves
      exact ih

/-- Lookups leave the cache as it is. -/
lemma threaded_lookups {lookups later : List (MemoryRuleCache × MemoCall N)}
    (h : Threaded (MemoryRuleCache.answer J maxEntries read) (fun _ _ => False) cache
      (lookups ++ later) t) (hget : ∀ e ∈ lookups, ∃ key epoch, e.2 = .get key epoch) :
    (∀ e ∈ lookups, e.1 = cache) ∧
      Threaded (MemoryRuleCache.answer J maxEntries read) (fun _ _ => False) cache later t := by
  induction lookups with
  | nil => exact ⟨nofun, h⟩
  | cons e lookups ih =>
      obtain ⟨c, call⟩ := e
      rw [List.forall_mem_cons] at hget
      obtain ⟨⟨key, epoch, rfl⟩, hget⟩ := hget
      cases h with
      | cons hmoves hrest =>
          obtain rfl := eq_of_quiet hmoves
          obtain ⟨hlookups, hlater⟩ := ih hrest hget
          exact ⟨List.forall_mem_cons.mpr ⟨rfl, hlookups⟩, hlater⟩

/-- **On the in-memory cache, beside nobody else**, a settled call has its hits from the cache as it
found it, and leaves it with the values read set one after the other. -/
theorem memoMany_memory {keys : List JsString} {epoch : N}
    {p : Proc (MemoCall N) MemoCall.Answer (List JsString)} {o : Option (List JsString)}
    (h : Runs (MemoryRuleCache.answer J maxEntries read) (fun _ _ => False)
      (memoManyCalls keys epoch) cache p t log) (ho : p.outcome? = some o) :
    ∃ later, MemoSettled (MemoryRuleCache.answer J maxEntries read) keys epoch
        (fun key => cache.get? (J.entryKey key epoch)) later o ∧
      t = (later.map Prod.snd).foldl (fun c e => (c.answer J maxEntries read e).2) cache := by
  obtain ⟨at', lookups, later, rfl, hperm, hsettled⟩ := memoExact_of_runs h ho
  obtain ⟨hlookups, hlater⟩ := threaded_lookups h.threaded fun e he => by
    obtain ⟨key, -, rfl⟩ := List.mem_map.mp (hperm.mem_iff.mp he)
    exact ⟨key, epoch, rfl⟩
  refine ⟨later, hsettled.congr fun key hkey => ?_, foldl_of_threaded hlater⟩
  have hlookup : (at' key, .get key epoch) ∈ lookups :=
    hperm.mem_iff.mpr (List.mem_map.mpr ⟨key, List.mem_eraseDups.mpr hkey, rfl⟩)
  have hcache : at' key = cache := hlookups _ hlookup
  rw [hcache]
  rfl

end

/-! ### A batch with a duplicate and a hit -/

/-- A cache in which one of two keys is memoised. -/
def halfFilled : MemoryRuleCache :=
  MemoryRuleCache.empty.set 4096 (naturals.entryKey (ofString "b") 5) (ofString "B")

/-- The read answers one value for every key. -/
def answersA : MemoryRuleCache → (e : MemoCall ℕ) → e.Answer × MemoryRuleCache :=
  MemoryRuleCache.answer naturals 4096 fun keys => some (keys.map fun _ => ofString "A")

/-- One key twice, and another between. -/
def duplicateBatch : List JsString := [ofString "a", ofString "b", ofString "a"]

/-- A batch that names one key twice, and finds the other memoised: the key is read once, and its
value stands at both positions. -/
theorem memoMany_exact_duplicate : ∃ p t log,
    Runs answersA (fun _ _ => False) (memoManyCalls duplicateBatch 5) halfFilled p t log ∧
    p.outcome? = some (some [ofString "A", ofString "B", ofString "A"]) ∧
    ((∃ q u log', Runs answersA (fun _ _ => False) (memoManyCalls duplicateBatch 5) halfFilled q u
        (log ++ log') ∧ q.outcome?.isSome = true) ∧
      Threaded answersA (fun _ _ => False) halfFilled log t ∧
      ∀ o, p.outcome? = some o → MemoExact answersA duplicateBatch 5 log o) := by
  have hrun : ((drive answersA [[1], [0], [], [], []] (memoManyCalls duplicateBatch 5)
      halfFilled).any fun d =>
        decide (d.1.outcome? = some (some [ofString "A", ofString "B", ofString "A"]))) = true := by
    decide +kernel
  obtain ⟨d, hd, hout⟩ := (Option.any_eq_true _ _).mp hrun
  exact ⟨d.1, d.2.1, d.2.2, runs_of_drive hd, of_decide_eq_true hout,
    memoMany_exact answersA _ duplicateBatch 5 (runs_of_drive hd)⟩

end PubsubVoting
