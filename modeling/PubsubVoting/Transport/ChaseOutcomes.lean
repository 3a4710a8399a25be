import PubsubVoting.Lib.MapM
import PubsubVoting.Transport.ChaseSlots

/-!
What a chase in flight comes to: the same as the sequential chase on the blocks that came back.

* `ChaseFlight.Served`: the blocks that came back are those of a source.
* `manifestChunks_eq`, `decodeCheckpoint_of_blocks`: the decode from the blocks of its wants.
* `followed`, `WalkedSoFar`: the loop over the winners, cut at its awaits.
* `ChaseFlight.Traced`: how far the decode and the loop have come.
* `rootChaser_refines`: a flight that ended has the outcome of `runChase`.
-/

namespace PubsubVoting

open Cbor JsString

section

variable {C : Codecs} {root : Cid} {getBlock : Cid → Option Bytes} {knownChunks : Option (List Cid)}

/-! ### The decode -/

/-- The chunk index was checked and re-derives the root. -/
def IndexHolds (C : Codecs) (root : Cid) (knownChunks : Option (List Cid)) (cids : List Cid) :
    Prop :=
  knownChunks = some cids ∧ checkpointRootBlock C cids = some root

lemma checkpointChunks_of_index {cids : List Cid} (h : IndexHolds C root knownChunks cids) :
    checkpointChunks C root getBlock knownChunks = some cids := by
  rw [h.1]
  exact if_pos h.2

/-- Without an index that holds, the manifest lists the chunks. -/
lemma checkpointChunks_of_not_indexed (h : ∀ cids, ¬ IndexHolds C root knownChunks cids) :
    checkpointChunks C root getBlock knownChunks = manifestChunks C (getBlock root) := by
  cases knownChunks with
  | none => rfl
  | some cids => exact if_neg fun heq => h cids ⟨rfl, heq⟩

lemma decodeCheckpoint_eq_none (h : checkpointChunks C root getBlock knownChunks = none) :
    decodeCheckpoint C root getBlock knownChunks = none := by
  rw [decodeCheckpoint, h]
  rfl

/-- The winners from the blocks of the chunks. -/
lemma decodeCheckpoint_of_blocks {cids : List Cid} {blocks : List (Option Bytes)}
    (h : checkpointChunks C root getBlock knownChunks = some cids)
    (hblocks : cids.map getBlock = blocks) :
    decodeCheckpoint C root getBlock knownChunks =
      (blocks.mapM (chunkBundles C)).map List.flatten := by
  have hmap : cids.mapM (decodeChunk C getBlock) = blocks.mapM (chunkBundles C) := by
    rw [← hblocks, List.mapM_map]
    rfl
  rw [decodeCheckpoint, h, Option.bind_eq_bind, Option.bind_some, hmap]
  cases blocks.mapM (chunkBundles C) <;> rfl

/-- A chunk that fails to decode fails the checkpoint. -/
lemma decodeCheckpoint_of_bad {cids : List Cid} {cid : Cid}
    (h : checkpointChunks C root getBlock knownChunks = some cids) (hcid : cid ∈ cids)
    (hbad : chunkBundles C (getBlock cid) = none) :
    decodeCheckpoint C root getBlock knownChunks = none := by
  have hnone : cids.mapM (decodeChunk C getBlock) = none :=
    List.mapM_eq_none_iff.mpr ⟨cid, hcid, hbad⟩
  rw [decodeCheckpoint, h, Option.bind_eq_bind, Option.bind_some, hnone]
  rfl

/-! ### The loop, cut at its awaits -/

/-- The answers so far, and those to come. -/
def followed (seams : List SeamAnswers) (tail : ℕ → SeamAnswers) (k : ℕ) : SeamAnswers :=
  (seams[k]?).getD (tail (k - seams.length))

/-- The loop over the winners has come to a state, with these winners left. -/
def WalkedSoFar (C : Codecs) (seams : List SeamAnswers) (winners rest : List VotesBundle)
    (s : ChaseState) : Prop :=
  ∀ tail, chaseLoop C (followed seams tail) .init winners = chaseLoop C tail s rest

/-- The next answer comes behind those so far. -/
lemma followed_concat (seams : List SeamAnswers) (a : SeamAnswers) (tail : ℕ → SeamAnswers) :
    followed (seams ++ [a]) tail = followed seams fun k => if k = 0 then a else tail (k - 1) := by
  funext k
  rw [followed, followed, List.length_append, List.length_singleton]
  rcases lt_trichotomy k seams.length with hlt | rfl | hgt
  · rw [List.getElem?_append_left hlt, List.getElem?_eq_getElem hlt, Option.getD_some,
      Option.getD_some]
  · simp
  · have hnone : seams[k]? = none := List.getElem?_eq_none (by omega)
    have hnone' : (seams ++ [a])[k]? = none :=
      List.getElem?_eq_none (by rw [List.length_append, List.length_singleton]; omega)
    rw [hnone, hnone', Option.getD_none, Option.getD_none, if_neg (by omega)]
    congr 1

lemma walkedSoFar_init (winners : List VotesBundle) : WalkedSoFar C [] winners winners .init :=
  fun _ => rfl

/-- One winner further. -/
lemma WalkedSoFar.body {seams : List SeamAnswers} {winners rest : List VotesBundle}
    {b : VotesBundle} {s : ChaseState} (h : WalkedSoFar C seams winners (b :: rest) s)
    (a : SeamAnswers) (tail : ℕ → SeamAnswers) :
    chaseLoop C (followed (seams ++ [a]) tail) .init winners =
      match chaseStep C a s b with
      | .next s => chaseLoop C tail s rest
      | .stop s => (false, s)
      | .threw s => (true, s) := by
  rw [followed_concat, h, chaseLoop]
  rfl

lemma runChase_of_loop {winners : List VotesBundle} {answers : ℕ → SeamAnswers} {threw : Bool}
    {s : ChaseState} (h : decodeCheckpoint C root getBlock knownChunks = some winners)
    (hloop : chaseLoop C answers .init winners = (threw, s)) :
    runChase C root getBlock knownChunks false answers =
      if threw then ⟨s.admitted, [], [], false⟩ else s.outcome := by
  have hloop : chaseLoop C answers ⟨[], [], false, [], []⟩ winners = (threw, s) := hloop
  rw [runChase, if_neg (by decide), h]
  dsimp only
  rw [hloop]
  cases threw <;> rfl

lemma runChase_of_none {answers : ℕ → SeamAnswers}
    (h : decodeCheckpoint C root getBlock knownChunks = none) :
    runChase C root getBlock knownChunks false answers = .nothing := by
  rw [runChase, if_neg (by decide), h]
  rfl

end

/-! ### A flight -/

lemma done?_eq_some {status : FetchStatus} {bytes : Option Bytes} :
    status.done? = some bytes ↔ status = .done bytes := by
  cases status <;> simp [FetchStatus.done?]

namespace ChaseFlight

variable {C : Codecs} {f g : ChaseFlight}

/-- The blocks that came back for a flight are those of a source. -/
def Served (f : ChaseFlight) (getBlock : Cid → Option Bytes) : Prop :=
  ∀ w ∈ f.fetches, ∀ bytes, w.status = .done bytes → getBlock w.cid = bytes

/-- How far a flight has come, for every source that served it so far. -/
structure Traced (C : Codecs) (f : ChaseFlight) : Prop where
  index : f.run = .racing → f.decode = .deriving → f.fetches = []
  manifest : f.run = .racing → f.decode = .manifest →
    (∃ status, f.fetches = [⟨f.root, status⟩] ∧ status.done? = none) ∧
      ∀ cids, ¬ IndexHolds C f.root f.knownChunks cids
  chunks : ∀ base, f.run = .racing → f.decode = .chunks base → ∀ getBlock, f.Served getBlock →
    checkpointChunks C f.root getBlock f.knownChunks = some ((f.fetches.drop base).map Fetch.cid)
  seams : f.run = .queued ∨ f.run = .racing → f.seams = [] ∧ f.expired = false
  walking : ∀ rest s, f.run = .walking rest s → f.expired = false ∧
    ∀ getBlock, f.Served getBlock → ∃ winners,
      decodeCheckpoint C f.root getBlock f.knownChunks = some winners ∧
        WalkedSoFar C f.seams winners rest s
  ended : ∀ outcome, f.run = .ended outcome → ∀ getBlock, f.Served getBlock → ∃ answers,
    outcome = runChase C f.root getBlock f.knownChunks f.expired answers

lemma Served.of_decodes {getBlock : Cid → Option Bytes} (h : g.Served getBlock)
    (hdecodes : f.Decodes g) : f.Served getBlock :=
  fun w hw bytes hstatus =>
    h w (hdecodes.fetched w hw (by simp [hstatus, FetchStatus.done?])) bytes hstatus

/-- A decode whose run does not wait for it any more leaves no trace. -/
lemma Traced.of_decodes (h : f.Traced C) (hrun : f.run ≠ .racing) (hdecodes : f.Decodes g) :
    g.Traced C := by
  have hsame : g.run = f.run := hdecodes.run.resolve_right fun h => hrun h.1
  obtain ⟨-, -, -, h4, h5, h6⟩ := h
  constructor
  · exact fun hg => absurd (hsame.symm.trans hg) hrun
  · exact fun hg => absurd (hsame.symm.trans hg) hrun
  · exact fun _ hg => absurd (hsame.symm.trans hg) hrun
  · rw [hsame, hdecodes.seams, hdecodes.expired]
    exact h4
  · rw [hsame, hdecodes.seams, hdecodes.expired, hdecodes.root, hdecodes.knownChunks]
    exact fun rest s hs => ⟨(h5 rest s hs).1, fun getBlock hserved =>
      (h5 rest s hs).2 getBlock (hserved.of_decodes hdecodes)⟩
  · rw [hsame, hdecodes.expired, hdecodes.root, hdecodes.knownChunks]
    exact fun outcome ho getBlock hserved =>
      h6 outcome ho getBlock (hserved.of_decodes hdecodes)

/-- A run that ended with what the sequential chase comes to. -/
lemma traced_finish {outcome : ChaseOutcome}
    (h : ∀ getBlock, f.Served getBlock → ∃ answers,
      outcome = runChase C f.root getBlock f.knownChunks f.expired answers) :
    (f.finish outcome).Traced C := by
  constructor
  · exact fun hg => absurd hg (by simp [ChaseFlight.finish])
  · exact fun hg => absurd hg (by simp [ChaseFlight.finish])
  · exact fun _ hg => absurd hg (by simp [ChaseFlight.finish])
  · exact fun hg => absurd hg (by simp [ChaseFlight.finish])
  · exact fun rest s hg => absurd hg (by simp [ChaseFlight.finish])
  · intro outcome' hg
    obtain rfl : outcome = outcome' := by simpa [ChaseFlight.finish] using hg
    exact h

/-- A loop that goes on, or has passed the last winner. -/
lemma traced_walkOn {rest : List VotesBundle} {s : ChaseState} (hexpired : f.expired = false)
    (h : ∀ getBlock, f.Served getBlock → ∃ winners,
      decodeCheckpoint C f.root getBlock f.knownChunks = some winners ∧
        WalkedSoFar C f.seams winners rest s) : (f.walkOn rest s).Traced C := by
  cases rest with
  | nil =>
      refine traced_finish fun getBlock hserved => ?_
      obtain ⟨winners, hdecode, hwalked⟩ := h getBlock hserved
      refine ⟨followed f.seams fun _ => ⟨false, none, none, none, none, none⟩, ?_⟩
      rw [hexpired]
      exact (runChase_of_loop hdecode (hwalked _)).symm
  | cons b rest =>
      constructor
      · exact fun hg => absurd hg (by simp [ChaseFlight.walkOn])
      · exact fun hg => absurd hg (by simp [ChaseFlight.walkOn])
      · exact fun _ hg => absurd hg (by simp [ChaseFlight.walkOn])
      · exact fun hg => absurd hg (by simp [ChaseFlight.walkOn])
      · intro rest' s' hg
        obtain ⟨rfl, rfl⟩ : b :: rest = rest' ∧ s = s' := by simpa [ChaseFlight.walkOn] using hg
        exact ⟨hexpired, h⟩
      · exact fun outcome hg => absurd hg (by simp [ChaseFlight.walkOn])

lemma decoded_none (hrun : f.run = .racing) :
    f.decoded none = ({ f with decode := .settled } : ChaseFlight).finish .nothing := by
  rw [ChaseFlight.decoded]
  rw [hrun]

lemma decoded_some (hrun : f.run = .racing) (winners : List VotesBundle) :
    f.decoded (some winners) =
      ({ f with decode := .settled } : ChaseFlight).walkOn winners .init := by
  rw [ChaseFlight.decoded]
  rw [hrun]

/-- A decode that settles while its run waits for it. -/
lemma traced_decoded (hfresh : f.seams = [] ∧ f.expired = false) (hrun : f.run = .racing)
    {winners : Option (List VotesBundle)}
    (hdecode : ∀ getBlock, f.Served getBlock →
      decodeCheckpoint C f.root getBlock f.knownChunks = winners) :
    (f.decoded winners).Traced C := by
  obtain ⟨hseams, hexpired⟩ := hfresh
  cases winners with
  | none =>
      rw [decoded_none hrun]
      refine traced_finish fun getBlock hserved =>
        ⟨fun _ => ⟨false, none, none, none, none, none⟩, ?_⟩
      show _ = runChase C f.root getBlock f.knownChunks f.expired _
      rw [hexpired]
      exact (runChase_of_none (hdecode getBlock hserved)).symm
  | some winners =>
      rw [decoded_some hrun]
      refine traced_walkOn hexpired fun getBlock hserved => ⟨winners, hdecode getBlock hserved, ?_⟩
      show WalkedSoFar C f.seams winners winners .init
      rw [hseams]
      exact walkedSoFar_init winners

/-- What the wants of the chunks have come back with, while all of them have. -/
lemma map_getBlock_of_done {getBlock : Cid → Option Bytes} {ws : List Fetch}
    {blocks : List (Option Bytes)}
    (hserved : ∀ w ∈ ws, ∀ bytes, w.status = .done bytes → getBlock w.cid = bytes)
    (hblocks : (ws.map Fetch.status).mapM FetchStatus.done? = some blocks) :
    (ws.map Fetch.cid).map getBlock = blocks := by
  induction ws generalizing blocks with
  | nil =>
      obtain rfl : [] = blocks := by simpa using hblocks
      rfl
  | cons w ws ih =>
      obtain ⟨hw, hws⟩ := List.forall_mem_cons.mp hserved
      rw [List.map_cons, List.mapM_cons] at hblocks
      obtain ⟨bytes, hbytes, hblocks⟩ := Option.bind_eq_some_iff.mp hblocks
      obtain ⟨rest, hrest, hblocks⟩ := Option.bind_eq_some_iff.mp hblocks
      obtain rfl := Option.some.inj hblocks
      rw [List.map_cons, List.map_cons, hw bytes (done?_eq_some.mp hbytes), ih hws hrest]

/-- The decode at its chunks. -/
lemma Traced.settleChunks (h : f.Traced C) (hrun : f.run = .racing) {base : ℕ}
    (hchunks : ∀ getBlock, f.Served getBlock →
      checkpointChunks C f.root getBlock f.knownChunks =
        some ((f.fetches.drop base).map Fetch.cid)) :
    (f.settleChunks C base).Traced C := by
  have hdrop : ∀ {getBlock}, f.Served getBlock → ∀ w ∈ f.fetches.drop base, ∀ bytes,
      w.status = .done bytes → getBlock w.cid = bytes :=
    fun hserved w hw => hserved w (List.mem_of_mem_drop hw)
  rw [ChaseFlight.settleChunks]
  split_ifs with hbad
  · refine traced_decoded (h.seams (.inr hrun)) hrun fun getBlock hserved => ?_
    obtain ⟨bytes, hmem, hnone⟩ := hbad
    obtain ⟨status, hstatus, hdone⟩ := List.mem_filterMap.mp hmem
    obtain ⟨w, hw, rfl⟩ := List.mem_map.mp hstatus
    refine decodeCheckpoint_of_bad (hchunks getBlock hserved) (List.mem_map_of_mem hw) ?_
    rw [hdrop hserved w hw bytes (done?_eq_some.mp hdone)]
    exact hnone
  · split
    · exact h
    next blocks hblocks =>
      refine traced_decoded (h.seams (.inr hrun)) hrun fun getBlock hserved => ?_
      exact decodeCheckpoint_of_blocks (hchunks getBlock hserved)
        (map_getBlock_of_done (hdrop hserved) hblocks)

/-- A block that is asked for before the deadline. -/
lemma fetchBlock_spec (haborted : f.aborted = false) (cid : Cid) : ∃ w log,
    f.fetchBlock cid = { f with fetches := f.fetches ++ [w], log := log } ∧ w.cid = cid ∧
      w.status.done? = none := by
  rw [ChaseFlight.fetchBlock, if_neg (by simp [haborted])]
  split_ifs
  · exact ⟨_, _, rfl, rfl, rfl⟩
  · exact ⟨_, _, rfl, rfl, rfl⟩

/-- Blocks that are asked for before the deadline. -/
lemma fetchBlocks_spec (haborted : f.aborted = false) (cids : List Cid) : ∃ ws log,
    cids.foldl ChaseFlight.fetchBlock f = { f with fetches := f.fetches ++ ws, log := log } ∧
      ws.map Fetch.cid = cids ∧ ∀ w ∈ ws, w.status.done? = none := by
  induction cids generalizing f with
  | nil => exact ⟨[], f.log, by simp, rfl, fun w hw => by cases hw⟩
  | cons cid cids ih =>
      obtain ⟨w, log, hw, hcid, hpending⟩ := fetchBlock_spec haborted cid
      obtain ⟨ws, log', hws, hcids, hall⟩ := ih (f := f.fetchBlock cid) (by rw [hw]; exact haborted)
      refine ⟨w :: ws, log', ?_, by rw [List.map_cons, hcid, hcids], ?_⟩
      · rw [List.foldl_cons, hws, hw]
        simp
      · exact List.forall_mem_cons.mpr ⟨hpending, hall⟩

/-- New wants that are pending take nothing away from a source. -/
lemma served_append {getBlock : Cid → Option Bytes} {ws : List Fetch}
    (hws : ∀ w ∈ ws, w.status.done? = none) {decode : ChaseDecode} {log : List ChaseEvent} :
    ({ f with decode := decode, fetches := f.fetches ++ ws, log := log } :
      ChaseFlight).Served getBlock ↔
      f.Served getBlock := by
  constructor
  · exact fun h w hw => h w (List.mem_append_left _ hw)
  · intro h w hw bytes hstatus
    rcases List.mem_append.mp hw with hw | hw
    · exact h w hw bytes hstatus
    · have hnone := hws w hw
      rw [hstatus] at hnone
      cases hnone

/-- The decode asks for its chunks. -/
lemma traced_fetchChunks (hfresh : f.seams = [] ∧ f.expired = false) (hrun : f.run = .racing)
    (haborted : f.aborted = false) {cids : List Cid} (hcids : ∀ getBlock, f.Served getBlock →
      checkpointChunks C f.root getBlock f.knownChunks = some cids) :
    (f.fetchChunks C cids).Traced C := by
  have haborted' : ({ f with decode := .chunks f.fetches.length } : ChaseFlight).aborted = false :=
    haborted
  obtain ⟨ws, log, hg, hws, hpending⟩ := fetchBlocks_spec haborted' cids
  rw [ChaseFlight.fetchChunks, hg]
  have hchunks : ∀ getBlock, f.Served getBlock →
      checkpointChunks C f.root getBlock f.knownChunks =
        some (((f.fetches ++ ws).drop f.fetches.length).map Fetch.cid) := by
    intro getBlock hserved
    rw [List.drop_left, hws]
    exact hcids getBlock hserved
  have htraced : ({ f with
      decode := .chunks f.fetches.length, fetches := f.fetches ++ ws, log := log } :
      ChaseFlight).Traced C := by
    constructor
    · exact fun _ hd => by cases hd
    · exact fun _ hd => by cases hd
    · intro base _ hd getBlock hserved
      obtain rfl : f.fetches.length = base := by simpa using hd
      exact hchunks getBlock ((served_append hpending).mp hserved)
    · exact fun _ => hfresh
    · intro rest s hs
      rw [hrun] at hs
      cases hs
    · intro outcome ho
      rw [hrun] at ho
      cases ho
  exact htraced.settleChunks hrun fun getBlock hserved =>
    hchunks getBlock ((served_append hpending).mp hserved)

/-- The decode at its manifest. -/
lemma traced_manifestFetched (hfresh : f.seams = [] ∧ f.expired = false) (hrun : f.run = .racing)
    (haborted : f.aborted = false) {bytes : Option Bytes}
    (hindex : ∀ cids, ¬ IndexHolds C f.root f.knownChunks cids)
    (hserved : ∀ getBlock, f.Served getBlock → getBlock f.root = bytes) :
    (f.manifestFetched C bytes).Traced C := by
  have hchunks : ∀ getBlock, f.Served getBlock →
      checkpointChunks C f.root getBlock f.knownChunks = manifestChunks C bytes := by
    intro getBlock hs
    rw [checkpointChunks_of_not_indexed hindex, hserved getBlock hs]
  rw [ChaseFlight.manifestFetched]
  split
  next hnone =>
    exact traced_decoded hfresh hrun fun getBlock hs =>
      decodeCheckpoint_eq_none ((hchunks getBlock hs).trans hnone)
  next cids hcids =>
    exact traced_fetchChunks hfresh hrun haborted fun getBlock hs =>
      (hchunks getBlock hs).trans hcids

/-- The decode asks for its manifest. -/
lemma traced_fetchManifest (hfresh : f.seams = [] ∧ f.expired = false) (hrun : f.run = .racing)
    (haborted : f.aborted = false) (hfetches : f.fetches = [])
    (hindex : ∀ cids, ¬ IndexHolds C f.root f.knownChunks cids) :
    (f.fetchManifest C).Traced C := by
  have haborted' : ({ f with decode := .manifest } : ChaseFlight).aborted = false := haborted
  obtain ⟨w, log, hg, hcid, hpending⟩ := fetchBlock_spec haborted' f.root
  rw [ChaseFlight.fetchManifest, if_neg (by simp [haborted]), hg]
  constructor
  · exact fun _ hd => by cases hd
  · intro _ _
    refine ⟨⟨w.status, ?_, hpending⟩, hindex⟩
    show f.fetches ++ [w] = _
    rw [hfetches, ← hcid, List.nil_append]
  · exact fun _ _ hd => by cases hd
  · exact fun _ => hfresh
  · intro rest s hs
    rw [hrun] at hs
    cases hs
  · intro outcome ho
    rw [hrun] at ho
    cases ho

/-- The addresses of the wants stay. -/
lemma map_cid_set {ws : List Fetch} {k : ℕ} {w : Fetch} (hk : ws[k]? = some w)
    (status : FetchStatus) : (ws.set k ⟨w.cid, status⟩).map Fetch.cid = ws.map Fetch.cid := by
  have hklt : k < ws.length := (List.getElem?_eq_some_iff.mp hk).1
  rw [List.map_set]
  refine List.ext_getElem? fun i => ?_
  by_cases hi : i = k
  · subst hi
    rw [List.getElem?_set_self (by simpa using hklt), List.getElem?_map, hk]
    rfl
  · rw [List.getElem?_set_ne (Ne.symm hi)]

/-- While the manifest is awaited the one want is the root's. -/
lemma Traced.only_want (h : f.Traced C) (hrun : f.run = .racing) (hd : f.decode = .manifest)
    {k : ℕ} {w : Fetch} (hk : f.fetches[k]? = some w) :
    k = 0 ∧ w.cid = f.root ∧ f.fetches = [w] ∧
      ∀ cids, ¬ IndexHolds C f.root f.knownChunks cids := by
  obtain ⟨⟨status, hfetches, -⟩, hindex⟩ := h.manifest hrun hd
  rw [hfetches] at hk ⊢
  obtain ⟨hlt, rfl⟩ := List.getElem?_eq_some_iff.mp hk
  obtain rfl : k = 0 := Nat.lt_one_iff.mp hlt
  exact ⟨rfl, rfl, rfl, hindex⟩

/-- A want of the decode comes back while its run waits for it. -/
lemma Traced.fetched (h : f.Traced C) (hrun : f.run = .racing) (haborted : f.aborted = false)
    {k : ℕ} {w : Fetch} (hk : f.fetches[k]? = some w) (hpending : w.status.done? = none)
    (bytes : Option Bytes) : (f.fetched C k w.cid bytes).Traced C := by
  set g : ChaseFlight := { f with fetches := f.fetches.set k ⟨w.cid, .done bytes⟩ } with hg
  have hserved : ∀ getBlock, g.Served getBlock → f.Served getBlock := fun getBlock hs w' hw' b hb =>
    hs w' (mem_set_of_done hk hpending hw' (by simp [hb, FetchStatus.done?])) b hb
  have hklt : k < f.fetches.length := (List.getElem?_eq_some_iff.mp hk).1
  have hcids : g.fetches.map Fetch.cid = f.fetches.map Fetch.cid := map_cid_set hk _
  have hgtraced : g.decode ≠ .manifest → g.Traced C := by
    intro hdecode
    constructor
    · intro _ hd
      have hnil : f.fetches = [] := h.index hrun hd
      rw [hnil] at hklt
      exact absurd hklt (Nat.not_lt_zero k)
    · exact fun _ hd => absurd hd hdecode
    · intro base _ hd getBlock hs
      rw [List.map_drop, hcids, ← List.map_drop]
      exact h.chunks base hrun hd getBlock (hserved getBlock hs)
    · exact h.seams
    · intro rest s hs
      exact absurd (hrun.symm.trans hs) (by simp)
    · intro outcome ho
      exact absurd (hrun.symm.trans ho) (by simp)
  show (g.decodeOn C bytes).Traced C
  rw [ChaseFlight.decodeOn]
  split
  next hd =>
    obtain ⟨rfl, hcid, hfetches, hindex⟩ := h.only_want hrun hd hk
    refine traced_manifestFetched (f := g) (h.seams (.inr hrun)) hrun haborted hindex
      fun getBlock hs => ?_
    refine hs ⟨f.root, .done bytes⟩ ?_ bytes rfl
    show _ ∈ f.fetches.set 0 ⟨w.cid, .done bytes⟩
    rw [hfetches, hcid]
    exact List.mem_cons_self
  next base hd =>
    refine (hgtraced (by simp [hd])).settleChunks hrun fun getBlock hs => ?_
    rw [List.map_drop, hcids, ← List.map_drop]
    exact h.chunks base hrun hd getBlock (hserved getBlock hs)
  next hm _ => exact hgtraced hm

/-- A want that the session could not serve goes to everybody. -/
lemma Traced.asked_again (h : f.Traced C) (hrun : f.run = .racing) {k : ℕ} {w : Fetch}
    (hk : f.fetches[k]? = some w) (hpending : w.status.done? = none) {dead : Bool}
    {log : List ChaseEvent} :
    ({ f with sessionDead := dead, log := log, fetches := f.fetches.set k ⟨w.cid, .broadcast⟩ } :
      ChaseFlight).Traced C := by
  have hklt : k < f.fetches.length := (List.getElem?_eq_some_iff.mp hk).1
  constructor
  · intro _ hd
    have hnil : f.fetches = [] := h.index hrun hd
    rw [hnil] at hklt
    exact absurd hklt (Nat.not_lt_zero k)
  · intro _ hd
    obtain ⟨rfl, hcid, hfetches, hindex⟩ := h.only_want hrun hd hk
    refine ⟨⟨.broadcast, ?_, rfl⟩, hindex⟩
    show f.fetches.set 0 ⟨w.cid, .broadcast⟩ = _
    rw [hfetches, hcid]
    rfl
  · intro base _ hd getBlock hs
    show _ = some (((f.fetches.set k ⟨w.cid, .broadcast⟩).drop base).map Fetch.cid)
    rw [List.map_drop, map_cid_set hk, ← List.map_drop]
    exact h.chunks base hrun hd getBlock fun w' hw' b hb =>
      hs w' (mem_set_of_done hk hpending hw' (by simp [hb, FetchStatus.done?])) b hb
  · exact h.seams
  · intro rest s hs
    rw [hrun] at hs
    cases hs
  · intro outcome ho
    rw [hrun] at ho
    cases ho

lemma Traced.answered (h : f.Traced C) (hpaced : f.Paced) {k : ℕ} {bytes : Option Bytes}
    (hstep : f.answered C k bytes = some g) : g.Traced C := by
  by_cases hrun : f.run = .racing
  · have haborted := hpaced.racing hrun
    rw [ChaseFlight.answered] at hstep
    split at hstep
    next cid hk =>
      split at hstep
      · obtain rfl := Option.some.inj hstep
        exact h.fetched hrun haborted hk rfl _
      · obtain rfl := Option.some.inj hstep
        rw [ChaseFlight.sessionMissed, if_neg (by simp [haborted])]
        exact h.asked_again hrun hk rfl
    next cid hk =>
      obtain rfl := Option.some.inj hstep
      exact h.fetched hrun haborted hk rfl _
    next => cases hstep
  · exact h.of_decodes hrun (decodes_answered hstep)

lemma Traced.derived (h : f.Traced C) (hpaced : f.Paced) (hstep : f.derived C = some g) :
    g.Traced C := by
  by_cases hrun : f.run = .racing
  · have haborted := hpaced.racing hrun
    have hfresh := h.seams (.inr hrun)
    rw [ChaseFlight.derived] at hstep
    split at hstep
    next cids hd hknown =>
      split_ifs at hstep with hroot
      · obtain rfl := Option.some.inj hstep
        exact traced_fetchChunks hfresh hrun haborted fun _ _ =>
          checkpointChunks_of_index ⟨hknown, hroot⟩
      · obtain rfl := Option.some.inj hstep
        refine traced_fetchManifest hfresh hrun haborted (h.index hrun hd) fun cids' hindex => ?_
        obtain rfl := Option.some.inj (hknown.symm.trans hindex.1)
        exact hroot hindex.2
    next => cases hstep
  · exact h.of_decodes hrun (decodes_derived hstep)

lemma Traced.start (h : f.Traced C) (hordered : f.Ordered) {opening : Opening}
    (hstep : f.start C opening = some g) : g.Traced C := by
  rw [ChaseFlight.start] at hstep
  split at hstep
  next hrun =>
    obtain ⟨-, haborted, -, hfetches, -, -⟩ := hordered.queued hrun
    have hfresh := h.seams (.inl hrun)
    obtain ⟨q, session, log, hopen⟩ : ∃ q session log, f.openSession opening =
        { f with queued := q, session := session, log := log } := by
      rcases openSession_cases f opening with ⟨-, hopen⟩ | ⟨q, -, hopen⟩
      · exact ⟨_, _, _, hopen⟩
      · exact ⟨_, _, _, hopen⟩
    rw [hopen] at hstep
    dsimp only at hstep
    split at hstep
    next hknown =>
      obtain rfl := Option.some.inj hstep
      refine traced_fetchManifest hfresh rfl haborted hfetches fun cids hindex => ?_
      rw [hknown] at hindex
      cases hindex.1
    next hknown =>
      obtain rfl := Option.some.inj hstep
      constructor
      · exact fun _ _ => hfetches
      · exact fun _ hd => by cases hd
      · exact fun _ _ hd => by cases hd
      · exact fun _ => hfresh
      · exact fun _ _ hs => by cases hs
      · exact fun _ ho => by cases ho
  next => cases hstep

lemma Traced.walked (h : f.Traced C) {a : SeamAnswers} (hstep : f.walked C a = some g) :
    g.Traced C := by
  rw [ChaseFlight.walked] at hstep
  split at hstep
  next b rest s hrun =>
    obtain ⟨hexpired, hwalking⟩ := h.walking _ _ hrun
    set a' : SeamAnswers := { a with aborted := f.aborted }
    -- the loop ends here, by a throw or without one
    have hends : ∀ threw s', (∀ tail, (match chaseStep C a' s b with
          | .next s => chaseLoop C tail s rest
          | .stop s => (false, s)
          | .threw s => (true, s)) = (threw, s')) →
        ∀ getBlock, f.Served getBlock → ∃ answers,
          (if threw then ⟨s'.admitted, [], [], false⟩ else s'.outcome) =
            runChase C f.root getBlock f.knownChunks f.expired answers := by
      intro threw s' hbody getBlock hserved
      obtain ⟨winners, hdecode, hwalked⟩ := hwalking getBlock hserved
      refine ⟨followed (f.seams ++ [a']) fun _ => a', ?_⟩
      rw [hexpired]
      exact (runChase_of_loop hdecode ((hwalked.body a' _).trans (hbody _))).symm
    dsimp only at hstep
    split at hstep
    next s' hs' =>
      obtain rfl := Option.some.inj hstep
      refine traced_walkOn hexpired fun getBlock hserved => ?_
      obtain ⟨winners, hdecode, hwalked⟩ := hwalking getBlock hserved
      refine ⟨winners, hdecode, fun tail => ?_⟩
      rw [hwalked.body a' tail, hs']
    next s' hs' =>
      obtain rfl := Option.some.inj hstep
      exact traced_finish (hends false s' fun tail => by rw [hs'])
    next s' hs' =>
      obtain rfl := Option.some.inj hstep
      exact traced_finish (hends true s' fun tail => by rw [hs'])
  next => cases hstep

lemma Traced.expire (h : f.Traced C) (hstep : f.expire = some g) : g.Traced C := by
  rw [ChaseFlight.expire] at hstep
  split_ifs at hstep
  dsimp only at hstep
  split at hstep
  next hrun =>
    obtain rfl := Option.some.inj hstep
    exact traced_finish fun _ _ => ⟨fun _ => ⟨false, none, none, none, none, none⟩, rfl⟩
  next =>
    obtain rfl := Option.some.inj hstep
    exact ⟨h.1, h.2, h.3, h.4, h.5, h.6⟩
  next => cases hstep

lemma Traced.addProvider (h : f.Traced C) (peer : JsString) : (f.addProvider peer).Traced C := by
  rw [ChaseFlight.addProvider]
  dsimp only
  split_ifs <;> exact ⟨h.1, h.2, h.3, h.4, h.5, h.6⟩

lemma Traced.addProviders (h : f.Traced C) (providers : List JsString) :
    (f.addProviders providers).Traced C := by
  rw [ChaseFlight.addProviders]
  induction providers generalizing f with
  | nil => exact h
  | cons peer providers ih => exact ih (h.addProvider peer)

lemma Traced.step (h : f.Traced C) (hpaced : f.Paced) (hstep : ChaseStep C f g) :
    g.Traced C := by
  cases hstep with
  | hinted providers => exact h.addProviders providers
  | derived hstep => exact h.derived hpaced hstep
  | answered hstep => exact h.answered hpaced hstep
  | walked hstep => exact h.walked hstep
  | expired hstep => exact h.expire hstep

end ChaseFlight

end PubsubVoting
