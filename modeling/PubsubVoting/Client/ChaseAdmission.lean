import PubsubVoting.Client.Checks
import PubsubVoting.Transport.Chase

/-!
A chase inside its engine: the loop reads the verdict cache and the admission map, and writes both.

* `ChaseNode`, `ChaseMoment`: what a chase shares with the rest of the engine, and what happens
  around one winner.
* `ChaseMoment.answers`, `ChaseMoment.after`: the seams as the voter wires them, and their writes.
* `mem_admitted_chaseLoop`: the loop admits the winners whose iteration ends so, and no others.
* `chaseInNode_admits`: the admission is sound, and complete where nothing cuts the loop short.
* `quietChase_admits`: in a quiet engine the state at the start decides what gets in.
-/

namespace PubsubVoting

open Cbor

/-! ### The loop from its answers -/

/-- The address a winner goes by; a winner without an encoding has none and is never asked for. -/
def chasedCid (C : Codecs) (bundle : VotesBundle) : Cid := (bundleCid C bundle).getD []

/-- The state of the loop after a body. -/
def ChaseFlow.state : ChaseFlow → ChaseState
  | .next s => s
  | .stop s => s
  | .threw s => s

lemma chasedCid_eq {C : Codecs} {bundle : VotesBundle} {bytes : Bytes}
    (h : encodeBundle C bundle = some bytes) : chasedCid C bundle = bundleCidForBytes C bytes := by
  rw [chasedCid, bundleCid, h]
  rfl

lemma bundleCid_eq_some_iff {C : Codecs} {bundle : VotesBundle} {cid : Cid}
    (h : (encodeBundle C bundle).isSome) :
    bundleCid C bundle = some cid ↔ chasedCid C bundle = cid := by
  obtain ⟨bytes, hbytes⟩ := Option.isSome_iff_exists.mp h
  rw [chasedCid_eq hbytes, bundleCid, hbytes]
  exact Option.some_inj

/-- A tried admit succeeds exactly if the call returns. -/
lemma tried_eq_admits_iff {a : SeamAnswers} {verified v : Bool} :
    tried a verified = .admits v ↔ a.admitted.isSome ∧ v = verified := by
  rw [tried]
  split_ifs with h
  · simp [h, eq_comm]
  · simp [h]

/-- **What lets a winner in**: it is not admitted yet, and a valid verdict is cached, or nothing is
cached and it is evaluable and passes offline. -/
lemma iteration_eq_admits_iff {a : SeamAnswers} {v : Bool} :
    iteration a = .admits v ↔ a.aborted = false ∧ a.isAdmitted = some false ∧ a.admitted.isSome ∧
      ((v = true ∧ ∃ names, a.cached = some (.ok names)) ∨
        (v = false ∧ a.cached = none ∧ a.isEvaluableNow = some true ∧
          a.verifyOffline = some (.ok ()))) := by
  obtain ⟨aborted, isAdmitted, cached, isEvaluableNow, verifyOffline, admitted⟩ := a
  rcases aborted with _ | _
  · rcases isAdmitted with _ | _ | _
    · simp [iteration]
    · rcases cached with _ | fail | names
      · rcases isEvaluableNow with _ | _ | _
        · simp [iteration]
        · simp [iteration]
        · rcases verifyOffline with _ | fail | _
          · simp [iteration]
          · simp [iteration]
          · simp [iteration, tried_eq_admits_iff]
      · simp [iteration]
      · simp [iteration, tried_eq_admits_iff]
    · simp [iteration]
  · simp [iteration]

/-- A winner that may get in and does not throw is one whose `admit` returns. -/
lemma admitted_of_iteration_ne_throws {a : SeamAnswers} (haborted : a.aborted = false)
    (hadmitted : a.isAdmitted = some false)
    (hin : (∃ names, a.cached = some (.ok names)) ∨
      (a.cached = none ∧ a.isEvaluableNow = some true ∧ a.verifyOffline = some (.ok ())))
    (h : iteration a ≠ .throws) : a.admitted.isSome := by
  by_contra hnone
  apply h
  obtain ⟨aborted, isAdmitted, cached, isEvaluableNow, verifyOffline, admitted⟩ := a
  simp only at haborted hadmitted hin
  subst haborted hadmitted
  rcases hin with ⟨names, rfl⟩ | ⟨rfl, rfl, rfl⟩
  · exact if_neg hnone
  · exact if_neg hnone

/-- A winner throws only if some call does. -/
lemma iteration_ne_throws {a : SeamAnswers} (hadmitted : a.isAdmitted.isSome)
    (hevaluable : a.isEvaluableNow.isSome) (hoffline : a.verifyOffline.isSome)
    (hadmits : a.admitted.isSome) : iteration a ≠ .throws := by
  obtain ⟨aborted, isAdmitted, cached, isEvaluableNow, verifyOffline, admitted⟩ := a
  rcases aborted with _ | _
  · rcases isAdmitted with _ | _ | _
    · cases hadmitted
    · rcases cached with _ | fail | names
      · rcases isEvaluableNow with _ | _ | _
        · cases hevaluable
        · simp [iteration]
        · rcases verifyOffline with _ | fail | _
          · cases hoffline
          · simp [iteration]
          · simp [iteration, tried, hadmits]
      · simp [iteration]
      · simp [iteration, tried, hadmits]
    · simp [iteration]
  · simp [iteration]

/-- The loop body notes the address of a winner it gets to, and raises `merged` as it admits. -/
lemma chaseStep_notes {C : Codecs} {bundle : VotesBundle} {bytes : Bytes}
    (h : encodeBundle C bundle = some bytes) (a : SeamAnswers) (s : ChaseState) :
    (a.aborted = false → (chaseStep C a s bundle).state.contained
        = s.contained ++ [bundleCidForBytes C bytes]) ∧
      ((s.merged = true ↔ s.admitted ≠ []) → ((chaseStep C a s bundle).state.merged = true ↔
        (chaseStep C a s bundle).state.admitted ≠ [])) := by
  obtain ⟨aborted, isAdmitted, cached, isEvaluableNow, verifyOffline, admitted⟩ := a
  cases aborted with
  | true => exact ⟨fun habs => Bool.noConfusion habs, fun hm => hm⟩
  | false =>
      simp only [chaseStep, h, Bool.false_eq_true, if_false]
      rcases isAdmitted with _ | _ | _
      · exact ⟨fun _ => rfl, fun hm => hm⟩
      · rcases cached with _ | fail | names
        · rcases isEvaluableNow with _ | _ | _
          · exact ⟨fun _ => rfl, fun hm => hm⟩
          · exact ⟨fun _ => rfl, fun hm => hm⟩
          · rcases verifyOffline with _ | fail | _
            · exact ⟨fun _ => rfl, fun hm => hm⟩
            · constructor
              · intro _
                simp only [ChaseFlow.state]
                split_ifs <;> rfl
              · intro hm
                simp only [ChaseFlow.state]
                split_ifs
                · exact hm
                · exact hm
            · rcases admitted with _ | _
              · exact ⟨fun _ => rfl, fun hm => hm⟩
              · exact ⟨fun _ => rfl, fun _ => by simp [admitWinner, ChaseFlow.state]⟩
        · exact ⟨fun _ => rfl, fun hm => hm⟩
        · rcases admitted with _ | _
          · exact ⟨fun _ => rfl, fun hm => hm⟩
          · exact ⟨fun _ => rfl, fun _ => by simp [admitWinner, ChaseFlow.state]⟩
      · exact ⟨fun _ => rfl, fun hm => hm⟩

/-- **The loop admits the winners it gets to whose iteration ends so**, and no others. -/
theorem mem_admitted_chaseLoop {C : Codecs} (answers : ℕ → SeamAnswers)
    {winners : List VotesBundle} (henc : ∀ b ∈ winners, (encodeBundle C b).isSome) (s : ChaseState)
    (e : Entry) (v : Bool) :
    (e, v) ∈ (chaseLoop C answers s winners).2.admitted ↔ (e, v) ∈ s.admitted ∨
      ∃ k, ReachesWinner answers k ∧ iteration (answers k) = .admits v ∧
        winners[k]? = some e.bundle ∧ chasedCid C e.bundle = e.cid := by
  induction winners generalizing answers s with
  | nil => simp [chaseLoop]
  | cons bundle winners ih =>
      obtain ⟨bytes, hbytes⟩ := Option.isSome_iff_exists.mp (henc bundle List.mem_cons_self)
      have hrest : ∀ b ∈ winners, (encodeBundle C b).isSome :=
        fun b hb => henc b (List.mem_cons_of_mem _ hb)
      have hstep := chaseStep_eq hbytes (answers 0) s
      have hcid := chasedCid_eq hbytes
      -- the winner at the head, and the winners behind it
      have hsplit : (∃ k, ReachesWinner answers k ∧ iteration (answers k) = .admits v ∧
            (bundle :: winners)[k]? = some e.bundle ∧ chasedCid C e.bundle = e.cid) ↔
          (iteration (answers 0) = .admits v ∧ e = ⟨bundleCidForBytes C bytes, bundle⟩) ∨
          ((iteration (answers 0) ≠ .stops ∧ iteration (answers 0) ≠ .throws) ∧
            ∃ k, ReachesWinner (fun k => answers (k + 1)) k ∧
              iteration (answers (k + 1)) = .admits v ∧
              winners[k]? = some e.bundle ∧ chasedCid C e.bundle = e.cid) := by
        constructor
        · rintro ⟨k, hr, hi, hget, hc⟩
          cases k with
          | zero =>
              have hb : bundle = e.bundle := by simpa using hget
              subst hb
              exact .inl ⟨hi, by rw [← hcid, hc]⟩
          | succ k =>
              obtain ⟨h0, hr⟩ := reaches_succ.mp hr
              exact .inr ⟨h0, k, hr, hi, by simpa using hget, hc⟩
        · rintro (⟨hi, rfl⟩ | ⟨h0, k, hr, hi, hget, hc⟩)
          · exact ⟨0, reaches_zero, hi, rfl, hcid⟩
          · exact ⟨k + 1, reaches_succ.mpr ⟨h0, hr⟩, hi, by simpa using hget, hc⟩
      rw [hsplit]
      cases hi : iteration (answers 0) with
      | stops =>
          rw [hi] at hstep
          obtain ⟨s', hflow, -, ha⟩ := hstep
          simp [chaseLoop, hflow, ha]
      | throws =>
          rw [hi] at hstep
          obtain ⟨s', hflow, -, ha⟩ := hstep
          simp [chaseLoop, hflow, ha]
      | skips =>
          rw [hi] at hstep
          obtain ⟨s', hflow, -, ha⟩ := hstep
          simp [chaseLoop, hflow, ih (fun k => answers (k + 1)) hrest, ha]
      | admits verified =>
          rw [hi] at hstep
          have hadmits : ∃ s', chaseStep C (answers 0) s bundle = .next s' ∧ s'.admitted
              = s.admitted ++ [(⟨bundleCidForBytes C bytes, bundle⟩, verified)] := by
            cases verified with
            | true => exact hstep.imp fun s' h => ⟨h.1, h.2.2⟩
            | false => exact hstep.imp fun s' h => ⟨h.1, h.2.2⟩
          obtain ⟨s', hflow, ha⟩ := hadmits
          simp only [chaseLoop, hflow, ih (fun k => answers (k + 1)) hrest, ha, List.mem_append,
            List.mem_singleton, Prod.mk.injEq, Iteration.admits.injEq, or_assoc, ne_eq,
            reduceCtorEq, not_false_eq_true, and_self, true_and, and_comm, eq_comm]

/-- The loop gets to every winner: the deadline does not fire and no call throws. -/
def RunsThrough (n : ℕ) (answers : ℕ → SeamAnswers) : Prop :=
  ∀ k < n, iteration (answers k) ≠ .stops ∧ iteration (answers k) ≠ .throws

lemma RunsThrough.reaches {n k : ℕ} {answers : ℕ → SeamAnswers} (h : RunsThrough n answers)
    (hk : k < n) : ReachesWinner answers k := fun j hj => h j (hj.trans hk)

lemma iteration_eq_stops_iff {a : SeamAnswers} : iteration a = .stops ↔ a.aborted = true := by
  obtain ⟨aborted, isAdmitted, cached, isEvaluableNow, verifyOffline, admitted⟩ := a
  cases aborted with
  | true => simp [iteration]
  | false =>
      have htried : ∀ (a : SeamAnswers) v, tried a v ≠ .stops := by
        intro a v
        rw [tried]
        split_ifs <;> simp
      rw [iteration]
      split <;> simp_all

/-- **A loop that is not cut short** ends by itself, notes every address and knows whether it
admitted. -/
theorem chaseLoop_of_runsThrough {C : Codecs} {winners : List VotesBundle}
    (henc : ∀ b ∈ winners, (encodeBundle C b).isSome) {answers : ℕ → SeamAnswers}
    (hrun : RunsThrough winners.length answers) {s : ChaseState}
    (hmerged : s.merged = true ↔ s.admitted ≠ []) :
    (chaseLoop C answers s winners).1 = false ∧
      (chaseLoop C answers s winners).2.contained = s.contained ++ winners.map (chasedCid C) ∧
      ((chaseLoop C answers s winners).2.merged = true ↔
        (chaseLoop C answers s winners).2.admitted ≠ []) := by
  induction winners generalizing answers s with
  | nil => exact ⟨rfl, (List.append_nil _).symm, hmerged⟩
  | cons bundle winners ih =>
      obtain ⟨bytes, hbytes⟩ := Option.isSome_iff_exists.mp (henc bundle List.mem_cons_self)
      obtain ⟨hstops, hthrows⟩ := hrun 0 (Nat.succ_pos _)
      have hstep := chaseStep_eq hbytes (answers 0) s
      obtain ⟨hcontained, hkeeps⟩ := chaseStep_notes hbytes (answers 0) s
      have hnext : ∃ s', chaseStep C (answers 0) s bundle = .next s' := by
        cases hi : iteration (answers 0) with
        | stops => exact absurd hi hstops
        | throws => exact absurd hi hthrows
        | skips =>
            rw [hi] at hstep
            exact hstep.imp fun s' h => h.1
        | admits verified =>
            rw [hi] at hstep
            cases verified with
            | true => exact hstep.imp fun s' h => h.1
            | false => exact hstep.imp fun s' h => h.1
      obtain ⟨s', hflow⟩ := hnext
      have haborted : (answers 0).aborted = false := by
        rw [← Bool.not_eq_true, ← iteration_eq_stops_iff]
        exact hstops
      rw [hflow] at hcontained hkeeps
      have hrest := ih (fun b hb => henc b (List.mem_cons_of_mem _ hb))
        (fun k hk => hrun (k + 1) (Nat.succ_lt_succ hk)) (hkeeps hmerged)
      simp only [chaseLoop, hflow]
      refine ⟨hrest.1, ?_, hrest.2.2⟩
      calc (chaseLoop C (fun k => answers (k + 1)) s' winners).2.contained
          = s'.contained ++ winners.map (chasedCid C) := hrest.2.1
        _ = (s.contained ++ [bundleCidForBytes C bytes]) ++ winners.map (chasedCid C) := by
            rw [show s'.contained = _ from hcontained haborted]
        _ = s.contained ++ (bundle :: winners).map (chasedCid C) := by
            rw [List.append_assoc, List.map_cons, chasedCid_eq hbytes]
            rfl

/-! ### The engine around the loop -/

/-- What a chase shares with the rest of the engine. -/
structure ChaseNode where
  cache : VerdictCache
  checks : Checks

/-- What happens around one winner: the deadline, the calls that may throw (`none`), and what the
rest of the engine does to the shared state while the loop awaits. -/
structure ChaseMoment where
  aborted : Bool
  isEvaluableNow : VotesBundle → Option Bool
  verifyOffline : VotesBundle → Option VerifyResult
  /-- `put` and `merge` of an admit -/
  admitted : Option Unit
  /-- before `isAdmitted` -/
  arriving : ChaseNode → ChaseNode
  /-- between `isAdmitted` and the look into the cache -/
  asking : ChaseNode → ChaseNode
  /-- between that look and what the body writes -/
  verifying : ChaseNode → ChaseNode

/-- What one body wrote: the admits are recorded, the rejects cached. -/
def ChaseNode.write (maxEntries : ℕ) (n : ChaseNode) (s : ChaseState) : ChaseNode where
  cache := s.rejected.foldl (fun cache r => cache.set maxEntries r.1 (.error r.2)) n.cache
  checks := s.admitted.foldl (fun checks a => recordChecks checks a.1 a.2 a.2) n.checks

namespace ChaseMoment

variable (m : ChaseMoment) (n : ChaseNode)

/-- The engine as `isAdmitted` is asked. -/
def asked : ChaseNode := m.arriving n

/-- The engine as the cache is looked into. -/
def looked : ChaseNode := m.asking (m.asked n)

/-- What the seams answer, as the voter wires them. -/
def answers (cid : Cid) (bundle : VotesBundle) : SeamAnswers where
  aborted := m.aborted
  isAdmitted := some ((m.asked n).checks.has cid)
  cached := (m.looked n).cache.get? cid
  isEvaluableNow := m.isEvaluableNow bundle
  verifyOffline := m.verifyOffline bundle
  admitted := m.admitted

/-- The engine behind the body. -/
def after (C : Codecs) (maxEntries : ℕ) (bundle : VotesBundle) : ChaseNode :=
  (m.verifying (m.looked n)).write maxEntries
    (chaseStep C (m.answers n (chasedCid C bundle) bundle) ⟨[], [], false, [], []⟩ bundle).state

end ChaseMoment

section

variable (C : Codecs) (maxEntries : ℕ)

/-- The engine as the loop gets to winner `k`. -/
def nodeAt (moments : ℕ → ChaseMoment) (n : ChaseNode) : List VotesBundle → ℕ → ChaseNode
  | [], _ => n
  | _ :: _, 0 => n
  | bundle :: winners, k + 1 =>
    nodeAt (fun k => moments (k + 1)) ((moments 0).after n C maxEntries bundle) winners k

@[simp] lemma nodeAt_zero (moments : ℕ → ChaseMoment) (n : ChaseNode)
    (winners : List VotesBundle) : nodeAt C maxEntries moments n winners 0 = n := by
  cases winners with
  | nil => rfl
  | cons => rfl

/-- What the seams answer at winner `k`. -/
def nodeAnswers (moments : ℕ → ChaseMoment) (n : ChaseNode) (winners : List VotesBundle) (k : ℕ) :
    SeamAnswers :=
  let bundle := winners.getD k ⟨[], [], 0, ⟨[], []⟩⟩
  (moments k).answers (nodeAt C maxEntries moments n winners k) (chasedCid C bundle) bundle

/-- A chase whose seams are the engine's. -/
def chaseInNode (root : Cid) (getBlock : Cid → Option Bytes) (knownChunks : Option (List Cid))
    (deadlineFirst : Bool) (moments : ℕ → ChaseMoment) (n : ChaseNode) : ChaseOutcome :=
  runChase C root getBlock knownChunks deadlineFirst
    (nodeAnswers C maxEntries moments n
      ((decodeCheckpoint C root getBlock knownChunks).getD []))

end

/-- What lets a bundle in, by the flag it is admitted with: a cached valid verdict, or no cached
verdict, evaluable now, and the offline checks passed. -/
def Admissible (m : ChaseMoment) (n : ChaseNode) (e : Entry) : Bool → Prop
  | true => ∃ names, (m.looked n).cache.get? e.cid = some (.ok names)
  | false => (m.looked n).cache.get? e.cid = none ∧ m.isEvaluableNow e.bundle = some true ∧
      m.verifyOffline e.bundle = some (.ok ())

/-- The seams at winner `k` are asked about that winner. -/
lemma nodeAnswers_eq {C : Codecs} {maxEntries k : ℕ} {moments : ℕ → ChaseMoment} {n : ChaseNode}
    {winners : List VotesBundle} {e : Entry} (hget : winners[k]? = some e.bundle)
    (hcid : chasedCid C e.bundle = e.cid) : nodeAnswers C maxEntries moments n winners k
      = (moments k).answers (nodeAt C maxEntries moments n winners k) e.cid e.bundle := by
  rw [nodeAnswers, List.getD_eq_getElem?_getD, hget, Option.getD_some, hcid]

/-- How one winner gets in, in terms of the engine at that winner. -/
lemma iteration_nodeAnswers_eq_admits_iff {C : Codecs} {maxEntries k : ℕ}
    {moments : ℕ → ChaseMoment} {n : ChaseNode} {winners : List VotesBundle} {e : Entry} {v : Bool}
    (hget : winners[k]? = some e.bundle) (hcid : chasedCid C e.bundle = e.cid) :
    iteration (nodeAnswers C maxEntries moments n winners k) = .admits v ↔
      (moments k).aborted = false ∧
      ((moments k).asked (nodeAt C maxEntries moments n winners k)).checks.has e.cid = false ∧
      (moments k).admitted.isSome ∧
      Admissible (moments k) (nodeAt C maxEntries moments n winners k) e v := by
  rw [iteration_eq_admits_iff, nodeAnswers_eq hget hcid]
  simp only [ChaseMoment.answers, Option.some.injEq]
  cases v with
  | true => simp [Admissible]
  | false => simp [Admissible]

/-! ### Soundness and completeness -/

/-- What a chase of a checkpoint that decodes admits is what its loop admits. -/
lemma admitted_chaseInNode {C : Codecs} {root : Cid} {getBlock : Cid → Option Bytes}
    {knownChunks : Option (List Cid)} {winners : List VotesBundle} (maxEntries : ℕ)
    (moments : ℕ → ChaseMoment) (n : ChaseNode)
    (hd : decodeCheckpoint C root getBlock knownChunks = some winners) :
    (chaseInNode C maxEntries root getBlock knownChunks false moments n).admitted
      = (chaseLoop C (nodeAnswers C maxEntries moments n winners) ⟨[], [], false, [], []⟩
          winners).2.admitted := by
  simp only [chaseInNode, runChase, hd, Option.getD_some, Bool.false_eq_true, if_false]
  rcases chaseLoop C (nodeAnswers C maxEntries moments n winners) ⟨[], [], false, [], []⟩
    winners with ⟨_ | _, s⟩
  · rfl
  · rfl

lemma runsThrough_of_not_throws {n : ℕ} {answers : ℕ → SeamAnswers}
    (hdeadline : ∀ k < n, (answers k).aborted = false) (hthrows : ¬ Throws n answers) :
    RunsThrough n answers := by
  have hstops : ∀ k < n, iteration (answers k) ≠ .stops := by
    intro k hk hstop
    rw [iteration_eq_stops_iff, hdeadline k hk] at hstop
    cases hstop
  intro k
  -- what comes before winner `k` did not throw either
  induction k using Nat.strong_induction_on with
  | _ k ih =>
      intro hk
      refine ⟨hstops k hk, fun hthrow => hthrows ⟨k, hk, fun j hj => ?_, hthrow⟩⟩
      exact ih j hj (hj.trans hk)

section

variable (C : Codecs) (root : Cid) (getBlock : Cid → Option Bytes) (knownChunks : Option (List Cid))
  (deadlineFirst : Bool) (maxEntries : ℕ) (moments : ℕ → ChaseMoment) (n : ChaseNode)

/-- **Chase admission is sound, and complete unless it is cut short.** Whatever the root, the block
source, the verdict cache and the admission map, and whatever the engine does meanwhile: a bundle
gets in at its place in the checkpoint only, not admitted yet as the loop asks, and either under a
cached valid verdict (as verified) or without a cached verdict, evaluable now and past the offline
checks (as not verified). If the deadline does not fire and no call throws, every such bundle gets
in, every address of the checkpoint is reported, and the merge is announced exactly if something got
in. -/
theorem chaseInNode_admits :
    (∀ e v, (e, v) ∈ (chaseInNode C maxEntries root getBlock knownChunks deadlineFirst moments
        n).admitted →
      ∃ winners k, decodeCheckpoint C root getBlock knownChunks = some winners ∧
        winners[k]? = some e.bundle ∧ bundleCid C e.bundle = some e.cid ∧
        ((moments k).asked (nodeAt C maxEntries moments n winners k)).checks.has e.cid = false ∧
        Admissible (moments k) (nodeAt C maxEntries moments n winners k) e v) ∧
    ∀ winners, decodeCheckpoint C root getBlock knownChunks = some winners →
      deadlineFirst = false → (∀ k < winners.length, (moments k).aborted = false) →
      ¬ Throws winners.length (nodeAnswers C maxEntries moments n winners) →
      (∀ k e v, winners[k]? = some e.bundle → bundleCid C e.bundle = some e.cid →
        ((moments k).asked (nodeAt C maxEntries moments n winners k)).checks.has e.cid = false →
        Admissible (moments k) (nodeAt C maxEntries moments n winners k) e v →
        (e, v) ∈ (chaseInNode C maxEntries root getBlock knownChunks deadlineFirst moments
          n).admitted) ∧
      (chaseInNode C maxEntries root getBlock knownChunks deadlineFirst moments
        n).contents.map some = winners.map (bundleCid C) ∧
      ((chaseInNode C maxEntries root getBlock knownChunks deadlineFirst moments n).merged = true ↔
        (chaseInNode C maxEntries root getBlock knownChunks deadlineFirst moments
          n).admitted ≠ []) := by
  constructor
  · intro e v hmem
    cases deadlineFirst with
    | true => simp [chaseInNode, runChase] at hmem
    | false =>
        cases hd : decodeCheckpoint C root getBlock knownChunks with
        | none => simp [chaseInNode, runChase, hd] at hmem
        | some winners =>
            have henc := encodeBundle_isSome_of_decodeCheckpoint hd
            rw [admitted_chaseInNode maxEntries moments n hd, mem_admitted_chaseLoop _ henc] at hmem
            rcases hmem with hnil | ⟨k, -, hi, hget, hcid⟩
            · exact absurd hnil List.not_mem_nil
            · have hb := henc _ (List.mem_of_getElem? hget)
              obtain ⟨-, hhas, -, hadmissible⟩ :=
                (iteration_nodeAnswers_eq_admits_iff hget hcid).mp hi
              exact ⟨winners, k, rfl, hget, (bundleCid_eq_some_iff hb).mpr hcid, hhas, hadmissible⟩
  · intro winners hd hfirst hdeadline hthrows
    have henc := encodeBundle_isSome_of_decodeCheckpoint hd
    have hrun : RunsThrough winners.length (nodeAnswers C maxEntries moments n winners) :=
      runsThrough_of_not_throws hdeadline hthrows
    obtain ⟨hthrew, hcontained, hmerged⟩ := chaseLoop_of_runsThrough henc hrun
      (s := ⟨[], [], false, [], []⟩) (by simp)
    -- the loop ended by itself, so everything behind it happened
    have hout : chaseInNode C maxEntries root getBlock knownChunks deadlineFirst moments n
        = ⟨(chaseLoop C (nodeAnswers C maxEntries moments n winners) ⟨[], [], false, [], []⟩
              winners).2.admitted,
            (chaseLoop C (nodeAnswers C maxEntries moments n winners) ⟨[], [], false, [], []⟩
              winners).2.pending,
            (chaseLoop C (nodeAnswers C maxEntries moments n winners) ⟨[], [], false, [], []⟩
              winners).2.contained,
            (chaseLoop C (nodeAnswers C maxEntries moments n winners) ⟨[], [], false, [], []⟩
              winners).2.merged⟩ := by
      rw [chaseInNode, runChase, hfirst, hd]
      simp only [Bool.false_eq_true, if_false, Option.getD_some]
      rcases hl : chaseLoop C (nodeAnswers C maxEntries moments n winners)
        ⟨[], [], false, [], []⟩ winners with ⟨threw, s⟩
      rw [hl] at hthrew
      subst hthrew
      rfl
    rw [hout]
    refine ⟨fun k e v hget hcid hhas hadmissible => ?_, ?_, hmerged⟩
    · have hk : k < winners.length := (List.getElem?_eq_some_iff.mp hget).1
      have hc := (bundleCid_eq_some_iff (henc _ (List.mem_of_getElem? hget))).mp hcid
      have hreturns : (moments k).admitted.isSome := by
        have hthrow := (hrun k hk).2
        rw [nodeAnswers_eq hget hc] at hthrow
        refine admitted_of_iteration_ne_throws (hdeadline k hk) (congrArg some hhas) ?_ hthrow
        cases v with
        | true => exact .inl hadmissible
        | false => exact .inr hadmissible
      exact (mem_admitted_chaseLoop _ henc _ e v).mpr (.inr ⟨k, hrun.reaches hk,
        (iteration_nodeAnswers_eq_admits_iff hget hc).mpr ⟨hdeadline k hk, hhas, hreturns,
          hadmissible⟩, hget, hc⟩)
    · rw [hcontained, List.nil_append, List.map_map]
      refine List.map_congr_left fun b hb => ?_
      exact ((bundleCid_eq_some_iff (henc b hb)).mpr rfl).symm

end

/-- An engine that admitted nothing, with a valid verdict cached for one withdrawal. -/
def withdrawalCached : ChaseNode :=
  ⟨VerdictCache.empty.set 4096 (chasedCid .reference withdrawal) (.ok ∅), ∅⟩

/-- Every bundle is evaluable and passes offline, and nothing else happens. -/
def allPass : ChaseMoment :=
  ⟨false, fun _ => some true, fun _ => some (.ok ()), some (), id, id, id⟩

/-- Of two withdrawals, the one with the cached verdict gets in as verified. -/
theorem chaseInNode_admits_withdrawals :
    (⟨chasedCid .reference withdrawal, withdrawal⟩, true) ∈
      (chaseInNode .reference 4096 (blockCid .reference twoWithdrawalsRoot) twoWithdrawalsBlock none
        false (fun _ => allPass) withdrawalCached).admitted := by
  obtain ⟨winners, hd⟩ : ∃ winners, decodeCheckpoint .reference
      (blockCid .reference twoWithdrawalsRoot) twoWithdrawalsBlock none = some winners :=
    Option.isSome_iff_exists.mp (by decide +kernel)
  have hhead : ((decodeCheckpoint .reference (blockCid .reference twoWithdrawalsRoot)
      twoWithdrawalsBlock none).getD [])[0]? = some withdrawal := by decide +kernel
  have hcid : bundleCid .reference withdrawal = some (chasedCid .reference withdrawal) := by
    decide +kernel
  have hcached : withdrawalCached.cache.get? (chasedCid .reference withdrawal) = some (.ok ∅) := by
    have hempty : (∅ : JsMap Cid BundleVerdict).has (chasedCid .reference withdrawal) = false := rfl
    simp [withdrawalCached, VerdictCache.set, VerdictCache.trim, VerdictCache.empty,
      VerdictCache.get?, hempty]
  have hhas : ∀ cid, withdrawalCached.checks.has cid = false := fun _ => rfl
  rw [hd, Option.getD_some] at hhead
  have hthrows : ¬ Throws winners.length
      (nodeAnswers .reference 4096 (fun _ => allPass) withdrawalCached winners) := by
    rintro ⟨k, -, -, h⟩
    exact iteration_ne_throws rfl rfl rfl rfl h
  refine ((chaseInNode_admits .reference (blockCid .reference twoWithdrawalsRoot)
    twoWithdrawalsBlock none false 4096 (fun _ => allPass) withdrawalCached).2 winners hd rfl
      (fun _ _ => rfl) hthrows).1 0 ⟨chasedCid .reference withdrawal, withdrawal⟩ true hhead hcid
      ?_ ?_
  · rw [nodeAt_zero]
    exact hhas _
  · rw [nodeAt_zero]
    exact ⟨∅, hcached⟩

/-! ### A quiet engine -/

/-- Nothing happens around a winner, and no call throws. -/
def quietMoment (isEvaluableNow : VotesBundle → Bool) (verifyOffline : VotesBundle → VerifyResult) :
    ChaseMoment :=
  ⟨false, fun b => some (isEvaluableNow b), fun b => some (verifyOffline b), some (), id, id, id⟩

section

/-- What the body at every earlier winner preserves holds at winner `k`. -/
lemma nodeAt_invariant (C : Codecs) (maxEntries : ℕ) {moments : ℕ → ChaseMoment} {n : ChaseNode}
    {P : ChaseNode → Prop} {winners : List VotesBundle} {k : ℕ}
    (hstep : ∀ j < k, ∀ b, winners[j]? = some b → ∀ n, P n →
      P ((moments j).after n C maxEntries b))
    (h : P n) : P (nodeAt C maxEntries moments n winners k) := by
  induction winners generalizing n moments k with
  | nil => exact h
  | cons bundle winners ih =>
      cases k with
      | zero => exact h
      | succ k =>
          refine ih (fun j hj b hget n hn => ?_) (hstep 0 (Nat.succ_pos k) bundle rfl n h)
          exact hstep (j + 1) (Nat.succ_lt_succ hj) b (by simpa using hget) n hn

/-- A body writes at most one admit or one reject, under the address of its winner. -/
lemma chaseStep_writes (C : Codecs) (a : SeamAnswers) (bundle : VotesBundle) :
    ∃ s, (chaseStep C a ⟨[], [], false, [], []⟩ bundle).state = s ∧
      ((s.admitted = [] ∧ s.rejected = []) ∨
        (∃ v, s.admitted = [(⟨chasedCid C bundle, bundle⟩, v)] ∧ s.rejected = []) ∨
        (∃ fail, s.admitted = [] ∧ s.rejected = [(chasedCid C bundle, fail)])) := by
  refine ⟨_, rfl, ?_⟩
  obtain ⟨aborted, isAdmitted, cached, isEvaluableNow, verifyOffline, admitted⟩ := a
  cases aborted with
  | true => exact .inl ⟨rfl, rfl⟩
  | false =>
      cases hbytes : encodeBundle C bundle with
      | none => simp [chaseStep, hbytes, ChaseFlow.state]
      | some bytes =>
          rw [chasedCid_eq hbytes]
          simp only [chaseStep, hbytes, Bool.false_eq_true, if_false]
          rcases isAdmitted with _ | _ | _
          · exact .inl ⟨rfl, rfl⟩
          · rcases cached with _ | fail | names
            · rcases isEvaluableNow with _ | _ | _
              · exact .inl ⟨rfl, rfl⟩
              · exact .inl ⟨rfl, rfl⟩
              · rcases verifyOffline with _ | fail | _
                · exact .inl ⟨rfl, rfl⟩
                · by_cases hreject : fail.disposition = .reject
                  · exact .inr (.inr ⟨fail, by simp [ChaseFlow.state, hreject]⟩)
                  · exact .inl (by simp [ChaseFlow.state, hreject])
                · rcases admitted with _ | _
                  · exact .inl ⟨rfl, rfl⟩
                  · exact .inr (.inl ⟨false, rfl, rfl⟩)
            · exact .inl ⟨rfl, rfl⟩
            · rcases admitted with _ | _
              · exact .inl ⟨rfl, rfl⟩
              · exact .inr (.inl ⟨true, rfl, rfl⟩)
          · exact .inl ⟨rfl, rfl⟩

/-- The bodies of a quiet chase only add rejects to the cache, and addresses to the map. -/
lemma quietMoment_after (C : Codecs) (maxEntries : ℕ) {isEvaluableNow : VotesBundle → Bool}
    {verifyOffline : VotesBundle → VerifyResult} (n : ChaseNode) (bundle : VotesBundle)
    (cid : Cid) :
    (∀ verdict, ((quietMoment isEvaluableNow verifyOffline).after n C maxEntries
        bundle).cache.get? cid = some verdict →
      n.cache.get? cid = some verdict ∨ cid = chasedCid C bundle ∧ ∃ fail, verdict = .error fail) ∧
    (n.checks.has cid = true → ((quietMoment isEvaluableNow verifyOffline).after n C maxEntries
        bundle).checks.has cid = true) ∧
    (cid ≠ chasedCid C bundle → ((quietMoment isEvaluableNow verifyOffline).after n C maxEntries
        bundle).checks.has cid = n.checks.has cid) := by
  obtain ⟨s, hs, hwrites⟩ := chaseStep_writes C
    ((quietMoment isEvaluableNow verifyOffline).answers n (chasedCid C bundle) bundle) bundle
  rw [ChaseMoment.after, hs]
  rcases hwrites with ⟨ha, hr⟩ | ⟨v, ha, hr⟩ | ⟨fail, ha, hr⟩
  · simp only [ChaseNode.write, ha, hr, List.foldl_nil]
    exact ⟨fun verdict h => .inl h, fun h => h, fun _ => rfl⟩
  · simp only [ChaseNode.write, ha, hr, List.foldl_nil, List.foldl_cons]
    refine ⟨fun verdict h => .inl h, fun h => ?_, fun hne => ?_⟩
    · rw [recordChecks, JsMap.has_iff, JsMap.mem_keys_set]
      exact .inr (JsMap.has_iff.mp h)
    · rw [recordChecks, Bool.eq_iff_iff, JsMap.has_iff, JsMap.has_iff, JsMap.mem_keys_set]
      exact or_iff_right hne
  · simp only [ChaseNode.write, ha, hr, List.foldl_nil, List.foldl_cons]
    refine ⟨fun verdict h => ?_, fun h => h, fun _ => rfl⟩
    exact (VerdictCache.get?_set_eq_some h).imp_right fun h => ⟨h.1, fail, h.2.1⟩

/-- A quiet winner neither stops the loop nor throws. -/
lemma quietMoment_iteration {isEvaluableNow : VotesBundle → Bool}
    {verifyOffline : VotesBundle → VerifyResult} (n : ChaseNode) (cid : Cid)
    (bundle : VotesBundle) :
    iteration ((quietMoment isEvaluableNow verifyOffline).answers n cid bundle) ≠ .stops ∧
      iteration ((quietMoment isEvaluableNow verifyOffline).answers n cid bundle) ≠ .throws := by
  have hstops : iteration ((quietMoment isEvaluableNow verifyOffline).answers n cid bundle)
      ≠ .stops := by
    rw [Ne, iteration_eq_stops_iff]
    exact Bool.false_ne_true
  exact ⟨hstops, iteration_ne_throws rfl rfl rfl rfl⟩

/-- **In a quiet engine the start decides.** A bundle that gets in as verified had a valid verdict
cached before the chase, and none that was admitted before gets in again. A bundle that was not
admitted, has no reject cached, is evaluable and passes offline gets in, whatever the other bundles
do to the cache. -/
theorem quietChase_admits {C : Codecs} {maxEntries : ℕ} {n : ChaseNode} {root : Cid}
    {getBlock : Cid → Option Bytes}
    {knownChunks : Option (List Cid)} {winners : List VotesBundle}
    {isEvaluableNow : VotesBundle → Bool} {verifyOffline : VotesBundle → VerifyResult}
    (hd : decodeCheckpoint C root getBlock knownChunks = some winners) (e : Entry) :
    (∀ v, (e, v) ∈ (chaseInNode C maxEntries root getBlock knownChunks false
        (fun _ => quietMoment isEvaluableNow verifyOffline) n).admitted →
      n.checks.has e.cid = false ∧
        (v = true → ∃ names, n.cache.get? e.cid = some (.ok names))) ∧
    ((∀ b ∈ winners, chasedCid C b = e.cid → b = e.bundle) → e.bundle ∈ winners →
      bundleCid C e.bundle = some e.cid → n.checks.has e.cid = false →
      (∀ fail, n.cache.get? e.cid ≠ some (.error fail)) → isEvaluableNow e.bundle = true →
      verifyOffline e.bundle = .ok () →
      ∃ v, (e, v) ∈ (chaseInNode C maxEntries root getBlock knownChunks false
        (fun _ => quietMoment isEvaluableNow verifyOffline) n).admitted) := by
  have henc := encodeBundle_isSome_of_decodeCheckpoint hd
  set moments : ℕ → ChaseMoment := fun _ => quietMoment isEvaluableNow verifyOffline with hmoments
  have hmem : ∀ v, (e, v) ∈ (chaseInNode C maxEntries root getBlock knownChunks false moments
      n).admitted ↔ ∃ k, ReachesWinner (nodeAnswers C maxEntries moments n winners) k ∧
        iteration (nodeAnswers C maxEntries moments n winners k) = .admits v ∧
        winners[k]? = some e.bundle ∧ chasedCid C e.bundle = e.cid := by
    intro v
    rw [admitted_chaseInNode maxEntries moments n hd, mem_admitted_chaseLoop _ henc]
    exact or_iff_right List.not_mem_nil
  constructor
  · intro v hin
    obtain ⟨k, -, hi, hget, hcid⟩ := (hmem v).mp hin
    obtain ⟨-, hhas, -, hadmissible⟩ := (iteration_nodeAnswers_eq_admits_iff hget hcid).mp hi
    constructor
    · -- the map only grows
      by_contra hstart
      rw [Bool.not_eq_false] at hstart
      have hgrown : (nodeAt C maxEntries moments n winners k).checks.has e.cid = true :=
        nodeAt_invariant C maxEntries (P := fun m => m.checks.has e.cid = true)
          (fun _ _ b _ m hm => (quietMoment_after C maxEntries m b e.cid).2.1 hm) hstart
      exact Bool.noConfusion (hhas.symm.trans hgrown)
    · rintro rfl
      obtain ⟨names, hnames⟩ := hadmissible
      -- the cache only gains rejects
      have hgained : ∀ names, (nodeAt C maxEntries moments n winners k).cache.get? e.cid
          = some (.ok names) → n.cache.get? e.cid = some (.ok names) := by
        refine nodeAt_invariant C maxEntries
          (P := fun m => ∀ names, m.cache.get? e.cid = some (.ok names) →
            n.cache.get? e.cid = some (.ok names)) (fun _ _ b _ m hm names h => ?_)
          (fun _ h => h)
        rcases (quietMoment_after C maxEntries m b e.cid).1 _ h with h | ⟨-, fail, hfail⟩
        · exact hm names h
        · cases hfail
      exact ⟨names, hgained names hnames⟩
  · intro hone hin hcid hhas hreject hevaluable hoffline
    have hc := (bundleCid_eq_some_iff (henc _ hin)).mp hcid
    obtain ⟨k, hget, hfirst⟩ : ∃ k, winners[k]? = some e.bundle ∧
        ∀ j < k, winners[j]? ≠ some e.bundle := by
      have hex : ∃ k, winners[k]? = some e.bundle := List.mem_iff_getElem?.mp hin
      classical
      exact ⟨Nat.find hex, Nat.find_spec hex, fun j hj => Nat.find_min hex hj⟩
    -- before its first place nothing touches its address
    have hstart : (nodeAt C maxEntries moments n winners k).checks.has e.cid = false ∧
        ∀ fail, (nodeAt C maxEntries moments n winners k).cache.get? e.cid
          ≠ some (.error fail) := by
      refine nodeAt_invariant C maxEntries (P := fun m => m.checks.has e.cid = false ∧
        ∀ fail, m.cache.get? e.cid ≠ some (.error fail)) (fun j hj b hb m hm => ?_)
        ⟨hhas, hreject⟩
      have hne : e.cid ≠ chasedCid C b := by
        intro heq
        exact hfirst j hj (hone b (List.mem_of_getElem? hb) heq.symm ▸ hb)
      obtain ⟨hcache, -, hchecks⟩ := quietMoment_after C maxEntries m b e.cid
      refine ⟨(hchecks hne).trans hm.1, fun fail h => ?_⟩
      rcases hcache _ h with h | ⟨heq, -⟩
      · exact hm.2 fail h
      · exact hne heq
    have hreach : ReachesWinner (nodeAnswers C maxEntries moments n winners) k :=
      fun j _ => quietMoment_iteration _ _ _
    obtain ⟨v, hadmissible⟩ : ∃ v, Admissible (moments k) (nodeAt C maxEntries moments n winners k)
        e v := by
      rcases hcached : (nodeAt C maxEntries moments n winners k).cache.get? e.cid with
        _ | fail | names
      · exact ⟨false, hcached, congrArg some hevaluable, congrArg some hoffline⟩
      · exact absurd hcached (hstart.2 fail)
      · exact ⟨true, names, hcached⟩
    exact ⟨v, (hmem v).mpr ⟨k, hreach, (iteration_nodeAnswers_eq_admits_iff hget hc).mpr
      ⟨rfl, hstart.1, rfl, hadmissible⟩, hget, hc⟩⟩

end

end PubsubVoting
