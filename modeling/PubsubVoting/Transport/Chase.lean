import PubsubVoting.Checkpoint.Codec
import PubsubVoting.Crdt.Crdt
import PubsubVoting.Verify.Cache

/-!
The divergence chase: pull the winners behind an advertised root and admit each in two stages, the
network checks deferred to the background verifier in one batch after the loop.

* `SeamAnswers`: what the injected calls answer at one winner, a throw included.
* `chaseStep`, `chaseLoop`, `runChase`: the loop over the winners and what one chase leaves behind.
* `iteration`: how one winner ends, from the answers alone (`chaseStep_eq`).
* `runChase_defers_iff`: every provisionally admitted bundle is handed over exactly if no call
  throws at a winner after a provisional admit.
-/

namespace PubsubVoting

open Cbor

/-! ### The loop -/

/-- What the seams answer at one winner; `none` is a throw. `isEvaluableNow` is answered `some true`
where the seam is omitted. -/
structure SeamAnswers where
  aborted : Bool
  isAdmitted : Option Bool
  cached : Option BundleVerdict
  isEvaluableNow : Option Bool
  verifyOffline : Option VerifyResult
  admitted : Option Unit

/-- The locals of the loop, and what it has told the outside so far. -/
structure ChaseState where
  /-- the addresses the checkpoint contained -/
  contained : List Cid
  /-- provisionally admitted, not yet handed over -/
  pending : List Entry
  merged : Bool
  /-- the completed calls of `admit`, with their `verified` flag -/
  admitted : List (Entry × Bool)
  /-- the rejects put into the verdict cache -/
  rejected : List (Cid × VerifyFail)

/-- How one pass through the loop body ends. -/
inductive ChaseFlow where
  | next (s : ChaseState)
  | stop (s : ChaseState)
  | threw (s : ChaseState)

/-- The `admit` call and what follows it. -/
def admitWinner (a : SeamAnswers) (s : ChaseState) (e : Entry) (verified : Bool) : ChaseFlow :=
  match a.admitted with
  | none => .threw s
  | some () =>
    let s := { s with admitted := s.admitted ++ [(e, verified)], merged := true }
    .next (if verified then s else { s with pending := s.pending ++ [e] })

/-- The loop body at one winner. -/
def chaseStep (C : Codecs) (a : SeamAnswers) (s : ChaseState) (bundle : VotesBundle) : ChaseFlow :=
  if a.aborted then .stop s
  else
    match encodeBundle C bundle with
    | none => .threw s
    | some bytes =>
      let cid := bundleCidForBytes C bytes
      let s := { s with contained := s.contained ++ [cid] }
      match a.isAdmitted with
      | none => .threw s
      | some true => .next s
      | some false =>
        match a.cached with
        | some (.error _) => .next s
        | some (.ok _) => admitWinner a s ⟨cid, bundle⟩ true
        | none =>
          match a.isEvaluableNow with
          | none => .threw s
          | some false => .next s
          | some true =>
            match a.verifyOffline with
            | none => .threw s
            | some (.error fail) =>
              .next (if fail.disposition = .reject then
                { s with rejected := s.rejected ++ [(cid, fail)] } else s)
            | some (.ok ()) => admitWinner a s ⟨cid, bundle⟩ false

/-- The loop over the winners; `true` where it ended by a throw. -/
def chaseLoop (C : Codecs) (answers : ℕ → SeamAnswers) (s : ChaseState) :
    List VotesBundle → Bool × ChaseState
  | [] => (false, s)
  | bundle :: winners =>
    match chaseStep C (answers 0) s bundle with
    | .next s => chaseLoop C (fun k => answers (k + 1)) s winners
    | .stop s => (false, s)
    | .threw s => (true, s)

/-- What one chase leaves behind. -/
structure ChaseOutcome where
  admitted : List (Entry × Bool)
  deferred : List Entry
  contents : List Cid
  merged : Bool

/-- One chase. The deadline may hit before the checkpoint is decoded, and then at any winner. -/
def runChase (C : Codecs) (root : Cid) (getBlock : Cid → Option Bytes)
    (knownChunks : Option (List Cid)) (deadlineFirst : Bool) (answers : ℕ → SeamAnswers) :
    ChaseOutcome :=
  if deadlineFirst then ⟨[], [], [], false⟩
  else
    match decodeCheckpoint C root getBlock knownChunks with
    | none => ⟨[], [], [], false⟩
    | some winners =>
      match chaseLoop C answers ⟨[], [], false, [], []⟩ winners with
      | (true, s) => ⟨s.admitted, [], [], false⟩
      | (false, s) => ⟨s.admitted, s.pending, s.contained, s.merged⟩

/-! ### One winner -/

/-- How a winner ends. -/
inductive Iteration where
  | stops
  | throws
  | skips
  | admits (verified : Bool)
  deriving DecidableEq

/-- An admit that is tried ends by it or by its throw. -/
def tried (a : SeamAnswers) (verified : Bool) : Iteration :=
  if a.admitted.isSome then .admits verified else .throws

/-- How a winner ends, from the answers alone: the calls come in this order, each only if the ones
before it let the bundle through. -/
def iteration (a : SeamAnswers) : Iteration :=
  match a.aborted, a.isAdmitted, a.cached, a.isEvaluableNow, a.verifyOffline with
  | true, _, _, _, _ => .stops
  | false, none, _, _, _ => .throws
  | false, some true, _, _, _ => .skips
  | false, some false, some (.error _), _, _ => .skips
  | false, some false, some (.ok _), _, _ => tried a true
  | false, some false, none, none, _ => .throws
  | false, some false, none, some false, _ => .skips
  | false, some false, none, some true, none => .throws
  | false, some false, none, some true, some (.error _) => .skips
  | false, some false, none, some true, some (.ok ()) => tried a false

/-- What the loop body does to the parts of the state that matter for the hand-over. -/
def Matches (s : ChaseState) (e : Entry) : Iteration → ChaseFlow → Prop
  | .stops, flow => ∃ s', flow = .stop s' ∧ s'.pending = s.pending ∧ s'.admitted = s.admitted
  | .throws, flow => ∃ s', flow = .threw s' ∧ s'.pending = s.pending ∧ s'.admitted = s.admitted
  | .skips, flow => ∃ s', flow = .next s' ∧ s'.pending = s.pending ∧ s'.admitted = s.admitted
  | .admits true, flow =>
    ∃ s', flow = .next s' ∧ s'.pending = s.pending ∧ s'.admitted = s.admitted ++ [(e, true)]
  | .admits false, flow =>
    ∃ s', flow = .next s' ∧ s'.pending = s.pending ++ [e] ∧ s'.admitted = s.admitted ++ [(e, false)]

lemma admitWinner_eq (a : SeamAnswers) (s : ChaseState) (e : Entry) (verified : Bool) :
    Matches s e (tried a verified) (admitWinner a s e verified) := by
  obtain ⟨aborted, isAdmitted, cached, isEvaluableNow, verifyOffline, admitted⟩ := a
  cases admitted with
  | none => exact ⟨s, rfl, rfl, rfl⟩
  | some u =>
      cases verified with
      | true => exact ⟨_, rfl, rfl, rfl⟩
      | false => exact ⟨_, rfl, rfl, rfl⟩

lemma Matches.of_eq {s t : ChaseState} {e : Entry} {i : Iteration} {flow : ChaseFlow}
    (hp : t.pending = s.pending) (ha : t.admitted = s.admitted) (h : Matches t e i flow) :
    Matches s e i flow := by
  cases i with
  | admits verified =>
      cases verified with
      | true => simpa only [Matches, hp, ha] using h
      | false => simpa only [Matches, hp, ha] using h
  | _ => simpa only [Matches, hp, ha] using h

/-- **The loop body follows the answers**, once the winner can be encoded. -/
theorem chaseStep_eq {C : Codecs} {bundle : VotesBundle} {bytes : Bytes}
    (h : encodeBundle C bundle = some bytes) (a : SeamAnswers) (s : ChaseState) :
    Matches s ⟨bundleCidForBytes C bytes, bundle⟩ (iteration a) (chaseStep C a s bundle) := by
  obtain ⟨aborted, isAdmitted, cached, isEvaluableNow, verifyOffline, admitted⟩ := a
  cases aborted with
  | true => exact ⟨s, rfl, rfl, rfl⟩
  | false =>
      simp only [chaseStep, h, Bool.false_eq_true, if_false]
      -- the calls in the order the body makes them
      rcases isAdmitted with _ | _ | _
      · exact ⟨_, rfl, rfl, rfl⟩
      · rcases cached with _ | fail | names
        · rcases isEvaluableNow with _ | _ | _
          · exact ⟨_, rfl, rfl, rfl⟩
          · exact ⟨_, rfl, rfl, rfl⟩
          · rcases verifyOffline with _ | fail | _
            · exact ⟨_, rfl, rfl, rfl⟩
            · refine ⟨_, rfl, ?_, ?_⟩
              · split <;> rfl
              · split <;> rfl
            · exact (admitWinner_eq _ _ _ _).of_eq rfl rfl
        · exact ⟨_, rfl, rfl, rfl⟩
        · exact (admitWinner_eq _ _ _ _).of_eq rfl rfl
      · exact ⟨_, rfl, rfl, rfl⟩

/-! ### A whole chase -/

/-- The loop gets to winner `j`: none before it stopped it or threw. -/
def ReachesWinner (answers : ℕ → SeamAnswers) (j : ℕ) : Prop :=
  ∀ k < j, iteration (answers k) ≠ .stops ∧ iteration (answers k) ≠ .throws

/-- A call throws at one of the first `n` winners. -/
def Throws (n : ℕ) (answers : ℕ → SeamAnswers) : Prop :=
  ∃ j < n, ReachesWinner answers j ∧ iteration (answers j) = .throws

/-- A call throws at one of the first `n` winners, after a winner was admitted provisionally. -/
def ThrowsAfterAdmit (n : ℕ) (answers : ℕ → SeamAnswers) : Prop :=
  ∃ j < n, ReachesWinner answers j ∧ iteration (answers j) = .throws ∧
    ∃ i < j, iteration (answers i) = .admits false

variable {answers : ℕ → SeamAnswers} {n : ℕ}

lemma reaches_zero : ReachesWinner answers 0 := fun _ h => absurd h (Nat.not_lt_zero _)

lemma reaches_succ {j : ℕ} : ReachesWinner answers (j + 1) ↔
    (iteration (answers 0) ≠ .stops ∧ iteration (answers 0) ≠ .throws) ∧
      ReachesWinner (fun k => answers (k + 1)) j := by
  constructor
  · intro h
    exact ⟨h 0 (Nat.succ_pos j), fun k hk => h (k + 1) (Nat.succ_lt_succ hk)⟩
  · rintro ⟨h0, h⟩ k hk
    cases k with
    | zero => exact h0
    | succ k => exact h k (Nat.lt_of_succ_lt_succ hk)

lemma throws_succ : Throws (n + 1) answers ↔ iteration (answers 0) = .throws ∨
    (iteration (answers 0) ≠ .stops ∧ iteration (answers 0) ≠ .throws) ∧
      Throws n (fun k => answers (k + 1)) := by
  constructor
  · rintro ⟨j, hj, hr, ht⟩
    cases j with
    | zero => exact .inl ht
    | succ j =>
        obtain ⟨h0, hr⟩ := reaches_succ.mp hr
        exact .inr ⟨h0, j, Nat.lt_of_succ_lt_succ hj, hr, ht⟩
  · rintro (ht | ⟨h0, j, hj, hr, ht⟩)
    · exact ⟨0, Nat.succ_pos n, reaches_zero, ht⟩
    · exact ⟨j + 1, Nat.succ_lt_succ hj, reaches_succ.mpr ⟨h0, hr⟩, ht⟩

lemma throwsAfterAdmit_succ : ThrowsAfterAdmit (n + 1) answers ↔
    (iteration (answers 0) = .admits false ∧ Throws n (fun k => answers (k + 1))) ∨
    (iteration (answers 0) ≠ .stops ∧ iteration (answers 0) ≠ .throws) ∧
      ThrowsAfterAdmit n (fun k => answers (k + 1)) := by
  constructor
  · rintro ⟨j, hj, hr, ht, i, hi, hadmits⟩
    cases j with
    | zero => exact absurd hi (Nat.not_lt_zero i)
    | succ j =>
        obtain ⟨h0, hr⟩ := reaches_succ.mp hr
        cases i with
        | zero => exact .inl ⟨hadmits, j, Nat.lt_of_succ_lt_succ hj, hr, ht⟩
        | succ i =>
            exact .inr ⟨h0, j, Nat.lt_of_succ_lt_succ hj, hr, ht, i, Nat.lt_of_succ_lt_succ hi,
              hadmits⟩
  · rintro (⟨hadmits, j, hj, hr, ht⟩ | ⟨h0, j, hj, hr, ht, i, hi, hadmits⟩)
    · have h0 : iteration (answers 0) ≠ .stops ∧ iteration (answers 0) ≠ .throws := by
        rw [hadmits]
        exact ⟨by decide, by decide⟩
      exact ⟨j + 1, Nat.succ_lt_succ hj, reaches_succ.mpr ⟨h0, hr⟩, ht, 0, Nat.succ_pos j,
        hadmits⟩
    · exact ⟨j + 1, Nat.succ_lt_succ hj, reaches_succ.mpr ⟨h0, hr⟩, ht, i + 1,
        Nat.succ_lt_succ hi, hadmits⟩

/-- `pending` lists what the loop admitted provisionally. -/
def Tracks (s : ChaseState) : Prop := ∀ e, (e, false) ∈ s.admitted ↔ e ∈ s.pending

/-- What is true of the loop at its end: `pending` still lists the provisional admits, and it threw
over a non-empty `pending` exactly if a call threw after a provisional admit. -/
theorem chaseLoop_spec {C : Codecs} (answers : ℕ → SeamAnswers) {winners : List VotesBundle}
    (henc : ∀ b ∈ winners, (encodeBundle C b).isSome) {s : ChaseState} (hs : Tracks s) :
    Tracks (chaseLoop C answers s winners).2 ∧
      (((chaseLoop C answers s winners).1 = true ∧
          (chaseLoop C answers s winners).2.pending ≠ []) ↔
        (s.pending ≠ [] ∧ Throws winners.length answers) ∨
          ThrowsAfterAdmit winners.length answers) := by
  induction winners generalizing answers s with
  | nil => exact ⟨hs, by simp [chaseLoop, Throws, ThrowsAfterAdmit]⟩
  | cons bundle winners ih =>
      obtain ⟨bytes, hbytes⟩ := Option.isSome_iff_exists.mp (henc bundle List.mem_cons_self)
      have hrest : ∀ b ∈ winners, (encodeBundle C b).isSome :=
        fun b hb => henc b (List.mem_cons_of_mem _ hb)
      have hstep := chaseStep_eq hbytes (answers 0) s
      rw [List.length_cons, throws_succ, throwsAfterAdmit_succ]
      cases hi : iteration (answers 0) with
      | stops =>
          rw [hi] at hstep
          obtain ⟨s', hflow, hp, ha⟩ := hstep
          have hs' : Tracks s' := fun e => by rw [hp, ha]; exact hs e
          simp [chaseLoop, hflow, hs']
      | throws =>
          rw [hi] at hstep
          obtain ⟨s', hflow, hp, ha⟩ := hstep
          have hs' : Tracks s' := fun e => by rw [hp, ha]; exact hs e
          simp [chaseLoop, hflow, hs', hp]
      | skips =>
          rw [hi] at hstep
          obtain ⟨s', hflow, hp, ha⟩ := hstep
          have hs' : Tracks s' := fun e => by rw [hp, ha]; exact hs e
          simpa [chaseLoop, hflow, hp] using ih (fun k => answers (k + 1)) hrest hs'
      | admits verified =>
          rw [hi] at hstep
          cases verified with
          | true =>
              obtain ⟨s', hflow, hp, ha⟩ := hstep
              have hs' : Tracks s' := fun e => by simpa [hp, ha] using hs e
              simpa [chaseLoop, hflow, hp] using ih (fun k => answers (k + 1)) hrest hs'
          | false =>
              obtain ⟨s', hflow, hp, ha⟩ := hstep
              have hs' : Tracks s' := fun e => by simpa [hp, ha] using or_congr_left (hs e)
              have hne : s'.pending ≠ [] := by simp [hp]
              have := ih (fun k => answers (k + 1)) hrest hs'
              refine ⟨by simpa [chaseLoop, hflow] using this.1, ?_⟩
              simp only [chaseLoop, hflow, this.2]
              simp
              tauto

/-- **A chase hands over what it admitted provisionally exactly if no call throws after such an
admit**: the hand-over is one batch behind the loop, and a throw skips it. -/
theorem runChase_defers_iff (C : Codecs) (root : Cid) (getBlock : Cid → Option Bytes)
    (knownChunks : Option (List Cid)) (deadlineFirst : Bool) (answers : ℕ → SeamAnswers) :
    (∀ e, (e, false) ∈ (runChase C root getBlock knownChunks deadlineFirst answers).admitted →
        e ∈ (runChase C root getBlock knownChunks deadlineFirst answers).deferred) ↔
      deadlineFirst = true ∨
        ∀ winners, decodeCheckpoint C root getBlock knownChunks = some winners →
          ¬ ThrowsAfterAdmit winners.length answers := by
  cases deadlineFirst with
  | true => simp [runChase]
  | false =>
      cases hd : decodeCheckpoint C root getBlock knownChunks with
      | none => simp [runChase, hd]
      | some winners =>
          have h0 : Tracks ⟨[], [], false, [], []⟩ := fun e => by simp
          obtain ⟨htracks, hspec⟩ := chaseLoop_spec answers
            (encodeBundle_isSome_of_decodeCheckpoint hd) h0
          rcases hl : chaseLoop C answers ⟨[], [], false, [], []⟩ winners with ⟨threw, s⟩
          simp only [hl] at htracks hspec
          cases threw with
          | false =>
              have hno : ¬ ThrowsAfterAdmit winners.length answers := by simpa using hspec
              simp [runChase, hd, hl, hno, htracks _]
          | true =>
              have hiff : s.pending ≠ [] ↔ ThrowsAfterAdmit winners.length answers := by
                simpa using hspec
              simp [runChase, hd, hl, htracks _, ← hiff, List.eq_nil_iff_forall_not_mem]

/-! ### A chase that loses a bundle -/

/-- The wire value of a withdrawal at block `0`. -/
def withdrawalOf (address : Bytes) : Value :=
  WireBundle.toValue ⟨address, 0, List.replicate 65 0, JsString.ofString "eip712", []⟩

/-- A chunk with the withdrawals of two wallets. -/
def twoWithdrawals : Bytes :=
  encodeRaw
    (Value.list [withdrawalOf (List.replicate 20 0), withdrawalOf (List.replicate 20 1)]).canon

/-- The manifest of that chunk. -/
def twoWithdrawalsRoot : Bytes :=
  encodeRaw (checkpointRootValue [blockCid .reference twoWithdrawals]).canon

/-- The two blocks of the checkpoint. -/
def twoWithdrawalsBlock (cid : Cid) : Option Bytes :=
  if cid = blockCid .reference twoWithdrawals then some twoWithdrawals
  else if cid = blockCid .reference twoWithdrawalsRoot then some twoWithdrawalsRoot
  else none

/-- Both bundles pass offline; the head read behind `isEvaluableNow` throws at the second. -/
def secondHeadReadThrows : ℕ → SeamAnswers
  | 0 => ⟨false, some false, none, some true, some (.ok ()), some ()⟩
  | _ => ⟨false, some false, none, none, some (.ok ()), some ()⟩

/-- That chase. -/
def chaseOfTwo : ChaseOutcome :=
  runChase .reference (blockCid .reference twoWithdrawalsRoot) twoWithdrawalsBlock none false
    secondHeadReadThrows

/-- The first wallet's withdrawal is admitted provisionally, and nothing is handed over. -/
theorem chaseOfTwo_orphans :
    chaseOfTwo.admitted.map (fun p => (p.1.bundle, p.2)) = [(withdrawal, false)]
      ∧ chaseOfTwo.deferred = []
      ∧ ¬ ∀ e, (e, false) ∈ chaseOfTwo.admitted → e ∈ chaseOfTwo.deferred := by
  have hadmitted :
      chaseOfTwo.admitted.map (fun p => (p.1.bundle, p.2)) = [(withdrawal, false)] := by
    decide +kernel
  have hdeferred : chaseOfTwo.deferred = [] := by decide +kernel
  refine ⟨hadmitted, hdeferred, fun h => ?_⟩
  have hmem : (withdrawal, false) ∈ chaseOfTwo.admitted.map (fun p => (p.1.bundle, p.2)) := by
    rw [hadmitted]
    exact List.mem_singleton_self _
  obtain ⟨⟨e, verified⟩, he, heq⟩ := List.mem_map.mp hmem
  obtain ⟨-, rfl⟩ := Prod.mk.inj heq
  have := h e he
  rw [hdeferred] at this
  exact List.not_mem_nil this

end PubsubVoting
