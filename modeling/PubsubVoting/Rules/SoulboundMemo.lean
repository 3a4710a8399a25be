import PubsubVoting.Rules.Erc5192
import PubsubVoting.Rules.RuleRuns

/-!
The soulbound gate's memo over time: evaluations side by side, with heads that come and go.

* `Probed`, `BalanceRead`: what some evaluation was answered by a probe, and by a read of a balance.
* `observedFacts`: what an entry of the cache stands for, a read at a block of its window or at its
  own block.
* `MeetsMin`, `Falls`: a leg admits a wallet, or refuses it, by such reads.
* `soulboundMemo_sound`: an admission rests on reads inside the window of the evaluation's own head,
  or at the ballot's block; what is served under a head window was read in it; and a purge spares
  the pinned entries and those of its head's window.
-/

namespace PubsubVoting

open Erc5192 JsString

/-! ### What was observed -/

section

variable (w : Observations ChainRead.Answer)

/-- The blocks whose reads a leg memoises under an epoch. -/
def Leg.Covers : Leg → ℕ → ℕ → Prop
  | .head, epoch, block => headEpoch block = epoch
  | .pinned, epoch, block => block = epoch

/-- A probe at a block said whether the contract declares ERC-5192. -/
def Probed (block : ℕ) (b : Bool) : Prop :=
  ∃ k, (k, ⟨.supportsInterface block, .declares b⟩) ∈ w ∨
    b = false ∧ (k, ⟨.supportsInterface block, .refused⟩) ∈ w

/-- A wallet's balance was read at a block, on its own or in a batch. -/
def BalanceRead (block : ℕ) (wallet : JsString) (n : ℕ) : Prop :=
  ∃ k, (k, ⟨.balanceOf block wallet, some n⟩) ∈ w ∨
    ∃ (wallets : List JsString) (ns : List ℕ) (i : ℕ),
      (k, ⟨.multicall block wallets, some ns⟩) ∈ w ∧ wallets[i]? = some wallet ∧ ns[i]? = some n

/-- The head an evaluation read. -/
def HeadRead (k head : ℕ) : Prop := (k, ⟨.head, some head⟩) ∈ w

variable {w} {w' : Observations ChainRead.Answer} {block n : ℕ} {b : Bool} {wallet : JsString}

lemma Probed.mono (hw : w ≤ w') (h : Probed w block b) : Probed w' block b := by
  obtain ⟨k, h | ⟨hb, h⟩⟩ := h
  · exact ⟨k, .inl (hw h)⟩
  · exact ⟨k, .inr ⟨hb, hw h⟩⟩

lemma BalanceRead.mono (hw : w ≤ w') (h : BalanceRead w block wallet n) :
    BalanceRead w' block wallet n := by
  obtain ⟨k, h | ⟨wallets, ns, i, h, hi⟩⟩ := h
  · exact ⟨k, .inl (hw h)⟩
  · exact ⟨k, .inr ⟨wallets, ns, i, hw h, hi⟩⟩

end

/-- A leg's facts are reads that some evaluation has made at a block the epoch covers. -/
def observedFacts : LegFacts (Observations ChainRead.Answer) where
  declares leg epoch b :=
    ⟨fun w => ∃ block, leg.Covers epoch block ∧ Probed w block b,
      fun _ _ hw ⟨block, hcovers, h⟩ => ⟨block, hcovers, h.mono hw⟩⟩
  balance leg epoch wallet n :=
    ⟨fun w => ∃ block, leg.Covers epoch block ∧ BalanceRead w block wallet n,
      fun _ _ hw ⟨block, hcovers, h⟩ => ⟨block, hcovers, h.mono hw⟩⟩
  probeFails _ _ := ⟨fun _ => True, fun _ _ _ h => h⟩
  balanceFails _ _ _ := ⟨fun _ => True, fun _ _ _ h => h⟩

/-- What an evaluation knows of its head is what it read. -/
def observedHead (k : ℕ) : HeadFacts (Observations ChainRead.Answer) where
  headIs head := ⟨fun w => HeadRead w k head, fun _ _ hw h => hw h⟩
  headFails := ⟨fun _ => True, fun _ _ _ h => h⟩

/-- A batched read is of all its wallets, or refused. -/
def Batched : (r : ChainRead) → r.Answer → Prop
  | .head, _ => True
  | .supportsInterface _, _ => True
  | .balanceOf _ _, _ => True
  | .multicall _ wallets, answer =>
    (∀ ns ∈ answer, ns.length = wallets.length) ∧ (answer = none → wallets ≠ [])

/-- The reads of an evaluation give the observed facts. -/
lemma observed_reads (k : ℕ) :
    observedFacts.Reads (observedHead k) (readsOf Batched k) := by
  have hreads : ∀ (leg : Leg) (epoch block : ℕ), leg.Covers epoch block →
      observedFacts.ReadsAt (readsOf Batched k) leg epoch block := by
    intro leg epoch block hcovers
    refine ⟨fun w b h => ⟨block, hcovers, k, .inl h.1⟩,
      fun w h => ⟨block, hcovers, k, .inr ⟨rfl, h.1⟩⟩, fun _ _ => trivial,
      fun w wallet n h => ⟨block, hcovers, k, .inl h.1⟩, fun _ _ _ => trivial,
      fun w wallets ns h => ?_, fun w wallets h => ?_⟩
    · rw [forall₂_iff_getElem?]
      refine ⟨(h.2.1 ns rfl).symm, fun i wallet n hwallet hn => ?_⟩
      exact ⟨block, hcovers, k, .inr ⟨wallets, ns, i, h.1, hwallet, hn⟩⟩
    · obtain ⟨wallet, hwallet⟩ := List.exists_mem_of_ne_nil _ (h.2.2 rfl)
      exact ⟨wallet, hwallet, trivial⟩
  exact ⟨fun w head h => h.1, fun _ _ => trivial, fun w head _ => hreads .head _ head rfl,
    fun block => hreads .pinned block block rfl⟩

/-! ### The verdicts -/

section

variable (w : Observations ChainRead.Answer) (leg : Leg) (epoch min : ℕ) (wallet : JsString)

/-- A leg admits a wallet with a score: a probe and a read of its balance, each at a block that the
epoch covers, say so. -/
def MeetsMin (score : ℕ) : Prop :=
  (∃ block, leg.Covers epoch block ∧ Probed w block true) ∧
    (∃ block, leg.Covers epoch block ∧
      BalanceRead w block (walletOfKey wallet.toLowerCase) score) ∧ min ≤ score ∧ 0 < score

/-- A leg refuses a wallet: a probe, or a read of its balance, at a block that the epoch covers says
so. -/
def Falls : Prop :=
  (∃ block, leg.Covers epoch block ∧ Probed w block false) ∨
    ∃ block n, leg.Covers epoch block ∧ BalanceRead w block (walletOfKey wallet.toLowerCase) n ∧
      (n < min ∨ n = 0)

variable {w leg epoch min wallet} {contract : JsString} {scored : Scored}

/-- A positive score is an admission. -/
lemma meetsMin_of_scores (h : observedFacts.Scores leg epoch contract min w wallet scored)
    (hpos : 0 < scored.1) : MeetsMin w leg epoch min wallet scored.1 := by
  rcases h with ⟨-, rfl⟩ | ⟨hdeclares, n, hbalance, rfl⟩
  · exact absurd hpos (lt_irrefl 0)
  · have hscore : (scoredOf contract min n).1 = scoreOf n min := rfl
    rw [hscore, scoreOf] at hpos ⊢
    split_ifs at hpos ⊢ with hmin
    · exact ⟨hdeclares, hbalance, hmin, hpos⟩
    · exact absurd hpos (lt_irrefl 0)

/-- No score is a refusal. -/
lemma falls_of_scores (h : observedFacts.Scores leg epoch contract min w wallet scored)
    (hzero : scored.1 = 0) : Falls w leg epoch min wallet := by
  rcases h with ⟨hdeclares, -⟩ | ⟨-, n, ⟨block, hcovers, hread⟩, rfl⟩
  · exact .inl hdeclares
  · refine .inr ⟨block, n, hcovers, hread, ?_⟩
    have hscore : (scoredOf contract min n).1 = scoreOf n min := rfl
    rw [hscore, scoreOf] at hzero
    split_ifs at hzero with hmin
    · exact .inr hzero
    · exact .inl (not_le.mp hmin)

end

/-- An evaluation's verdict on a wallet, by what was read: it is admitted by the head leg, or that
refuses it and the pinned leg has the last word. -/
def Verdict (w : Observations ChainRead.Answer) (head min : ℕ) (wallet : RuleWallet)
    (result : RuleResult) : Prop :=
  (∃ score : ℕ, result = .success score ∧
      MeetsMin w .head (headEpoch head) min wallet.address score) ∨
    Falls w .head (headEpoch head) min wallet.address ∧
      ((∃ score : ℕ, result = .success score ∧
          MeetsMin w .pinned wallet.sampleBlock min wallet.address score) ∨
        (∃ error, result = .failure error (some false)) ∧
          Falls w .pinned wallet.sampleBlock min wallet.address)

lemma resultOf_pos {scored : Scored} (h : 0 < scored.1) : resultOf scored = .success scored.1 :=
  if_pos h

lemma resultOf_zero {scored : Scored} (h : scored.1 = 0) :
    ∃ error, resultOf scored = .failure error (some false) :=
  ⟨_, if_neg (by omega)⟩

lemma verdict_of_judged {w : Observations ChainRead.Answer} {head min : ℕ} {contract : JsString}
    {wallet : RuleWallet} {result : RuleResult}
    (h : observedFacts.Judged head contract min w wallet result) :
    Verdict w head min wallet result := by
  obtain ⟨h, hh, ⟨hpos, rfl⟩ | ⟨hzero, p, hp, rfl⟩⟩ := h
  · exact .inl ⟨h.1, resultOf_pos hpos, meetsMin_of_scores hh hpos⟩
  · refine .inr ⟨falls_of_scores hh hzero, ?_⟩
    rcases Nat.eq_zero_or_pos p.1 with hpzero | hppos
    · exact .inr ⟨resultOf_zero hpzero, falls_of_scores hp hpzero⟩
    · exact .inl ⟨p.1, resultOf_pos hppos, meetsMin_of_scores hp hppos⟩

/-! ### The purges -/

/-- What a purge of a head must leave alone: the pinned entries, and those under the head's window
or a later one. -/
def MustSpare (head : ℕ) (key : JsString) (epoch : ℕ) : Prop :=
  keyPrefix .pinned <+: key ∨ headEpoch head ≤ epoch

lemma not_headPrefix_or_le {head epoch : ℕ} {key : JsString} (h : MustSpare head key epoch) :
    ¬ (some (keyPrefix .head)).getD [] <+: entryKey key epoch ∨ headEpoch head ≤ epoch := by
  refine h.imp (fun hpinned => ?_) id
  exact not_starts_of_starts (hpinned.trans (List.prefix_append _ _)) (by decide) (by decide)

section

variable {getAddress : JsString → Option JsString} {options : MinBalanceOptions} {batchable : Bool}
  {maxEntries : ℕ} {ns : JsString}

/-- The memo of the soulbound gate is sound over time. In every run of evaluations over caches that
share a store:
an evaluation that returns has judged every wallet by reads inside the window of the head that it
read itself, or at the block of the wallet's ballot;
whatever a cache has answered for a head entry was read at a head in the entry's window, and for a
pinned entry at its block;
and what an evaluation purges, at once or in the background, is below the window of its head and
not pinned. -/
theorem soulboundMemo_sound {t : RuleRuns ChainRead.Answer (List RuleWallet) (List RuleResult)}
    (h : Reaches (RuleRuns.step (evaluateMany getAddress options batchable) maxEntries ns)
      (fun _ i => RuleRuns.Honest Batched i) (RuleRuns.onCaches RuleCaches.empty) t) :
    (∀ k c results, t.calls k = some c → c.proc.outcome? = some (some results) →
      ∃ head, HeadRead t.memory.seen k head ∧
        List.Forall₂ (Verdict t.memory.seen head options.min) c.call results) ∧
    (∀ a ∈ t.memory.caches.answers, ∀ v ∈ a.value, ∀ leg : Leg,
      (lockPrefix leg <+: a.key → ∃ block, leg.Covers a.epoch block ∧
        Probed t.memory.seen block (decide (v = decimal 1))) ∧
      (balancePrefix leg <+: a.key → ∃ n, v = decimal n ∧ ∃ block, leg.Covers a.epoch block ∧
        BalanceRead t.memory.seen block (walletOfKey a.key) n)) ∧
    (∀ k c path epoch pre, t.calls k = some c →
      c.proc.askedAt path = some (.cache (.purgeBelow epoch pre)) →
        ∃ head, HeadRead t.memory.seen k head ∧ ∀ key e, MustSpare head key e →
          RuleCaches.Spared ns key e t.memory.caches
            (t.memory.caches.purgeBelow ns c.front epoch pre)) ∧
    (∀ (i : ℕ) (task : PurgeTask), t.memory.caches.purgeTasks[i]? = some task →
      ∃ k head, HeadRead t.memory.seen k head ∧ ∀ key e, MustSpare head key e →
        RuleCaches.Spared ns key e t.memory.caches (t.memory.caches.purgeNext i task)) := by
  have hpost : ∀ k wallets,
      Lasting (observedFacts.Evaluated (observedHead k) getAddress options wallets) :=
    fun _ _ => LegFacts.lasting_evaluated
  have hbody : ∀ k wallets w, (evaluateMany getAddress options batchable wallets).Keeps
      (ruleContract observedFacts.truth (observedHead k).mayPurge (readsOf Batched k))
      (observedFacts.Evaluated (observedHead k) getAddress options wallets) w := fun k wallets w =>
    LegFacts.keeps_evaluateMany (observed_reads k) getAddress options batchable wallets
  have htruth : observedFacts.truth.Truthful ns ∅ RuleCaches.empty := fun key epoch v hv => by
    rw [RuleCaches.mem_held_iff] at hv
    simp [RuleCaches.empty] at hv
  have hinv := RuleRuns.inv_of_reaches (fun k => (observedHead k).mayPurge)
    (fun k wallets => observedFacts.Evaluated (observedHead k) getAddress options wallets)
    hpost hbody
    htruth h
  have hlogged := RuleRuns.logged_of_reaches (fun k => (observedHead k).mayPurge)
    (fun k wallets => observedFacts.Evaluated (observedHead k) getAddress options wallets)
    hpost hbody
    htruth h
  refine ⟨fun k c results hcall hout => ?_, fun a ha v hv leg => hlogged.answers a ha v hv leg,
    fun k c path epoch pre hcall hasked => ?_, fun i task htask => ?_⟩
  · obtain ⟨contract, head, -, hhead, hjudged⟩ := (hinv.calls k c hcall).outcome hout
    exact ⟨head, hhead, hjudged.imp fun _ _ => verdict_of_judged⟩
  · obtain ⟨head, hhead, rfl, rfl⟩ := (hinv.calls k c hcall).asked hasked
    exact ⟨head, hhead, fun key e hspare =>
      RuleCaches.spared_purgeBelow (not_headPrefix_or_le hspare)⟩
  · obtain ⟨k, pre, ⟨head, hhead, hepoch, rfl⟩, hpre⟩ :=
      hlogged.purges task (List.mem_of_getElem? htask)
    refine ⟨k, head, hhead, fun key e hspare => RuleCaches.spared_purgeNext hpre ?_⟩
    rw [hepoch]
    exact not_headPrefix_or_le hspare

/-- A chain on which every wallet holds two tokens of a contract that declares ERC-5192. -/
def holderAnswers : (r : ChainRead) → r.Answer
  | .head => some 95
  | .supportsInterface _ => .declares true
  | .balanceOf _ _ => some 2
  | .multicall _ wallets => some (wallets.map fun _ => 2)

/-- One wallet is evaluated on a fresh front: the head, the purge, the declaration and the balance,
each looked up, read and memoised, and no wallet for the pinned leg. -/
def holderScript : List (ScriptedInput (List RuleWallet)) :=
  [.start 0 0 [⟨ofString "0xAA", 60⟩], .advance 0 [], .advance 0 [],
    .advance 0 [0], .advance 0 [0], .advance 0 [], .advance 0 [], .advance 0 [],
    .advance 0 [0], .advance 0 [0], .advance 0 [], .advance 0 [0], .advance 0 [], .advance 0 [],
    .advance 0 []]

/-- A holder is admitted by the head leg. -/
theorem soulboundMemo_sound_holder : ∃ t c,
    Reaches (RuleRuns.step (evaluateMany some ⟨ofString "0xCC", 1⟩ false) 4096 (ofString "gate"))
        (fun _ i => RuleRuns.Honest Batched i) (RuleRuns.onCaches RuleCaches.empty) t ∧
      t.calls 0 = some c ∧ c.proc.outcome? = some (some [.success 2]) ∧
      ∃ head, HeadRead t.memory.seen 0 head ∧
        List.Forall₂ (Verdict t.memory.seen head 1) c.call [.success 2] := by
  have hrun : (runIf (fun s j => RuleRuns.step (evaluateMany some ⟨ofString "0xCC", 1⟩ false) 4096
      (ofString "gate") s (ScriptedInput.play holderAnswers j)) (fun _ _ => True) holderScript
        (RuleRuns.onCaches RuleCaches.empty)).any (fun t => (t.calls 0).any fun c =>
          decide (c.proc.outcome? = some (some [.success 2]))) = true := by
    decide +kernel
  have hallowed : ∀ r, Batched r (holderAnswers r) := by
    intro r
    cases r with
    | head => trivial
    | supportsInterface block => trivial
    | balanceOf block wallet => trivial
    | multicall block wallets =>
        refine ⟨fun ns hns => ?_, nofun⟩
        obtain rfl := Option.mem_some_iff.mp hns
        exact List.length_map _
  obtain ⟨t, ht, hany⟩ := (Option.any_eq_true _ _).mp hrun
  obtain ⟨c, hc, hdec⟩ := (Option.any_eq_true _ _).mp hany
  have hout := of_decide_eq_true hdec
  have hreach := RuleRuns.reaches_of_script hallowed ht
  exact ⟨t, c, hreach, hc, hout, (soulboundMemo_sound hreach).1 0 c _ hc hout⟩

end

end PubsubVoting
