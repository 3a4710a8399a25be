import PubsubVoting.Rules.Erc721
import PubsubVoting.Rules.RuleRuns

/-!
Batched evaluation of the balance-scored gates, on a chain that does not move.

* `FixedChain`: a chain at a fixed head; `FixedChain.answers`: what it may answer, a batch in any
  order of its chunks and with a first attempt that may fail.
* `FixedChain.verdict`, `FixedChain.pinnedVerdict`: what the chain says of one wallet.
* `Returned`: an outcome of an evaluation in some run over caches that are truthful for the chain.
* `batched_evaluation`: `evaluateMany` returns, position by position, what `evaluate` returns for
  each wallet on its own.
-/

namespace PubsubVoting

open Erc5192 JsString

/-! ### A chain that does not move -/

/-- The head, and what the contract answers at every block. -/
structure FixedChain where
  head : ℕ
  probe : ℕ → ProbeAnswer
  balanceOf : ℕ → JsString → Option ℕ

namespace FixedChain

variable (chain : FixedChain) (getAddress : JsString → Option JsString)

/-- Whether the contract declares ERC-5192 at a block; `none` where the probe is refused. -/
def declared (block : ℕ) : Option Bool :=
  match chain.probe block with
  | .declares b => some b
  | .refused => some false
  | .failed => none

/-- A wallet's balance at a block; `none` where it is no address, or the contract refuses. -/
def balance (block : ℕ) (wallet : JsString) : Option ℕ :=
  (getAddress wallet).bind (chain.balanceOf block)

/-- The answers to a chunk: the balances of its wallets, or, to a first attempt, a failure. -/
def chunkAnswers (block : ℕ) (retry : Bool) (chunk : List JsString) (answer : Option (List ℕ)) :
    Prop :=
  answer = chunk.mapM (chain.balance getAddress block) ∨ retry = false ∧ answer = none

/-- The answers of the chain. -/
def answers : (r : ChainRead) → r.Answer → Prop
  | .head, answer => answer = some chain.head
  | .supportsInterface block, answer => answer = chain.probe block
  | .balanceOf block wallet, answer => answer = chain.balance getAddress block wallet
  | .multicall block wallets, answer =>
    BatchOutcome (chain.chunkAnswers getAddress block) wallets answer

/-- What the chain tells of a read. -/
def answer : (r : ChainRead) → r.Answer
  | .head => some chain.head
  | .supportsInterface block => chain.probe block
  | .balanceOf block wallet => chain.balance getAddress block wallet
  | .multicall block wallets => wallets.mapM (chain.balance getAddress block)

/-- The block a leg reads under an epoch; none for the windows of other heads. -/
def blockOf : Leg → ℕ → Option ℕ
  | .head, epoch => if epoch = headEpoch chain.head then some chain.head else none
  | .pinned, epoch => some epoch

/-- The facts of the chain. -/
def facts : LegFacts (Observations ChainRead.Answer) where
  declares leg epoch b := OrderHom.const _ (∀ block ∈ chain.blockOf leg epoch,
    chain.declared block = some b)
  balance leg epoch wallet n := OrderHom.const _ (∀ block ∈ chain.blockOf leg epoch,
    chain.balance getAddress block wallet = some n)
  probeFails leg epoch := OrderHom.const _ (∀ block ∈ chain.blockOf leg epoch,
    chain.declared block = none)
  balanceFails leg epoch wallet := OrderHom.const _ (∀ block ∈ chain.blockOf leg epoch,
    chain.balance getAddress block wallet = none)

/-- The head of every evaluation is the chain's. -/
def headFacts : HeadFacts (Observations ChainRead.Answer) where
  headIs head := OrderHom.const _ (head = chain.head)
  headFails := OrderHom.const _ False

/-- Every entry of the caches is true of the chain: a declaration is the probe's, and a balance is a
number, the one at the entry's block. -/
def TruthfulFor (ns : JsString) (caches : RuleCaches) : Prop :=
  ∀ key epoch, ∀ value ∈ caches.held ns key epoch, ∀ leg : Leg,
    (lockPrefix leg <+: key → ∀ block ∈ chain.blockOf leg epoch,
      chain.declared block = some (decide (value = decimal 1))) ∧
    (balancePrefix leg <+: key → ∃ n, value = decimal n ∧ ∀ block ∈ chain.blockOf leg epoch,
      chain.balance getAddress block (walletOfKey key) = some n)

/-! ### What the chain says of a wallet -/

/-- One leg's score of a wallet. -/
def legScore (contract : JsString) (min block : ℕ) (wallet : JsString) : Option Scored :=
  (chain.declared block).bind fun declares =>
    if declares then
      (chain.balance getAddress block (walletOfKey wallet.toLowerCase)).map (scoredOf contract min)
    else some (undeclared contract)

/-- The soulbound gate's result for a wallet. -/
def verdict (contract : JsString) (min : ℕ) (wallet : RuleWallet) : Option RuleResult :=
  (chain.legScore getAddress contract min chain.head wallet.address).bind fun scored =>
    if 0 < scored.1 then some (resultOf scored)
    else (chain.legScore getAddress contract min wallet.sampleBlock wallet.address).map resultOf

/-- The transferable gate's result for a wallet. -/
def pinnedVerdict (contract : JsString) (min : ℕ) (wallet : RuleWallet) : Option RuleResult :=
  (chain.balance getAddress wallet.sampleBlock wallet.address).map
    (Erc721.pinnedResult contract min)

variable {chain getAddress} {block min : ℕ} {contract : JsString}
  {w : Observations ChainRead.Answer}

/-- **A batch answers as the wallets one by one do**, whatever the order its chunks complete in and
whichever first attempts fail. -/
theorem multicall_eq {wallets : List JsString} {answer : Option (List ℕ)}
    (h : BatchOutcome (chain.chunkAnswers getAddress block) wallets answer) :
    answer = wallets.mapM (chain.balance getAddress block) := by
  have hread : ∀ retry chunk read, chain.chunkAnswers getAddress block retry chunk (some read) →
      List.Forall₂ (fun wallet n => chain.balance getAddress block wallet = some n) chunk read := by
    rintro retry chunk read (h | ⟨-, h⟩)
    · exact List.mapM_eq_some_iff.mp h.symm
    · cases h
  cases answer with
  | some balances => exact (List.mapM_eq_some_iff.mpr (batch_outcome hread h)).symm
  | none =>
      obtain ⟨index, -, hnone | ⟨hfalse, -⟩⟩ := batch_rejected hread h
      · -- some wallet of the chunk has no balance
        obtain ⟨wallet, hwallet, hfails⟩ := List.mapM_eq_none_iff.mp hnone.symm
        exact (List.mapM_eq_none_iff.mpr ⟨wallet, mem_of_mem_chunkAt hwallet, hfails⟩).symm
      · cases hfalse

/-- The reads of a leg's block give the facts of the chain. -/
lemma readsAt {k : ℕ} {leg : Leg} {epoch : ℕ} (hblock : chain.blockOf leg epoch = some block) :
    (chain.facts getAddress).ReadsAt (readsOf (chain.answers getAddress) k) leg epoch block := by
  have hdeclared : ∀ {a d}, chain.declared block = d → a = d →
      ∀ block' ∈ chain.blockOf leg epoch, chain.declared block' = a := fun {a d} hd ha b hb => by
    obtain rfl := Option.some.inj (hblock.symm.trans hb)
    rw [hd, ha]
  have hbalance : ∀ {wallet a}, a = chain.balance getAddress block wallet →
      ∀ block' ∈ chain.blockOf leg epoch, chain.balance getAddress block' wallet = a :=
    fun {wallet a} ha b hb => by
      obtain rfl := Option.some.inj (hblock.symm.trans hb)
      exact ha.symm
  refine ⟨fun w b h => ?_, fun w h => ?_, fun w h => ?_, fun w wallet n h => hbalance h.2,
    fun w wallet h => hbalance h.2, fun w wallets ns h => ?_, fun w wallets h => ?_⟩
  · have hprobe : ProbeAnswer.declares b = chain.probe block := h.2
    exact hdeclared (d := some b) (by rw [declared, ← hprobe]) rfl
  · have hprobe : ProbeAnswer.refused = chain.probe block := h.2
    exact hdeclared (d := some false) (by rw [declared, ← hprobe]) rfl
  · have hprobe : ProbeAnswer.failed = chain.probe block := h.2
    exact hdeclared (d := none) (by rw [declared, ← hprobe]) rfl
  · exact (List.mapM_eq_some_iff.mp (multicall_eq h.2).symm).imp fun _ _ hn => hbalance hn.symm
  · obtain ⟨wallet, hwallet, hnone⟩ := List.mapM_eq_none_iff.mp (multicall_eq h.2).symm
    exact ⟨wallet, hwallet, hbalance hnone.symm⟩

lemma blockOf_head : chain.blockOf .head (headEpoch chain.head) = some chain.head :=
  if_pos rfl

lemma blockOf_pinned : chain.blockOf .pinned block = some block :=
  rfl

/-- The reads of an evaluation give the facts of the chain. -/
lemma reads (k : ℕ) :
    (chain.facts getAddress).Reads chain.headFacts (readsOf (chain.answers getAddress) k) where
  head := fun w head h => Option.some.inj h.2
  headFails := fun w h => by cases h.2
  atHead := fun w head hhead => by
    obtain rfl : head = chain.head := hhead
    exact readsAt blockOf_head
  pinned := fun _ => readsAt blockOf_pinned

/-- A leg that scores by the facts scores as the chain says. -/
lemma legScore_of_scores {leg : Leg} {epoch : ℕ} {wallet : JsString} {scored : Scored}
    (hblock : chain.blockOf leg epoch = some block)
    (h : (chain.facts getAddress).Scores leg epoch contract min w wallet scored) :
    chain.legScore getAddress contract min block wallet = some scored := by
  rw [legScore]
  rcases h with ⟨hdeclares, rfl⟩ | ⟨hdeclares, n, hn, rfl⟩
  · rw [hdeclares block hblock]
    rfl
  · rw [hdeclares block hblock, Option.bind_some, if_pos rfl, hn block hblock, Option.map_some]

lemma legScore_of_fails {leg : Leg} {epoch : ℕ} {wallet : JsString}
    (hblock : chain.blockOf leg epoch = some block)
    (h : (chain.facts getAddress).Fails leg epoch w wallet) :
    chain.legScore getAddress contract min block wallet = none := by
  rw [legScore]
  rcases h with hprobe | ⟨hdeclares, hn⟩
  · rw [hprobe block hblock]
    rfl
  · rw [hdeclares block hblock, Option.bind_some, if_pos rfl, hn block hblock, Option.map_none]

lemma verdict_of_judged {wallet : RuleWallet} {result : RuleResult}
    (h : (chain.facts getAddress).Judged chain.head contract min w wallet result) :
    chain.verdict getAddress contract min wallet = some result := by
  obtain ⟨scored, hscored, hresult⟩ := h
  rw [verdict]
  rw [legScore_of_scores blockOf_head hscored, Option.bind_some]
  rcases hresult with ⟨hpos, rfl⟩ | ⟨hzero, pinned, hpinned, rfl⟩
  · rw [if_pos hpos]
  · rw [if_neg (by omega), legScore_of_scores blockOf_pinned hpinned, Option.map_some]

lemma verdict_of_unjudged {wallet : RuleWallet}
    (h : (chain.facts getAddress).Unjudged chain.head contract min w wallet) :
    chain.verdict getAddress contract min wallet = none := by
  rw [verdict]
  rcases h with hfails | ⟨scored, hscored, hzero, hfails⟩
  · rw [legScore_of_fails blockOf_head hfails, Option.bind_none]
  · rw [legScore_of_scores blockOf_head hscored, Option.bind_some, if_neg (by omega),
      legScore_of_fails blockOf_pinned hfails, Option.map_none]

lemma pinnedVerdict_of_judged {wallet : RuleWallet} {result : RuleResult}
    (h : (chain.facts getAddress).PinnedJudged contract min w wallet result) :
    chain.pinnedVerdict getAddress contract min wallet = some result := by
  obtain ⟨n, hn, rfl⟩ := h
  rw [pinnedVerdict]
  rw [hn wallet.sampleBlock blockOf_pinned, Option.map_some]

lemma pinnedVerdict_of_fails {wallet : RuleWallet}
    (h : (chain.facts getAddress).balanceFails .pinned wallet.sampleBlock wallet.address w) :
    chain.pinnedVerdict getAddress contract min wallet = none := by
  rw [pinnedVerdict]
  rw [h wallet.sampleBlock blockOf_pinned, Option.map_none]

/-! ### What the rules come to -/

section

variable {options : MinBalanceOptions} {wallets : List RuleWallet}

lemma verdicts_of_evaluated {o : Option (List RuleResult)}
    (h : (chain.facts getAddress).Evaluated chain.headFacts getAddress options wallets w o) :
    o = (getAddress options.contract).bind fun contract =>
      wallets.mapM (chain.verdict getAddress contract options.min) := by
  cases o with
  | some results =>
      obtain ⟨contract, head, hcontract, hhead, hout⟩ := h
      obtain rfl : head = chain.head := hhead
      rw [hcontract, Option.bind_some]
      exact (List.mapM_eq_some_iff.mpr (hout.imp fun _ _ => verdict_of_judged)).symm
  | none =>
      rcases h with hcontract | hfalse | ⟨contract, head, hcontract, hhead, wallet, hwallet, hfails⟩
      · rw [hcontract, Option.bind_none]
      · exact hfalse.elim
      · obtain rfl : head = chain.head := hhead
        rw [hcontract, Option.bind_some]
        exact (List.mapM_eq_none_iff.mpr ⟨wallet, hwallet, verdict_of_unjudged hfails⟩).symm

lemma pinnedVerdicts_of_outcomes {o : Option (List RuleResult)}
    (h : (chain.facts getAddress).PinnedOutcomes getAddress options wallets w o) :
    o = (getAddress options.contract).bind fun contract =>
      wallets.mapM (chain.pinnedVerdict getAddress contract options.min) := by
  cases o with
  | some results =>
      obtain ⟨contract, hcontract, hout⟩ := h
      rw [hcontract, Option.bind_some]
      exact (List.mapM_eq_some_iff.mpr (hout.imp fun _ _ => pinnedVerdict_of_judged)).symm
  | none =>
      rcases h with hcontract | ⟨wallet, hwallet, hfails⟩
      · rw [hcontract, Option.bind_none]
      · cases hcontract : getAddress options.contract with
        | none => rfl
        | some contract =>
            rw [Option.bind_some]
            exact (List.mapM_eq_none_iff.mpr ⟨wallet, hwallet, pinnedVerdict_of_fails hfails⟩).symm

lemma pinnedVerdict_of_outcome {wallet : RuleWallet} {o : Option RuleResult}
    (h : (chain.facts getAddress).PinnedOutcome getAddress options wallet w o) :
    o = (getAddress options.contract).bind fun contract =>
      chain.pinnedVerdict getAddress contract options.min wallet := by
  cases o with
  | some result =>
      obtain ⟨contract, hcontract, hjudged⟩ := h
      rw [hcontract, Option.bind_some, pinnedVerdict_of_judged hjudged]
  | none =>
      rcases h with hcontract | hfails
      · rw [hcontract, Option.bind_none]
      · cases hcontract : getAddress options.contract with
        | none => rfl
        | some contract => exact (pinnedVerdict_of_fails hfails).symm

/-- What a computation of a rule keeps to on the chain. -/
abbrev contractOf (chain : FixedChain) (getAddress : JsString → Option JsString) (k : ℕ) :
    Contract (Observations ChainRead.Answer) (RuleOp ChainRead) (RuleOp.Answer ChainRead.Answer) :=
  ruleContract (chain.facts getAddress).truth chain.headFacts.mayPurge
    (readsOf (chain.answers getAddress) k)

lemma keeps_verdicts (k : ℕ) (batchable : Bool) (wallets : List RuleWallet) :
    (evaluateMany getAddress options batchable wallets).Keeps (chain.contractOf getAddress k)
      (fun _ o => o = (getAddress options.contract).bind fun contract =>
        wallets.mapM (chain.verdict getAddress contract options.min)) w :=
  (LegFacts.keeps_evaluateMany (reads k) getAddress options batchable wallets).imp
    fun _ _ _ => verdicts_of_evaluated

/-- One wallet on its own: the batch of one has one result. -/
lemma keeps_verdict (k : ℕ) (batchable : Bool) (wallet : RuleWallet) :
    (evaluate getAddress options batchable wallet).Keeps (chain.contractOf getAddress k)
      (fun _ o => o = (getAddress options.contract).bind fun contract =>
        chain.verdict getAddress contract options.min wallet) w := by
  have hone : ∀ contract, [wallet].mapM (chain.verdict getAddress contract options.min)
      = (chain.verdict getAddress contract options.min wallet).map fun result => [result] := by
    intro contract
    cases hverdict : chain.verdict getAddress contract options.min wallet with
    | none => exact List.mapM_eq_none_iff.mpr ⟨wallet, List.mem_singleton.mpr rfl, hverdict⟩
    | some result => exact List.mapM_eq_some_iff.mpr (.cons hverdict .nil)
  refine (keeps_verdicts k batchable [wallet]).bind (fun _ _ results hresults => ?_)
    fun _ _ hnone => ?_
  · cases hcontract : getAddress options.contract with
    | none =>
        rw [hcontract] at hresults
        cases hresults
    | some contract =>
        rw [hcontract, Option.bind_some, hone] at hresults
        obtain ⟨result, hresult, rfl⟩ := Option.map_eq_some_iff.mp hresults.symm
        exact hresult.symm
  · cases hcontract : getAddress options.contract with
    | none => rfl
    | some contract =>
        rw [hcontract, Option.bind_some, hone] at hnone
        exact (Option.map_eq_none_iff.mp hnone.symm).symm

lemma keeps_pinnedVerdicts (k : ℕ) (batchable : Bool) (wallets : List RuleWallet) :
    (Erc721.evaluateMany getAddress options batchable wallets).Keeps (chain.contractOf getAddress k)
      (fun _ o => o = (getAddress options.contract).bind fun contract =>
        wallets.mapM (chain.pinnedVerdict getAddress contract options.min)) w :=
  (LegFacts.keeps_evaluateMany721 (reads k).pinned batchable wallets).imp
    fun _ _ _ => pinnedVerdicts_of_outcomes

lemma keeps_pinnedVerdict (k : ℕ) (wallet : RuleWallet) :
    (Erc721.evaluate getAddress options wallet).Keeps (chain.contractOf getAddress k)
      (fun _ o => o = (getAddress options.contract).bind fun contract =>
        chain.pinnedVerdict getAddress contract options.min wallet) w :=
  (LegFacts.keeps_evaluate721 (reads k).pinned wallet).imp fun _ _ _ => pinnedVerdict_of_outcome

end

/-! ### Runs on the chain -/

/-- An evaluation has had an outcome, in some run on the chain over truthful caches. -/
def Returned {Call α : Type} (chain : FixedChain) (getAddress : JsString → Option JsString)
    (maxEntries : ℕ) (ns : JsString) (body : Call → RuleProc ChainRead.Answer α) (call : Call)
    (o : Option α) : Prop :=
  ∃ caches t k c, chain.TruthfulFor getAddress ns caches ∧
    Reaches (RuleRuns.step body maxEntries ns)
      (fun _ i => RuleRuns.Honest (chain.answers getAddress) i) (RuleRuns.onCaches caches) t ∧
    t.calls k = some c ∧ c.call = call ∧ c.proc.outcome? = some o

/-- Every outcome is the one that the chain gives. -/
lemma returned_eq {Call α : Type} {body : Call → RuleProc ChainRead.Answer α}
    {given : Call → Option α} {maxEntries : ℕ} {ns : JsString} {call : Call} {o : Option α}
    (hbody : ∀ k call w, (body call).Keeps (chain.contractOf getAddress k)
      (fun _ o => o = given call) w)
    (h : chain.Returned getAddress maxEntries ns body call o) : o = given call := by
  obtain ⟨caches, t, k, c, htruth, hreach, hcall, rfl, hout⟩ := h
  have hinv := RuleRuns.inv_of_reaches (fun _ => chain.headFacts.mayPurge)
    (fun _ call _ o => o = given call) (fun _ _ _ _ _ _ ho => ho) hbody htruth hreach
  exact (hinv.calls k c hcall).outcome hout

/-- What the chain tells is one of its answers. -/
lemma answers_answer (r : ChainRead) : chain.answers getAddress r (chain.answer getAddress r) := by
  cases r with
  | head => rfl
  | supportsInterface block => rfl
  | balanceOf block wallet => rfl
  | multicall block wallets =>
      have houtcome : ∃ o, BatchOutcome (chain.chunkAnswers getAddress block) wallets o :=
        exists_batchOutcome (fun _ chunk => ⟨_, .inl rfl⟩) wallets
      obtain ⟨o, ho⟩ := houtcome
      have heq : o = chain.answer getAddress (.multicall block wallets) := multicall_eq ho
      exact heq ▸ ho

lemma exists_answer (r : ChainRead) : ∃ answer, chain.answers getAddress r answer :=
  ⟨_, answers_answer r⟩

/-- The outcomes for the wallets one by one, as one outcome. -/
lemma eq_mapM_of_forall₂ {contract : Option JsString}
    {given : JsString → RuleWallet → Option RuleResult} {wallets : List RuleWallet}
    {outcomes : List (Option RuleResult)}
    (h : List.Forall₂ (fun wallet o => o = contract.bind fun c => given c wallet) wallets
      outcomes) :
    (contract.bind fun c => wallets.mapM (given c)) = contract.bind fun _ => outcomes.mapM id := by
  cases contract with
  | none => rfl
  | some c =>
      have houtcomes : wallets.map (given c) = outcomes := by
        rw [← List.forall₂_eq_eq_eq, List.forall₂_map_left_iff]
        exact h.imp fun _ _ heq => heq.symm
      rw [Option.bind_some, Option.bind_some, ← houtcomes, List.mapM_map, Function.id_comp]

/-- `evaluateMany` of the balance-scored gates returns, position by position, what `evaluate`
returns for each wallet on its own, on a chain that does not move and over any truthful caches; it
rejects if one of these does, or the contract is no address. All evaluations come to an end. -/
theorem batched_evaluation (chain : FixedChain) (getAddress : JsString → Option JsString)
    (options : MinBalanceOptions) (batchable batchable' : Bool) (maxEntries : ℕ) (ns : JsString) :
    ((∀ wallets o outcomes,
        chain.Returned getAddress maxEntries ns
          (Erc5192.evaluateMany getAddress options batchable) wallets o →
        List.Forall₂ (chain.Returned getAddress maxEntries ns
          (Erc5192.evaluate getAddress options batchable')) wallets outcomes →
        o = (getAddress options.contract).bind fun _ => outcomes.mapM id) ∧
      RuleRuns.Completes (Erc5192.evaluateMany getAddress options batchable) maxEntries ns
        (chain.answers getAddress) ∧
      RuleRuns.Completes (Erc5192.evaluate getAddress options batchable') maxEntries ns
        (chain.answers getAddress)) ∧
    (∀ wallets o outcomes,
        chain.Returned getAddress maxEntries ns
          (Erc721.evaluateMany getAddress options batchable) wallets o →
        List.Forall₂ (chain.Returned getAddress maxEntries ns
          (Erc721.evaluate getAddress options)) wallets outcomes →
        o = (getAddress options.contract).bind fun _ => outcomes.mapM id) ∧
      RuleRuns.Completes (Erc721.evaluateMany getAddress options batchable) maxEntries ns
        (chain.answers getAddress) ∧
      RuleRuns.Completes (Erc721.evaluate getAddress options) maxEntries ns
        (chain.answers getAddress) := by
  refine ⟨⟨fun wallets o outcomes hmany hone => ?_, RuleRuns.completes _ _ _ exists_answer,
    RuleRuns.completes _ _ _ exists_answer⟩, fun wallets o outcomes hmany hone => ?_,
    RuleRuns.completes _ _ _ exists_answer, RuleRuns.completes _ _ _ exists_answer⟩
  · rw [returned_eq (fun k wallets w => keeps_verdicts k batchable wallets) hmany]
    exact eq_mapM_of_forall₂
      (hone.imp fun _ _ => returned_eq fun k wallet w => keeps_verdict k batchable' wallet)
  · rw [returned_eq (fun k wallets w => keeps_pinnedVerdicts k batchable wallets) hmany]
    exact eq_mapM_of_forall₂
      (hone.imp fun _ _ => returned_eq fun k wallet w => keeps_pinnedVerdict k wallet)

/-! ### A run -/

lemma truthfulFor_empty (ns : JsString) : chain.TruthfulFor getAddress ns RuleCaches.empty :=
  fun key epoch value hvalue => by
    rw [RuleCaches.mem_held_iff] at hvalue
    simp [RuleCaches.empty] at hvalue

/-- An outcome of a script over empty caches, on a chain that tells the answers. -/
lemma returned_of_script {Call α : Type} [DecidableEq Call] [DecidableEq α] {maxEntries : ℕ}
    {ns : JsString} {body : Call → RuleProc ChainRead.Answer α} {call : Call} {o : Option α}
    (script : List (ScriptedInput Call))
    (h : (runIf (fun s j => RuleRuns.step body maxEntries ns s
      (ScriptedInput.play (chain.answer getAddress) j)) (fun _ _ => True) script
        (RuleRuns.onCaches RuleCaches.empty)).any (fun t => (t.calls 0).any fun c =>
          decide (c.call = call ∧ c.proc.outcome? = some o)) = true) :
    chain.Returned getAddress maxEntries ns body call o := by
  obtain ⟨t, ht, hany⟩ := (Option.any_eq_true _ _).mp h
  obtain ⟨c, hc, hdec⟩ := (Option.any_eq_true _ _).mp hany
  obtain ⟨hcall, hout⟩ := of_decide_eq_true hdec
  exact ⟨_, t, 0, c, truthfulFor_empty ns, RuleRuns.reaches_of_script answers_answer ht, hc, hcall,
    hout⟩

/-- A chain on which every wallet holds two tokens of a contract that declares ERC-5192. -/
def holderChain : FixedChain := ⟨95, fun _ => .declares true, fun _ _ => some 2⟩

/-- Both spellings of an address, at different blocks. -/
def holderWallets : List RuleWallet := [⟨ofString "0xAA", 60⟩, ⟨ofString "0xaa", 30⟩]

/-- A batch of two wallets: the head, the purge, the declaration and the batched balances, each
looked up, read and memoised. -/
def batchScript : List (ScriptedInput (List RuleWallet)) :=
  .start 0 0 holderWallets ::
    [[], [], [0], [0], [], [], [], [0], [0], [], [], [], []].map (.advance 0)

/-- One wallet of the two, with its balance read on its own. -/
def singleScript (wallet : RuleWallet) : List (ScriptedInput RuleWallet) :=
  .start 0 0 wallet ::
    [[], [], [0], [0], [], [], [], [0], [0], [], [0], [], [], []].map (.advance 0)

lemma returned_batch :
    holderChain.Returned some 4096 (ofString "gate")
      (Erc5192.evaluateMany some ⟨ofString "0xCC", 1⟩ true) holderWallets
      (some [.success 2, .success 2]) :=
  returned_of_script batchScript (by decide +kernel)

lemma returned_single (wallet : RuleWallet) (h : wallet ∈ holderWallets) :
    holderChain.Returned some 4096 (ofString "gate")
      (Erc5192.evaluate some ⟨ofString "0xCC", 1⟩ false) wallet (some (.success 2)) := by
  refine returned_of_script (singleScript wallet) ?_
  revert wallet
  decide +kernel

/-- Two spellings of one holder are admitted together as they are one by one. -/
theorem batched_evaluation_holder :
    List.Forall₂ (holderChain.Returned some 4096 (ofString "gate")
        (Erc5192.evaluate some ⟨ofString "0xCC", 1⟩ false)) holderWallets
        [some (.success 2), some (.success 2)] ∧
      some [RuleResult.success 2, .success 2] = (some (ofString "0xCC")).bind fun _ =>
        [some (.success 2), some (.success 2)].mapM id := by
  have hsingles : List.Forall₂ (holderChain.Returned some 4096 (ofString "gate")
      (Erc5192.evaluate some ⟨ofString "0xCC", 1⟩ false)) holderWallets
      [some (.success 2), some (.success 2)] :=
    .cons (returned_single _ (by decide)) (.cons (returned_single _ (by decide)) .nil)
  exact ⟨hsingles, (batched_evaluation holderChain some ⟨ofString "0xCC", 1⟩ true false 4096
    (ofString "gate")).1.1 _ _ _ returned_batch hsingles⟩

end FixedChain

end PubsubVoting
