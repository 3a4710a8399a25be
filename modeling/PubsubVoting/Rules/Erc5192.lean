import PubsubVoting.Rules.Gate
import PubsubVoting.Rules.Memo
import PubsubVoting.Rules.NftBalance

/-!
The soulbound gate: hold at least `min` of a contract that declares its tokens locked, at the head
or at the block the ballot names.

* `ChainRead`: what a balance rule reads of its contract.
* `Erc5192.scoreAt`: every wallet at one block, memoised under one epoch; `Erc5192.evaluateMany`:
  the head leg for all wallets, and the pinned leg for those it refused.
* `LegFacts`: what is known of a leg; `LegFacts.truth`: what its entries in the cache stand for.
* `keeps_scoreAt`, `keeps_evaluateMany`: every result is the one its wallet's facts give, position
  by position.
-/

namespace PubsubVoting

open JsString

/-! ### The rule -/

/-- What a balance rule reads of its contract. -/
inductive ChainRead where
  | head
  | supportsInterface (block : ℕ)
  | multicall (block : ℕ) (wallets : List JsString)
  | balanceOf (block : ℕ) (wallet : JsString)

/-- The answer to a probe: the contract's, that it does not answer such a call, or an outage. -/
inductive ProbeAnswer where
  | declares (b : Bool)
  | refused
  | failed
  deriving DecidableEq

/-- What a read is answered; `none` is a rejection. -/
abbrev ChainRead.Answer : ChainRead → Type
  | .head => Option ℕ
  | .supportsInterface _ => ProbeAnswer
  | .multicall _ _ => Option (List ℕ)
  | .balanceOf _ _ => Option ℕ

/-- The options of a balance rule. -/
structure MinBalanceOptions where
  contract : JsString
  min : ℕ

/-- One balance after the other, or in batches where the client can. -/
def balancesOf (batchable : Bool) (wallets : List JsString) (block : ℕ) :
    RuleProc ChainRead.Answer (List ℕ) :=
  if batchable then
    .ask (.read (.multicall block wallets)) fun
      | some balances => .done balances
      | none => .throw
  else Proc.mapAll wallets fun wallet => .ask (.read (.balanceOf block wallet)) fun
    | some balance => .done balance
    | none => .throw

/-- A leg of the gate: scored at the head, or at the block the ballot names. -/
inductive Leg where
  | head
  | pinned
  deriving DecidableEq

namespace Erc5192

/-- `HEAD_EPOCH_BLOCKS` -/
def headEpochBlocks : ℕ := 30

/-- The window of a head. -/
def headEpoch (head : ℕ) : ℕ := head / headEpochBlocks * headEpochBlocks

/-- `HEAD_PREFIX` and `PINNED_PREFIX` -/
def keyPrefix : Leg → JsString
  | .head => ofString "head/"
  | .pinned => ofString "pin/"

/-- The entry of the declaration. -/
def lockKey (leg : Leg) (contract : JsString) : JsString :=
  (keyPrefix leg ++ ofString "lock/") ++ contract.toLowerCase

/-- The entry of a wallet's balance. -/
def balanceKey (leg : Leg) (wallet : JsString) : JsString :=
  (keyPrefix leg ++ ofString "bal/") ++ wallet.toLowerCase

/-- The wallet a balance's key names. -/
def walletOfKey (key : JsString) : JsString := afterLast 47 key

/-- The wording for a contract that is not soulbound. -/
def undeclaredError (contract : JsString) : String :=
  s!"the gate contract {contract.toWellFormed} does not declare ERC-5192, so it gates nothing " ++
    "and no wallet can qualify — this contest's criteria name a contract that is not soulbound"

/-- `UNKNOWN_ERROR` -/
def unknownError : String := "this wallet does not qualify for this contest's gate"

/-- One probe at a block. A contract that does not answer it does not declare. -/
def declaresErc5192 (block : ℕ) : RuleProc ChainRead.Answer Bool :=
  .ask (.read (.supportsInterface block)) fun
    | .declares b => .done b
    | .refused => .done false
    | .failed => .throw

/-- A score and, for a wallet that does not qualify, the reason. -/
abbrev Scored := ℕ × Option String

/-- The score of one balance. -/
def scoredOf (contract : JsString) (min balance : ℕ) : Scored :=
  let score := scoreOf balance min
  (score, if 0 < score then none else some (shortfallError balance min contract))

/-- The score of a wallet whose contract declares nothing. -/
def undeclared (contract : JsString) : Scored := (0, some (undeclaredError contract))

/-- The memoised declaration. -/
def lockAt (leg : Leg) (contract : JsString) (block epoch : ℕ) :
    RuleProc ChainRead.Answer (List JsString) :=
  RuleCache.memoMany [lockKey leg contract] epoch fun _ =>
    (declaresErc5192 block).bind fun declares => .done [decimal (if declares then 1 else 0)]

/-- The memoised balances. -/
def balancesAt (leg : Leg) (batchable : Bool) (wallets : List JsString) (block epoch : ℕ) :
    RuleProc ChainRead.Answer (List JsString) :=
  RuleCache.memoMany (wallets.map (balanceKey leg)) epoch fun keys =>
    (balancesOf batchable (keys.map walletOfKey) block).bind fun balances =>
      .done (balances.map decimal)

/-- Every wallet at one block, memoised under one epoch. -/
def scoreAt (leg : Leg) (contract : JsString) (min : ℕ) (batchable : Bool)
    (wallets : List JsString) (block epoch : ℕ) : RuleProc ChainRead.Answer (List Scored) :=
  if wallets = [] then .done []
  else (lockAt leg contract block epoch).bind fun declared =>
    if declared.head? ≠ some (decimal 1) then .done (wallets.map fun _ => undeclared contract)
    else (balancesAt leg batchable wallets block epoch).bind fun values =>
      match values.mapM number? with
      | some balances => .done (balances.map (scoredOf contract min))
      | none => .throw

/-- A leg's last word on a wallet. A failure is never attributable. -/
def resultOf : Scored → RuleResult
  | (score, error) =>
    if 0 < score then .success score else .failure (error.getD unknownError) (some false)

/-- The wallets the head leg refused, each under the block its ballot names. -/
def refusedPositions (scores : List Scored) (wallets : List RuleWallet) : List (ℕ × ℕ) :=
  (scores.zip wallets).zipIdx.filterMap fun e =>
    if 0 < e.1.1.1 then none else some (e.1.2.sampleBlock, e.2)

/-- The addresses at some positions. -/
def addressesAt (wallets : List RuleWallet) (ats : List ℕ) : List JsString :=
  ats.map fun i => (wallets[i]?.map RuleWallet.address).getD []

/-- The pinned leg, for the wallets of one block. -/
def fallback (contract : JsString) (min : ℕ) (batchable : Bool) (wallets : List RuleWallet)
    (group : ℕ × List ℕ) : RuleProc ChainRead.Answer (List Scored) :=
  scoreAt .pinned contract min batchable (addressesAt wallets group.2) group.1 group.1

/-- The pinned leg for the wallets that the head leg refused, block by block. It has the last word
on their scores. -/
def fallBack (contract : JsString) (min : ℕ) (batchable : Bool) (wallets : List RuleWallet)
    (scores : List Scored) : RuleProc ChainRead.Answer (List RuleResult) :=
  let byBlock := (groupPositions (refusedPositions scores wallets)).entries
  (Proc.mapAll byBlock (fallback contract min batchable wallets)).bind fun fallbacks =>
    .done ((scatterAll scores ((byBlock.map Prod.snd).zip fallbacks)).map resultOf)

/-- `evaluateMany`: the entries behind the head's window are purged, all wallets are scored at the
head, and those it refuses at their own blocks. -/
def evaluateMany (getAddress : JsString → Option JsString) (options : MinBalanceOptions)
    (batchable : Bool) (wallets : List RuleWallet) : RuleProc ChainRead.Answer (List RuleResult) :=
  match getAddress options.contract with
  | none => .throw
  | some contract => .ask (.read .head) fun
    | none => .throw
    | some head => .ask (.cache (.purgeBelow (headEpoch head) (some (keyPrefix .head)))) fun _ =>
      (scoreAt .head contract options.min batchable (wallets.map RuleWallet.address) head
        (headEpoch head)).bind (fallBack contract options.min batchable wallets)

/-- `evaluate`: one wallet is the batch of one. -/
def evaluate (getAddress : JsString → Option JsString) (options : MinBalanceOptions)
    (batchable : Bool) (wallet : RuleWallet) : RuleProc ChainRead.Answer RuleResult :=
  (evaluateMany getAddress options batchable [wallet]).bind fun
    | result :: _ => .done result
    | [] => .throw  -- there is a result for the one wallet

/-! ### What the entries stand for -/

lemma walletOfKey_balanceKey (leg : Leg) (wallet : JsString) :
    walletOfKey (balanceKey leg wallet) = walletOfKey wallet.toLowerCase := by
  have hsplit : balanceKey leg wallet
      = (keyPrefix leg ++ ofString "bal") ++ 47 :: wallet.toLowerCase := by
    have hbal : ofString "bal/" = ofString "bal" ++ [47] := by decide
    rw [balanceKey, hbal]
    simp
  rw [hsplit, walletOfKey, afterLast_append_sep, walletOfKey]

/-- The keys that a leg's declaration is under. -/
def lockPrefix (leg : Leg) : JsString := keyPrefix leg ++ ofString "lock/"

/-- The keys that a leg's balances are under. -/
def balancePrefix (leg : Leg) : JsString := keyPrefix leg ++ ofString "bal/"

lemma lockPrefix_starts (leg : Leg) (contract : JsString) :
    lockPrefix leg <+: lockKey leg contract := List.prefix_append _ _

lemma balancePrefix_starts (leg : Leg) (wallet : JsString) :
    balancePrefix leg <+: balanceKey leg wallet := List.prefix_append _ _

/-- No key is under two of the prefixes. -/
lemma not_starts_of_starts {p q key : JsString} (hp : p <+: key) (hpq : ¬ p <+: q)
    (hqp : ¬ q <+: p) : ¬ q <+: key := fun hq =>
  (List.prefix_or_prefix_of_prefix hp hq).elim hpq hqp

/-- What the keys of a leg start with, those of its locks and those of its balances. -/
def legPrefix (leg : Leg) : Bool → JsString
  | true => lockPrefix leg
  | false => balancePrefix leg

/-- No key starts with two of them. -/
lemma legPrefix_inj {leg leg' : Leg} {lock lock' : Bool} {key : JsString}
    (h : legPrefix leg lock <+: key) (h' : legPrefix leg' lock' <+: key) :
    leg = leg' ∧ lock = lock' := by
  by_contra hne
  refine not_starts_of_starts h ?_ ?_ h'
  · cases leg <;> cases leg' <;> cases lock <;> cases lock' <;> revert hne <;> decide
  · cases leg <;> cases leg' <;> cases lock <;> cases lock' <;> revert hne <;> decide

lemma lockPrefix_inj {leg leg' : Leg} {key : JsString} (h : lockPrefix leg <+: key)
    (h' : lockPrefix leg' <+: key) : leg = leg' :=
  (legPrefix_inj (show legPrefix leg true <+: key from h)
    (show legPrefix leg' true <+: key from h')).1

lemma balancePrefix_inj {leg leg' : Leg} {key : JsString} (h : balancePrefix leg <+: key)
    (h' : balancePrefix leg' <+: key) : leg = leg' :=
  (legPrefix_inj (show legPrefix leg false <+: key from h)
    (show legPrefix leg' false <+: key from h')).1

lemma not_lock_of_balance {leg leg' : Leg} {key : JsString} (h : balancePrefix leg <+: key) :
    ¬ lockPrefix leg' <+: key := fun h' =>
  Bool.false_ne_true (legPrefix_inj (show legPrefix leg false <+: key from h)
    (show legPrefix leg' true <+: key from h')).2

lemma not_balance_of_lock {leg leg' : Leg} {key : JsString} (h : lockPrefix leg <+: key) :
    ¬ balancePrefix leg' <+: key := fun h' => not_lock_of_balance h' h

end Erc5192

open Erc5192 Proc

/-- What an evaluation knows of its head: what it may have been answered, and that it may have been
refused. -/
structure HeadFacts (W : Type) [Preorder W] where
  headIs : ℕ → (W →o Prop)
  headFails : W →o Prop

/-- The purges of an evaluation: below the window of its head, of the head's entries only. -/
def HeadFacts.mayPurge {W : Type} [Preorder W] (H : HeadFacts W) (epoch : ℕ)
    (pre : Option JsString) : W →o Prop where
  toFun w := ∃ head, H.headIs head w ∧ epoch = headEpoch head ∧ pre = some (keyPrefix .head)
  monotone' := fun _ _ hw ⟨head, hhead, h⟩ => ⟨head, (H.headIs head).monotone hw hhead, h⟩

/-- What is known of a leg under an epoch, in worlds that grow: what a probe or a read of a balance
may have answered, and that it may have been refused. -/
structure LegFacts (W : Type) [Preorder W] where
  declares : Leg → ℕ → Bool → (W →o Prop)
  balance : Leg → ℕ → JsString → ℕ → (W →o Prop)
  probeFails : Leg → ℕ → (W →o Prop)
  balanceFails : Leg → ℕ → JsString → (W →o Prop)

namespace LegFacts

section

variable {W : Type} [Preorder W] (F : LegFacts W)

/-- What an entry stands for: a declaration, or a balance. -/
def truth : CacheTruth W where
  holds w key epoch value := ∀ leg,
    (lockPrefix leg <+: key → F.declares leg epoch (decide (value = decimal 1)) w) ∧
      (balancePrefix leg <+: key →
        ∃ n, value = decimal n ∧ F.balance leg epoch (walletOfKey key) n w)
  holds_mono := fun {w w' key epoch value} hw h leg =>
    ⟨fun hp => (F.declares _ _ _).monotone hw ((h leg).1 hp), fun hp => by
      obtain ⟨n, hn, hbalance⟩ := (h leg).2 hp
      exact ⟨n, hn, (F.balance _ _ _ _).monotone hw hbalance⟩⟩

/-- The reads of a leg's block give the facts of the leg under an epoch. -/
structure ReadsAt (okRead : W → (r : ChainRead) → r.Answer → Prop) (leg : Leg) (epoch block : ℕ) :
    Prop where
  declares : ∀ w b, okRead w (.supportsInterface block) (.declares b) → F.declares leg epoch b w
  refused : ∀ w, okRead w (.supportsInterface block) .refused → F.declares leg epoch false w
  failed : ∀ w, okRead w (.supportsInterface block) .failed → F.probeFails leg epoch w
  balance : ∀ w wallet n, okRead w (.balanceOf block wallet) (some n) →
    F.balance leg epoch wallet n w
  balanceFails : ∀ w wallet, okRead w (.balanceOf block wallet) none →
    F.balanceFails leg epoch wallet w
  balances : ∀ w wallets ns, okRead w (.multicall block wallets) (some ns) →
    List.Forall₂ (fun wallet n => F.balance leg epoch wallet n w) wallets ns
  balancesFail : ∀ w wallets, okRead w (.multicall block wallets) none →
    ∃ wallet ∈ wallets, F.balanceFails leg epoch wallet w

/-- The score of a wallet by the facts of a leg. -/
def Scores (leg : Leg) (epoch : ℕ) (contract : JsString) (min : ℕ) (w : W) (wallet : JsString)
    (scored : Scored) : Prop :=
  F.declares leg epoch false w ∧ scored = undeclared contract ∨
    F.declares leg epoch true w ∧
      ∃ n, F.balance leg epoch (walletOfKey wallet.toLowerCase) n w ∧
        scored = scoredOf contract min n

/-- A leg cannot score a wallet: a read that it takes may be refused. -/
def Fails (leg : Leg) (epoch : ℕ) (w : W) (wallet : JsString) : Prop :=
  F.probeFails leg epoch w ∨
    F.declares leg epoch true w ∧ F.balanceFails leg epoch (walletOfKey wallet.toLowerCase) w

/-- The outcome of a read of some balances. -/
def BalancesOutcome (leg : Leg) (epoch : ℕ) (wallets : List JsString) (w : W) :
    Option (List ℕ) → Prop
  | some ns => List.Forall₂ (fun wallet n => F.balance leg epoch wallet n w) wallets ns
  | none => ∃ wallet ∈ wallets, F.balanceFails leg epoch wallet w

/-- The outcome of a leg. -/
def LegOutcome (leg : Leg) (epoch : ℕ) (contract : JsString) (min : ℕ)
    (wallets : List JsString) (w : W) : Option (List Scored) → Prop
  | some scores => List.Forall₂ (F.Scores leg epoch contract min w) wallets scores
  | none => ∃ wallet ∈ wallets, F.Fails leg epoch w wallet

end

section

variable {W : Type} [Preorder W] {F : LegFacts W} {H : HeadFacts W}
  {mayPurge : ℕ → Option JsString → (W →o Prop)} {leg : Leg} {epoch block min : ℕ}
  {contract : JsString} {w w' : W} {wallets : List JsString}
  {okRead : W → (r : ChainRead) → r.Answer → Prop}

lemma Scores.mono {wallet : JsString} {scored : Scored} (hw : w ≤ w')
    (h : F.Scores leg epoch contract min w wallet scored) :
    F.Scores leg epoch contract min w' wallet scored := by
  rcases h with ⟨hd, hs⟩ | ⟨hd, n, hn, hs⟩
  · exact .inl ⟨(F.declares _ _ _).monotone hw hd, hs⟩
  · exact .inr ⟨(F.declares _ _ _).monotone hw hd, n, (F.balance _ _ _ _).monotone hw hn, hs⟩

lemma Fails.mono {wallet : JsString} (hw : w ≤ w') (h : F.Fails leg epoch w wallet) :
    F.Fails leg epoch w' wallet := by
  rcases h with hp | ⟨hd, hb⟩
  · exact .inl ((F.probeFails _ _).monotone hw hp)
  · exact .inr ⟨(F.declares _ _ _).monotone hw hd, (F.balanceFails _ _ _).monotone hw hb⟩

lemma lasting_legOutcome : Lasting (F.LegOutcome leg epoch contract min wallets) := by
  intro w w' hw o ho
  cases o with
  | none =>
      obtain ⟨wallet, hmem, hfails⟩ := ho
      exact ⟨wallet, hmem, hfails.mono hw⟩
  | some scores => exact ho.imp fun _ _ => Scores.mono hw

/-! ### One leg -/

/-- The declaration, read at the leg's block or found in the cache. -/
lemma keeps_lockAt (hreads : F.ReadsAt okRead leg epoch block) :
    (lockAt leg contract block epoch).Keeps (ruleContract F.truth mayPurge okRead)
      (F.truth.Memoised [lockKey leg contract] epoch (F.probeFails leg epoch)) w := by
  refine keeps_memoMany fun w₁ _ missing hmissing hnodup hne => ?_
  -- there is one key, and it is missing
  obtain rfl : missing = [lockKey leg contract] := by
    cases missing with
    | nil => exact absurd rfl hne
    | cons key keys =>
        obtain rfl := List.mem_singleton.mp (hmissing key (by simp))
        cases keys with
        | nil => rfl
        | cons key' keys =>
            obtain rfl := List.mem_singleton.mp (hmissing key' (by simp))
            simp at hnodup
  have hentry : ∀ w' b, F.declares leg epoch b w' →
      F.truth.Memoised [lockKey leg contract] epoch (F.probeFails leg epoch) w'
        (some [decimal (if b then 1 else 0)]) := by
    intro w' b hb
    refine List.Forall₂.cons (fun leg' => ⟨fun hp => ?_, fun hp => ?_⟩) .nil
    · rw [← lockPrefix_inj (lockPrefix_starts leg contract) hp]
      have hvalue : decide (decimal (if b then 1 else 0) = decimal 1) = b := by cases b <;> decide
      rwa [hvalue]
    · exact absurd hp (not_balance_of_lock (lockPrefix_starts leg contract))
  refine ⟨trivial, fun w₂ _ answer hanswer => ?_⟩
  cases answer with
  | declares b => exact hentry w₂ b (hreads.declares w₂ b hanswer)
  | refused => exact hentry w₂ false (hreads.refused w₂ hanswer)
  | failed => exact hreads.failed w₂ hanswer

/-- The balances of some keys, read at the leg's block in batches or one by one. -/
lemma keeps_balancesOf (hreads : F.ReadsAt okRead leg epoch block) (batchable : Bool)
    (wallets : List JsString) :
    (balancesOf batchable wallets block).Keeps (ruleContract F.truth mayPurge okRead)
      (F.BalancesOutcome leg epoch wallets) w := by
  rw [balancesOf]
  split_ifs
  · refine ⟨trivial, fun w₁ _ answer hanswer => ?_⟩
    cases answer with
    | some ns => exact hreads.balances w₁ wallets ns hanswer
    | none => exact hreads.balancesFail w₁ wallets hanswer
  · have hall := Keeps.mapAll (C := ruleContract F.truth mayPurge okRead) (w := w) wallets
      (fun wallet => .ask (.read (.balanceOf block wallet)) fun
        | some balance => .done balance
        | none => .throw)
      (fun wallet w' o => o.elim (F.balanceFails leg epoch wallet w') fun n =>
        F.balance leg epoch wallet n w') (fun wallet _ w w' hw o ho => ?_)
      fun wallet _ => ?_
    · refine hall.imp fun w' _ o ho => ?_
      cases o with
      | some ns => exact ho
      | none => exact ho
    · cases o with
      | some n => exact (F.balance _ _ _ _).monotone hw ho
      | none => exact (F.balanceFails _ _ _).monotone hw ho
    · refine ⟨trivial, fun w₁ _ answer hanswer => ?_⟩
      cases answer with
      | some n => exact hreads.balance w₁ wallet n hanswer
      | none => exact hreads.balanceFails w₁ wallet hanswer

/-- The balances of a leg, read at its block or found in the cache. -/
lemma keeps_balancesAt (hreads : F.ReadsAt okRead leg epoch block) (batchable : Bool)
    (wallets : List JsString) :
    (balancesAt leg batchable wallets block epoch).Keeps (ruleContract F.truth mayPurge okRead)
      (F.truth.Memoised (wallets.map (balanceKey leg)) epoch fun w' =>
        ∃ wallet ∈ wallets, F.balanceFails leg epoch (walletOfKey wallet.toLowerCase) w') w := by
  refine keeps_memoMany fun w₁ _ missing hmissing _ _ => ?_
  have hkey : ∀ key ∈ missing, ∃ wallet ∈ wallets, key = balanceKey leg wallet := fun key hkey => by
    obtain ⟨wallet, hwallet, rfl⟩ := List.mem_map.mp (hmissing key hkey)
    exact ⟨wallet, hwallet, rfl⟩
  refine (keeps_balancesOf hreads batchable _).bind (fun w₂ _ ns hns => ?_) fun w₂ _ hfails => ?_
  · -- a balance is memoised as its digits
    show List.Forall₂ _ missing (ns.map decimal)
    have hread := List.forall₂_map_left_iff.mp hns
    rw [List.forall₂_map_right_iff]
    refine List.forall₂_iff_zip.mpr ⟨hread.length_eq, fun {key n} hmem leg' => ?_⟩
    obtain ⟨wallet, -, rfl⟩ := hkey key (List.of_mem_zip hmem).1
    refine ⟨fun hp => absurd hp (not_lock_of_balance (balancePrefix_starts leg wallet)),
      fun hp => ⟨n, rfl, ?_⟩⟩
    rw [← balancePrefix_inj (balancePrefix_starts leg wallet) hp]
    exact (List.forall₂_iff_zip.mp hread).2 hmem
  · obtain ⟨named, hnamed, hfail⟩ := hfails
    obtain ⟨key, hmem, rfl⟩ := List.mem_map.mp hnamed
    obtain ⟨wallet, hwallet, rfl⟩ := hkey key hmem
    rw [walletOfKey_balanceKey] at hfail
    exact ⟨wallet, hwallet, hfail⟩

/-- Memoised balances are read back from their digits. -/
lemma exists_balances {values : List JsString}
    (h : List.Forall₂ (fun key v => F.truth.holds w key epoch v) (wallets.map (balanceKey leg))
      values) :
    ∃ ns, values.mapM number? = some ns ∧
      List.Forall₂ (fun wallet n => F.balance leg epoch (walletOfKey wallet.toLowerCase) n w)
        wallets ns := by
  rw [List.forall₂_map_left_iff] at h
  induction h with
  | nil => exact ⟨[], rfl, .nil⟩
  | @cons wallet v wallets values hv _ ih =>
      obtain ⟨ns, hns, hbalances⟩ := ih
      obtain ⟨n, rfl, hn⟩ := (hv leg).2 (balancePrefix_starts leg wallet)
      rw [walletOfKey_balanceKey] at hn
      refine ⟨n :: ns, ?_, hbalances.cons hn⟩
      rw [List.mapM_cons, number?_decimal, hns]
      rfl

/-- **One leg**: every wallet is scored by the facts of the leg, at its position. -/
theorem keeps_scoreAt (hreads : F.ReadsAt okRead leg epoch block) (batchable : Bool)
    (wallets : List JsString) :
    (scoreAt leg contract min batchable wallets block epoch).Keeps
      (ruleContract F.truth mayPurge okRead)
      (F.LegOutcome leg epoch contract min wallets) w := by
  rw [scoreAt]
  split_ifs with hempty
  · subst hempty
    exact List.Forall₂.nil
  · refine (keeps_lockAt hreads).bind (fun w₁ _ declared hdeclared => ?_) fun w₁ _ hfails => ?_
    · -- the one value there is says whether the contract declares
      obtain ⟨v, hv, rfl⟩ : ∃ v, F.truth.holds w₁ (lockKey leg contract) epoch v ∧ declared = [v] :=
        by
          rcases hdeclared with - | ⟨hv, hnil⟩
          cases hnil
          exact ⟨_, hv, rfl⟩
      have hdeclares := (hv leg).1 (lockPrefix_starts leg contract)
      rw [List.head?_cons]
      split_ifs with hone
      · have hvalue : v ≠ decimal 1 := fun h => hone (h ▸ rfl)
        rw [decide_eq_false hvalue] at hdeclares
        show List.Forall₂ _ wallets (wallets.map fun _ => undeclared contract)
        rw [List.forall₂_map_right_iff]
        exact List.forall₂_same.mpr fun _ _ => .inl ⟨hdeclares, rfl⟩
      · obtain rfl := Option.some.inj (not_not.mp hone)
        rw [decide_eq_true rfl] at hdeclares
        refine (keeps_balancesAt hreads batchable wallets).bind (fun w₂ hw₂ values hvalues => ?_)
          fun w₂ hw₂ hfails => ?_
        · obtain ⟨ns, hns, hbalances⟩ := exists_balances hvalues
          rw [hns]
          show List.Forall₂ _ wallets (ns.map (scoredOf contract min))
          rw [List.forall₂_map_right_iff]
          exact hbalances.imp fun _ n hn =>
            .inr ⟨(F.declares _ _ _).monotone hw₂ hdeclares, n, hn, rfl⟩
        · obtain ⟨wallet, hwallet, hfail⟩ := hfails
          exact ⟨wallet, hwallet, .inr ⟨(F.declares _ _ _).monotone hw₂ hdeclares, hfail⟩⟩
    · obtain ⟨wallet, hwallet⟩ := List.exists_mem_of_ne_nil _ hempty
      exact ⟨wallet, hwallet, .inl hfails⟩

/-! ### Both legs -/

/-- The result of a wallet by the facts of both legs: the head leg's, unless that refuses it. -/
def Judged (F : LegFacts W) (head : ℕ) (contract : JsString) (min : ℕ) (w : W)
    (wallet : RuleWallet) (result : RuleResult) : Prop :=
  ∃ h, F.Scores .head (headEpoch head) contract min w wallet.address h ∧
    (0 < h.1 ∧ result = resultOf h ∨
      h.1 = 0 ∧ ∃ p, F.Scores .pinned wallet.sampleBlock contract min w wallet.address p ∧
        result = resultOf p)

/-- A wallet cannot be judged: a read of a leg that it takes may be refused. -/
def Unjudged (F : LegFacts W) (head : ℕ) (contract : JsString) (min : ℕ) (w : W)
    (wallet : RuleWallet) : Prop :=
  F.Fails .head (headEpoch head) w wallet.address ∨
    ∃ h, F.Scores .head (headEpoch head) contract min w wallet.address h ∧ h.1 = 0 ∧
      F.Fails .pinned wallet.sampleBlock w wallet.address

/-- The outcome of a batch under one head. -/
def Outcome (F : LegFacts W) (head : ℕ) (contract : JsString) (min : ℕ)
    (wallets : List RuleWallet) (w : W) : Option (List RuleResult) → Prop
  | some results => List.Forall₂ (F.Judged head contract min w) wallets results
  | none => ∃ wallet ∈ wallets, F.Unjudged head contract min w wallet

lemma mem_refusedPositions {scores : List Scored} {wallets : List RuleWallet} {at' i : ℕ} :
    (at', i) ∈ refusedPositions scores wallets ↔ ∃ scored wallet, scores[i]? = some scored ∧
      wallets[i]? = some wallet ∧ scored.1 = 0 ∧ wallet.sampleBlock = at' := by
  rw [refusedPositions]
  rw [List.mem_filterMap]
  constructor
  · rintro ⟨⟨⟨scored, wallet⟩, j⟩, hmem, hsome⟩
    rw [List.mk_mem_zipIdx_iff_getElem?, List.getElem?_zip_eq_some] at hmem
    dsimp only at hsome
    split_ifs at hsome with hscore
    cases hsome
    exact ⟨scored, wallet, hmem.1, hmem.2, by omega, rfl⟩
  · rintro ⟨scored, wallet, hscored, hwallet, hzero, rfl⟩
    refine ⟨((scored, wallet), i), ?_, by simp [hzero]⟩
    rw [List.mk_mem_zipIdx_iff_getElem?, List.getElem?_zip_eq_some]
    exact ⟨hscored, hwallet⟩

/-- What a list of addresses is related to, position by position. -/
lemma rel_addressesAt {α : Type} {R : JsString → α → Prop} {wallets : List RuleWallet}
    {ats : List ℕ} {vs : List α} (h : List.Forall₂ R (addressesAt wallets ats) vs) {j : ℕ} {v : α}
    (hmem : (j, v) ∈ ats.zip vs) {wallet : RuleWallet} (hwallet : wallets[j]? = some wallet) :
    R wallet.address v := by
  have haddress : (wallet.address, v) ∈ (addressesAt wallets ats).zip vs := by
    rw [addressesAt, List.zip_map_left, List.mem_map]
    exact ⟨(j, v), hmem, by simp [hwallet]⟩
  exact (List.forall₂_iff_zip.mp h).2 haddress

/-- What the pinned leg leaves at a position: the head's score where it admits the wallet, else the
pinned one of the wallet there. -/
lemma scored_at {scores : List Scored} {wallets : List RuleWallet}
    {fallbacks : List (List Scored)} {Q : ℕ → JsString → Scored → Prop}
    (hfallbacks : List.Forall₂ (fun group fallback =>
      List.Forall₂ (Q group.1) (addressesAt wallets group.2) fallback)
      (groupPositions (refusedPositions scores wallets)).entries fallbacks) {j : ℕ}
    {wallet : RuleWallet} {scored : Scored} (hwallet : wallets[j]? = some wallet)
    (hscored : (scatterAll scores (((groupPositions (refusedPositions scores wallets)).entries.map
      Prod.snd).zip fallbacks))[j]? = some scored) :
    (scores[j]? = some scored ∧ 0 < scored.1) ∨
      (∃ h, scores[j]? = some h ∧ h.1 = 0) ∧ Q wallet.sampleBlock wallet.address scored := by
  have hlen : List.Forall₂ (fun (group : ℕ × List ℕ) fallback => group.2.length = fallback.length)
      (groupPositions (refusedPositions scores wallets)).entries fallbacks :=
    hfallbacks.imp fun _ _ hlist => by rw [← hlist.length_eq, addressesAt, List.length_map]
  rcases scatterAll_groups hlen hscored with ⟨hold, hnot⟩ | ⟨group, fallback, hzip, hmem, hgroup⟩
  · -- the position is in no group, so the head leg did not refuse it
    refine .inl ⟨hold, Nat.pos_of_ne_zero fun hzero => hnot wallet.sampleBlock ?_⟩
    exact mem_refusedPositions.mpr ⟨scored, wallet, hold, hwallet, hzero, rfl⟩
  · obtain ⟨h, wallet', hh, hwallet', hzero, hblock⟩ := mem_refusedPositions.mp hgroup
    obtain rfl : wallet = wallet' := Option.some.inj (hwallet.symm.trans hwallet')
    refine .inr ⟨⟨h, hh, hzero⟩, ?_⟩
    rw [hblock]
    exact rel_addressesAt ((List.forall₂_iff_zip.mp hfallbacks).2 hzip) hmem hwallet

/-- The pinned leg, and the last word on every wallet. -/
lemma keeps_fallBack {head : ℕ} (hpinned : ∀ b, F.ReadsAt okRead .pinned b b) (batchable : Bool)
    {wallets : List RuleWallet} {scores : List Scored}
    (hscores : List.Forall₂ (F.Scores .head (headEpoch head) contract min w)
      (wallets.map RuleWallet.address) scores) :
    (fallBack contract min batchable wallets scores).Keeps (ruleContract F.truth mayPurge okRead)
      (F.Outcome head contract min wallets) w := by
  have hhead : ∀ (j : ℕ) (wallet : RuleWallet) (h : Scored), wallets[j]? = some wallet →
      scores[j]? = some h → F.Scores .head (headEpoch head) contract min w wallet.address h := by
    intro j wallet h hwallet hh
    refine (forall₂_iff_getElem?.mp hscores).2 j _ h ?_ hh
    rw [List.getElem?_map, hwallet]
    rfl
  have hgroups := Keeps.mapAll (C := ruleContract F.truth mayPurge okRead) (w := w)
    (groupPositions (refusedPositions scores wallets)).entries
    (fallback contract min batchable wallets)
    (fun group => F.LegOutcome .pinned group.1 contract min (addressesAt wallets group.2))
    (fun _ _ => lasting_legOutcome) fun group _ => keeps_scoreAt (hpinned group.1) batchable _
  refine hgroups.bind (fun w₁ hw₁ fallbacks hfallbacks => ?_) fun w₁ hw₁ hfails => ?_
  · have hlists : List.Forall₂ (fun group => List.Forall₂
        (F.Scores .pinned group.1 contract min w₁) (addressesAt wallets group.2))
        (groupPositions (refusedPositions scores wallets)).entries fallbacks := hfallbacks
    show List.Forall₂ _ wallets (List.map resultOf _)
    rw [List.forall₂_map_right_iff, forall₂_iff_getElem?]
    refine ⟨by simpa using hscores.length_eq, fun j wallet scored hwallet hscored => ?_⟩
    rcases scored_at (Q := fun block => F.Scores .pinned block contract min w₁) hlists hwallet
      hscored with ⟨hh, hpos⟩ | ⟨⟨h, hh, hzero⟩, hp⟩
    · exact ⟨scored, (hhead j wallet scored hwallet hh).mono hw₁, .inl ⟨hpos, rfl⟩⟩
    · exact ⟨h, (hhead j wallet h hwallet hh).mono hw₁, .inr ⟨hzero, scored, hp, rfl⟩⟩
  · -- a group holds refused wallets only
    obtain ⟨group, hgroup, address, haddress, hfail⟩ := hfails
    obtain ⟨j, hj, rfl⟩ := List.mem_map.mp haddress
    obtain ⟨h, wallet, hh, hwallet, hzero, hblock⟩ :=
      mem_refusedPositions.mp ((mem_groupPositions (JsMap.get?_eq_some_iff.mpr hgroup)).mp hj)
    rw [hwallet] at hfail
    exact ⟨wallet, List.mem_of_getElem? hwallet,
      .inr ⟨h, (hhead j wallet h hwallet hh).mono hw₁, hzero, hblock ▸ hfail⟩⟩

/-- The outcome of `evaluateMany`: under the head that it read, every wallet is judged at its
position. It rejects only where the contract is no address, the head may be refused, or a wallet
cannot be judged. -/
def Evaluated (F : LegFacts W) (H : HeadFacts W) (getAddress : JsString → Option JsString)
    (options : MinBalanceOptions) (wallets : List RuleWallet) (w : W) :
    Option (List RuleResult) → Prop
  | some results => ∃ contract head, getAddress options.contract = some contract ∧
      H.headIs head w ∧ F.Outcome head contract options.min wallets w (some results)
  | none => getAddress options.contract = none ∨ H.headFails w ∨
      ∃ contract head, getAddress options.contract = some contract ∧ H.headIs head w ∧
        F.Outcome head contract options.min wallets w none

lemma Judged.mono {head : ℕ} {wallet : RuleWallet} {result : RuleResult} (hw : w ≤ w')
    (h : F.Judged head contract min w wallet result) :
    F.Judged head contract min w' wallet result := by
  obtain ⟨s, hs, hres⟩ := h
  refine ⟨s, hs.mono hw, hres.imp id fun ⟨hzero, p, hp, heq⟩ => ⟨hzero, p, hp.mono hw, heq⟩⟩

lemma lasting_outcome {head : ℕ} {wallets : List RuleWallet} :
    Lasting (F.Outcome head contract min wallets) := by
  intro w w' hw o ho
  cases o with
  | some results => exact ho.imp fun _ _ => Judged.mono hw
  | none =>
      obtain ⟨wallet, hwallet, hfails | ⟨s, hs, hzero, hfails⟩⟩ := ho
      · exact ⟨wallet, hwallet, .inl (hfails.mono hw)⟩
      · exact ⟨wallet, hwallet, .inr ⟨s, hs.mono hw, hzero, hfails.mono hw⟩⟩

lemma lasting_evaluated {getAddress : JsString → Option JsString} {options : MinBalanceOptions}
    {wallets : List RuleWallet} : Lasting (F.Evaluated H getAddress options wallets) := by
  intro w w' hw o ho
  cases o with
  | some results =>
      obtain ⟨contract, head, hcontract, hhead, hout⟩ := ho
      exact ⟨contract, head, hcontract, (H.headIs head).monotone hw hhead,
        lasting_outcome hw _ hout⟩
  | none =>
      rcases ho with hcontract | hfails | ⟨contract, head, hcontract, hhead, hout⟩
      · exact .inl hcontract
      · exact .inr (.inl (H.headFails.monotone hw hfails))
      · exact .inr (.inr ⟨contract, head, hcontract, (H.headIs head).monotone hw hhead,
          lasting_outcome hw _ hout⟩)

/-- What the reads of an evaluation give: its head, the facts of the head leg under the window of
the block they are made at, and those of the pinned leg. -/
structure Reads (F : LegFacts W) (H : HeadFacts W)
    (okRead : W → (r : ChainRead) → r.Answer → Prop) : Prop where
  head : ∀ w head, okRead w .head (some head) → H.headIs head w
  headFails : ∀ w, okRead w .head none → H.headFails w
  atHead : ∀ w head, H.headIs head w → F.ReadsAt okRead .head (headEpoch head) head
  pinned : ∀ block, F.ReadsAt okRead .pinned block block

/-- **`evaluateMany`**: every wallet is judged by its own facts, at its position. -/
theorem keeps_evaluateMany (hreads : F.Reads H okRead) (getAddress : JsString → Option JsString)
    (options : MinBalanceOptions) (batchable : Bool) (wallets : List RuleWallet) :
    (evaluateMany getAddress options batchable wallets).Keeps
      (ruleContract F.truth H.mayPurge okRead) (F.Evaluated H getAddress options wallets) w := by
  rw [evaluateMany]
  cases hcontract : getAddress options.contract with
  | none => exact .inl hcontract
  | some contract =>
      refine ⟨trivial, fun w₁ _ answer hanswer => ?_⟩
      cases answer with
      | none => exact .inr (.inl (hreads.headFails w₁ hanswer))
      | some head =>
          have hhead := hreads.head w₁ head hanswer
          refine ⟨⟨head, hhead, rfl, rfl⟩, fun w₂ hw₂ _ _ => ?_⟩
          have hhead₂ := (H.headIs head).monotone hw₂ hhead
          refine (keeps_scoreAt (hreads.atHead w₁ head hhead) batchable _).bind
            (fun w₃ hw₃ scores hscores => ?_) fun w₃ hw₃ hfails => ?_
          · refine (keeps_fallBack hreads.pinned batchable hscores).imp fun w₄ hw₄ o ho => ?_
            have hhead₄ := (H.headIs head).monotone (hw₃.trans hw₄) hhead₂
            cases o with
            | some results => exact ⟨contract, head, hcontract, hhead₄, ho⟩
            | none => exact .inr (.inr ⟨contract, head, hcontract, hhead₄, ho⟩)
          · obtain ⟨address, haddress, hfail⟩ := hfails
            obtain ⟨wallet, hwallet, rfl⟩ := List.mem_map.mp haddress
            exact .inr (.inr ⟨contract, head, hcontract, (H.headIs head).monotone hw₃ hhead₂,
              wallet, hwallet, .inl hfail⟩)

end

end LegFacts

end PubsubVoting
