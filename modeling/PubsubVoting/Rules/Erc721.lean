import PubsubVoting.Rules.Erc5192

/-!
The transferable gate: hold at least `min` of a plain ERC-721 at the block the ballot names.

* `Erc721.evaluate`, `Erc721.evaluateMany`: one wallet, and the wallets of each block together.
* `keeps_evaluate`, `keeps_evaluateMany`: every result is the one its wallet's balance gives.
-/

namespace PubsubVoting

open Erc5192 Proc

namespace Erc721

/-- One pinned balance as a result. A failure is attributable: every honest verifier reads the same
block. -/
def pinnedResult (contract : JsString) (min balance : ℕ) : RuleResult :=
  let score := scoreOf balance min
  if 0 < score then .success score else .failure (shortfallError balance min contract) none

/-- `evaluate`: the wallet's balance at its own block. -/
def evaluate (getAddress : JsString → Option JsString) (options : MinBalanceOptions)
    (wallet : RuleWallet) : RuleProc ChainRead.Answer RuleResult :=
  match getAddress options.contract with
  | none => .throw
  | some contract => .ask (.read (.balanceOf wallet.sampleBlock wallet.address)) fun
    | some balance => .done (pinnedResult contract options.min balance)
    | none => .throw

/-- The wallets, each under the block its ballot names. -/
def blockPositions (wallets : List RuleWallet) : List (ℕ × ℕ) :=
  wallets.zipIdx.map fun e => (e.1.sampleBlock, e.2)

/-- `evaluateMany`: the wallets of each block are read together. -/
def evaluateMany (getAddress : JsString → Option JsString) (options : MinBalanceOptions)
    (batchable : Bool) (wallets : List RuleWallet) : RuleProc ChainRead.Answer (List RuleResult) :=
  match getAddress options.contract with
  | none => .throw
  | some contract =>
    let byBlock := (groupPositions (blockPositions wallets)).entries
    (Proc.mapAll byBlock fun group =>
      balancesOf batchable (addressesAt wallets group.2) group.1).bind fun balances =>
        let results := scatterAll (wallets.map fun _ => none) ((byBlock.map Prod.snd).zip
          (balances.map (List.map fun n => some (pinnedResult contract options.min n))))
        match results.mapM id with
        | some results => .done results
        | none => .throw  -- every position has been written

end Erc721

open Erc721

namespace LegFacts

section

variable {W : Type} [Preorder W] {F : LegFacts W}
  {mayPurge : ℕ → Option JsString → (W →o Prop)} {w : W}
  {okRead : W → (r : ChainRead) → r.Answer → Prop} {getAddress : JsString → Option JsString}
  {options : MinBalanceOptions}

/-- The result of a wallet by its balance at its own block. -/
def PinnedJudged (F : LegFacts W) (contract : JsString) (min : ℕ) (w : W) (wallet : RuleWallet)
    (result : RuleResult) : Prop :=
  ∃ n, F.balance .pinned wallet.sampleBlock wallet.address n w ∧
    result = pinnedResult contract min n

/-- The outcome for one wallet. -/
def PinnedOutcome (F : LegFacts W) (getAddress : JsString → Option JsString)
    (options : MinBalanceOptions) (wallet : RuleWallet) (w : W) : Option RuleResult → Prop
  | some result => ∃ contract, getAddress options.contract = some contract ∧
      F.PinnedJudged contract options.min w wallet result
  | none => getAddress options.contract = none ∨
      F.balanceFails .pinned wallet.sampleBlock wallet.address w

/-- The outcome for many. -/
def PinnedOutcomes (F : LegFacts W) (getAddress : JsString → Option JsString)
    (options : MinBalanceOptions) (wallets : List RuleWallet) (w : W) :
    Option (List RuleResult) → Prop
  | some results => ∃ contract, getAddress options.contract = some contract ∧
      List.Forall₂ (F.PinnedJudged contract options.min w) wallets results
  | none => getAddress options.contract = none ∨
      ∃ wallet ∈ wallets, F.balanceFails .pinned wallet.sampleBlock wallet.address w

lemma mem_blockPositions {wallets : List RuleWallet} {at' i : ℕ} :
    (at', i) ∈ blockPositions wallets ↔
      ∃ wallet, wallets[i]? = some wallet ∧ wallet.sampleBlock = at' := by
  rw [blockPositions]
  rw [List.mem_map]
  constructor
  · rintro ⟨⟨wallet, j⟩, hmem, heq⟩
    cases heq
    exact ⟨wallet, List.mk_mem_zipIdx_iff_getElem?.mp hmem, rfl⟩
  · rintro ⟨wallet, hwallet, rfl⟩
    exact ⟨(wallet, i), List.mk_mem_zipIdx_iff_getElem?.mpr hwallet, rfl⟩

/-- **`evaluate`**, for one wallet. -/
theorem keeps_evaluate721 (hreads : ∀ block, F.ReadsAt okRead .pinned block block)
    (wallet : RuleWallet) :
    (Erc721.evaluate getAddress options wallet).Keeps (ruleContract F.truth mayPurge okRead)
      (F.PinnedOutcome getAddress options wallet) w := by
  rw [Erc721.evaluate]
  cases hcontract : getAddress options.contract with
  | none => exact .inl hcontract
  | some contract =>
      refine ⟨trivial, fun w₁ _ answer hanswer => ?_⟩
      cases answer with
      | some n => exact ⟨contract, hcontract, n, (hreads _).balance w₁ _ n hanswer, rfl⟩
      | none => exact .inr ((hreads _).balanceFails w₁ _ hanswer)

lemma lasting_balancesOutcome {leg : Leg} {epoch : ℕ} {wallets : List JsString} :
    Lasting (F.BalancesOutcome leg epoch wallets) := by
  intro w w' hw o ho
  cases o with
  | some ns => exact ho.imp fun _ _ => (F.balance _ _ _ _).monotone hw
  | none =>
      obtain ⟨wallet, hwallet, hfails⟩ := ho
      exact ⟨wallet, hwallet, (F.balanceFails _ _ _).monotone hw hfails⟩

/-- Every position is written, with the result of the wallet there. -/
lemma results_at {wallets : List RuleWallet} {contract : JsString} {min : ℕ}
    {balances : List (List ℕ)}
    (hbalances : List.Forall₂ (fun (group : ℕ × List ℕ) ns => List.Forall₂
      (fun wallet n => F.balance .pinned group.1 wallet n w) (addressesAt wallets group.2) ns)
      (groupPositions (blockPositions wallets)).entries balances) {j : ℕ} {wallet : RuleWallet}
    {result : Option RuleResult} (hwallet : wallets[j]? = some wallet)
    (hresult : (scatterAll (wallets.map fun _ => none)
      (((groupPositions (blockPositions wallets)).entries.map Prod.snd).zip
        (balances.map (List.map fun n => some (pinnedResult contract min n)))))[j]? = some result) :
    ∃ r, result = some r ∧ F.PinnedJudged contract min w wallet r := by
  have hlen : List.Forall₂ (fun (group : ℕ × List ℕ) (vs : List (Option RuleResult)) =>
      group.2.length = vs.length) (groupPositions (blockPositions wallets)).entries
      (balances.map (List.map fun n => some (pinnedResult contract min n))) := by
    rw [List.forall₂_map_right_iff]
    exact hbalances.imp fun _ ns hns => by
      rw [List.length_map, ← hns.length_eq, addressesAt, List.length_map]
  rcases scatterAll_groups hlen hresult with ⟨-, hnot⟩ | ⟨group, vs, hzip, hmem, hgroup⟩
  · exact absurd (mem_blockPositions.mpr ⟨wallet, hwallet, rfl⟩) (hnot wallet.sampleBlock)
  · obtain ⟨wallet', hwallet', hblock⟩ := mem_blockPositions.mp hgroup
    obtain rfl : wallet = wallet' := Option.some.inj (hwallet.symm.trans hwallet')
    rw [List.zip_map_right, List.mem_map] at hzip
    obtain ⟨⟨group', ns⟩, hzip, heq⟩ := hzip
    cases heq
    rw [List.zip_map_right, List.mem_map] at hmem
    obtain ⟨⟨j', n⟩, hmem, heq⟩ := hmem
    cases heq
    refine ⟨_, rfl, n, ?_, rfl⟩
    rw [hblock]
    exact rel_addressesAt ((List.forall₂_iff_zip.mp hbalances).2 hzip) hmem hwallet

/-- **`evaluateMany`**: every wallet is judged by its own balance, at its position. -/
theorem keeps_evaluateMany721 (hreads : ∀ block, F.ReadsAt okRead .pinned block block)
    (batchable : Bool) (wallets : List RuleWallet) :
    (Erc721.evaluateMany getAddress options batchable wallets).Keeps
      (ruleContract F.truth mayPurge okRead) (F.PinnedOutcomes getAddress options wallets) w := by
  rw [Erc721.evaluateMany]
  cases hcontract : getAddress options.contract with
  | none => exact .inl hcontract
  | some contract =>
      have hgroups := Keeps.mapAll (C := ruleContract F.truth mayPurge okRead) (w := w)
        (groupPositions (blockPositions wallets)).entries
        (fun group => balancesOf batchable (addressesAt wallets group.2) group.1)
        (fun group => F.BalancesOutcome .pinned group.1 (addressesAt wallets group.2))
        (fun _ _ => lasting_balancesOutcome)
        fun group _ => keeps_balancesOf (hreads group.1) batchable _
      refine hgroups.bind (fun w₁ _ balances hbalances => ?_) fun w₁ _ hfails => ?_
      · have hlists : List.Forall₂ (fun (group : ℕ × List ℕ) ns => List.Forall₂
            (fun wallet n => F.balance .pinned group.1 wallet n w₁)
            (addressesAt wallets group.2) ns)
            (groupPositions (blockPositions wallets)).entries balances := hbalances
        have hfilled : List.Forall₂ (fun wallet result => ∃ r, result = some r ∧
            F.PinnedJudged contract options.min w₁ wallet r) wallets
            (scatterAll (wallets.map fun _ => none)
              (((groupPositions (blockPositions wallets)).entries.map Prod.snd).zip
                (balances.map (List.map fun n => some
                  (pinnedResult contract options.min n))))) := by
          rw [forall₂_iff_getElem?]
          exact ⟨by simp, fun j wallet result hwallet hresult =>
            results_at hlists hwallet hresult⟩
        obtain ⟨results, hresults, hjudged⟩ := List.exists_mapM_id hfilled
        dsimp only
        rw [hresults]
        exact ⟨contract, hcontract, hjudged⟩
      · obtain ⟨group, hgroup, address, haddress, hfail⟩ := hfails
        obtain ⟨j, hj, rfl⟩ := List.mem_map.mp haddress
        obtain ⟨wallet, hwallet, hblock⟩ := mem_blockPositions.mp
          ((mem_groupPositions (JsMap.get?_eq_some_iff.mpr hgroup)).mp hj)
        rw [hwallet] at hfail
        exact .inr ⟨wallet, List.mem_of_getElem? hwallet, hblock ▸ hfail⟩

end

end LegFacts

end PubsubVoting
