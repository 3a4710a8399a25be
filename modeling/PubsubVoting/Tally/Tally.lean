import Mathlib.Data.List.Lex
import Mathlib.Data.Prod.Lex
import PubsubVoting.Checkpoint.Encode
import PubsubVoting.Client.Checks
import PubsubVoting.Rules.Gate

/-!
The tally of a contest: the current bundles summed by community key, and the rows put in order.

* `weightFor`, `aggregate`: the weight of a wallet, and the fold over the current bundles.
* `tieSeed`, `compute`: rows by weight, and by the hash of the boundary block where two rows tie.
* `weightOf`, `verifiedOf`: what a row adds up to, in terms of the bundles that name its key.
* `compute_ranking`: the rows are the keys that are named, in strict order, and their order is that
  of every permutation of the bundles.
-/

namespace PubsubVoting

open Cbor

namespace Tally

/-! ### The rows -/

/-- A current bundle of the CRDT with its deferred checks. -/
structure CurrentBundle (C : Codecs) where
  bundle : ValidBundle C
  checks : BundleChecks

/-- What has been added up for one key. -/
structure Row where
  name : Option JsString
  nameResolved : Option Bool
  weight : ℤ
  chainVerified : Bool

/-- A key nobody has named. -/
def Row.empty : Row := ⟨none, none, 0, true⟩

/-- A text that counts as true: it is there and not empty. -/
def truthy (text : Option JsString) : Bool := text.any fun x => !x.isEmpty

/-- One vote of a bundle. A resolved name is preferred, and never given up for a pending one. -/
def Row.add (row : Row) (weight : ℤ) (checks : BundleChecks) (community : Community) : Row where
  weight := row.weight + weight
  chainVerified := row.chainVerified && checks.chainVerified
  name := if truthy community.name && decide (row.nameResolved ≠ some true) then community.name
    else row.name
  nameResolved := if truthy community.name && decide (row.nameResolved ≠ some true) then
      some (decide (checks.nameResolved = some true))
    else row.nameResolved

section

variable {C : Codecs} (weightFor : JsString → ℕ → ℤ)

/-- The weight of a bundle's wallet at its block. -/
def CurrentBundle.weight (current : CurrentBundle C) : ℤ :=
  weightFor current.bundle.1.address current.bundle.1.blockNumber

/-- One contribution: a vote's community, and the weight and the checks it comes with. -/
abbrev Contribution := ℤ × BundleChecks × Community

/-- The row of one vote. -/
def addVote (rows : JsMap JsString Row) (vote : Contribution) : JsMap JsString Row :=
  let key := vote.2.2.publicKey
  rows.set key (((rows.get? key).getD .empty).add vote.1 vote.2.1 vote.2.2)

/-- The votes of a bundle; a withdrawal has none. -/
def CurrentBundle.contributions (current : CurrentBundle C) : List Contribution :=
  current.bundle.1.votes.map fun v => (current.weight weightFor, current.checks, v.community)

/-- Weight by key, over all current bundles. -/
def aggregate (current : List (CurrentBundle C)) : JsMap JsString Row :=
  current.foldl (fun rows c => (c.contributions weightFor).foldl addVote rows) ∅

end

/-! ### The order -/

/-- One row of a ranking. -/
structure CommunityTally where
  name : Option JsString
  publicKey : JsString
  weight : ℤ
  chainVerified : Bool
  nameResolved : Option Bool

/-- A row as it is shown: without a name nothing is said of its resolution. -/
def toTally (row : JsString × Row) : CommunityTally where
  name := if truthy row.2.name then row.2.name else none
  publicKey := row.1
  weight := row.2.weight
  chainVerified := row.2.chainVerified
  nameResolved := if truthy row.2.name then row.2.nameResolved else none

/-- Byte-lexicographic comparison: negative, zero or positive. -/
def compareBytes : Bytes → Bytes → ℤ
  | x :: xs, y :: ys => if x ≠ y then (x.toNat : ℤ) - y.toNat else compareBytes xs ys
  | xs, ys => (xs.length : ℤ) - ys.length

/-- `Array.prototype.sort`, which is stable. -/
def sortBy {α : Type} (compare : α → α → ℤ) (xs : List α) : List α :=
  xs.mergeSort fun a b => decide (compare a b ≤ 0)

/-- By weight, descending. -/
def compareWeight (a b : CommunityTally) : ℤ :=
  if a.weight < b.weight then 1 else if b.weight < a.weight then -1 else 0

/-- By weight, descending, then by seed. -/
def compareSeeded (seeds : JsMap JsString Bytes) (a b : CommunityTally) : ℤ :=
  if a.weight ≠ b.weight then (if a.weight < b.weight then 1 else -1)
  else compareBytes ((seeds.get? a.publicKey).getD []) ((seeds.get? b.publicKey).getD [])

/-- Two rows have one weight. -/
def hasTie (rows : List CommunityTally) : Bool :=
  decide ((rows.map (·.weight)).dedup.length ≠ rows.length)

/-- A ranking, and how many times the boundary block hash was read for it. -/
structure ContestTally where
  ranking : List CommunityTally
  hashReads : ℕ

section

variable (C : Codecs) (blockHash : Bytes)

/-- The rolling tie seed of a key; `none` where the key does not decode. -/
def tieSeed (publicKey : JsString) : Option Bytes :=
  (C.base58Decode publicKey).map fun bytes => C.sha256 (blockHash ++ bytes)

/-- The seeds of the rows, one after the other. -/
def seedRows (rows : List CommunityTally) : Option (JsMap JsString Bytes) :=
  rows.foldlM (fun seeds r => (tieSeed C blockHash r.publicKey).map (seeds.set r.publicKey)) ∅

variable {C}

/-- The ranking; `none` where a seed cannot be computed. -/
def compute (weightFor : JsString → ℕ → ℤ) (current : List (CurrentBundle C)) :
    Option ContestTally :=
  let rows := (aggregate weightFor current).entries.map toTally
  if hasTie rows then
    (seedRows C blockHash rows).map fun seeds => ⟨sortBy (compareSeeded seeds) rows, 1⟩
  else some ⟨sortBy compareWeight rows, 0⟩

end

/-- The weight rule: a wallet that it fails contributes nothing. -/
def weightFor (bucketMath : BucketMath) (evaluate : RuleWallet → RuleResult) (wallet : JsString)
    (blockNumber : ℕ) : ℤ :=
  scoreOrZero (evaluate
    ⟨wallet, bucketMath.sampleBlockForBucket (bucketMath.bucketForBlock blockNumber)⟩)

/-! ### What a row adds up to -/

section

variable {C : Codecs} (weightFor : JsString → ℕ → ℤ)

/-- The bundle names the key. -/
def CurrentBundle.names (key : JsString) (c : CurrentBundle C) : Bool :=
  decide (key ∈ c.bundle.1.publicKeys)

/-- The sum of the weights of the wallets that name a key. -/
def weightOf (current : List (CurrentBundle C)) (key : JsString) : ℤ :=
  ((current.filter (CurrentBundle.names key)).map (CurrentBundle.weight weightFor)).sum

/-- Every bundle that names the key has its chain check behind it. -/
def verifiedOf (current : List (CurrentBundle C)) (key : JsString) : Bool :=
  (current.filter (CurrentBundle.names key)).all (·.checks.chainVerified)

/-- Some bundle names the key. -/
def Listed (current : List (CurrentBundle C)) (key : JsString) : Prop :=
  ∃ c ∈ current, key ∈ c.bundle.1.publicKeys

variable {weightFor}

lemma aggregate_eq_foldl (current : List (CurrentBundle C)) :
    aggregate weightFor current
      = (current.flatMap (CurrentBundle.contributions weightFor)).foldl addVote ∅ := by
  rw [aggregate, List.foldl_flatMap]

/-- The row of a key, from the votes for it. -/
lemma get?_foldl_addVote (votes : List Contribution) (rows : JsMap JsString Row) (key : JsString) :
    (votes.foldl addVote rows).get? key =
      let own := votes.filter fun vote => decide (vote.2.2.publicKey = key)
      if own = [] then rows.get? key
      else some (own.foldl (fun row vote => row.add vote.1 vote.2.1 vote.2.2)
        ((rows.get? key).getD .empty)) := by
  induction votes generalizing rows with
  | nil => rfl
  | cons vote votes ih =>
      rw [List.foldl_cons, ih]
      by_cases hkey : vote.2.2.publicKey = key
      · subst hkey
        simp only [addVote, JsMap.get?_set, if_true, Option.getD_some, decide_true,
          List.filter_cons_of_pos, List.foldl_cons, reduceCtorEq, if_false]
        split_ifs with hnil
        · rw [hnil, List.foldl_nil]
        · rfl
      · have hne : ¬ key = vote.2.2.publicKey := fun h => hkey h.symm
        simp only [addVote, JsMap.get?_set, hne, if_false, hkey, decide_false, Bool.false_eq_true,
          not_false_eq_true, List.filter_cons_of_neg]

lemma weight_foldl_add (votes : List Contribution) (row : Row) :
    (votes.foldl (fun row vote => row.add vote.1 vote.2.1 vote.2.2) row).weight
      = row.weight + (votes.map (·.1)).sum := by
  induction votes generalizing row with
  | nil => simp
  | cons vote votes ih =>
      rw [List.foldl_cons, ih, List.map_cons, List.sum_cons, Row.add]
      ring

lemma chainVerified_foldl_add (votes : List Contribution) (row : Row) :
    (votes.foldl (fun row vote => row.add vote.1 vote.2.1 vote.2.2) row).chainVerified
      = (row.chainVerified && votes.all (·.2.1.chainVerified)) := by
  induction votes generalizing row with
  | nil => simp
  | cons vote votes ih => rw [List.foldl_cons, ih, List.all_cons, Row.add, Bool.and_assoc]

/-- A bundle names a key in at most one vote. -/
lemma contributions_filter (c : CurrentBundle C) (key : JsString) :
    ((c.contributions weightFor).filter fun vote => decide (vote.2.2.publicKey = key)).map
        (fun vote => (vote.1, vote.2.1.chainVerified))
      = if c.names key then [(c.weight weightFor, c.checks.chainVerified)] else [] := by
  have hnodup : c.bundle.1.publicKeys.Nodup := (votesBundleSchema_iff.mp c.bundle.2).2.2.2.2
  have hconst : (((c.contributions weightFor).filter fun vote =>
        decide (vote.2.2.publicKey = key)).map fun vote => (vote.1, vote.2.1.chainVerified))
      = (c.bundle.1.publicKeys.filter fun k => decide (k = key)).map
        fun _ => (c.weight weightFor, c.checks.chainVerified) := by
    simp only [CurrentBundle.contributions, VotesBundle.publicKeys, List.filter_map, List.map_map]
    rfl
  rw [hconst]
  by_cases hnames : key ∈ c.bundle.1.publicKeys
  · have hfilter : (c.bundle.1.publicKeys.filter fun k => decide (k = key)) = [key] := by
      rw [List.filter_eq, List.count_eq_one_of_mem hnodup hnames, List.replicate_one]
    simp [CurrentBundle.names, hnames, hfilter]
  · have hfilter : (c.bundle.1.publicKeys.filter fun k => decide (k = key)) = [] := by
      rw [List.filter_eq, List.count_eq_zero_of_not_mem hnames, List.replicate_zero]
    simp [CurrentBundle.names, hnames, hfilter]

/-- The votes for a key, over all bundles. -/
lemma flatMap_contributions_filter (weightFor : JsString → ℕ → ℤ)
    (current : List (CurrentBundle C)) (key : JsString) :
    ((current.flatMap (CurrentBundle.contributions weightFor)).filter fun vote =>
        decide (vote.2.2.publicKey = key)).map (fun vote => (vote.1, vote.2.1.chainVerified))
      = (current.filter (CurrentBundle.names key)).map
        fun c => (c.weight weightFor, c.checks.chainVerified) := by
  induction current with
  | nil => rfl
  | cons c current ih =>
      rw [List.flatMap_cons, List.filter_append, List.map_append, contributions_filter, ih,
        List.filter_cons]
      split_ifs with hnames
      · rfl
      · rfl

/-- **The row of a key**: it is there exactly if some bundle names the key, and holds the sum of the
weights and the conjunction of the flags. -/
lemma get?_aggregate (weightFor : JsString → ℕ → ℤ) (current : List (CurrentBundle C))
    (key : JsString) :
    ((aggregate weightFor current).get? key).map (fun row => (row.weight, row.chainVerified))
      = if current.any (CurrentBundle.names key) then
          some (weightOf weightFor current key, verifiedOf current key)
        else none := by
  have hvotes := flatMap_contributions_filter weightFor current key
  rw [aggregate_eq_foldl, get?_foldl_addVote]
  generalize ((current.flatMap (CurrentBundle.contributions weightFor)).filter fun vote =>
    decide (vote.2.2.publicKey = key)) = own at hvotes ⊢
  have hany : current.any (CurrentBundle.names key) = true ↔ own ≠ [] := by
    have hlen := congrArg List.length hvotes
    rw [List.length_map, List.length_map] at hlen
    rw [← List.length_pos_iff, hlen, List.length_pos_iff_exists_mem, List.any_eq_true]
    simp only [List.mem_filter]
  by_cases hown : own = []
  · have hnot : ¬ current.any (CurrentBundle.names key) = true := fun h => hany.mp h hown
    simp [hown, hnot]
  · have hsum : (own.map (·.1)).sum = weightOf weightFor current key := by
      have := congrArg (fun l => (l.map Prod.fst).sum) hvotes
      simpa [weightOf, List.map_map, Function.comp_def] using this
    have hall : own.all (·.2.1.chainVerified) = verifiedOf current key := by
      have := congrArg (fun l => l.all Prod.snd) hvotes
      simpa [verifiedOf, List.all_map, Function.comp_def] using this
    simp [hown, hany.mpr hown, weight_foldl_add, chainVerified_foldl_add, Row.empty, hsum, hall]

end

/-! ### Sorting -/

lemma perm_sortBy {α : Type} (compare : α → α → ℤ) (xs : List α) : (sortBy compare xs).Perm xs :=
  List.mergeSort_perm _ _

/-- A comparison that is that of a linear order sorts by it. -/
lemma pairwise_sortBy {α β : Type} [LinearOrder β] {compare : α → α → ℤ} (rank : α → β)
    (h : ∀ a b, compare a b ≤ 0 ↔ rank a ≤ rank b) (xs : List α) :
    (sortBy compare xs).Pairwise fun a b => rank a ≤ rank b := by
  have hsorted : (sortBy compare xs).Pairwise fun a b => decide (compare a b ≤ 0) = true := by
    refine List.pairwise_mergeSort (fun a b c hab hbc => ?_) (fun a b => ?_) xs
    · rw [decide_eq_true_iff, h] at hab hbc ⊢
      exact hab.trans hbc
    · rw [Bool.or_eq_true, decide_eq_true_iff, decide_eq_true_iff, h, h]
      exact le_total _ _
  exact hsorted.imp fun hab => (h _ _).mp (of_decide_eq_true hab)

lemma compareBytes_eq_compareCid (x y : Bytes) : compareBytes x y = compareCid x y := by
  induction x generalizing y with
  | nil => cases y <;> rfl
  | cons a x ih =>
      cases y with
      | nil => rfl
      | cons b y => rw [compareBytes, compareCid, ih]

lemma compareWeight_nonpos_iff (a b : CommunityTally) :
    compareWeight a b ≤ 0 ↔ OrderDual.toDual a.weight ≤ OrderDual.toDual b.weight := by
  rw [OrderDual.toDual_le_toDual, compareWeight]
  split_ifs with hlt hgt
  · omega
  · omega
  · omega

/-- A row's place: by weight, the greater first, then by its seed. -/
def rankBy (seed : JsString → Bytes) (row : CommunityTally) : ℤᵒᵈ ×ₗ List ℕ :=
  toLex (OrderDual.toDual row.weight, (seed row.publicKey).map UInt8.toNat)

lemma compareSeeded_nonpos_iff (seeds : JsMap JsString Bytes) (a b : CommunityTally) :
    compareSeeded seeds a b ≤ 0 ↔ rankBy (fun key => (seeds.get? key).getD []) a
      ≤ rankBy (fun key => (seeds.get? key).getD []) b := by
  rw [rankBy, rankBy, Prod.Lex.toLex_le_toLex, compareSeeded, compareBytes_eq_compareCid,
    ← compareCid_nonpos_iff, OrderDual.toDual_lt_toDual, OrderDual.toDual_inj]
  split_ifs with hne hlt
  · have : ¬ b.weight < a.weight := by omega
    simp [hne, this]
  · have : b.weight < a.weight := by omega
    simp [this]
  · have heq : a.weight = b.weight := not_not.mp hne
    simp [heq]

/-! ### The ranking -/

section

variable {C : Codecs} {blockHash : Bytes} {weightFor : JsString → ℕ → ℤ}
  {current : List (CurrentBundle C)}

/-- What all nodes agree on: the key of a row, its weight and its flag. -/
def CommunityTally.verdict (row : CommunityTally) : JsString × ℤ × Bool :=
  (row.publicKey, row.weight, row.chainVerified)

/-- The place of a row in the ranking of a block hash. -/
def CommunityTally.rank (C : Codecs) (blockHash : Bytes) : CommunityTally → ℤᵒᵈ ×ₗ List ℕ :=
  rankBy fun key => (tieSeed C blockHash key).getD []

/-- The rows in the order of their first votes. -/
def rowsOf (weightFor : JsString → ℕ → ℤ) (current : List (CurrentBundle C)) :
    List CommunityTally := (aggregate weightFor current).entries.map toTally

lemma nodup_rowsOf (weightFor : JsString → ℕ → ℤ) (current : List (CurrentBundle C)) :
    ((rowsOf weightFor current).map (·.publicKey)).Nodup := by
  rw [rowsOf, List.map_map]
  exact (aggregate weightFor current).nodup

lemma any_names_iff {key : JsString} :
    current.any (CurrentBundle.names key) = true ↔ Listed current key := by
  simp [Listed, CurrentBundle.names]

lemma mem_rowsOf_iff {verdict : JsString × ℤ × Bool} :
    verdict ∈ (rowsOf weightFor current).map CommunityTally.verdict ↔ Listed current verdict.1
      ∧ verdict.2 = (weightOf weightFor current verdict.1, verifiedOf current verdict.1) := by
  have hrow := get?_aggregate weightFor current verdict.1
  rw [rowsOf, List.map_map, List.mem_map, ← any_names_iff]
  constructor
  · rintro ⟨⟨key, row⟩, hmem, rfl⟩
    rw [show (CommunityTally.verdict ∘ toTally) (key, row)
        = (key, row.weight, row.chainVerified) from rfl] at hrow ⊢
    rw [JsMap.get?_eq_some_iff.mpr hmem, Option.map_some] at hrow
    split_ifs at hrow with hany
    exact ⟨hany, Option.some.inj hrow⟩
  · rintro ⟨hany, hverdict⟩
    rw [if_pos hany, ← hverdict] at hrow
    obtain ⟨row, hget, hrow⟩ := Option.map_eq_some_iff.mp hrow
    exact ⟨(verdict.1, row), JsMap.get?_eq_some_iff.mp hget, Prod.ext rfl hrow⟩

/-- A row is shown if some bundle names its key. -/
lemma listed_of_mem_rowsOf {row : CommunityTally} (h : row ∈ rowsOf weightFor current) :
    Listed current row.publicKey := (mem_rowsOf_iff.mp (List.mem_map_of_mem h)).1

/-- A key that is listed decodes. -/
lemma exists_tieSeed (blockHash : Bytes) {key : JsString} (h : Listed current key) :
    ∃ seed, tieSeed C blockHash key = some seed := by
  obtain ⟨c, -, hkey⟩ := h
  obtain ⟨v, hv, rfl⟩ := List.mem_map.mp hkey
  have hvote := (votesBundleSchema_iff.mp c.bundle.2).2.1 v hv
  obtain ⟨bytes, hbytes, -⟩ := isB58IpnsKey_iff.mp (voteSchema_iff.mp hvote).2.2.1
  exact ⟨_, by rw [tieSeed, hbytes, Option.map_some]⟩

/-- The seeds are those of the rows. -/
lemma foldlM_seeds (rows : List CommunityTally) (seeds : JsMap JsString Bytes)
    (hrows : ∀ row ∈ rows, ∃ seed, tieSeed C blockHash row.publicKey = some seed)
    (hseeds : ∀ key seed, seeds.get? key = some seed → tieSeed C blockHash key = some seed) :
    ∃ seeds', rows.foldlM (fun seeds r =>
        (tieSeed C blockHash r.publicKey).map (seeds.set r.publicKey)) seeds = some seeds'
      ∧ (∀ key seed, seeds'.get? key = some seed → tieSeed C blockHash key = some seed)
      ∧ (∀ key, seeds.has key = true → seeds'.has key = true)
      ∧ ∀ row ∈ rows, seeds'.has row.publicKey = true := by
  induction rows generalizing seeds with
  | nil => exact ⟨seeds, rfl, hseeds, fun _ h => h, fun _ h => nomatch h⟩
  | cons row rows ih =>
      obtain ⟨⟨seed, hseed⟩, hrest⟩ := List.forall_mem_cons.mp hrows
      obtain ⟨seeds', hfold, hsound, hgrows, hall⟩ := ih (seeds.set row.publicKey seed) hrest (by
        intro key seed' hget
        rw [JsMap.get?_set] at hget
        split_ifs at hget with hkey
        · rw [hkey, hseed, hget]
        · exact hseeds key seed' hget)
      refine ⟨seeds', ?_, hsound, fun key hkey => hgrows key ?_, ?_⟩
      · rw [List.foldlM_cons, hseed]
        exact hfold
      · rw [JsMap.has_set, hkey, Bool.or_true]
      · refine List.forall_mem_cons.mpr ⟨hgrows _ ?_, hall⟩
        simp

lemma exists_seedRows (blockHash : Bytes) (weightFor : JsString → ℕ → ℤ)
    (current : List (CurrentBundle C)) :
    ∃ seeds, seedRows C blockHash (rowsOf weightFor current) = some seeds
      ∧ ∀ row ∈ rowsOf weightFor current,
        seeds.get? row.publicKey = tieSeed C blockHash row.publicKey := by
  obtain ⟨seeds, hseeds, hsound, -, hall⟩ := foldlM_seeds (rowsOf weightFor current) ∅
    (fun row hrow => exists_tieSeed blockHash (listed_of_mem_rowsOf hrow))
    (fun key seed h => by simp at h)
  refine ⟨seeds, hseeds, fun row hrow => ?_⟩
  obtain ⟨seed, hseed⟩ := Option.isSome_iff_exists.mp (hall row hrow)
  rw [hseed, hsound _ _ hseed]

/-- Two rows tie exactly if the set of weights is smaller than the list. -/
lemma hasTie_iff {rows : List CommunityTally} (h : (rows.map (·.publicKey)).Nodup) :
    hasTie rows = true ↔
      ∃ a ∈ rows, ∃ b ∈ rows, a.publicKey ≠ b.publicKey ∧ a.weight = b.weight := by
  have hrows : rows.Nodup := h.of_map
  have hlength : (rows.map (·.weight)).dedup.length ≠ rows.length ↔
      ¬ (rows.map (·.weight)).Nodup := by
    rw [← List.dedup_eq_self, ← (List.dedup_sublist _).length_eq, List.length_map]
  rw [hasTie, decide_eq_true_iff, hlength, List.nodup_map_iff_inj_on hrows]
  push Not
  constructor
  · rintro ⟨a, ha, b, hb, hweight, hne⟩
    exact ⟨a, ha, b, hb, fun hkey => hne (List.inj_on_of_nodup_map h ha hb hkey), hweight⟩
  · rintro ⟨a, ha, b, hb, hkey, hweight⟩
    exact ⟨a, ha, b, hb, hweight, fun hab => hkey (congrArg _ hab)⟩

/-- On both paths the rows come out by weight and seed, and the hash is read where two tie. -/
lemma compute_spec (blockHash : Bytes) (weightFor : JsString → ℕ → ℤ)
    (current : List (CurrentBundle C)) : ∃ tally, compute blockHash weightFor current = some tally
    ∧ tally.ranking.Perm (rowsOf weightFor current)
    ∧ tally.ranking.Pairwise (fun a b => a.rank C blockHash ≤ b.rank C blockHash)
    ∧ tally.hashReads = if hasTie (rowsOf weightFor current) then 1 else 0 := by
  rw [compute]
  by_cases htie : hasTie (rowsOf weightFor current) = true
  · obtain ⟨seeds, hseeds, hget⟩ := exists_seedRows blockHash weightFor current
    have hperm := perm_sortBy (compareSeeded seeds) (rowsOf weightFor current)
    have hsorted := pairwise_sortBy _ (compareSeeded_nonpos_iff seeds) (rowsOf weightFor current)
    refine ⟨⟨sortBy (compareSeeded seeds) (rowsOf weightFor current), 1⟩, ?_, hperm, ?_, ?_⟩
    · simp only [rowsOf] at htie hseeds
      simp only [htie, if_true, hseeds, Option.map_some, rowsOf]
    · refine hsorted.imp_of_mem fun {a b} ha hb hle => ?_
      simp only [CommunityTally.rank, rankBy] at hle ⊢
      rwa [← hget a (hperm.mem_iff.mp ha), ← hget b (hperm.mem_iff.mp hb)]
    · rw [if_pos htie]
  · have hperm := perm_sortBy compareWeight (rowsOf weightFor current)
    have hsorted := pairwise_sortBy _ compareWeight_nonpos_iff (rowsOf weightFor current)
    refine ⟨⟨sortBy compareWeight (rowsOf weightFor current), 0⟩, ?_, hperm, ?_, ?_⟩
    · simp only [rowsOf] at htie
      simp only [htie, if_false, rowsOf, Bool.false_eq_true]
    · -- distinct weights leave the seeds no say
      have hne : (sortBy compareWeight (rowsOf weightFor current)).Pairwise
          fun a b => a.publicKey ≠ b.publicKey := by
        have := (hperm.map _).nodup_iff.mpr (nodup_rowsOf weightFor current)
        exact List.pairwise_map.mp this
      refine (hsorted.and hne).imp_of_mem fun {a b} ha hb hab => ?_
      have hweight : a.weight ≠ b.weight := fun heq => htie ((hasTie_iff (nodup_rowsOf _ _)).mpr
        ⟨a, hperm.mem_iff.mp ha, b, hperm.mem_iff.mp hb, hab.2, heq⟩)
      rw [CommunityTally.rank, rankBy, rankBy, Prod.Lex.toLex_le_toLex]
      exact .inl (lt_of_le_of_ne hab.1 fun heq => hweight (OrderDual.toDual_inj.mp heq))
    · rw [if_neg htie]

/-- Distinct keys have distinct places where the seeds tell them apart. -/
lemma rank_ne (hseeds : Set.InjOn (tieSeed C blockHash) {key | Listed current key})
    {a b : CommunityTally} (ha : Listed current a.publicKey) (hb : Listed current b.publicKey)
    (hne : a.publicKey ≠ b.publicKey) : a.rank C blockHash ≠ b.rank C blockHash := by
  intro hrank
  obtain ⟨seed, hseed⟩ := exists_tieSeed blockHash ha
  obtain ⟨seed', hseed'⟩ := exists_tieSeed blockHash hb
  have hbytes : seed.map UInt8.toNat = seed'.map UInt8.toNat := by
    have := (Prod.mk.inj (toLex.injective hrank)).2
    simpa [hseed, hseed'] using this
  have heq : seed = seed' := List.map_injective_iff.mpr (fun x y => UInt8.toNat_inj.mp) hbytes
  exact hne (hseeds ha hb (by rw [hseed, hseed', heq]))

lemma weightOf_perm {current' : List (CurrentBundle C)} (h : current'.Perm current)
    (key : JsString) : weightOf weightFor current' key = weightOf weightFor current key :=
  ((h.filter _).map _).sum_eq

lemma verifiedOf_perm {current' : List (CurrentBundle C)} (h : current'.Perm current)
    (key : JsString) : verifiedOf current' key = verifiedOf current key :=
  (h.filter _).all_eq

lemma listed_perm {current' : List (CurrentBundle C)} (h : current'.Perm current)
    {key : JsString} : Listed current' key ↔ Listed current key := by
  simp only [Listed, h.mem_iff]

/-- A ranking of the rows in strict order. -/
structure Ranks (C : Codecs) (blockHash : Bytes) (weightFor : JsString → ℕ → ℤ)
    (current : List (CurrentBundle C)) (ranking : List CommunityTally) : Prop where
  nodup : (ranking.map (·.publicKey)).Nodup
  mem_iff : ∀ verdict, verdict ∈ ranking.map CommunityTally.verdict ↔ Listed current verdict.1
    ∧ verdict.2 = (weightOf weightFor current verdict.1, verifiedOf current verdict.1)
  strict : ranking.Pairwise fun a b => a.rank C blockHash < b.rank C blockHash

lemma exists_ranks (weightFor : JsString → ℕ → ℤ)
    (hseeds : Set.InjOn (tieSeed C blockHash) {key | Listed current key}) :
    ∃ tally, compute blockHash weightFor current = some tally
      ∧ Ranks C blockHash weightFor current tally.ranking
      ∧ (tally.hashReads = if ∃ a ∈ tally.ranking, ∃ b ∈ tally.ranking,
          a.publicKey ≠ b.publicKey ∧ a.weight = b.weight then 1 else 0) := by
  obtain ⟨tally, hcompute, hperm, hsorted, hreads⟩ := compute_spec blockHash weightFor current
  have hnodup : (tally.ranking.map (·.publicKey)).Nodup :=
    (hperm.map _).nodup_iff.mpr (nodup_rowsOf weightFor current)
  refine ⟨tally, hcompute, ⟨hnodup, fun verdict => ?_, ?_⟩, ?_⟩
  · rw [(hperm.map _).mem_iff, mem_rowsOf_iff]
  · refine (hsorted.and (List.pairwise_map.mp hnodup)).imp_of_mem fun {a b} ha hb hab => ?_
    exact lt_of_le_of_ne hab.1 (rank_ne hseeds (listed_of_mem_rowsOf (hperm.mem_iff.mp ha))
      (listed_of_mem_rowsOf (hperm.mem_iff.mp hb)) hab.2)
  · simp only [hreads, hasTie_iff (nodup_rowsOf _ _), hperm.mem_iff]

/-- The rows of a ranking are a strictly ordered list of what the bundles add up to. -/
lemma Ranks.verdicts_eq {current' : List (CurrentBundle C)} {ranking ranking' : List CommunityTally}
    (h : Ranks C blockHash weightFor current ranking)
    (h' : Ranks C blockHash weightFor current' ranking') (hperm : current'.Perm current) :
    ranking'.map CommunityTally.verdict = ranking.map CommunityTally.verdict := by
  have hnodup : ∀ {rows : List CommunityTally}, (rows.map (·.publicKey)).Nodup →
      (rows.map CommunityTally.verdict).Nodup := fun {rows} hkeys =>
    List.Nodup.of_map Prod.fst (by rwa [List.map_map])
  have hstrict : ∀ {rows : List CommunityTally},
      (rows.Pairwise fun a b => a.rank C blockHash < b.rank C blockHash) →
      (rows.map CommunityTally.verdict).Pairwise fun v w =>
        toLex (OrderDual.toDual v.2.1, (((tieSeed C blockHash v.1).getD []).map UInt8.toNat))
          < toLex (OrderDual.toDual w.2.1, ((tieSeed C blockHash w.1).getD []).map UInt8.toNat) :=
    fun hrows => List.pairwise_map.mpr hrows
  refine List.Perm.eq_of_pairwise (fun _ _ _ _ hvw hwv => absurd hvw hwv.asymm)
    (hstrict h'.strict) (hstrict h.strict) ?_
  rw [List.perm_ext_iff_of_nodup (hnodup h'.nodup) (hnodup h.nodup)]
  intro verdict
  rw [h'.mem_iff, h.mem_iff, listed_perm hperm, weightOf_perm hperm, verifiedOf_perm hperm]

/-- **The ranking**: one row for each key that some bundle names, with the sum of the weights behind
it and the conjunction of the flags; strictly in order of weight and then of seed; the same for
every order of the bundles. The block hash is read once where two rows tie, and else not at all. -/
theorem compute_ranking (blockHash : Bytes) (weightFor : JsString → ℕ → ℤ)
    (current : List (CurrentBundle C))
    (hseeds : Set.InjOn (tieSeed C blockHash) {key | Listed current key}) :
    ∃ tally, compute blockHash weightFor current = some tally
      ∧ (tally.ranking.map (·.publicKey)).Nodup
      ∧ (∀ key, key ∈ tally.ranking.map (·.publicKey) ↔ Listed current key)
      ∧ (∀ row ∈ tally.ranking, row.weight = weightOf weightFor current row.publicKey
        ∧ row.chainVerified = verifiedOf current row.publicKey)
      ∧ tally.ranking.Pairwise (fun a b => a.rank C blockHash < b.rank C blockHash)
      ∧ (tally.hashReads = if ∃ a ∈ tally.ranking, ∃ b ∈ tally.ranking,
          a.publicKey ≠ b.publicKey ∧ a.weight = b.weight then 1 else 0)
      ∧ ∀ current', current'.Perm current → ∃ tally',
        compute blockHash weightFor current' = some tally'
          ∧ tally'.ranking.map CommunityTally.verdict
            = tally.ranking.map CommunityTally.verdict := by
  obtain ⟨tally, hcompute, hranks, hreads⟩ := exists_ranks weightFor hseeds
  have hrow : ∀ row ∈ tally.ranking, Listed current row.publicKey
      ∧ (row.weight, row.chainVerified)
        = (weightOf weightFor current row.publicKey, verifiedOf current row.publicKey) :=
    fun row hmem => (hranks.mem_iff _).mp (List.mem_map_of_mem hmem)
  refine ⟨tally, hcompute, hranks.nodup, fun key => ?_, fun row hmem => ?_, hranks.strict, hreads,
    fun current' hperm => ?_⟩
  · constructor
    · intro hkey
      obtain ⟨row, hmem, rfl⟩ := List.mem_map.mp hkey
      exact (hrow row hmem).1
    · intro hlisted
      obtain ⟨row, hmem, hverdict⟩ := List.mem_map.mp ((hranks.mem_iff
        (key, weightOf weightFor current key, verifiedOf current key)).mpr ⟨hlisted, rfl⟩)
      exact List.mem_map.mpr ⟨row, hmem, congrArg Prod.fst hverdict⟩
  · exact Prod.mk.inj (hrow row hmem).2
  · obtain ⟨tally', hcompute', hranks', -⟩ := exists_ranks weightFor
      (hseeds.mono fun key (hkey : Listed current' key) => (listed_perm hperm).mp hkey)
    exact ⟨tally', hcompute', hranks.verdicts_eq hranks' hperm⟩

end

/-! ### Two keys that tie -/

/-- The ballot of a wallet for the community with a given key. -/
def ballotFor (account : UInt8) (key : JsString) : VotesBundle :=
  { winnerOf account none with votes := [⟨⟨none, key⟩, 1⟩] }

/-- A key with one more byte behind it. -/
def longerKey : JsString := Base58.encode [0, 1, 7]

/-- The current bundle of a wallet, its gate read confirmed. -/
def currentFor (account : UInt8) (key : JsString)
    (h : votesBundleSchema .reference (ballotFor account key) = true) : CurrentBundle .reference :=
  ⟨⟨ballotFor account key, h⟩, ⟨true, none⟩⟩

/-- The constant weight rule. -/
def constantOne : JsString → ℕ → ℤ := weightFor ⟨1, Nat.one_pos⟩ fun _ => .success 1

/-- Two wallets vote for different keys; the constant weight makes them tie. -/
theorem compute_ranking_tied : ∃ (current : List (CurrentBundle .reference)) (tally : ContestTally),
    compute [1, 2, 3] constantOne current = some tally
      ∧ tally.ranking.length = 2 ∧ tally.hashReads = 1 := by
  have hshort : votesBundleSchema .reference (ballotFor 1 (JsString.ofString "11")) = true := by
    decide +kernel
  have hlong : votesBundleSchema .reference (ballotFor 2 longerKey) = true := by decide +kernel
  let current := [currentFor 1 _ hshort, currentFor 2 _ hlong]
  have hlisted : ∀ key, Listed current key ↔ key ∈ [JsString.ofString "11", longerKey] := by
    intro key
    simp [current, Listed, currentFor, ballotFor, VotesBundle.publicKeys, eq_comm]
  have hseed : tieSeed .reference [1, 2, 3] (JsString.ofString "11")
      ≠ tieSeed .reference [1, 2, 3] longerKey := by decide +kernel
  have hseeds : Set.InjOn (tieSeed .reference [1, 2, 3]) {key | Listed current key} := by
    intro key hkey key' hkey' heq
    have hkeys := (hlisted key).mp hkey
    have hkeys' := (hlisted key').mp hkey'
    simp only [List.mem_cons, List.not_mem_nil, or_false] at hkeys hkeys'
    rcases hkeys with rfl | rfl <;> rcases hkeys' with rfl | rfl
    · rfl
    · exact absurd heq hseed
    · exact absurd heq.symm hseed
    · rfl
  obtain ⟨tally, hcompute, hnodup, hmem, hrow, -, hreads, -⟩ :=
    compute_ranking [1, 2, 3] constantOne current hseeds
  have hperm : (tally.ranking.map (·.publicKey)).Perm [JsString.ofString "11", longerKey] :=
    (List.perm_ext_iff_of_nodup hnodup (by decide +kernel)).mpr fun key =>
      (hmem key).trans (hlisted key)
  have hne : JsString.ofString "11" ≠ longerKey := by decide +kernel
  have hweight : ∀ key ∈ [JsString.ofString "11", longerKey],
      weightOf constantOne current key = 1 := by
    simp [weightOf, current, CurrentBundle.names, CurrentBundle.weight, currentFor, ballotFor,
      VotesBundle.publicKeys, hne, hne.symm, constantOne, weightFor, scoreOrZero]
  obtain ⟨a, ha, hkeyA⟩ := List.mem_map.mp
    (hperm.mem_iff.mpr (by simp : JsString.ofString "11" ∈ [JsString.ofString "11", longerKey]))
  obtain ⟨b, hb, hkeyB⟩ := List.mem_map.mp
    (hperm.mem_iff.mpr (by simp : longerKey ∈ [JsString.ofString "11", longerKey]))
  refine ⟨current, tally, hcompute, by simpa using hperm.length_eq, ?_⟩
  refine hreads.trans (if_pos ⟨a, ha, b, hb, ?_, ?_⟩)
  · rw [hkeyA, hkeyB]
    exact hne
  · rw [(hrow a ha).1, (hrow b hb).1, hkeyA, hkeyB, hweight _ (by simp), hweight _ (by simp)]

end Tally

end PubsubVoting
