import PubsubVoting.Lib.Prefer
import PubsubVoting.Tally.Tally

/-!
The name that a row shows.

* `CurrentBundle.claim`: the name that a bundle claims for a key, and whether it has been resolved.
* `shown_of_mem_rowsOf`: a row shows what is kept of the claims for its key, in the order of the
  bundles: the first resolved name, or the last pending one.
* `compute_names_iff`: the shown names do not depend on the order of the bundles exactly if no key
  has two candidates.
* `compute_names_differ`: two wallets claim two names for a key, and two nodes show different ones.
-/

namespace PubsubVoting

open Cbor

namespace Tally

/-- A name that is claimed for a key, and whether it has been resolved. -/
abbrev NameClaim := JsString × Bool

/-- What a vote claims: nothing without a name. -/
def voteClaim (checks : BundleChecks) (community : Community) : Option NameClaim :=
  if truthy community.name then
    community.name.map fun name => (name, decide (checks.nameResolved = some true))
  else none

section

variable {C : Codecs}

/-- What a bundle claims for a key. -/
def CurrentBundle.claim (key : JsString) (c : CurrentBundle C) : Option NameClaim :=
  (c.bundle.1.votes.find? fun v => decide (v.community.publicKey = key)).bind fun v =>
    voteClaim c.checks v.community

/-- The claims for a key, in the order of the bundles. -/
def claimsOf (key : JsString) (current : List (CurrentBundle C)) : List NameClaim :=
  current.filterMap (CurrentBundle.claim key)

/-- A name that some order of the bundles shows for a key: it is claimed, and resolved unless no
claim for the key is. -/
def NameCandidate (key : JsString) (current : List (CurrentBundle C)) (name : JsString) : Prop :=
  ∃ resolved, (∃ c ∈ current, c.claim key = some (name, resolved)) ∧
    (resolved = true ∨ ∀ c ∈ current, ∀ name', c.claim key ≠ some (name', true))

/-- What a row shows: its name, and whether that has been resolved. -/
def CommunityTally.shown (row : CommunityTally) : Option JsString × Option Bool :=
  (row.name, row.nameResolved)

/-- Two rankings show the same names, key by key. -/
def SameNames (ranking ranking' : List CommunityTally) : Prop :=
  ∀ row ∈ ranking, ∃ row' ∈ ranking', row'.publicKey = row.publicKey ∧ row'.name = row.name ∧
    row'.nameResolved = row.nameResolved

/-! ### The fold over the names -/

/-- The slot of a row that holds a claim. -/
def Row.Holds (row : Row) (slot : Option NameClaim) : Prop :=
  row.name = slot.map Prod.fst ∧ row.nameResolved = slot.map Prod.snd

/-- A vote overwrites the slot, unless a resolved name holds it. -/
lemma Row.Holds.add {row : Row} {slot : Option NameClaim} (h : row.Holds slot) (weight : ℤ)
    (checks : BundleChecks) (community : Community) :
    (row.add weight checks community).Holds
      ((voteClaim checks community).toList.foldl (overwrite Prod.snd) slot) := by
  obtain ⟨hname, hresolved⟩ := h
  have hheld : decide (row.nameResolved ≠ some true) = !slot.any Prod.snd := by
    rw [hresolved]
    cases slot with
    | none => rfl
    | some claim =>
        obtain ⟨name, resolved⟩ := claim
        cases resolved <;> rfl
  unfold Row.add Row.Holds voteClaim
  dsimp only
  rw [hheld]
  cases hcommunity : community.name with
  | none => exact ⟨hname, hresolved⟩
  | some name =>
      cases truthy (some name) with
      | false => exact ⟨hname, hresolved⟩
      | true =>
          cases hany : slot.any Prod.snd with
          | true =>
              have hkeep : overwrite Prod.snd slot
                  (name, decide (checks.nameResolved = some true)) = slot := by
                rw [overwrite, if_pos hany]
              simpa [hkeep] using ⟨hname, hresolved⟩
          | false =>
              have htake : overwrite Prod.snd slot
                  (name, decide (checks.nameResolved = some true))
                  = some (name, decide (checks.nameResolved = some true)) := by
                rw [overwrite, if_neg (by rw [hany]; exact Bool.false_ne_true)]
              simp [htake]

lemma filterMap_cons_toList {α β : Type} (f : α → Option β) (x : α) (xs : List α) :
    (x :: xs).filterMap f = (f x).toList ++ xs.filterMap f := by
  rw [List.filterMap_cons]
  cases f x <;> rfl

lemma holds_foldl_add (votes : List Contribution) {row : Row} {slot : Option NameClaim}
    (h : row.Holds slot) :
    (votes.foldl (fun row vote => row.add vote.1 vote.2.1 vote.2.2) row).Holds
      ((votes.filterMap fun vote => voteClaim vote.2.1 vote.2.2).foldl (overwrite Prod.snd)
        slot) := by
  induction votes generalizing row slot with
  | nil => exact h
  | cons vote votes ih =>
      rw [List.foldl_cons, filterMap_cons_toList, List.foldl_append]
      exact ih (h.add vote.1 vote.2.1 vote.2.2)

/-- Where a value occurs once, those that have it are the first one. -/
lemma filter_eq_find? {α β : Type} [DecidableEq β] {f : α → β} {xs : List α}
    (h : (xs.map f).Nodup) (k : β) :
    (xs.filter fun x => decide (f x = k)) = (xs.find? fun x => decide (f x = k)).toList := by
  induction xs with
  | nil => rfl
  | cons x xs ih =>
      obtain ⟨hx, hrest⟩ := List.nodup_cons.mp h
      by_cases hk : f x = k
      · have hnone : (xs.filter fun x => decide (f x = k)) = [] := by
          rw [List.filter_eq_nil_iff]
          intro y hy hyk
          rw [← hk] at hyk
          exact hx (List.mem_map.mpr ⟨y, hy, of_decide_eq_true hyk⟩)
        rw [List.filter_cons_of_pos (by simpa using hk), hnone,
          List.find?_cons_of_pos (by simpa using hk)]
        rfl
      · rw [List.filter_cons_of_neg (by simpa using hk), ih hrest,
          List.find?_cons_of_neg (by simpa using hk)]

/-- The claims of the votes for a key are those of the bundles. -/
lemma filterMap_contributions (weightFor : JsString → ℕ → ℤ) (current : List (CurrentBundle C))
    (key : JsString) :
    ((current.flatMap (CurrentBundle.contributions weightFor)).filter fun vote =>
        decide (vote.2.2.publicKey = key)).filterMap (fun vote => voteClaim vote.2.1 vote.2.2)
      = claimsOf key current := by
  induction current with
  | nil => rfl
  | cons c current ih =>
      have hnodup : (c.bundle.1.votes.map fun v => v.community.publicKey).Nodup :=
        (votesBundleSchema_iff.mp c.bundle.2).2.2.2.2
      have hfirst : ((c.contributions weightFor).filter fun vote =>
          decide (vote.2.2.publicKey = key)).filterMap (fun vote => voteClaim vote.2.1 vote.2.2)
            = (c.claim key).toList := by
        rw [CurrentBundle.contributions, List.filter_map, List.filterMap_map]
        show ((c.bundle.1.votes.filter fun v => decide (v.community.publicKey = key)).filterMap
          fun v => voteClaim c.checks v.community) = _
        rw [filter_eq_find? hnodup, CurrentBundle.claim]
        cases c.bundle.1.votes.find? fun v => decide (v.community.publicKey = key) with
        | none => rfl
        | some v =>
            show [v].filterMap _ = _
            rw [filterMap_cons_toList, List.filterMap_nil, List.append_nil, Option.bind_some]
      rw [List.flatMap_cons, List.filter_append, List.filterMap_append, hfirst, ih, claimsOf,
        claimsOf, filterMap_cons_toList]

/-! ### What a row shows -/

lemma truthy_of_voteClaim {checks : BundleChecks} {community : Community} {claim : NameClaim}
    (h : voteClaim checks community = some claim) : truthy (some claim.1) = true := by
  rw [voteClaim] at h
  split_ifs at h with htruthy
  obtain ⟨name, hname, rfl⟩ := Option.map_eq_some_iff.mp h
  rwa [hname] at htruthy

/-- What is kept of the claims for a key, as it is shown. -/
def shownOf (key : JsString) (current : List (CurrentBundle C)) : Option JsString × Option Bool :=
  let slot := kept Prod.snd (claimsOf key current)
  (slot.map Prod.fst, slot.map Prod.snd)

/-- **A row shows what is kept of the claims for its key.** -/
lemma shown_of_mem_rowsOf {weightFor : JsString → ℕ → ℤ} {current : List (CurrentBundle C)}
    {row : CommunityTally} (h : row ∈ rowsOf weightFor current) :
    row.shown = shownOf row.publicKey current := by
  obtain ⟨⟨key, r⟩, hmem, rfl⟩ := List.mem_map.mp h
  have hget := JsMap.get?_eq_some_iff.mpr hmem
  rw [aggregate_eq_foldl, get?_foldl_addVote] at hget
  dsimp only at hget
  have hholds : r.Holds (kept Prod.snd (claimsOf key current)) := by
    have hempty : Row.empty.Holds none := ⟨rfl, rfl⟩
    rw [← filterMap_contributions weightFor, ← foldl_overwrite]
    split_ifs at hget with hnil
    · cases hget
    · obtain rfl := Option.some.inj hget
      exact holds_foldl_add _ hempty
  have hshown : truthy r.name = r.name.isSome := by
    rw [hholds.1]
    cases hkept : kept Prod.snd (claimsOf key current) with
    | none => rfl
    | some claim =>
        obtain ⟨c, -, hclaim⟩ := List.mem_filterMap.mp (candidate_of_kept hkept).1
        obtain ⟨v, -, hvote⟩ := Option.bind_eq_some_iff.mp hclaim
        exact truthy_of_voteClaim hvote
  show ((toTally (key, r)).name, (toTally (key, r)).nameResolved) = shownOf key current
  unfold toTally shownOf
  dsimp only
  rw [hshown, ← hholds.1, ← hholds.2]
  cases hname : r.name with
  | some name => rfl
  | none =>
      have hnone : kept Prod.snd (claimsOf key current) = none := by
        rw [hholds.1] at hname
        exact Option.map_eq_none_iff.mp hname
      rw [hholds.2, hnone]
      rfl

/-- A key that some bundle names has a row. -/
lemma exists_row {weightFor : JsString → ℕ → ℤ} {current : List (CurrentBundle C)} {key : JsString}
    (h : Listed current key) : ∃ row ∈ rowsOf weightFor current, row.publicKey = key := by
  have hverdict : (key, weightOf weightFor current key, verifiedOf current key)
      ∈ (rowsOf weightFor current).map CommunityTally.verdict := mem_rowsOf_iff.mpr ⟨h, rfl⟩
  obtain ⟨row, hrow, heq⟩ := List.mem_map.mp hverdict
  exact ⟨row, hrow, congrArg Prod.fst heq⟩

/-- Two rankings show the same names if the claims are kept alike. -/
lemma sameNames_iff {weightFor : JsString → ℕ → ℤ} {current current' : List (CurrentBundle C)}
    (hperm : current'.Perm current) {ranking ranking' : List CommunityTally}
    (hrows : ranking.Perm (rowsOf weightFor current))
    (hrows' : ranking'.Perm (rowsOf weightFor current')) :
    SameNames ranking ranking' ↔ ∀ key, Listed current key →
      shownOf key current' = shownOf key current := by
  constructor
  · intro hsame key hkey
    obtain ⟨row, hrow, rfl⟩ := exists_row hkey
    obtain ⟨row', hrow', hkey', hname, hresolved⟩ := hsame row (hrows.mem_iff.mpr hrow)
    calc shownOf row.publicKey current' = row'.shown := by
          rw [shown_of_mem_rowsOf (hrows'.mem_iff.mp hrow'), hkey']
      _ = row.shown := Prod.ext hname hresolved
      _ = shownOf row.publicKey current := shown_of_mem_rowsOf hrow
  · intro hshown row hrow
    have hrow := hrows.mem_iff.mp hrow
    have hlisted := listed_of_mem_rowsOf hrow
    obtain ⟨row', hrow', hkey⟩ := exists_row ((listed_perm hperm).mpr hlisted)
    have hsame : row'.shown = row.shown := by
      rw [shown_of_mem_rowsOf hrow', shown_of_mem_rowsOf hrow, hkey]
      exact hshown _ hlisted
    exact ⟨row', hrows'.mem_iff.mpr hrow', hkey, congrArg Prod.fst hsame, congrArg Prod.snd hsame⟩

lemma shownOf_eq_iff {key : JsString} {current current' : List (CurrentBundle C)} :
    shownOf key current' = shownOf key current ↔
      kept Prod.snd (claimsOf key current') = kept Prod.snd (claimsOf key current) := by
  unfold shownOf
  dsimp only
  rw [Prod.mk.injEq]
  constructor
  · rintro ⟨hname, hresolved⟩
    cases hkept : kept Prod.snd (claimsOf key current) with
    | none =>
        rw [hkept] at hname
        exact Option.map_eq_none_iff.mp hname
    | some claim =>
        rw [hkept] at hname hresolved
        obtain ⟨claim', hkept', hfst⟩ := Option.map_eq_some_iff.mp hname
        rw [hkept', Option.map_some, Option.map_some] at hresolved
        rw [hkept', Prod.ext hfst (Option.some.inj hresolved)]
  · intro hkept
    exact ⟨congrArg _ hkept, congrArg _ hkept⟩

lemma nameCandidate_iff {key : JsString} {current : List (CurrentBundle C)} {name : JsString} :
    NameCandidate key current name ↔
      ∃ resolved, Candidate Prod.snd (claimsOf key current) (name, resolved) := by
  refine exists_congr fun resolved => and_congr List.mem_filterMap.symm (or_congr Iff.rfl ?_)
  constructor
  · rintro hnone ⟨name', resolved'⟩ hmem
    obtain ⟨c, hc, hclaim⟩ := List.mem_filterMap.mp hmem
    cases resolved' with
    | false => rfl
    | true => exact absurd hclaim (hnone c hc name')
  · intro hall c hc name' hclaim
    have hfalse := hall _ (List.mem_filterMap.mpr ⟨c, hc, hclaim⟩)
    cases hfalse

/-- Candidates are all resolved, or none is. -/
lemma candidates_eq_iff {key : JsString} {current : List (CurrentBundle C)} :
    (∀ x y, Candidate Prod.snd (claimsOf key current) x →
      Candidate Prod.snd (claimsOf key current) y → x = y) ↔
      ∀ name name', NameCandidate key current name → NameCandidate key current name' →
        name = name' := by
  constructor
  · intro hone name name' hname hname'
    obtain ⟨resolved, hx⟩ := nameCandidate_iff.mp hname
    obtain ⟨resolved', hy⟩ := nameCandidate_iff.mp hname'
    exact congrArg Prod.fst (hone _ _ hx hy)
  · rintro hone ⟨name, resolved⟩ ⟨name', resolved'⟩ hx hy
    have hname : name = name' :=
      hone name name' (nameCandidate_iff.mpr ⟨_, hx⟩) (nameCandidate_iff.mpr ⟨_, hy⟩)
    have hresolved : resolved = resolved' := by
      rcases hx.2 with hx' | hx'
      · rcases hy.2 with hy' | hy'
        · exact hx'.trans hy'.symm
        · have hfalse := hy' _ hx.1
          rw [hx'] at hfalse
          cases hfalse
      · exact (hx' _ hx.1).trans (hx' _ hy.1).symm
    rw [hname, hresolved]

/-- The names that a contest shows are a function of its current bundles, whatever order these are
in, exactly if no key has two candidates: two names that have been resolved for it, or, where none
has, two that are pending. -/
theorem compute_names_iff (blockHash : Bytes) (weightFor : JsString → ℕ → ℤ)
    (current : List (CurrentBundle C)) :
    (∀ current' : List (CurrentBundle C), current'.Perm current → ∃ tally tally',
      compute blockHash weightFor current = some tally ∧
      compute blockHash weightFor current' = some tally' ∧
      SameNames tally.ranking tally'.ranking) ↔
    ∀ key name name', NameCandidate key current name → NameCandidate key current name' →
      name = name' := by
  obtain ⟨tally, hcompute, hrows, -, -⟩ := compute_spec blockHash weightFor current
  constructor
  · intro hsame key name name' hname
    have hlisted : Listed current key := by
      obtain ⟨resolved, ⟨c, hc, hclaim⟩, -⟩ := hname
      obtain ⟨v, hv, -⟩ := Option.bind_eq_some_iff.mp hclaim
      have hkey : decide (v.community.publicKey = key) = true :=
        List.find?_some (p := fun v : Vote => decide (v.community.publicKey = key)) hv
      exact ⟨c, hc, List.mem_map.mpr ⟨v, List.mem_of_find?_eq_some hv, of_decide_eq_true hkey⟩⟩
    refine candidates_eq_iff.mp (kept_perm_iff.mp fun current' hperm => ?_) name name' hname
    obtain ⟨tally₁, tally', hcompute₁, hcompute', hnames⟩ := hsame current' hperm
    obtain rfl := Option.some.inj (hcompute.symm.trans hcompute₁)
    obtain ⟨tally₂, hcompute₂, hrows', -, -⟩ := compute_spec blockHash weightFor current'
    obtain rfl := Option.some.inj (hcompute'.symm.trans hcompute₂)
    exact shownOf_eq_iff.mp ((sameNames_iff hperm hrows hrows').mp hnames key hlisted)
  · intro hone current' hperm
    obtain ⟨tally', hcompute', hrows', -, -⟩ := compute_spec blockHash weightFor current'
    refine ⟨tally, tally', hcompute, hcompute', (sameNames_iff hperm hrows hrows').mpr ?_⟩
    intro key _
    exact shownOf_eq_iff.mpr (kept_perm_iff.mpr (candidates_eq_iff.mpr (hone key)) current' hperm)

end

/-! ### Two resolved names -/

/-- The current bundle of a wallet that names the community `11`, every check of it settled. -/
def settledFor (account : UInt8) (name : JsString)
    (h : votesBundleSchema .reference (winnerOf account (some name)) = true) :
    CurrentBundle .reference :=
  ⟨⟨winnerOf account (some name), h⟩, ⟨true, some true⟩⟩

/-- Two wallets whose names for the community differ. -/
def aVoter : CurrentBundle .reference :=
  settledFor 1 (JsString.ofString "a.bso") (by decide +kernel)

@[inherit_doc aVoter]
def bVoter : CurrentBundle .reference :=
  settledFor 2 (JsString.ofString "b.bso") (by decide +kernel)

/-- **The name that is shown depends on the order of arrival**: two wallets vote for one key under
two names that both resolve to it, and two nodes that hold the two bundles show different ones. -/
theorem compute_names_differ : ∃ (current current' : List (CurrentBundle .reference)),
    current'.Perm current ∧ ∃ tally tally',
      compute [1, 2, 3] constantOne current = some tally ∧
      compute [1, 2, 3] constantOne current' = some tally' ∧
      ¬ SameNames tally.ranking tally'.ranking ∧
      ∃ row ∈ tally.ranking, ∃ row' ∈ tally'.ranking, row'.publicKey = row.publicKey ∧
        row.shown = (some (JsString.ofString "a.bso"), some true) ∧
        row'.shown = (some (JsString.ofString "b.bso"), some true) := by
  have hperm : [bVoter, aVoter].Perm [aVoter, bVoter] := List.Perm.swap _ _ _
  have hlisted : Listed [aVoter, bVoter] (JsString.ofString "11") :=
    ⟨aVoter, List.mem_cons_self, List.mem_singleton.mpr rfl⟩
  have hshown : shownOf (JsString.ofString "11") [aVoter, bVoter]
      = (some (JsString.ofString "a.bso"), some true) := by decide +kernel
  have hshown' : shownOf (JsString.ofString "11") [bVoter, aVoter]
      = (some (JsString.ofString "b.bso"), some true) := by decide +kernel
  obtain ⟨tally, hcompute, hrows, -, -⟩ := compute_spec [1, 2, 3] constantOne [aVoter, bVoter]
  obtain ⟨tally', hcompute', hrows', -, -⟩ := compute_spec [1, 2, 3] constantOne [bVoter, aVoter]
  obtain ⟨row, hrow, hkey⟩ := exists_row hlisted
  obtain ⟨row', hrow', hkey'⟩ := exists_row ((listed_perm hperm).mpr hlisted)
  refine ⟨[aVoter, bVoter], [bVoter, aVoter], hperm, tally, tally', hcompute, hcompute',
    fun hsame => ?_, row, hrows.mem_iff.mpr hrow, row', hrows'.mem_iff.mpr hrow',
    hkey'.trans hkey.symm, ?_, ?_⟩
  · have heq := (sameNames_iff hperm hrows hrows').mp hsame _ hlisted
    rw [hshown, hshown'] at heq
    exact absurd heq (by decide +kernel)
  · rw [shown_of_mem_rowsOf hrow, hkey]
    exact hshown
  · rw [shown_of_mem_rowsOf hrow', hkey']
    exact hshown'

end Tally

end PubsubVoting
