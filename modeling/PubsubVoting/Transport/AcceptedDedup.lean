import PubsubVoting.Crdt.Crdt
import PubsubVoting.Lib.BoundedFifo

/-!
The accepted-vote dedup of the forward gate: a bounded set of `(wallet, bucket, votes)` that drops
a wallet's re-sign of a choice already accepted in the same bucket.

* `keyFor`, `isResignDuplicate`, `record`: the set.
* `admitted`: the deliveries the gate lets through, and `gateRun`, `admitAll`: the working set with
  and without the dedup.
* `keyFor_eq_iff`: on decoded bundles the key is the choice itself.
* `FreshDelivery`, `FirstDelivery`: what a delivery is among the deliveries, whatever the gate
  holds; `mem_admitted_iff`: the gate lets the fresh ones through.
* `exists_admitted`: a dropped bundle has an admitted one with its key.
* `gateRun_votes_eq_iff`: the dedup changes no wallet's winning votes exactly if in the bucket of
  each wallet's greatest bundle some fresh delivery of its votes outranks every fresh delivery of
  other votes; where nothing is evicted, exactly if the first delivery of its votes outranks the
  first delivery of any other votes.
-/

namespace PubsubVoting

open Cbor

/-! ### The set -/

/-- A community as the application holds it. -/
def Community.toValue (c : Community) : Value :=
  .map ((c.name.map fun name => ("name", Value.text name.toWellFormed)).toList
    ++ [("publicKey", .text c.publicKey.toWellFormed)])

/-- A vote as the application holds it. -/
def Vote.toValue (v : Vote) : Value :=
  .map [("community", v.community.toValue), ("vote", .int v.vote)]

/-- The votes of a bundle as the application holds them. -/
def votesValue (votes : List Vote) : Value := .list (votes.map Vote.toValue)

/-- Wallet, bucket and the canonical bytes of the votes. -/
structure DedupKey where
  wallet : JsString
  bucket : ℕ
  votes : Option Bytes
  deriving DecidableEq

/-- The key of a bundle. -/
def keyFor (C : Codecs) (bm : BucketMath) (bundle : VotesBundle) : DedupKey :=
  ⟨bundle.wallet, bm.bucketForBlock bundle.blockNumber, C.encodeCanonical (votesValue bundle.votes)⟩

/-- The same choice of the same wallet was accepted in the same bucket. -/
def isResignDuplicate (C : Codecs) (bm : BucketMath) (seen : FifoSet DedupKey)
    (bundle : VotesBundle) : Bool := decide (keyFor C bm bundle ∈ seen.keys)

/-- Record an accepted bundle. -/
def recordAccepted (C : Codecs) (bm : BucketMath) (maxEntries : ℕ) (seen : FifoSet DedupKey)
    (bundle : VotesBundle) : FifoSet DedupKey := seen.record maxEntries (keyFor C bm bundle)

/-! ### Deliveries -/

/-- A bundle message that passes every check: bytes that decode, with votes that encode again. -/
structure Delivery (C : Codecs) where
  bytes : Bytes
  bundle : VotesBundle
  decoded : decodeBundle C bytes = some bundle
  encodable : (C.encodeCanonical (votesValue bundle.votes)).isSome

/-- The entry a delivery is integrated as. -/
def Delivery.entry {C : Codecs} (d : Delivery C) : Entry := ⟨bundleCidForBytes C d.bytes, d.bundle⟩

section

variable {C : Codecs} (bm : BucketMath) (maxEntries : ℕ)

/-- One delivery at the gate: a re-sign is dropped, anything else is integrated and recorded. -/
def gateStep (s : FifoSet DedupKey × Bundles) (d : Delivery C) : FifoSet DedupKey × Bundles :=
  if isResignDuplicate C bm s.1 d.bundle then s
  else (recordAccepted C bm maxEntries s.1 d.bundle, integrate s.2 d.entry.cid d.entry.bundle)

/-- The gate's set and working set after a sequence of deliveries. -/
def gateRun (ds : List (Delivery C)) : FifoSet DedupKey × Bundles :=
  ds.foldl (gateStep bm maxEntries) (FifoSet.empty, ∅)

/-- The working set that admits every delivery. -/
def admitAll (ds : List (Delivery C)) : Bundles :=
  ds.foldl (fun m d => integrate m d.entry.cid d.entry.bundle) ∅

/-- The deliveries that are not flagged when their turn comes. -/
def admitted (seen : FifoSet DedupKey) : List (Delivery C) → List (Delivery C)
  | [] => []
  | d :: ds =>
    if isResignDuplicate C bm seen d.bundle then admitted seen ds
    else d :: admitted (recordAccepted C bm maxEntries seen d.bundle) ds

variable {bm maxEntries}

/-- The gate's working set is that of the admitted deliveries. -/
lemma gateRun_eq (ds : List (Delivery C)) :
    (gateRun bm maxEntries ds).2 = admitAll (admitted bm maxEntries FifoSet.empty ds) := by
  have h : ∀ (s : FifoSet DedupKey × Bundles),
      (ds.foldl (gateStep bm maxEntries) s).2
        = (admitted bm maxEntries s.1 ds).foldl
            (fun m d => integrate m d.entry.cid d.entry.bundle) s.2 := by
    induction ds with
    | nil => exact fun _ => rfl
    | cons d ds ih =>
        intro s
        rw [List.foldl_cons, ih, gateStep, admitted]
        by_cases hdup : isResignDuplicate C bm s.1 d.bundle = true
        · rw [if_pos hdup, if_pos hdup]
        · rw [if_neg hdup, if_neg hdup, List.foldl_cons]
  exact h _

/-! ### Fresh deliveries -/

/-- The keys of deliveries, the newest first. -/
def newestKeys (bm : BucketMath) (ds : List (Delivery C)) : List DedupKey :=
  (ds.map fun d => keyFor C bm d.bundle).reverse

/-- A delivery is fresh among the deliveries: its key is not among the last keys taken in by the
deliveries before it, as many as the bound. -/
def FreshDelivery (bm : BucketMath) (maxEntries : ℕ) (ds : List (Delivery C)) (d : Delivery C) :
    Prop :=
  ∃ before after, ds = before ++ d :: after ∧
    keyFor C bm d.bundle ∉ (takenIn maxEntries (newestKeys bm before)).take maxEntries

/-- The first delivery of its key. -/
def FirstDelivery (bm : BucketMath) (ds : List (Delivery C)) (d : Delivery C) : Prop :=
  ∃ before after, ds = before ++ d :: after ∧
    ∀ e ∈ before, keyFor C bm e.bundle ≠ keyFor C bm d.bundle

/-- The gate's set holds the last keys taken in by the deliveries so far. -/
structure HoldsLast (maxEntries : ℕ) (seen : FifoSet DedupKey) (earlier : List DedupKey) :
    Prop where
  enumerates : Enumerates seen.has seen.order
  order_eq : seen.order = ((takenIn maxEntries earlier).take maxEntries).reverse

lemma holdsLast_empty : HoldsLast maxEntries FifoSet.empty [] where
  enumerates := ⟨List.nodup_nil, fun k => by simp [FifoSet.has, FifoSet.empty]⟩
  order_eq := by simp [takenIn, FifoSet.empty]

/-- A key is flagged exactly if it is among the last taken in. -/
lemma HoldsLast.flagged_iff {seen : FifoSet DedupKey} {earlier : List DedupKey}
    (h : HoldsLast maxEntries seen earlier) (d : Delivery C) :
    isResignDuplicate C bm seen d.bundle = true ↔
      keyFor C bm d.bundle ∈ (takenIn maxEntries earlier).take maxEntries := by
  rw [← List.mem_reverse, ← h.order_eq, h.enumerates.mem_iff]
  rfl

/-- After a delivery, taken in or not, the set holds the last keys again. -/
lemma HoldsLast.next {seen : FifoSet DedupKey} {earlier : List DedupKey}
    (h : HoldsLast maxEntries seen earlier) (d : Delivery C) :
    HoldsLast maxEntries (recordAccepted C bm maxEntries seen d.bundle)
      (keyFor C bm d.bundle :: earlier) := by
  obtain ⟨horder, henum⟩ : (seen.record maxEntries (keyFor C bm d.bundle)).order =
        (FifoOp.put (keyFor C bm d.bundle)).next maxEntries seen.order ∧ _ :=
    FifoSet.record_spec h.enumerates (keyFor C bm d.bundle)
  refine ⟨henum, horder.trans ?_⟩
  rw [h.order_eq, next_put_takenIn]

lemma recordAccepted_of_flagged {seen : FifoSet DedupKey} {d : Delivery C}
    (h : isResignDuplicate C bm seen d.bundle = true) :
    recordAccepted C bm maxEntries seen d.bundle = seen := by
  rw [recordAccepted, FifoSet.record, if_pos (of_decide_eq_true h)]

lemma newestKeys_cons (d : Delivery C) (ds : List (Delivery C)) (earlier : List DedupKey) :
    newestKeys bm (d :: ds) ++ earlier = newestKeys bm ds ++ keyFor C bm d.bundle :: earlier := by
  simp [newestKeys]

/-- The deliveries that the gate lets through, by the keys before them. -/
lemma mem_admitted_iff_of_holdsLast {seen : FifoSet DedupKey} {earlier : List DedupKey}
    {ds : List (Delivery C)} {a : Delivery C} (h : HoldsLast maxEntries seen earlier) :
    a ∈ admitted bm maxEntries seen ds ↔ ∃ before after, ds = before ++ a :: after ∧
      keyFor C bm a.bundle ∉
        (takenIn maxEntries (newestKeys bm before ++ earlier)).take maxEntries := by
  induction ds generalizing seen earlier with
  | nil => simp [admitted]
  | cons d ds ih =>
      -- the delivery is the first one, or comes after it
      have hsplit : (∃ before after, d :: ds = before ++ a :: after ∧ keyFor C bm a.bundle ∉
            (takenIn maxEntries (newestKeys bm before ++ earlier)).take maxEntries) ↔
          (a = d ∧ ¬ isResignDuplicate C bm seen d.bundle = true)
            ∨ a ∈ admitted bm maxEntries (recordAccepted C bm maxEntries seen d.bundle) ds := by
        rw [ih (h.next d), h.flagged_iff]
        constructor
        · rintro ⟨before, after, heq, hfresh⟩
          cases before with
          | nil =>
              obtain ⟨rfl, rfl⟩ := List.cons.inj heq
              exact .inl ⟨rfl, hfresh⟩
          | cons d' before =>
              obtain ⟨rfl, rfl⟩ := List.cons.inj heq
              rw [newestKeys_cons] at hfresh
              exact .inr ⟨before, after, rfl, hfresh⟩
        · rintro (⟨rfl, hfresh⟩ | ⟨before, after, rfl, hfresh⟩)
          · exact ⟨[], ds, rfl, hfresh⟩
          · refine ⟨d :: before, after, rfl, ?_⟩
            rwa [newestKeys_cons]
      rw [hsplit, admitted]
      by_cases hdup : isResignDuplicate C bm seen d.bundle = true
      · simp only [hdup, if_true, recordAccepted_of_flagged hdup, not_true_eq_false, and_false,
          false_or]
      · rw [if_neg hdup, List.mem_cons]
        simp only [hdup, Bool.false_eq_true, not_false_eq_true, and_true]

/-- **The gate lets the fresh deliveries through.** -/
theorem mem_admitted_iff {ds : List (Delivery C)} {a : Delivery C} :
    a ∈ admitted bm maxEntries FifoSet.empty ds ↔ FreshDelivery bm maxEntries ds a := by
  rw [mem_admitted_iff_of_holdsLast holdsLast_empty, FreshDelivery]
  simp only [List.append_nil]

/-- Where the bound has room for every key, the fresh deliveries are the first of their key. -/
theorem freshDelivery_iff_first {ds : List (Delivery C)} {d : Delivery C}
    (hroom : (ds.map fun d => keyFor C bm d.bundle).dedup.length ≤ maxEntries) :
    FreshDelivery bm maxEntries ds d ↔ FirstDelivery bm ds d := by
  refine exists_congr fun before => exists_congr fun after => and_congr_right fun hds => ?_
  have hsub : ∀ k ∈ (newestKeys bm before).dedup, k ∈
      (ds.map fun d => keyFor C bm d.bundle).dedup := by
    intro k hk
    rw [List.mem_dedup, newestKeys, List.mem_reverse, List.mem_map] at hk
    obtain ⟨e, he, rfl⟩ := hk
    rw [List.mem_dedup, hds]
    exact List.mem_map_of_mem (List.mem_append_left _ he)
  have hbefore : (newestKeys bm before).dedup.length ≤ maxEntries :=
    ((List.nodup_dedup _).subperm hsub).length_le.trans hroom
  obtain ⟨hnodup, hmem⟩ := takenIn_of_room hbefore
  have hshort : (takenIn maxEntries (newestKeys bm before)).length ≤ maxEntries :=
    (hnodup.subperm fun k hk => List.mem_dedup.mpr ((hmem k).mp hk)).length_le.trans hbefore
  rw [List.take_of_length_le hshort, hmem, newestKeys, List.mem_reverse, List.mem_map]
  push Not
  rfl

lemma mem_of_mem_admitted {ds : List (Delivery C)} {d : Delivery C}
    (h : d ∈ admitted bm maxEntries FifoSet.empty ds) : d ∈ ds := by
  obtain ⟨before, after, rfl, -⟩ := mem_admitted_iff.mp h
  exact List.mem_append_right _ List.mem_cons_self

/-- A delivery is admitted, or its key is that of an admitted one or was there before. -/
lemma exists_admitted_or_seen {seen : FifoSet DedupKey} {ds : List (Delivery C)} {d : Delivery C}
    (hd : d ∈ ds) : keyFor C bm d.bundle ∈ seen.keys
      ∨ ∃ a ∈ admitted bm maxEntries seen ds, keyFor C bm a.bundle = keyFor C bm d.bundle := by
  induction ds generalizing seen with
  | nil => cases hd
  | cons d' ds ih =>
      rw [admitted]
      by_cases hdup : isResignDuplicate C bm seen d'.bundle = true
      · rw [if_pos hdup]
        rcases List.mem_cons.mp hd with rfl | hd
        · exact Or.inl (of_decide_eq_true hdup)
        · exact ih hd
      · rw [if_neg hdup]
        rcases List.mem_cons.mp hd with rfl | hd
        · exact Or.inr ⟨d, by simp, rfl⟩
        · rcases ih hd with hseen | ⟨a, ha, hkey⟩
          · rcases FifoSet.mem_keys_record hseen with hnew | hseen
            · exact Or.inr ⟨d', by simp, hnew.symm⟩
            · exact Or.inl hseen
          · exact Or.inr ⟨a, List.mem_cons_of_mem _ ha, hkey⟩

/-- **A dropped bundle has an admitted one with its key**, however small the set. -/
theorem exists_admitted {ds : List (Delivery C)} {d : Delivery C} (hd : d ∈ ds) :
    ∃ a ∈ admitted bm maxEntries FifoSet.empty ds, keyFor C bm a.bundle = keyFor C bm d.bundle := by
  refine (exists_admitted_or_seen hd).resolve_left ?_
  simp [FifoSet.empty]

end

/-! ### The key is the choice -/

section

variable {C : Codecs}

lemma Community.get?_name (c : Community) :
    c.toValue.get? "name" = c.name.map fun name => .text name.toWellFormed := by
  cases hn : c.name <;> simp [Community.toValue, Value.get?, List.lookup_cons, hn]

lemma Community.get?_publicKey (c : Community) :
    c.toValue.get? "publicKey" = some (.text c.publicKey.toWellFormed) := by
  cases hn : c.name <;> simp [Community.toValue, Value.get?, List.lookup_cons, hn]

/-- Well-formed votes with one canonical form are one vote. -/
lemma Vote.eq_of_canon_eq {v v' : Vote} (hv : v.toValue.encodable = true)
    (hv' : v'.toValue.encodable = true) (hw : v.WellFormed) (hw' : v'.WellFormed)
    (h : v.toValue.canon = v'.toValue.canon) : v = v' := by
  have hget : ∀ k, (v.toValue.get? k).map Value.canon = (v'.toValue.get? k).map Value.canon :=
    fun k => by rw [← get?_canon hv, ← get?_canon hv', h]
  have hvote : v.vote = v'.vote := by
    have := hget "vote"
    simpa [Vote.toValue, Value.get?, List.lookup_cons, Value.canon] using this
  have hcommunity : v.community.toValue.canon = v'.community.toValue.canon := by
    have := hget "community"
    simpa [Vote.toValue, Value.get?, List.lookup_cons] using this
  have hcenc : v.community.toValue.encodable = true := encodable_get? hv (k := "community") rfl
  have hcenc' : v'.community.toValue.encodable = true := encodable_get? hv' (k := "community") rfl
  have hcget : ∀ k, (v.community.toValue.get? k).map Value.canon
      = (v'.community.toValue.get? k).map Value.canon :=
    fun k => by rw [← get?_canon hcenc, ← get?_canon hcenc', hcommunity]
  have hkey : v.community.publicKey = v'.community.publicKey := by
    have := hcget "publicKey"
    rw [Community.get?_publicKey, Community.get?_publicKey] at this
    refine hw.publicKey.eq_of_toWellFormed_eq hw'.publicKey ?_
    simpa [Value.canon] using this
  have hname : v.community.name = v'.community.name := by
    have := hcget "name"
    rw [Community.get?_name, Community.get?_name] at this
    cases hn : v.community.name with
    | none =>
        cases hn' : v'.community.name with
        | none => rfl
        | some name' => simp [hn, hn'] at this
    | some name =>
        cases hn' : v'.community.name with
        | none => simp [hn, hn'] at this
        | some name' =>
            have htext : name.toWellFormed = name'.toWellFormed := by
              simpa [hn, hn', Value.canon] using this
            rw [(hw.name name hn).eq_of_toWellFormed_eq (hw'.name name' hn') htext]
  obtain ⟨⟨name, publicKey⟩, vote⟩ := v
  obtain ⟨⟨name', publicKey'⟩, vote'⟩ := v'
  simp_all

/-- Well-formed ballots with the same canonical bytes are the same ballot. -/
lemma votes_eq_of_encodeCanonical_eq {votes votes' : List Vote} {x : Bytes}
    (hw : ∀ v ∈ votes, v.WellFormed) (hw' : ∀ v ∈ votes', v.WellFormed)
    (h : C.encodeCanonical (votesValue votes) = some x)
    (h' : C.encodeCanonical (votesValue votes') = some x) : votes = votes' := by
  have henc : ∀ {votes}, C.encodeCanonical (votesValue votes) = some x →
      ∀ v ∈ votes, v.toValue.encodable = true := by
    intro votes h v hv
    have := C.decode_encodable _ _ (C.decode_encode _ _ h)
    rw [encodable_canon, votesValue] at this
    exact encodable_of_mem this (List.mem_map_of_mem hv)
  have hcanon := Codecs.encodeCanonical_inj h h'
  rw [votesValue, votesValue, canon_list, canon_list, Value.list.injEq, List.map_map, List.map_map]
    at hcanon
  have h₁ := henc h
  have h₂ := henc h'
  clear h h'
  induction votes generalizing votes' with
  | nil =>
      cases votes' with
      | nil => rfl
      | cons v' votes' => simp at hcanon
  | cons v votes ih =>
      cases votes' with
      | nil => simp at hcanon
      | cons v' votes' =>
          rw [List.map_cons, List.map_cons, List.cons.injEq] at hcanon
          rw [List.forall_mem_cons] at hw hw' h₁ h₂
          rw [Vote.eq_of_canon_eq h₁.1 h₂.1 hw.1 hw'.1 hcanon.1,
            ih hw.2 hw'.2 hcanon.2 h₁.2 h₂.2]

/-- **The key is the choice**: wallet, bucket and votes. -/
theorem keyFor_eq_iff (bm : BucketMath) (d d' : Delivery C) :
    keyFor C bm d.bundle = keyFor C bm d'.bundle ↔
      d.bundle.wallet = d'.bundle.wallet
        ∧ bm.bucketForBlock d.bundle.blockNumber = bm.bucketForBlock d'.bundle.blockNumber
        ∧ d.bundle.votes = d'.bundle.votes := by
  rw [keyFor, keyFor, DedupKey.mk.injEq]
  refine and_congr_right fun _ => and_congr_right fun _ => ⟨fun h => ?_, fun h => by rw [h]⟩
  obtain ⟨x, hx⟩ := Option.isSome_iff_exists.mp d.encodable
  exact votes_eq_of_encodeCanonical_eq (wellFormed_of_decodeBundle d.decoded)
    (wellFormed_of_decodeBundle d'.decoded) hx (h ▸ hx)

end

/-! ### The dedup against last write wins -/

section

variable {C : Codecs} {bm : BucketMath} {maxEntries : ℕ} {ds : List (Delivery C)}

/-- No two of the deliveries collide under sha2-256. -/
def CollisionFree (ds : List (Delivery C)) : Prop :=
  ∀ d ∈ ds, ∀ d' ∈ ds, C.sha256 d.bytes = C.sha256 d'.bytes → d.bytes = d'.bytes

lemma entry_eq_of_cid_eq (hcid : CollisionFree ds) {d d' : Delivery C} (hd : d ∈ ds) (hd' : d' ∈ ds)
    (h : d.entry.cid = d'.entry.cid) : d.entry = d'.entry := by
  have hbytes : d.bytes = d'.bytes := by
    refine hcid d hd d' hd' ?_
    simpa [Delivery.entry, bundleCidForBytes] using h
  have hbundle : d.bundle = d'.bundle := by
    have := d.decoded
    rw [hbytes, d'.decoded] at this
    exact (Option.some.inj this).symm
  rw [Delivery.entry, Delivery.entry, hbytes, hbundle]

/-- The working set that admits every delivery holds exactly their entries. -/
lemma mem_admitAll_iff (hcid : CollisionFree ds) {e : Entry} :
    e ∈ (admitAll ds).list ↔ ∃ d ∈ ds, d.entry = e := by
  induction ds using List.reverseRecOn generalizing e with
  | nil => simp [admitAll, Bundles.list, EmptyCollection.emptyCollection, JsMap.empty]
  | append_singleton ds d ih =>
      have hds : CollisionFree ds := fun x hx y hy => hcid x (by simp [hx]) y (by simp [hy])
      have hstep : admitAll (ds ++ [d]) = integrate (admitAll ds) d.entry.cid d.entry.bundle := by
        simp [admitAll]
      rw [hstep, mem_list_integrate, ih hds]
      constructor
      · rintro (⟨d', hd', rfl⟩ | ⟨-, rfl⟩)
        · exact ⟨d', by simp [hd'], rfl⟩
        · exact ⟨d, by simp, rfl⟩
      · rintro ⟨d', hd', rfl⟩
        rcases List.mem_append.mp hd' with hd' | hd'
        · exact Or.inl ⟨d', hd', rfl⟩
        · obtain rfl := List.mem_singleton.mp hd'
          by_cases hkey : d'.entry.cid ∈ (admitAll ds).keys
          · obtain ⟨bundle, hget⟩ := JsMap.mem_keys_iff.mp hkey
            have hmem : (⟨d'.entry.cid, bundle⟩ : Entry) ∈ (admitAll ds).list :=
              mem_list_iff.mpr hget
            obtain ⟨d₀, hd₀, he⟩ := (ih hds).mp hmem
            exact Or.inl ⟨d₀, hd₀, entry_eq_of_cid_eq hcid (by simp [hd₀]) (by simp)
              (by rw [he])⟩
          · exact Or.inr ⟨hkey, rfl⟩

/-- A wallet's winner among deliveries: one of them that none of the wallet outranks. -/
lemma get?_winnersByWallet_admitAll_iff (hcid : CollisionFree ds) {wallet : JsString} {e : Entry} :
    (winnersByWallet everyCid (admitAll ds)).get? wallet = some e ↔
      (∃ d ∈ ds, d.entry = e) ∧ e.wallet = wallet
        ∧ ∀ d ∈ ds, d.entry.wallet = wallet → d.entry.rank ≤ e.rank := by
  rw [get?_winnersByWallet_iff]
  simp only [mem_admitAll_iff hcid, everyCid, and_true, forall_const, forall_exists_index, and_imp,
    forall_apply_eq_imp_iff₂]

lemma exists_winner (hcid : CollisionFree ds) {d : Delivery C} (hd : d ∈ ds) :
    ∃ e, (winnersByWallet everyCid (admitAll ds)).get? d.entry.wallet = some e := by
  rw [← Option.isSome_iff_exists, Option.isSome_iff_ne_none]
  intro hnone
  exact get?_winnersByWallet_eq_none_iff.mp hnone d.entry ((mem_admitAll_iff hcid).mpr ⟨d, hd, rfl⟩)
    rfl rfl

/-- For every wallet, the votes that win with the dedup are those that win without it. -/
def DedupInert (bm : BucketMath) (maxEntries : ℕ) (ds : List (Delivery C)) : Prop :=
  ∀ wallet,
    ((winnersByWallet everyCid (gateRun bm maxEntries ds).2).get? wallet).map (·.bundle.votes)
      = ((winnersByWallet everyCid (admitAll ds)).get? wallet).map (·.bundle.votes)

/-- The greatest delivery of its wallet. -/
def Greatest (ds : List (Delivery C)) (x : Delivery C) : Prop :=
  x ∈ ds ∧ ∀ d ∈ ds, d.bundle.wallet = x.bundle.wallet → d.entry.rank ≤ x.entry.rank

/-- In the bucket of a delivery, of the deliveries kept, some one with its votes outranks every one
with other votes. -/
def ChoiceKept (bm : BucketMath) (kept : Delivery C → Prop) (x : Delivery C) : Prop :=
  ∃ z, kept z ∧ keyFor C bm z.bundle = keyFor C bm x.bundle ∧
    ∀ a, kept a → a.bundle.wallet = x.bundle.wallet →
      bm.bucketForBlock a.bundle.blockNumber = bm.bucketForBlock x.bundle.blockNumber →
      a.bundle.votes ≠ x.bundle.votes → a.entry.rank < z.entry.rank

/-- The dedup is inert exactly if the deliveries that the gate lets through keep the choice of each
wallet's greatest delivery. -/
lemma dedupInert_iff_admitted (hcid : CollisionFree ds) : DedupInert bm maxEntries ds ↔
    ∀ x, Greatest ds x → ChoiceKept bm (· ∈ admitted bm maxEntries FifoSet.empty ds) x := by
  have hsub : ∀ a ∈ admitted bm maxEntries FifoSet.empty ds, a ∈ ds := fun a => mem_of_mem_admitted
  have hcid' : CollisionFree (admitted bm maxEntries FifoSet.empty ds) :=
    fun a ha b hb => hcid a (hsub a ha) b (hsub b hb)
  -- the gate's winner lies in the bucket of the greatest delivery
  have hbucket : ∀ x, Greatest ds x → ∀ y ∈ admitted bm maxEntries FifoSet.empty ds,
      y.bundle.wallet = x.bundle.wallet →
      (∀ a ∈ admitted bm maxEntries FifoSet.empty ds, a.bundle.wallet = x.bundle.wallet →
        a.entry.rank ≤ y.entry.rank) →
      bm.bucketForBlock y.bundle.blockNumber = bm.bucketForBlock x.bundle.blockNumber := by
    rintro x ⟨hx, hmax⟩ y hy hyw hymax
    have hkept : ∃ a ∈ admitted bm maxEntries FifoSet.empty ds,
        keyFor C bm a.bundle = keyFor C bm x.bundle := exists_admitted hx
    obtain ⟨a, ha, hkey⟩ := hkept
    obtain ⟨haw, hab, -⟩ := (keyFor_eq_iff bm a x).mp hkey
    refine le_antisymm (bm.bucketForBlock_mono ?_) (hab ▸ bm.bucketForBlock_mono ?_)
    · exact blockNumber_le_of_rank_le (hmax y (hsub y hy) hyw)
    · exact blockNumber_le_of_rank_le (hymax a ha haw)
  rw [DedupInert, gateRun_eq]
  constructor
  · rintro h x ⟨hx, hmax⟩
    have hwin : (winnersByWallet everyCid (admitAll ds)).get? x.bundle.wallet = some x.entry :=
      (get?_winnersByWallet_admitAll_iff hcid).mpr ⟨⟨x, hx, rfl⟩, rfl, hmax⟩
    have hvotes := h x.bundle.wallet
    rw [hwin, Option.map_some, Option.map_eq_some_iff] at hvotes
    obtain ⟨y, hy, hyvotes⟩ := hvotes
    obtain ⟨⟨z, hz, rfl⟩, hzw, hzmax⟩ := (get?_winnersByWallet_admitAll_iff hcid').mp hy
    have hzb := hbucket x ⟨hx, hmax⟩ z hz hzw hzmax
    refine ⟨z, hz, (keyFor_eq_iff bm z x).mpr ⟨hzw, hzb, hyvotes⟩, fun a ha haw hab hav => ?_⟩
    refine lt_of_le_of_ne (hzmax a ha haw) fun heq => hav ?_
    have hbundle : a.bundle = z.bundle := congrArg Entry.bundle
      (entry_eq_of_cid_eq hcid (hsub a ha) (hsub z hz) (Entry.cid_eq_of_rank_eq heq))
    rw [hbundle]
    exact hyvotes
  · intro h wallet
    cases hall : (winnersByWallet everyCid (admitAll ds)).get? wallet with
    | none =>
        have hnone : (winnersByWallet everyCid
            (admitAll (admitted bm maxEntries FifoSet.empty ds))).get?
            wallet = none := by
          rw [get?_winnersByWallet_eq_none_iff]
          intro e he
          obtain ⟨a, ha, rfl⟩ := (mem_admitAll_iff hcid').mp he
          exact get?_winnersByWallet_eq_none_iff.mp hall a.entry
            ((mem_admitAll_iff hcid).mpr ⟨a, hsub a ha, rfl⟩)
        rw [hnone]
    | some e =>
        obtain ⟨⟨x, hx, rfl⟩, hxw, hxmax⟩ := (get?_winnersByWallet_admitAll_iff hcid).mp hall
        subst hxw
        obtain ⟨z, hz, hzkey, hzmax⟩ := h x ⟨hx, hxmax⟩
        obtain ⟨hzw, -, -⟩ := (keyFor_eq_iff bm z x).mp hzkey
        obtain ⟨e, he⟩ := exists_winner hcid' hz
        obtain ⟨⟨y, hy, rfl⟩, hyw, hymax⟩ := (get?_winnersByWallet_admitAll_iff hcid').mp he
        have hw : z.entry.wallet = x.entry.wallet := hzw
        rw [hw] at he hyw hymax
        rw [he, Option.map_some, Option.map_some, Option.some.injEq]
        by_contra hne
        have hlt := hzmax y hy hyw (hbucket x ⟨hx, hxmax⟩ y hy hyw hymax) hne
        exact absurd (hymax z hz hzw) (not_le.mpr hlt)

/-- **The dedup is inert** exactly if, in the bucket of each wallet's greatest delivery, some fresh
delivery of its votes outranks every fresh delivery of other votes: what is fresh is said by the
deliveries and the bound alone. Where nothing is evicted it is the first delivery of each. -/
theorem gateRun_votes_eq_iff (hcid : CollisionFree ds) :
    (DedupInert bm maxEntries ds ↔
      ∀ x, Greatest ds x → ChoiceKept bm (FreshDelivery bm maxEntries ds) x)
    ∧ ((ds.map fun d => keyFor C bm d.bundle).dedup.length ≤ maxEntries →
      (DedupInert bm maxEntries ds ↔
        ∀ x, Greatest ds x → ChoiceKept bm (FirstDelivery bm ds) x)) := by
  have hfresh : DedupInert bm maxEntries ds ↔
      ∀ x, Greatest ds x → ChoiceKept bm (FreshDelivery bm maxEntries ds) x := by
    rw [dedupInert_iff_admitted hcid]
    simp only [ChoiceKept, mem_admitted_iff]
  refine ⟨hfresh, fun hroom => hfresh.trans ?_⟩
  simp only [ChoiceKept, freshDelivery_iff_first hroom]

end

/-! ### Voting again between two withdrawals -/

/-- A ballot of the zero address. -/
def ballotAt (votes : List Vote) (blockNumber : ℕ) : VotesBundle where
  address := bytesToHex (List.replicate 20 0)
  votes := votes
  blockNumber := blockNumber
  signature := ⟨bytesToHex (List.replicate 65 0), JsString.ofString "eip712"⟩

/-- One vote for the shortest key. -/
def shortKeyVote : List Vote := [⟨⟨none, JsString.ofString "11"⟩, 1⟩]

/-- A withdrawal early in a bucket of ten blocks. -/
def firstWithdrawal : Delivery .reference where
  bytes := ((encodeBundle .reference (ballotAt [] 10)).getD [])
  bundle := ballotAt [] 10
  decoded := by decide +kernel
  encodable := by decide +kernel

/-- A vote after it. -/
def voteBetween : Delivery .reference where
  bytes := ((encodeBundle .reference (ballotAt shortKeyVote 11)).getD [])
  bundle := ballotAt shortKeyVote 11
  decoded := by decide +kernel
  encodable := by decide +kernel

/-- A withdrawal after the vote, still in the bucket. -/
def secondWithdrawal : Delivery .reference where
  bytes := ((encodeBundle .reference (ballotAt [] 12)).getD [])
  bundle := ballotAt [] 12
  decoded := by decide +kernel
  encodable := by decide +kernel

lemma collisionFree_withdrawals :
    CollisionFree [firstWithdrawal, voteBetween, secondWithdrawal] := by
  rw [CollisionFree]
  decide +kernel

/-- The second withdrawal is dropped, and the wallet is counted for the vote it withdrew. -/
theorem gateRun_votes_ne :
    CollisionFree [firstWithdrawal, voteBetween, secondWithdrawal]
      ∧ ((winnersByWallet everyCid
          (gateRun tenBlocks 4096 [firstWithdrawal, voteBetween, secondWithdrawal]).2).get?
            firstWithdrawal.bundle.wallet).map (·.bundle.votes) = some shortKeyVote
      ∧ ((winnersByWallet everyCid
          (admitAll [firstWithdrawal, voteBetween, secondWithdrawal])).get?
            firstWithdrawal.bundle.wallet).map (·.bundle.votes) = some [] :=
  ⟨collisionFree_withdrawals, by decide +kernel, by decide +kernel⟩

/-- Two withdrawals collide in no block, and the dedup changes nothing. -/
theorem gateRun_votes_eq_iff_withdrawals :
    CollisionFree [firstWithdrawal, secondWithdrawal] ∧ ∀ wallet,
      ((winnersByWallet everyCid
          (gateRun tenBlocks 4096 [firstWithdrawal, secondWithdrawal]).2).get?
          wallet).map (·.bundle.votes)
        = ((winnersByWallet everyCid (admitAll [firstWithdrawal, secondWithdrawal])).get?
          wallet).map (·.bundle.votes) := by
  have hvotes : ∀ d ∈ [firstWithdrawal, secondWithdrawal], d.bundle.votes = [] := by
    intro d hd
    rcases List.mem_pair.mp hd with rfl | rfl <;> rfl
  have hsub : ∀ d ∈ [firstWithdrawal, secondWithdrawal],
      d ∈ [firstWithdrawal, voteBetween, secondWithdrawal] := by
    intro d hd
    rcases List.mem_pair.mp hd with rfl | rfl
    · exact List.mem_cons_self
    · exact List.mem_cons_of_mem _ (List.mem_cons_of_mem _ List.mem_cons_self)
  have hcid : CollisionFree [firstWithdrawal, secondWithdrawal] := fun d hd d' hd' =>
    collisionFree_withdrawals d (hsub d hd) d' (hsub d' hd')
  refine ⟨hcid, (gateRun_votes_eq_iff hcid).1.mpr fun x hx => ?_⟩
  obtain ⟨z, hz, hkey⟩ := exists_admitted hx.1
  refine ⟨z, mem_admitted_iff.mp hz, hkey, fun a ha _ _ hne => absurd ?_ hne⟩
  rw [hvotes a (mem_of_mem_admitted (mem_admitted_iff.mpr ha)), hvotes x hx.1]

end PubsubVoting
