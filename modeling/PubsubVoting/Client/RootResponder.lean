import PubsubVoting.Transport.BulkRoots

/-!
The fetch-protocol responder of a voter: the root record of one contest, or the bulk answer with the
records of the first joined contests.

* `rootLookup`, `bulkRootsAnswer`: the two answers, over the engines of the voter.
* `InlineBudget`: the fold that fills the bulk answer, with the room left for chunk blocks.
* `bulkRecords_get?`: the answer holds the records of the contests it was built from, and no others.
* `serveRecord_bulk`: what a decoded bulk answer says of a topic is what the per-topic answer
  says, if the contest is among those the bulk answer is built from.
-/

namespace PubsubVoting

open Cbor

/-- An engine as the responder sees it. `rootRecord` is `none` where the call throws; beside the
record stand the blocks that `rootRecordWithBlocks` finds for its chunks. -/
structure ServedContest where
  joined : Bool
  rootRecord : Option (FetchRootRecord × List Bytes)

/-- `#engines`: the contests of a voter by topic, in the order they were first named. -/
abbrev Engines := JsMap String ServedContest

/-! ### The answers -/

/-- The bulk answer under construction, and the room left for inlined chunk blocks. -/
structure InlineBudget where
  records : BulkRootRecords
  inlineBudget : ℕ

/-- One contest of the bulk answer. A contest whose record throws contributes nothing. -/
def InlineBudget.add (b : InlineBudget) (e : String × ServedContest) : InlineBudget :=
  match e.2.rootRecord with
  | none => b
  | some (record, chunkBlocks) =>
      let inlineBytes := (chunkBlocks.map List.length).sum
      if chunkBlocks.length > 0 ∧ inlineBytes ≤ b.inlineBudget then
        ⟨b.records.set e.1 ⟨record, some chunkBlocks⟩, b.inlineBudget - inlineBytes⟩
      else { b with records := b.records.set e.1 ⟨record, none⟩ }

/-- The contests a bulk answer is built from: the first joined ones. -/
def bulkContests (engines : Engines) : List (String × ServedContest) :=
  (engines.entries.filter fun e => e.2.joined).take bulkRootsMaxRecords

/-- The records of the bulk answer. -/
def bulkRecords (engines : Engines) : BulkRootRecords :=
  ((bulkContests engines).foldl InlineBudget.add ⟨∅, bulkRootsMaxInlineBytes⟩).records

/-- `#bulkRootsAnswer` -/
def bulkRootsAnswer (C : Codecs) (engines : Engines) : Option Bytes :=
  encodeBulkRootRecords C (bulkRecords engines)

/-- The per-topic answer. -/
def rootAnswer (C : Codecs) (engines : Engines) (topic : String) : Option Bytes := do
  let engine ← engines.get? topic
  if engine.joined then
    let (record, _) ← engine.rootRecord
    encodeRootRecord C record
  else none

/-- `#rootLookup` -/
def rootLookup (C : Codecs) (engines : Engines) (key : String) : Option Bytes :=
  if key = bulkRootsFetchKey then bulkRootsAnswer C engines
  else (topicOfRootKey? key).bind (rootAnswer C engines)

variable {C : Codecs} {engines : Engines} {topic : String}

lemma rootLookup_bulk : rootLookup C engines bulkRootsFetchKey = bulkRootsAnswer C engines :=
  if_pos rfl

lemma rootLookup_topic :
    rootLookup C engines (rootFetchKey topic) = rootAnswer C engines topic := by
  rw [rootLookup, if_neg (rootFetchKey_ne_bulk topic), topicOfRootKey?_rootFetchKey,
    Option.bind_some]

/-! ### What the bulk answer holds -/

lemma InlineBudget.get?_add (b : InlineBudget) (e : String × ServedContest) (topic : String) :
    ((b.add e).records.get? topic).map BulkFetchRootRecord.toFetchRootRecord =
      ((if topic = e.1 then e.2.rootRecord else none).map Prod.fst).or
        ((b.records.get? topic).map BulkFetchRootRecord.toFetchRootRecord) := by
  rw [InlineBudget.add]
  by_cases htopic : topic = e.1
  · rw [if_pos htopic, htopic]
    cases e.2.rootRecord with
    | none => rfl
    | some r =>
        dsimp only
        split_ifs <;> simp
  · rw [if_neg htopic]
    cases e.2.rootRecord with
    | none => rfl
    | some r =>
        dsimp only
        split_ifs <;> simp [htopic]

/-- The records of the answer are those of its contests. -/
lemma get?_foldl_add {es : List (String × ServedContest)} (h : (es.map Prod.fst).Nodup)
    (b : InlineBudget) (topic : String) :
    ((es.foldl InlineBudget.add b).records.get? topic).map BulkFetchRootRecord.toFetchRootRecord =
      (((es.lookup topic).bind ServedContest.rootRecord).map Prod.fst).or
        ((b.records.get? topic).map BulkFetchRootRecord.toFetchRootRecord) := by
  induction es generalizing b with
  | nil => rfl
  | cons e es ih =>
      obtain ⟨key, contest⟩ := e
      rw [List.map_cons, List.nodup_cons] at h
      rw [List.foldl_cons, ih h.2, InlineBudget.get?_add, List.lookup_cons]
      dsimp only
      by_cases htopic : topic = key
      · have hnone : es.lookup topic = none := List.lookup_eq_none_iff.mpr fun e he =>
          bne_iff_ne.mpr fun hkey =>
            h.1 (List.mem_map.mpr ⟨e, he, hkey.symm.trans htopic⟩)
        rw [hnone, if_pos htopic, htopic, beq_self_eq_true]
        rfl
      · rw [beq_false_of_ne htopic, if_neg htopic]
        rfl

/-- The contests of a bulk answer are joined, and have distinct topics. -/
lemma nodup_bulkContests (engines : Engines) : ((bulkContests engines).map Prod.fst).Nodup :=
  (((List.take_sublist _ _).trans List.filter_sublist).map Prod.fst).nodup engines.nodup

lemma get?_of_mem_bulkContests {e : String × ServedContest} (h : e ∈ bulkContests engines) :
    engines.get? e.1 = some e.2 ∧ e.2.joined = true := by
  have hmem := List.mem_filter.mp (List.mem_of_mem_take h)
  exact ⟨JsMap.get?_eq_some_iff.mpr hmem.1, hmem.2⟩

/-- The record the bulk answer holds of a topic. -/
lemma bulkRecords_get? (engines : Engines) (topic : String) :
    ((bulkRecords engines).get? topic).map BulkFetchRootRecord.toFetchRootRecord =
      (((bulkContests engines).lookup topic).bind ServedContest.rootRecord).map Prod.fst := by
  rw [bulkRecords, get?_foldl_add (nodup_bulkContests engines)]
  exact Option.or_none

/-- Every entry of the answer is the record of one of its contests, with all of its blocks or none.
-/
lemma mem_bulkRecords {entry : BulkFetchRootRecord}
    (h : (topic, entry) ∈ (bulkRecords engines).entries) :
    ∃ contest record blocks, (topic, contest) ∈ bulkContests engines ∧
      contest.rootRecord = some (record, blocks) ∧
      (entry = ⟨record, none⟩ ∨ entry = ⟨record, some blocks⟩) := by
  have hfold : ∀ (es : List (String × ServedContest)) (b : InlineBudget),
      (topic, entry) ∈ (es.foldl InlineBudget.add b).records.entries →
        (topic, entry) ∈ b.records.entries ∨ ∃ contest record blocks, (topic, contest) ∈ es ∧
          contest.rootRecord = some (record, blocks) ∧
          (entry = ⟨record, none⟩ ∨ entry = ⟨record, some blocks⟩) := by
    intro es
    induction es with
    | nil => exact fun b hmem => .inl hmem
    | cons e es ih =>
        intro b hmem
        rcases ih (b.add e) hmem with hadd | ⟨contest, record, blocks, hmem', hentry⟩
        · obtain ⟨key, contest⟩ := e
          rw [InlineBudget.add] at hadd
          cases hrecord : contest.rootRecord with
          | none =>
              rw [hrecord] at hadd
              exact .inl hadd
          | some r =>
              obtain ⟨record, blocks⟩ := r
              rw [hrecord] at hadd
              dsimp only at hadd
              rw [← JsMap.get?_eq_some_iff] at hadd ⊢
              split_ifs at hadd
              all_goals
                rw [JsMap.get?_set] at hadd
                split_ifs at hadd with htopic
                · obtain rfl := Option.some.inj hadd
                  refine .inr ⟨contest, record, blocks, ?_, hrecord, by simp⟩
                  rw [htopic]
                  exact List.mem_cons_self
                · exact .inl hadd
        · exact .inr ⟨contest, record, blocks, List.mem_cons_of_mem _ hmem', hentry⟩
  exact (hfold _ _ h).resolve_left List.not_mem_nil

/-! ### The bulk answer and the per-topic one -/

/-- What a puller reads off a bulk answer for one topic: no record, or the record's encoding, which
may throw. -/
def serveRecord (C : Codecs) (record : Option FetchRootRecord) : Option (Option Bytes) :=
  match record with
  | none => some none
  | some record => (encodeRootRecord C record).map some

/-- What a bulk answer says of a topic is what the per-topic answer says, unless the contest serves
a record and is left out of the bulk answer. -/
theorem serveRecord_bulk {bytes : Bytes} (h : bulkRootsAnswer C engines = some bytes)
    (htopic : rootAnswer C engines topic = none ∨ topic ∈ (bulkContests engines).map Prod.fst) :
    serveRecord C (((bulkRecords engines).get? topic).map BulkFetchRootRecord.toFetchRootRecord)
      = some (rootAnswer C engines topic) := by
  cases hentry : (bulkRecords engines).get? topic with
  | none =>
      have hnone : rootAnswer C engines topic = none := by
        rcases htopic with hnone | hmem
        · exact hnone
        · obtain ⟨e, he, rfl⟩ := List.mem_map.mp hmem
          obtain ⟨hget, hjoined⟩ := get?_of_mem_bulkContests he
          have hrecord := bulkRecords_get? engines e.1
          rw [hentry, (lookup_eq_some_iff (nodup_bulkContests engines)).mpr he] at hrecord
          have hthrows : e.2.rootRecord = none := by simpa using hrecord.symm
          rw [rootAnswer, hget]
          simp [hjoined, hthrows]
      rw [hnone]
      rfl
  | some entry =>
      have hrecord := bulkRecords_get? engines topic
      rw [hentry, Option.map_some, eq_comm, Option.map_eq_some_iff] at hrecord
      obtain ⟨⟨record, chunkBlocks⟩, hserved, hrec⟩ := hrecord
      obtain ⟨contest, hlookup, hcontest⟩ := Option.bind_eq_some_iff.mp hserved
      have hmem := (lookup_eq_some_iff (nodup_bulkContests engines)).mp hlookup
      obtain ⟨hget, hjoined⟩ := get?_of_mem_bulkContests hmem
      obtain ⟨bytes', hbytes'⟩ := Option.isSome_iff_exists.mp (encodeRootRecord_of_bulk h hentry)
      have hanswer : rootAnswer C engines topic = some bytes' := by
        rw [rootAnswer, hget]
        change record = entry.toFetchRootRecord at hrec
        change contest.joined = true at hjoined
        simp [hjoined, hcontest, hrec, hbytes']
      rw [hanswer, Option.map_some, serveRecord, hbytes']
      rfl

end PubsubVoting
