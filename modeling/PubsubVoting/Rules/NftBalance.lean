import PubsubVoting.Lib.JsString
import PubsubVoting.Lib.Scatter
import PubsubVoting.Lib.Transition

/-!
The read path of the balance-scored rules: many balances at one block, in chunks that a few workers
read side by side.

* `scoreOf`, `shortfallError`: what a balance scores, and the wording of a shortfall.
* `BatchState.step`: the workers of one batch. Each takes the next chunk, reads it, once more if
  the read fails, and writes what it read to the chunk's positions.
* `batch_outcome`: whatever the order the chunks complete in, the batch returns at every position
  what was read for it; `batch_rejected`: it rejects only if some chunk is refused twice.
* `batch_step`, `batch_wf`: it goes on until it has an outcome, and it has one in the end.
-/

namespace PubsubVoting

/-! ### Scores -/

/-- The holding when it meets the minimum, else `0`. -/
def scoreOf (balance min : ℕ) : ℕ := if min ≤ balance then balance else 0

/-- The wording for a token-count shortfall. -/
def shortfallError (balance min : ℕ) (contract : JsString) : String :=
  if balance = 0 then s!"this wallet holds none of the gate token ({contract.toWellFormed})"
  else s!"this wallet holds {balance} of the gate token ({contract.toWellFormed}), " ++
    s!"but {min} are required"

/-! ### One batch -/

/-- `CHAIN_READS_PER_MULTICALL` -/
def readsPerMulticall : ℕ := 200

/-- `CHAIN_MULTICALL_CONCURRENCY` -/
def multicallConcurrency : ℕ := 2

/-- The number of chunks of a batch. -/
def chunkCount (wallets : List JsString) : ℕ :=
  (wallets.length + (readsPerMulticall - 1)) / readsPerMulticall

/-- The wallets of a chunk. -/
def chunkAt (wallets : List JsString) (index : ℕ) : List JsString :=
  (wallets.drop (index * readsPerMulticall)).take readsPerMulticall

/-- A worker: at the head of its loop, reading a chunk for the first or the second time, out of
chunks, or rejected. -/
inductive BatchWorker where
  | idle
  | reading (index : ℕ) (retry : Bool)
  | finished
  | failed
  deriving DecidableEq

/-- The next chunk to be taken, the workers, and the balances written so far. -/
structure BatchState where
  nextChunk : ℕ
  workers : List BatchWorker
  balances : List (Option ℕ)

namespace BatchState

section

variable (wallets : List JsString) (s : BatchState)

/-- A batch before its workers run. -/
def start : BatchState :=
  ⟨0, List.replicate (min multicallConcurrency (chunkCount wallets)) .idle,
    wallets.map fun _ => none⟩

/-- A worker moves on. -/
def setWorker (worker : ℕ) (state : BatchWorker) : BatchState :=
  { s with workers := s.workers.set worker state }

/-- The head of a worker's loop: it takes the next chunk, if there is one. -/
def take (worker : ℕ) : BatchState :=
  if s.nextChunk < chunkCount wallets then
    { s.setWorker worker (.reading s.nextChunk false) with nextChunk := s.nextChunk + 1 }
  else s.setWorker worker .finished

/-- The positions of a chunk. -/
def positions (index : ℕ) : List ℕ :=
  (List.range (chunkAt wallets index).length).map fun i => index * readsPerMulticall + i

/-- A read has been answered: the balances are written, or the chunk is read once more. -/
def answer (worker index : ℕ) (retry : Bool) : Option (List ℕ) → BatchState
  | some read =>
    { s.setWorker worker .idle with
      balances := scatter s.balances (positions wallets index) (read.map some) }
  | none => s.setWorker worker (if retry then .failed else .reading index true)

/-- One worker goes on; a read is answered as the step says. -/
def step (i : ℕ × Option (List ℕ)) : Option BatchState :=
  match s.workers[i.1]? with
  | some .idle => some (s.take wallets i.1)
  | some (.reading index retry) => some (s.answer wallets i.1 index retry i.2)
  | _ => none

/-- What a step's answer has to be: one of those a read of this chunk may get. -/
def Answered (answers : Bool → List JsString → Option (List ℕ) → Prop) (i : ℕ × Option (List ℕ)) :
    Prop :=
  ∀ index retry, s.workers[i.1]? = some (.reading index retry) →
    answers retry (chunkAt wallets index) i.2

/-- The outcome: a rejection once a worker has failed, the balances once all have finished. -/
def outcome? : Option (Option (List ℕ)) :=
  if .failed ∈ s.workers then some none
  else if ∀ worker ∈ s.workers, worker = .finished then some (some (s.balances.map (·.getD 0)))
  else none

end

end BatchState

/-- An outcome that a batch can have. -/
def BatchOutcome (answers : Bool → List JsString → Option (List ℕ) → Prop) (wallets : List JsString)
    (o : Option (List ℕ)) : Prop :=
  ∃ t, Reaches (BatchState.step wallets) (BatchState.Answered wallets · answers ·)
    (BatchState.start wallets) t ∧ t.outcome? = some o

section

variable {wallets : List JsString} {index : ℕ}

/-! ### Chunks -/

lemma length_chunkAt : (chunkAt wallets index).length
    = min readsPerMulticall (wallets.length - index * readsPerMulticall) := by
  rw [chunkAt, List.length_take, List.length_drop]

lemma getElem?_chunkAt {i : ℕ} (h : i < (chunkAt wallets index).length) :
    (chunkAt wallets index)[i]? = wallets[index * readsPerMulticall + i]? := by
  rw [length_chunkAt] at h
  rw [chunkAt, List.getElem?_take_of_lt (by omega), List.getElem?_drop]

lemma mem_of_mem_chunkAt {wallet : JsString} (h : wallet ∈ chunkAt wallets index) :
    wallet ∈ wallets := List.mem_of_mem_drop (List.mem_of_mem_take h)

/-- Every position is one of a chunk. -/
lemma div_lt_chunkCount {j : ℕ} (h : j < wallets.length) :
    j / readsPerMulticall < chunkCount wallets := by
  unfold chunkCount readsPerMulticall
  omega

/-- The positions of a chunk are those that its number is the quotient of. -/
lemma mem_positions {j : ℕ} : j ∈ BatchState.positions wallets index ↔
    j < wallets.length ∧ j / readsPerMulticall = index := by
  rw [BatchState.positions]
  rw [List.mem_map]
  simp only [List.mem_range, length_chunkAt, readsPerMulticall]
  constructor
  · rintro ⟨i, hi, rfl⟩
    omega
  · rintro ⟨hj, rfl⟩
    exact ⟨j % 200, by omega, by omega⟩

end

/-! ### The workers -/

namespace BatchState

section

variable {wallets : List JsString} {s t : BatchState} {P : JsString → ℕ → Prop}
  {answers : Bool → List JsString → Option (List ℕ) → Prop}

lemma getElem?_setWorker {worker i : ℕ} {state st : BatchWorker}
    (h : (s.setWorker worker state).workers[i]? = some st) :
    i = worker ∧ st = state ∨ i ≠ worker ∧ s.workers[i]? = some st := by
  rw [setWorker] at h
  by_cases hi : worker = i
  · subst hi
    rw [List.getElem?_set_self'] at h
    obtain ⟨-, -, rfl⟩ := Option.map_eq_some_iff.mp h
    exact .inl ⟨rfl, rfl⟩
  · rw [List.getElem?_set_ne hi] at h
    exact .inr ⟨Ne.symm hi, h⟩

lemma getElem?_setWorker_of_ne {worker i : ℕ} {state : BatchWorker} (h : i ≠ worker) :
    (s.setWorker worker state).workers[i]? = s.workers[i]? :=
  List.getElem?_set_ne (Ne.symm h)

lemma getElem?_setWorker_self {worker : ℕ} (state : BatchWorker) {st : BatchWorker}
    (h : s.workers[worker]? = some st) :
    (s.setWorker worker state).workers[worker]? = some state := by
  rw [setWorker, List.getElem?_set_self', h]
  rfl

/-- What a step can do. -/
lemma step_cases {i : ℕ × Option (List ℕ)} (h : s.step wallets i = some t) :
    (s.workers[i.1]? = some .idle ∧ t = s.take wallets i.1) ∨
      ∃ index retry, s.workers[i.1]? = some (.reading index retry) ∧
        t = s.answer wallets i.1 index retry i.2 := by
  rw [step] at h
  split at h
  · next hidle => exact .inl ⟨hidle, (Option.some.inj h).symm⟩
  · next index retry hreading => exact .inr ⟨index, retry, hreading, (Option.some.inj h).symm⟩
  · cases h

/-- What holds of a batch all along: what is written is what was read for its position; the
positions of a chunk that has been taken are written, unless a worker is reading it or has failed;
and a worker that is out of chunks, or has failed, is so for a reason. -/
structure Inv (wallets : List JsString) (P : JsString → ℕ → Prop)
    (answers : Bool → List JsString → Option (List ℕ) → Prop) (s : BatchState) : Prop where
  workers : s.workers.length = min multicallConcurrency (chunkCount wallets)
  length : s.balances.length = wallets.length
  sound : ∀ (j : ℕ) (wallet : JsString) (n : ℕ), wallets[j]? = some wallet →
    s.balances[j]? = some (some n) → P wallet n
  taken : ∀ j < wallets.length, j / readsPerMulticall < s.nextChunk →
    (∃ n, s.balances[j]? = some (some n)) ∨
      (∃ (i : ℕ) (retry : Bool),
        s.workers[i]? = some (.reading (j / readsPerMulticall) retry)) ∨
      ∃ i : ℕ, s.workers[i]? = some .failed
  reading : ∀ (i index : ℕ) (retry : Bool), s.workers[i]? = some (.reading index retry) →
    index < chunkCount wallets
  finished : ∀ i : ℕ, s.workers[i]? = some .finished → chunkCount wallets ≤ s.nextChunk
  failed : ∀ i : ℕ, s.workers[i]? = some .failed →
    ∃ index < chunkCount wallets, answers true (chunkAt wallets index) none

lemma inv_start : Inv wallets P answers (start wallets) := by
  have hidle : ∀ (i : ℕ) (st : BatchWorker), (start wallets).workers[i]? = some st → st = .idle :=
    fun i st h => List.eq_of_mem_replicate (List.mem_of_getElem? h)
  refine ⟨List.length_replicate, List.length_map _, fun j wallet n _ hn => ?_,
    fun j _ hlt => absurd hlt (Nat.not_lt_zero _), fun i index retry h => ?_, fun i h => ?_,
    fun i h => ?_⟩
  · rw [start, List.getElem?_map] at hn
    obtain ⟨_, _, hnone⟩ := Option.map_eq_some_iff.mp hn
    cases hnone
  · cases hidle i _ h
  · cases hidle i _ h
  · cases hidle i _ h

/-- A chunk that others read, and a batch that another worker rejects, stay so when a worker moves
on. -/
lemma underWay_setWorker {worker index : ℕ} {st : BatchWorker} (state : BatchWorker)
    (hworker : s.workers[worker]? = some st) (hreads : ∀ retry, st ≠ .reading index retry)
    (hfailed : st ≠ .failed)
    (h : (∃ (i : ℕ) (retry : Bool), s.workers[i]? = some (.reading index retry)) ∨
      ∃ i : ℕ, s.workers[i]? = some .failed) :
    (∃ (i : ℕ) (retry : Bool),
      (s.setWorker worker state).workers[i]? = some (.reading index retry)) ∨
      ∃ i : ℕ, (s.setWorker worker state).workers[i]? = some .failed := by
  rcases h with ⟨i, retry, hi⟩ | ⟨i, hi⟩
  · have hne : i ≠ worker := by
      rintro rfl
      exact hreads retry (Option.some.inj (hworker.symm.trans hi))
    exact .inl ⟨i, retry, (getElem?_setWorker_of_ne hne).trans hi⟩
  · have hne : i ≠ worker := by
      rintro rfl
      exact hfailed (Option.some.inj (hworker.symm.trans hi))
    exact .inr ⟨i, (getElem?_setWorker_of_ne hne).trans hi⟩

/-- A worker at the head of its loop. -/
lemma Inv.take (h : Inv wallets P answers s) {worker : ℕ}
    (hidle : s.workers[worker]? = some .idle) :
    Inv wallets P answers (s.take wallets worker) := by
  rw [BatchState.take]
  split_ifs with hnext
  · -- the chunk is read by this worker from now on
    refine ⟨by rw [setWorker, List.length_set, h.workers], h.length, h.sound, fun j hj hlt => ?_,
      fun i index retry hi => ?_, fun i hi => ?_, fun i hi => ?_⟩
    · dsimp only at hlt
      rcases Nat.lt_succ_iff_lt_or_eq.mp hlt with hlt | heq
      · exact (h.taken j hj hlt).imp_right (underWay_setWorker _ hidle (by simp) (by simp))
      · exact .inr (.inl ⟨worker, false, by rw [heq]; exact getElem?_setWorker_self _ hidle⟩)
    · rcases getElem?_setWorker hi with ⟨-, heq⟩ | ⟨-, hold⟩
      · cases heq
        exact hnext
      · exact h.reading i index retry hold
    · rcases getElem?_setWorker hi with ⟨-, heq⟩ | ⟨-, hold⟩
      · cases heq
      · exact (h.finished i hold).trans (Nat.le_succ _)
    · rcases getElem?_setWorker hi with ⟨-, heq⟩ | ⟨-, hold⟩
      · cases heq
      · exact h.failed i hold
  · refine ⟨by rw [setWorker, List.length_set, h.workers], h.length, h.sound, fun j hj hlt => ?_,
      fun i index retry hi => ?_, fun i hi => ?_, fun i hi => ?_⟩
    · exact (h.taken j hj hlt).imp_right (underWay_setWorker _ hidle (by simp) (by simp))
    · rcases getElem?_setWorker hi with ⟨-, heq⟩ | ⟨-, hold⟩
      · cases heq
      · exact h.reading i index retry hold
    · exact not_lt.mp hnext
    · rcases getElem?_setWorker hi with ⟨-, heq⟩ | ⟨-, hold⟩
      · cases heq
      · exact h.failed i hold

/-- What is written for a chunk is what was read for the position. -/
lemma read_of_mem_zip {index : ℕ} {read : List ℕ} {j : ℕ} {v : Option ℕ}
    (hread : List.Forall₂ P (chunkAt wallets index) read)
    (h : (j, v) ∈ (positions wallets index).zip (read.map some)) :
    ∃ n, v = some n ∧ ∀ wallet, wallets[j]? = some wallet → P wallet n := by
  obtain ⟨i, hi⟩ := List.mem_iff_getElem?.mp h
  rw [List.getElem?_zip_eq_some] at hi
  obtain ⟨hpos, hval⟩ := hi
  rw [List.getElem?_map, Option.map_eq_some_iff] at hval
  obtain ⟨n, hn, rfl⟩ := hval
  rw [positions] at hpos
  rw [List.getElem?_map, Option.map_eq_some_iff] at hpos
  obtain ⟨i', hi', rfl⟩ := hpos
  obtain ⟨hlt, hget⟩ := List.getElem?_eq_some_iff.mp hi'
  rw [List.getElem_range] at hget
  subst hget
  rw [List.length_range] at hlt
  refine ⟨n, rfl, fun wallet hwallet => ?_⟩
  rw [← getElem?_chunkAt hlt] at hwallet
  exact (forall₂_iff_getElem?.mp hread).2 i wallet n hwallet hn

/-- Every position of a chunk that was read has a value. -/
lemma exists_written {index j : ℕ} {read : List ℕ} {balances : List (Option ℕ)}
    (hlen : balances.length = wallets.length)
    (hread : List.Forall₂ P (chunkAt wallets index) read) (hj : j ∈ positions wallets index) :
    ∃ n, (scatter balances (positions wallets index) (read.map some))[j]? = some (some n) := by
  have hjlen : j < (scatter balances (positions wallets index) (read.map some)).length := by
    rw [length_scatter, hlen]
    exact (mem_positions.mp hj).1
  rcases mem_zip_or_of_scatter (List.getElem?_eq_getElem hjlen) with ⟨-, hnot⟩ | hmem
  · -- the position is paired with one of the balances read
    obtain ⟨i, hi, hget⟩ := List.mem_iff_getElem.mp hj
    have hi' : i < (read.map some).length := by
      rw [List.length_map, ← hread.length_eq]
      simpa [positions] using hi
    have hzip : (j, (read.map some)[i]) ∈ (positions wallets index).zip (read.map some) :=
      List.mem_iff_getElem.mpr ⟨i, by simpa using ⟨hi, by simpa using hi'⟩, by simp [hget]⟩
    exact absurd rfl (hnot _ hzip)
  · obtain ⟨n, hn, -⟩ := read_of_mem_zip hread hmem
    exact ⟨n, by rw [List.getElem?_eq_getElem hjlen, hn]⟩

/-- A chunk has been read. -/
lemma Inv.write (h : Inv wallets P answers s) {worker index : ℕ} {retry : Bool} {read : List ℕ}
    (hreading : s.workers[worker]? = some (.reading index retry))
    (hread : List.Forall₂ P (chunkAt wallets index) read) :
    Inv wallets P answers (s.answer wallets worker index retry (some read)) := by
  refine ⟨by rw [answer, setWorker, List.length_set, h.workers],
    by rw [answer, length_scatter, h.length], fun j wallet n hw hn => ?_, fun j hj hlt => ?_,
    fun i index' retry' hi => ?_, fun i hi => ?_, fun i hi => ?_⟩
  · rcases mem_zip_or_of_scatter hn with ⟨hold, -⟩ | hmem
    · exact h.sound j wallet n hw hold
    · obtain ⟨n', hn', hP⟩ := read_of_mem_zip hread hmem
      obtain rfl := Option.some.inj hn'
      exact hP wallet hw
  · by_cases hindex : j / readsPerMulticall = index
    · exact .inl (exists_written h.length hread (mem_positions.mpr ⟨hj, hindex⟩))
    · -- a position of another chunk is as it was
      have hnot : j ∉ positions wallets index := fun hmem => hindex (mem_positions.mp hmem).2
      rcases h.taken j hj hlt with ⟨n, hn⟩ | hunder
      · have hjlen : j < (scatter s.balances (positions wallets index) (read.map some)).length := by
          rw [length_scatter, h.length]
          exact hj
        refine .inl ⟨n, ?_⟩
        rcases mem_zip_or_of_scatter (List.getElem?_eq_getElem hjlen) with ⟨hold, -⟩ | hmem
        · show (scatter s.balances (positions wallets index) (read.map some))[j]? = _
          rw [List.getElem?_eq_getElem hjlen, ← hold, hn]
        · exact absurd (List.of_mem_zip hmem).1 hnot
      · have hother : ∀ retry', BatchWorker.reading index retry
            ≠ .reading (j / readsPerMulticall) retry' := by
          rintro retry' heq
          cases heq
          exact hindex rfl
        exact .inr (underWay_setWorker .idle hreading hother (by simp) hunder)
  · rcases getElem?_setWorker hi with ⟨-, heq⟩ | ⟨-, hold⟩
    · cases heq
    · exact h.reading i index' retry' hold
  · rcases getElem?_setWorker hi with ⟨-, heq⟩ | ⟨-, hold⟩
    · cases heq
    · exact h.finished i hold
  · rcases getElem?_setWorker hi with ⟨-, heq⟩ | ⟨-, hold⟩
    · cases heq
    · exact h.failed i hold

/-- A read has failed: it is made once more, or the batch is rejected. -/
lemma Inv.refuse (h : Inv wallets P answers s) {worker index : ℕ} {retry : Bool}
    (hreading : s.workers[worker]? = some (.reading index retry))
    (hanswers : retry = true → answers true (chunkAt wallets index) none) :
    Inv wallets P answers (s.answer wallets worker index retry none) := by
  have hstate : ∀ st : BatchWorker, (if retry then .failed else .reading index true) = st →
      (st = .failed ∧ retry = true) ∨ st = .reading index true := by
    intro st hst
    cases retry with
    | true => exact .inl ⟨hst.symm, rfl⟩
    | false => exact .inr hst.symm
  refine ⟨by rw [answer, setWorker, List.length_set, h.workers], h.length, h.sound,
    fun j hj hlt => ?_, fun i index' retry' hi => ?_, fun i hi => ?_, fun i hi => ?_⟩
  · refine (h.taken j hj hlt).imp_right fun hunder => ?_
    by_cases hindex : index = j / readsPerMulticall
    · subst hindex
      have hself := getElem?_setWorker_self
        (if retry then .failed else .reading (j / readsPerMulticall) true) hreading
      cases retry with
      | true => exact .inr ⟨worker, hself⟩
      | false => exact .inl ⟨worker, true, hself⟩
    · have hother : ∀ retry', BatchWorker.reading index retry
          ≠ .reading (j / readsPerMulticall) retry' := by
        rintro retry' heq
        cases heq
        exact hindex rfl
      exact underWay_setWorker _ hreading hother (by simp) hunder
  · rcases getElem?_setWorker hi with ⟨-, heq⟩ | ⟨-, hold⟩
    · rcases hstate _ heq.symm with ⟨hfail, -⟩ | hagain
      · cases hfail
      · cases hagain
        exact h.reading worker index retry hreading
    · exact h.reading i index' retry' hold
  · rcases getElem?_setWorker hi with ⟨-, heq⟩ | ⟨-, hold⟩
    · rcases hstate _ heq.symm with ⟨hfail, -⟩ | hagain
      · cases hfail
      · cases hagain
    · exact h.finished i hold
  · rcases getElem?_setWorker hi with ⟨-, heq⟩ | ⟨-, hold⟩
    · rcases hstate _ heq.symm with ⟨-, hretry⟩ | hagain
      · exact ⟨index, h.reading worker index retry hreading, hanswers hretry⟩
      · cases hagain
    · exact h.failed i hold

/-- Every step that is answered as it may be keeps the invariant. -/
lemma Inv.step (h : Inv wallets P answers s) {i : ℕ × Option (List ℕ)}
    (hanswers : ∀ retry chunk read, answers retry chunk (some read) → List.Forall₂ P chunk read)
    (hok : s.Answered wallets answers i) (hstep : s.step wallets i = some t) :
    Inv wallets P answers t := by
  rcases step_cases hstep with ⟨hidle, rfl⟩ | ⟨index, retry, hreading, rfl⟩
  · exact h.take hidle
  · obtain ⟨worker, read⟩ := i
    have hanswer := hok index retry hreading
    cases read with
    | some read => exact h.write hreading (hanswers _ _ _ hanswer)
    | none => exact h.refuse hreading fun hretry => hretry ▸ hanswer

end

end BatchState

section

variable {wallets : List JsString} {answers : Bool → List JsString → Option (List ℕ) → Prop}

lemma BatchState.inv_of_reaches {P : JsString → ℕ → Prop} {t : BatchState}
    (hanswers : ∀ retry chunk read, answers retry chunk (some read) → List.Forall₂ P chunk read)
    (h : Reaches (step wallets) (Answered wallets · answers ·) (start wallets) t) :
    Inv wallets P answers t :=
  h.invariant inv_start fun _ _ _ hs hok hstep => hs.step hanswers hok hstep

/-- **Whatever the order the chunks complete in**, a batch returns at every position what was read
for the wallet there. -/
theorem batch_outcome {P : JsString → ℕ → Prop} {balances : List ℕ}
    (hanswers : ∀ retry chunk read, answers retry chunk (some read) → List.Forall₂ P chunk read)
    (h : BatchOutcome answers wallets (some balances)) : List.Forall₂ P wallets balances := by
  obtain ⟨t, hreach, hout⟩ := h
  have hinv := BatchState.inv_of_reaches hanswers hreach
  rw [BatchState.outcome?] at hout
  split_ifs at hout with hfailed hfinished
  · cases hout
  obtain rfl := Option.some.inj (Option.some.inj hout)
  rw [forall₂_iff_getElem?]
  refine ⟨by rw [List.length_map, hinv.length], fun j wallet n hwallet hn => ?_⟩
  have hj : j < wallets.length := (List.getElem?_eq_some_iff.mp hwallet).1
  -- there are chunks, so there are workers, and one that has finished has seen all chunks taken
  have hcount := div_lt_chunkCount hj
  have hworkers : 0 < t.workers.length := by
    rw [hinv.workers]
    exact lt_min (by decide) (Nat.zero_lt_of_lt hcount)
  have hfirst : t.workers[0]? = some .finished := by
    rw [List.getElem?_eq_getElem hworkers, hfinished _ (List.getElem_mem hworkers)]
  have hall := hinv.finished 0 hfirst
  rcases hinv.taken j hj (by omega) with ⟨n', hn'⟩ | ⟨i, retry, hi⟩ | ⟨i, hi⟩
  · rw [List.getElem?_map, hn'] at hn
    obtain rfl := Option.some.inj hn
    exact hinv.sound j wallet n' hwallet hn'
  · have hcontra := hfinished _ (List.mem_of_getElem? hi)
    cases hcontra
  · exact absurd (List.mem_of_getElem? hi) hfailed

/-- A batch rejects only if a chunk's second read does. -/
theorem batch_rejected {P : JsString → ℕ → Prop}
    (hanswers : ∀ retry chunk read, answers retry chunk (some read) → List.Forall₂ P chunk read)
    (h : BatchOutcome answers wallets none) :
    ∃ index < chunkCount wallets, answers true (chunkAt wallets index) none := by
  obtain ⟨t, hreach, hout⟩ := h
  have hinv := BatchState.inv_of_reaches hanswers hreach
  rw [BatchState.outcome?] at hout
  split_ifs at hout with hfailed hfinished
  · obtain ⟨i, hi⟩ := List.mem_iff_getElem?.mp hfailed
    exact hinv.failed i hi
  · cases hout

end

/-! ### The end of a batch -/

/-- The steps a worker has left for the chunk it is at. -/
def BatchWorker.weight : BatchWorker → ℕ
  | .idle => 1
  | .reading _ false => 3
  | .reading _ true => 2
  | .finished => 0
  | .failed => 0

/-- A bound on the steps a batch has left. -/
def BatchState.measure (wallets : List JsString) (s : BatchState) : ℕ :=
  (s.workers.map BatchWorker.weight).sum + 4 * (chunkCount wallets - s.nextChunk)

section

variable {wallets : List JsString} {s t : BatchState}

/-- A batch without an outcome has a worker that goes on, whatever it is answered. -/
theorem batch_step (wallets : List JsString) (h : s.outcome? = none) :
    ∃ worker, ∀ answer, ∃ t, s.step wallets (worker, answer) = some t := by
  rw [BatchState.outcome?] at h
  split_ifs at h with hfailed hfinished
  obtain ⟨st, hst⟩ := not_forall.mp hfinished
  rw [Classical.not_imp] at hst
  obtain ⟨hmem, hne⟩ := hst
  obtain ⟨worker, hworker⟩ := List.mem_iff_getElem?.mp hmem
  refine ⟨worker, fun answer => ?_⟩
  rw [BatchState.step]
  cases st with
  | idle => exact ⟨_, by rw [hworker]⟩
  | reading index retry => exact ⟨_, by rw [hworker]⟩
  | finished => exact absurd rfl hne
  | failed => exact absurd hmem hfailed

lemma measure_lt_of_step {i : ℕ × Option (List ℕ)} (h : s.step wallets i = some t) :
    t.measure wallets < s.measure wallets := by
  unfold BatchState.measure
  rcases BatchState.step_cases h with ⟨hidle, rfl⟩ | ⟨index, retry, hreading, rfl⟩
  · unfold BatchState.take
    split_ifs with hnext
    · have hsum := sum_map_set (f := BatchWorker.weight) hidle (.reading s.nextChunk false)
      simp only [BatchState.setWorker, BatchWorker.weight] at hsum ⊢
      omega
    · have hsum := sum_map_set (f := BatchWorker.weight) hidle .finished
      simp only [BatchState.setWorker, BatchWorker.weight] at hsum ⊢
      omega
  · obtain ⟨worker, answer⟩ := i
    cases answer with
    | some read =>
        have hsum := sum_map_set (f := BatchWorker.weight) hreading .idle
        cases retry <;> simp only [BatchState.answer, BatchState.setWorker, BatchWorker.weight]
          at hsum ⊢ <;> omega
    | none =>
        have hsum := sum_map_set (f := BatchWorker.weight) hreading
          (if retry then .failed else .reading index true)
        cases retry
        · simp only [Bool.false_eq_true, if_false, BatchState.answer, BatchState.setWorker,
            BatchWorker.weight] at hsum ⊢
          omega
        · simp only [if_true, BatchState.answer, BatchState.setWorker, BatchWorker.weight]
            at hsum ⊢
          omega

/-- **A batch comes to an end.** -/
theorem batch_wf (wallets : List JsString) :
    WellFounded fun t s : BatchState => ∃ i, s.step wallets i = some t :=
  Subrelation.wf (fun ⟨_, hi⟩ => measure_lt_of_step hi)
    (InvImage.wf (BatchState.measure wallets) Nat.lt_wfRel.wf)

/-- Where every read is answered somehow, a batch can come to an outcome. -/
theorem exists_batchOutcome {answers : Bool → List JsString → Option (List ℕ) → Prop}
    (h : ∀ retry chunk, ∃ a, answers retry chunk a) (wallets : List JsString) :
    ∃ o, BatchOutcome answers wallets o := by
  have hfrom : ∀ s : BatchState, Reaches (BatchState.step wallets)
      (BatchState.Answered wallets · answers ·) (BatchState.start wallets) s →
        ∃ o, BatchOutcome answers wallets o := by
    intro s
    induction s using (batch_wf wallets).induction with
    | _ s ih =>
        intro hreach
        cases hout : s.outcome? with
        | some o => exact ⟨o, s, hreach, hout⟩
        | none =>
            obtain ⟨worker, hstep⟩ := batch_step wallets hout
            -- the worker is answered what its read may get
            obtain ⟨a, ha⟩ : ∃ a, s.Answered wallets answers (worker, a) := by
              by_cases hreading : ∃ index retry, s.workers[worker]? = some (.reading index retry)
              · obtain ⟨index, retry, hworker⟩ := hreading
                obtain ⟨a, ha⟩ := h retry (chunkAt wallets index)
                refine ⟨a, fun index' retry' hworker' => ?_⟩
                rw [show s.workers[worker]? = _ from hworker] at hworker'
                cases hworker'
                exact ha
              · exact ⟨none, fun index retry hworker => absurd ⟨index, retry, hworker⟩ hreading⟩
            obtain ⟨t, ht⟩ := hstep a
            exact ih t ⟨_, ht⟩ (hreach.tail ha ht)
  exact hfrom _ .refl

end

end PubsubVoting
