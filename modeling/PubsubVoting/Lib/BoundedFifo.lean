import PubsubVoting.Lib.Fifo
import PubsubVoting.Lib.JsMap

/-!
Bounded stores that keep, beside what they hold, the list of their keys in the order they came in.

* `Enumerates`: a list names the keys of a store, each once; `concat`, `tail`, `erase`: a key is
  added, the oldest one leaves, one leaves from the middle.
* `FifoOp`, `FifoOp.next`: a queue of keys that takes a new key in at the end, drops the oldest one
  over its bound, and may be purged of some of its keys.
* `takenIn`: which keys a queue takes in that is given one after the other; it then holds the last
  of them (`next_put_takenIn`).
* `Enumerates.trim`, `Enumerates.put`: what a store has to do to keep in step with its queue.
* `KeyedFifo`: a store, its list of keys, and what each operation does to the queue.
  `KeyedFifo.log`: the keys that were taken in, in order.
* `KeyedFifo.sound`: where every operation does to the list what it does to the queue, and keeps
  the list an enumeration, the list is that of the queue after the same operations: it is ordered
  by the latest entry of each key, stays within the bound, has a key that was just put unless the
  bound is zero, and loses a key only to a purge or to as many later entries as the bound.
-/

section

variable {κ α : Type} [DecidableEq κ]

/-! ### Enumerations of a store's keys -/

/-- The list names what the store has, each key once. -/
structure Enumerates (has : κ → Bool) (order : List κ) : Prop where
  nodup : order.Nodup
  mem_iff : ∀ k, k ∈ order ↔ has k = true

variable {has has' : κ → Bool} {order : List κ} {k : κ}

/-- A key that was not there is added. -/
lemma Enumerates.concat (h : Enumerates has order) (hk : has k = false)
    (hhas : ∀ x, has' x = (decide (x = k) || has x)) : Enumerates has' (order ++ [k]) where
  nodup := by
    have hnot : k ∉ order := by
      rw [h.mem_iff, hk]
      exact Bool.false_ne_true
    rw [← List.concat_eq_append]
    exact h.nodup.concat hnot
  mem_iff := fun x => by
    rw [List.mem_append, List.mem_singleton, h.mem_iff, hhas, Bool.or_eq_true, decide_eq_true_eq,
      or_comm]

/-- The oldest key leaves. -/
lemma Enumerates.tail (h : Enumerates has (k :: order))
    (hhas : ∀ x, has' x = (decide (x ≠ k) && has x)) : Enumerates has' order where
  nodup := (List.nodup_cons.mp h.nodup).2
  mem_iff := fun x => by
    rw [hhas, Bool.and_eq_true, decide_eq_true_eq, ← h.mem_iff, List.mem_cons]
    constructor
    · intro hx
      refine ⟨?_, .inr hx⟩
      rintro rfl
      exact (List.nodup_cons.mp h.nodup).1 hx
    · rintro ⟨hne, hx⟩
      exact hx.resolve_left hne

/-- A key leaves, wherever it is. -/
lemma Enumerates.erase [BEq κ] [LawfulBEq κ] (h : Enumerates has order)
    (hhas : ∀ x, has' x = (decide (x ≠ k) && has x)) : Enumerates has' (order.erase k) where
  nodup := h.nodup.erase k
  mem_iff := fun x => by
    rw [h.nodup.mem_erase_iff, h.mem_iff, hhas, Bool.and_eq_true, decide_eq_true_eq]

/-- A list names the keys of a map, and goes on to do so when a new key is set. -/
lemma Enumerates.set {m : JsMap κ α} (h : Enumerates m.has order) (hk : m.has k = false) (v : α) :
    Enumerates (m.set k v).has (order ++ [k]) := h.concat hk fun x => JsMap.has_set m k x v

/-- A key is deleted from the map and from the middle of the list. -/
lemma Enumerates.delete [BEq κ] [LawfulBEq κ] {m : JsMap κ α} (h : Enumerates m.has order)
    (k : κ) : Enumerates (m.delete k).has (order.erase k) := h.erase fun x => JsMap.has_delete m k x

/-! ### The queue -/

/-- What an operation of a store does to the queue of its keys. -/
inductive FifoOp (κ : Type) where
  /-- a key is given, and taken in if it is not there -/
  | put (k : κ)
  /-- the keys that pass a test leave -/
  | purge (test : κ → Bool)
  /-- nothing -/
  | keep

/-- The queue loses its oldest key if it is longer than its bound. -/
def trimOldest (bound : ℕ) (order : List κ) : List κ :=
  if order.length > bound then order.tail else order

/-- The queue after an operation. -/
def FifoOp.next (bound : ℕ) (order : List κ) : FifoOp κ → List κ
  | .put k => if k ∈ order then order else trimOldest bound (order ++ [k])
  | .purge test => order.filter fun k => !test k
  | .keep => order

/-- The operation is a purge that a key falls under. -/
def FifoOp.purges (op : FifoOp κ) (k : κ) : Bool :=
  match op with
  | .purge test => test k
  | _ => false

/-- The keys an operation takes in, for a store that has some keys. -/
def FifoOp.entering (has : κ → Bool) : FifoOp κ → List κ
  | .put k => if has k then [] else [k]
  | _ => []

omit [DecidableEq κ] in
lemma length_trimOldest {bound : ℕ} (h : order.length ≤ bound + 1) :
    (trimOldest bound order).length ≤ bound := by
  rw [trimOldest]
  split_ifs with hlong
  · rw [List.length_tail]
    omega
  · omega

/-- The queue does not outgrow its bound. -/
lemma FifoOp.length_next {bound : ℕ} (h : order.length ≤ bound) (op : FifoOp κ) :
    (op.next bound order).length ≤ bound := by
  cases op with
  | put k =>
      rw [FifoOp.next]
      split_ifs
      · exact h
      · refine length_trimOldest ?_
        rw [List.length_append, List.length_singleton]
        omega
  | purge test => exact (List.length_filter_le _ _).trans h
  | keep => exact h

/-- A key that was just put is there, if there is room for one at all. -/
lemma FifoOp.mem_next_put {bound : ℕ} (hbound : 0 < bound) (order : List κ) (k : κ) :
    k ∈ (FifoOp.put k).next bound order := by
  rw [FifoOp.next, trimOldest]
  split_ifs with hthere hlong
  · exact hthere
  · cases order with
    | nil =>
        rw [List.nil_append, List.length_singleton] at hlong
        omega
    | cons oldest rest =>
        rw [List.cons_append, List.tail_cons]
        exact List.mem_append_right _ (List.mem_singleton_self k)
  · exact List.mem_append_right _ (List.mem_singleton_self k)

/-! ### The keys a queue takes in -/

/-- The keys a queue takes in, the newest first, that is given a list of keys, the newest first:
each is taken in unless it is among the last taken in before it, as many as the bound. -/
def takenIn (bound : ℕ) : List κ → List κ
  | [] => []
  | k :: earlier =>
    if k ∈ (takenIn bound earlier).take bound then takenIn bound earlier
    else k :: takenIn bound earlier

omit [DecidableEq κ] in
lemma trimOldest_take (bound : ℕ) (taken : List κ) (k : κ) :
    trimOldest bound ((taken.take bound).reverse ++ [k])
      = ((k :: taken).take bound).reverse := by
  cases bound with
  | zero => rfl
  | succ bound =>
      rw [List.take_succ_cons, List.reverse_cons, trimOldest, List.length_append,
        List.length_reverse, List.length_take, List.length_singleton]
      split_ifs with hlong
      · have hlen : bound < taken.length := by omega
        have hlast : taken.take (bound + 1) = taken.take bound ++ [taken[bound]] :=
          List.take_succ_eq_append_getElem hlen
        rw [hlast, List.reverse_append, List.reverse_singleton, List.append_assoc,
          List.singleton_append, List.tail_cons]
      · have hlen : taken.length ≤ bound := by omega
        rw [List.take_of_length_le hlen, List.take_of_length_le (Nat.le_succ_of_le hlen)]

/-- **The queue holds the last keys taken in**, as many as its bound. -/
lemma next_put_takenIn (bound : ℕ) (earlier : List κ) (k : κ) :
    (FifoOp.put k).next bound ((takenIn bound earlier).take bound).reverse
      = ((takenIn bound (k :: earlier)).take bound).reverse := by
  rw [FifoOp.next, takenIn]
  by_cases hthere : k ∈ (takenIn bound earlier).take bound
  · rw [if_pos (List.mem_reverse.mpr hthere), if_pos hthere]
  · rw [if_neg fun h => hthere (List.mem_reverse.mp h), if_neg hthere, trimOldest_take]

/-- As long as the bound has room for every key, a key is taken in the first time it is given. -/
lemma takenIn_of_room {bound : ℕ} {earlier : List κ} (hroom : earlier.dedup.length ≤ bound) :
    (takenIn bound earlier).Nodup ∧ ∀ k, k ∈ takenIn bound earlier ↔ k ∈ earlier := by
  induction earlier with
  | nil => exact ⟨List.nodup_nil, fun _ => Iff.rfl⟩
  | cons k earlier ih =>
      have hle : earlier.dedup.length ≤ (k :: earlier).dedup.length :=
        (List.nodup_dedup _).subperm (fun x hx =>
          List.mem_dedup.mpr (List.mem_cons_of_mem _ (List.mem_dedup.mp hx))) |>.length_le
      obtain ⟨hnodup, hmem⟩ := ih (hle.trans hroom)
      have hall : (takenIn bound earlier).take bound = takenIn bound earlier := by
        refine List.take_of_length_le ?_
        refine (hnodup.subperm fun x hx => ?_).length_le.trans (hle.trans hroom)
        exact List.mem_dedup.mpr ((hmem x).mp hx)
      rw [takenIn, hall]
      split_ifs with hthere
      · refine ⟨hnodup, fun x => ?_⟩
        rw [hmem, List.mem_cons]
        refine ⟨.inr, fun h => h.elim ?_ id⟩
        rintro rfl
        exact (hmem x).mp hthere
      · exact ⟨List.nodup_cons.mpr ⟨hthere, hnodup⟩, fun x => by
          rw [List.mem_cons, List.mem_cons, hmem]⟩

/-- A store that drops the oldest key exactly if the list is longer than its bound does to the list
what trimming does to a queue. -/
lemma Enumerates.trim {bound : ℕ} {order' : List κ} (h : Enumerates has order)
    (hkeep : ¬ order.length > bound → has' = has ∧ order' = order)
    (hdrop : ∀ oldest rest, order = oldest :: rest → order.length > bound →
      (∀ x, has' x = (decide (x ≠ oldest) && has x)) ∧ order' = rest) :
    order' = trimOldest bound order ∧ Enumerates has' order' := by
  rw [trimOldest]
  split_ifs with hlong
  · cases order with
    | nil => cases hlong
    | cons oldest rest =>
        obtain ⟨hhas, rfl⟩ := hdrop oldest rest rfl hlong
        exact ⟨rfl, h.tail hhas⟩
  · obtain ⟨rfl, rfl⟩ := hkeep hlong
    exact ⟨rfl, h⟩

/-- A store that takes a key in exactly if it is not there does to the list what putting the key
does to a queue. -/
lemma Enumerates.put {bound : ℕ} {order' : List κ} (h : Enumerates has order) (k : κ)
    (hthere : has k = true → has' = has ∧ order' = order)
    (hnew : has k = false →
      order' = trimOldest bound (order ++ [k]) ∧ Enumerates has' order') :
    order' = (FifoOp.put k).next bound order ∧ Enumerates has' order' := by
  rw [FifoOp.next]
  by_cases hk : has k = true
  · obtain ⟨rfl, rfl⟩ := hthere hk
    rw [if_pos ((h.mem_iff k).mpr hk)]
    exact ⟨rfl, h⟩
  · rw [if_neg fun hmem => hk ((h.mem_iff k).mp hmem)]
    exact hnew (Bool.eq_false_iff.mpr hk)

/-! ### The order of latest entries -/

/-- A key that enters once more has its latest entry at the end. -/
lemma dedup_concat (log : List κ) (k : κ) :
    (log ++ [k]).dedup = log.dedup.filter (fun x => x ≠ k) ++ [k] := by
  induction log with
  | nil => rfl
  | cons a log ih =>
      by_cases hlater : a ∈ log
      · rw [List.cons_append, List.dedup_cons_of_mem (List.mem_append_left _ hlater),
          List.dedup_cons_of_mem hlater, ih]
      · rw [List.dedup_cons_of_notMem hlater]
        by_cases hsame : a = k
        · subst hsame
          rw [List.cons_append, List.dedup_cons_of_mem (by simp), ih,
            List.filter_cons_of_neg (by simp)]
        · rw [List.cons_append, List.dedup_cons_of_notMem (by simp [hlater, hsame]), ih,
            List.filter_cons_of_pos (by simpa using hsame), List.cons_append]

/-- A queue ordered by latest entries stays so under any operation. -/
lemma FifoOp.next_sublist (bound : ℕ) {log : List κ} (h : Enumerates has order)
    (hlog : order.Sublist log.dedup) (op : FifoOp κ) :
    (op.next bound order).Sublist (log ++ op.entering has).dedup := by
  cases op with
  | put k =>
      rw [FifoOp.next, FifoOp.entering]
      by_cases hk : has k = true
      · rwa [if_pos ((h.mem_iff k).mpr hk), if_pos hk, List.append_nil]
      · have hnot : k ∉ order := fun hmem => hk ((h.mem_iff k).mp hmem)
        rw [if_neg hnot, if_neg hk, dedup_concat]
        have hkeep : order.filter (fun x => x ≠ k) = order := by
          refine List.filter_eq_self.mpr fun x hx => decide_eq_true ?_
          rintro rfl
          exact hnot hx
        have hlonger : (order ++ [k]).Sublist (log.dedup.filter (fun x => x ≠ k) ++ [k]) := by
          rw [← hkeep]
          exact (hlog.filter _).append_right [k]
        rw [trimOldest]
        split_ifs
        · exact (List.tail_sublist _).trans hlonger
        · exact hlonger
  | purge test =>
      show (order.filter fun k => !test k).Sublist (log ++ []).dedup
      rw [List.append_nil]
      exact List.filter_sublist.trans hlog
  | keep =>
      show order.Sublist (log ++ []).dedup
      rwa [List.append_nil]

omit [DecidableEq κ] in
/-- A sublist does not begin before its first item occurs. -/
lemma sublist_of_append {before xs ys : List κ} (hnot : k ∉ before)
    (h : (k :: xs).Sublist (before ++ ys)) : (k :: xs).Sublist ys := by
  induction before with
  | nil => exact h
  | cons a before ih =>
      rw [List.mem_cons, not_or] at hnot
      rw [List.cons_append] at h
      rcases List.sublist_cons_iff.mp h with hskip | ⟨rest, heq, -⟩
      · exact ih hnot.2 hskip
      · exact absurd (List.cons.inj heq).1 hnot.1

/-- What is behind a key among the latest entries entered after its latest entry. -/
lemma exists_newer {log behind : List κ} (h : (k :: behind).Sublist log.dedup) :
    ∃ older newer, log = older ++ k :: newer ∧ k ∉ newer ∧ behind.Sublist newer.dedup := by
  have hmem : k ∈ log.reverse := by
    rw [List.mem_reverse, ← List.mem_dedup]
    exact h.subset List.mem_cons_self
  obtain ⟨newer, older, hsplit, hnot⟩ := List.eq_append_cons_of_mem hmem
  have hlog : log = older.reverse ++ k :: newer.reverse := by
    rw [← List.reverse_reverse log, hsplit]
    simp
  have hnewer : k ∉ newer.reverse := by rwa [List.mem_reverse]
  refine ⟨older.reverse, newer.reverse, hlog, hnewer, ?_⟩
  -- the latest entries end with the key and those after it
  obtain ⟨others, hothers⟩ : k :: newer.reverse.dedup <:+ log.dedup := by
    rw [hlog, List.dedup_append, List.dedup_cons_of_notMem hnewer]
    exact List.suffix_union_right _ _
  have hfresh : k ∉ others := by
    have hnodup := List.nodup_dedup log
    rw [← hothers] at hnodup
    exact fun hin => (List.disjoint_of_nodup_append hnodup) hin List.mem_cons_self
  rw [← hothers] at h
  exact List.cons_sublist_cons.mp (sublist_of_append hfresh h)

/-- A key leaves by a purge it falls under, or because as many others as the bound entered after
it. -/
lemma FifoOp.leaves {bound : ℕ} {log : List κ} (h : Enumerates has order)
    (hlog : order.Sublist log.dedup) {op : FifoOp κ} (hmem : k ∈ order)
    (hgone : k ∉ op.next bound order) : op.purges k = true ∨
      ∃ older newer, log ++ op.entering has = older ++ k :: newer ∧ k ∉ newer ∧
        bound ≤ newer.dedup.length := by
  cases op with
  | purge test =>
      refine .inl ?_
      rw [FifoOp.next, List.mem_filter, not_and] at hgone
      have hpass : (!test k) ≠ true := hgone hmem
      show test k = true
      simpa using hpass
  | keep => exact absurd hmem hgone
  | put k' =>
      refine .inr ?_
      rw [FifoOp.next] at hgone
      split_ifs at hgone with hthere
      · exact absurd hmem hgone
      · have hnot : has k' = false := by
          rw [← Bool.not_eq_true, ← h.mem_iff]
          exact hthere
        have hlonger : (order ++ [k']).Sublist (log ++ [k']).dedup := by
          -- before anything leaves, the queue is that of a bound large enough
          have hroom := FifoOp.next_sublist (order.length + 1) h hlog (.put k')
          rw [FifoOp.next, if_neg hthere, FifoOp.entering, hnot, trimOldest,
            if_neg (by simp)] at hroom
          exact hroom
        rw [FifoOp.entering, hnot]
        rw [trimOldest] at hgone
        split_ifs at hgone with hlong
        · -- only the oldest key leaves
          cases order with
          | nil => cases hmem
          | cons oldest rest =>
              rw [List.cons_append, List.tail_cons, List.mem_append, not_or] at hgone
              obtain rfl : k = oldest := (List.mem_cons.mp hmem).resolve_right hgone.1
              obtain ⟨older, newer, hsplit, hnewer, hbehind⟩ := exists_newer hlonger
              refine ⟨older, newer, hsplit, hnewer, le_trans ?_ hbehind.length_le⟩
              show bound ≤ (rest ++ [k']).length
              rw [List.cons_append, List.length_cons] at hlong
              omega
        · exact absurd (List.mem_append_left _ hmem) hgone

/-! ### Stores with a queue -/

/-- A store with the list of its keys, and what each operation does to the queue of keys. -/
structure KeyedFifo (σ ι κ : Type) where
  init : σ
  step : σ → ι → σ
  has : σ → κ → Bool
  order : σ → List κ
  effect : ι → FifoOp κ

namespace KeyedFifo

variable {σ ι : Type} (M : KeyedFifo σ ι κ)

/-- The store after a sequence of operations. -/
def run (ops : List ι) : σ := ops.foldl M.step M.init

/-- The keys taken in by a sequence of operations, from a store on. -/
def entries : σ → List ι → List κ
  | _, [] => []
  | s, op :: ops => (M.effect op).entering (M.has s) ++ entries (M.step s op) ops

/-- The keys taken in by a sequence of operations, in order. -/
def log (ops : List ι) : List κ := M.entries M.init ops

/-- The list is a duplicate-free enumeration of the stored keys, and it is that of a queue after the
same operations; so it is ordered by the latest entry of each, oldest first, and within the bound; a
key that is put is there afterwards, unless the bound is zero; and a key leaves only by a purge it
falls under, or because as many others as the bound entered after it. -/
structure Sound (bound : ℕ) (ops : List ι) : Prop where
  enumerates : Enumerates (M.has (M.run ops)) (M.order (M.run ops))
  replay : M.order (M.run ops) = (ops.map M.effect).foldl (FifoOp.next bound) []
  oldestFirst : (M.order (M.run ops)).Sublist (M.log ops).dedup
  bounded : (M.order (M.run ops)).length ≤ bound
  stored : ∀ op k, M.effect op = .put k → 0 < bound → M.has (M.run (ops ++ [op])) k = true
  leaves : ∀ op k, M.has (M.run ops) k = true → M.has (M.run (ops ++ [op])) k = false →
    (M.effect op).purges k = true ∨ ∃ older newer, M.log (ops ++ [op]) = older ++ k :: newer ∧
      k ∉ newer ∧ bound ≤ newer.dedup.length

/-- What the operations of a store are to do to the list of its keys. -/
structure Lawful (bound : ℕ) : Prop where
  init_order : M.order M.init = []
  init_has : ∀ k, M.has M.init k = false
  order_step : ∀ s op, Enumerates (M.has s) (M.order s) →
    M.order (M.step s op) = (M.effect op).next bound (M.order s)
  enumerates_step : ∀ s op, Enumerates (M.has s) (M.order s) →
    Enumerates (M.has (M.step s op)) (M.order (M.step s op))

variable {M} {bound : ℕ}

omit [DecidableEq κ] in
lemma run_concat (ops : List ι) (op : ι) : M.run (ops ++ [op]) = M.step (M.run ops) op := by
  rw [run, List.foldl_concat, run]

omit [DecidableEq κ] in
lemma entries_concat (s : σ) (ops : List ι) (op : ι) : M.entries s (ops ++ [op])
    = M.entries s ops ++ (M.effect op).entering (M.has (ops.foldl M.step s)) := by
  induction ops generalizing s with
  | nil => simp [entries]
  | cons op' ops ih =>
      rw [List.cons_append, entries, ih, entries, List.append_assoc, List.foldl_cons]

omit [DecidableEq κ] in
lemma log_concat (ops : List ι) (op : ι) :
    M.log (ops ++ [op]) = M.log ops ++ (M.effect op).entering (M.has (M.run ops)) :=
  entries_concat _ _ _

/-- The part of soundness that is about one state, along a run. -/
lemma Lawful.ordered (h : M.Lawful bound) (ops : List ι) :
    Enumerates (M.has (M.run ops)) (M.order (M.run ops)) ∧
      (M.order (M.run ops)).Sublist (M.log ops).dedup ∧ (M.order (M.run ops)).length ≤ bound := by
  induction ops using List.reverseRecOn with
  | nil =>
      have hinit : M.order (M.run []) = [] := h.init_order
      rw [hinit]
      refine ⟨⟨List.nodup_nil, fun k => ?_⟩, List.nil_sublist _, Nat.zero_le _⟩
      have hhas : M.has (M.run []) k = false := h.init_has k
      simp [hhas]
  | append_singleton ops op ih =>
      obtain ⟨henum, hsub, hlen⟩ := ih
      rw [run_concat, log_concat]
      refine ⟨h.enumerates_step _ op henum, ?_, ?_⟩
      · rw [h.order_step _ op henum]
        exact FifoOp.next_sublist bound henum hsub _
      · rw [h.order_step _ op henum]
        exact FifoOp.length_next hlen _

/-- The list is that of the queue, along a run. -/
lemma Lawful.replay (h : M.Lawful bound) (ops : List ι) :
    M.order (M.run ops) = (ops.map M.effect).foldl (FifoOp.next bound) [] := by
  induction ops using List.reverseRecOn with
  | nil => exact h.init_order
  | append_singleton ops op ih =>
      rw [run_concat, h.order_step _ op (h.ordered ops).1, ih, List.map_append, List.foldl_append]
      rfl

/-- **A lawful store is sound after every sequence of operations.** -/
theorem Lawful.sound (h : M.Lawful bound) (ops : List ι) : M.Sound bound ops := by
  obtain ⟨henum, hsub, hlen⟩ := h.ordered ops
  refine ⟨henum, h.replay ops, hsub, hlen, fun op k hput hbound => ?_, fun op k hhad hgone => ?_⟩
  · rw [← (h.ordered (ops ++ [op])).1.mem_iff, run_concat, h.order_step _ op henum, hput]
    exact FifoOp.mem_next_put hbound _ k
  have hmem : k ∈ M.order (M.run ops) := (henum.mem_iff k).mpr hhad
  have hnot : k ∉ (M.effect op).next bound (M.order (M.run ops)) := by
    rw [← h.order_step _ op henum, (h.enumerates_step _ op henum).mem_iff, ← run_concat, hgone]
    exact Bool.false_ne_true
  rw [log_concat]
  exact FifoOp.leaves henum hsub hmem hnot

end KeyedFifo

end

/-! ### A bounded set -/

namespace FifoSet

variable {κ : Type} [DecidableEq κ] {bound : ℕ} {s : FifoSet κ}

/-- The set has a key. -/
def has (s : FifoSet κ) (k : κ) : Bool := decide (k ∈ s.keys)

/-- Trimming drops the oldest key of the list from the set. -/
lemma trim_spec (h : Enumerates s.has s.order) : (s.trim bound).order = trimOldest bound s.order ∧
    Enumerates (s.trim bound).has (s.trim bound).order := by
  refine h.trim (fun hfits => ?_) fun evicted order horder hlong => ?_
  · rw [FifoSet.trim, if_neg hfits]
    exact ⟨rfl, rfl⟩
  · rw [FifoSet.trim, if_pos hlong, horder]
    refine ⟨fun x => ?_, rfl⟩
    show decide (x ∈ s.keys.erase evicted) = (decide (x ≠ evicted) && decide (x ∈ s.keys))
    rw [← Bool.decide_and, decide_eq_decide, Finset.mem_erase]

/-- Recording a key does to the list what putting it does to a queue. -/
lemma record_spec (h : Enumerates s.has s.order) (k : κ) :
    (s.record bound k).order = (FifoOp.put k).next bound s.order ∧
      Enumerates (s.record bound k).has (s.record bound k).order := by
  refine h.put k (fun hthere => ?_) fun hnew => ?_
  · rw [record, if_pos (of_decide_eq_true hthere)]
    exact ⟨rfl, rfl⟩
  · rw [record, if_neg (of_decide_eq_false hnew)]
    refine trim_spec (h.concat hnew fun x => ?_)
    show decide (x ∈ insert k s.keys) = (decide (x = k) || decide (x ∈ s.keys))
    rw [← Bool.decide_or, decide_eq_decide, Finset.mem_insert]

end FifoSet
