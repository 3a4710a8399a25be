import PubsubVoting.Lib.JsMap

/-!
The rate gate in front of the forward gate (`transport/rate-limit.ts`).

* `RateLimiter.allow`: one call, in the fixed window of its peer.
* `RateLimiter.Windowed`: what the window of a peer counts, and what was allowed before it.
* `rateLimit_sliding`: with a clock that does not go back, a stretch of one interval, wherever it
  starts, holds fewer allowed messages of a peer than two windows; a peer is refused only when it
  has just sent as many as a window lets through; and what one peer sends is nothing to another.
-/

namespace PubsubVoting

/-! ### The gate -/

/-- `opts` -/
structure RateLimiter where
  limit : ℕ
  intervalMs : ℤ

/-- A peer's window. -/
structure RateWindow where
  count : ℕ
  start : ℤ

/-- A call, with what `Date.now()` is at it. -/
structure RateCall (P : Type) where
  peer : P
  now : ℤ

namespace RateLimiter

variable {P : Type} [DecidableEq P] (opts : RateLimiter)

/-- What a call in a peer's window answers, and the window it leaves. -/
def count (window : Option RateWindow) (now : ℤ) : Bool × RateWindow :=
  match window with
  | none => (true, ⟨1, now⟩)
  | some w =>
      if now - w.start ≥ opts.intervalMs then (true, ⟨1, now⟩)
      else (decide (w.count + 1 ≤ opts.limit), { w with count := w.count + 1 })

/-- One call of the gate. -/
def allow (windows : JsMap P RateWindow) (call : RateCall P) : Bool × JsMap P RateWindow :=
  let (allowed, window) := opts.count (windows.get? call.peer) call.now
  (allowed, windows.set call.peer window)

/-- The calls with their answers. -/
def answers : JsMap P RateWindow → List (RateCall P) → List (RateCall P × Bool)
  | _, [] => []
  | windows, call :: calls =>
      let (allowed, windows') := opts.allow windows call
      (call, allowed) :: answers windows' calls

/-- How many messages a window can let through: the first one is not held against the limit. -/
def most : ℕ := max opts.limit 1

/-! ### One peer's window -/

/-- The answers to the calls of one peer. -/
def peerAnswers : Option RateWindow → List ℤ → List (ℤ × Bool)
  | _, [] => []
  | window, now :: nows =>
      let (allowed, window') := opts.count window now
      (now, allowed) :: peerAnswers (some window') nows

/-- The window after calls of one peer. -/
def windowAfter (window : Option RateWindow) (nows : List ℤ) : Option RateWindow :=
  nows.foldl (fun window now => some (opts.count window now).2) window

/-- The calls of the others are nothing to a peer. -/
lemma filter_answers (p : P) {windows windows' : JsMap P RateWindow}
    (h : windows.get? p = windows'.get? p) (calls : List (RateCall P)) :
    ((opts.answers windows calls).filter fun a => a.1.peer = p) =
      opts.answers windows' (calls.filter fun c => c.peer = p) := by
  induction calls generalizing windows windows' with
  | nil => rfl
  | cons call calls ih =>
      by_cases hp : call.peer = p
      · subst hp
        simp only [List.filter_cons, decide_true, if_true, answers, allow, h]
        rw [ih]
        rw [JsMap.get?_set, JsMap.get?_set, if_pos rfl, if_pos rfl]
      · simp only [List.filter_cons, hp, decide_false, Bool.false_eq_true, if_false, answers, allow]
        exact ih (by rw [JsMap.get?_set, if_neg (Ne.symm hp), h])

/-- The answers of the gate to one peer are those in its window. -/
lemma map_answers {p : P} (windows : JsMap P RateWindow) {calls : List (RateCall P)}
    (h : ∀ c ∈ calls, c.peer = p) :
    (opts.answers windows calls).map (fun a => (a.1.now, a.2)) =
      opts.peerAnswers (windows.get? p) (calls.map RateCall.now) := by
  induction calls generalizing windows with
  | nil => rfl
  | cons call calls ih =>
      obtain rfl := h call List.mem_cons_self
      rw [answers, allow]
      simp only [List.map_cons, peerAnswers]
      rw [ih _ fun c hc => h c (List.mem_cons_of_mem _ hc), JsMap.get?_set, if_pos rfl]

lemma peerAnswers_append (window : Option RateWindow) (before after : List ℤ) :
    opts.peerAnswers window (before ++ after) =
      opts.peerAnswers window before ++
        opts.peerAnswers (opts.windowAfter window before) after := by
  induction before generalizing window with
  | nil => rfl
  | cons now before ih =>
      simp only [List.cons_append, peerAnswers, ih]
      rfl

lemma map_fst_peerAnswers (window : Option RateWindow) (nows : List ℤ) :
    (opts.peerAnswers window nows).map Prod.fst = nows := by
  induction nows generalizing window with
  | nil => rfl
  | cons now nows ih => simp only [peerAnswers, List.map_cons, ih]

/-- An answer among those to a peer comes from the window after the calls before it. -/
lemma of_peerAnswers_eq {nows : List ℤ} {done rest : List (ℤ × Bool)} {now : ℤ} {allowed : Bool}
    (h : opts.peerAnswers none nows = done ++ (now, allowed) :: rest) :
    done = opts.peerAnswers none (done.map Prod.fst) ∧
      allowed = (opts.count (opts.windowAfter none (done.map Prod.fst)) now).1 ∧
      done.map Prod.fst <+: nows := by
  have hnows : nows = done.map Prod.fst ++ now :: rest.map Prod.fst := by
    rw [← opts.map_fst_peerAnswers none nows, h, List.map_append, List.map_cons]
  have hsplit := opts.peerAnswers_append none (done.map Prod.fst) (now :: rest.map Prod.fst)
  rw [← hnows, h, peerAnswers] at hsplit
  have hlength : done.length = (opts.peerAnswers none (done.map Prod.fst)).length := by
    have hmap := congrArg List.length (opts.map_fst_peerAnswers none (done.map Prod.fst))
    rw [List.length_map, List.length_map] at hmap
    exact hmap.symm
  obtain ⟨hdone, hcons⟩ := List.append_inj hsplit hlength
  exact ⟨hdone, (Prod.mk.inj (List.cons.inj hcons).1).2, hnows ▸ List.prefix_append _ _⟩

/-! ### What a window counts -/

/-- The allowed calls from a time on. -/
def allowedFrom (log : List (ℤ × Bool)) (t : ℤ) : List (ℤ × Bool) :=
  log.filter fun a => a.2 = true ∧ t ≤ a.1

/-- The allowed calls in the interval from a time on. -/
def allowedIn (log : List (ℤ × Bool)) (t : ℤ) : List (ℤ × Bool) :=
  log.filter fun a => a.2 = true ∧ t ≤ a.1 ∧ a.1 < t + opts.intervalMs

lemma length_allowedIn_le (log : List (ℤ × Bool)) (t : ℤ) :
    (opts.allowedIn log t).length ≤ (allowedFrom log t).length := by
  refine (List.monotone_filter_right log fun a ha => ?_).length_le
  simp only [decide_eq_true_eq] at ha ⊢
  exact ⟨ha.1, ha.2.1⟩

lemma length_allowedFrom_le (log : List (ℤ × Bool)) (t : ℤ) :
    (allowedFrom log t).length ≤ (log.filter fun a => a.2 = true).length := by
  refine (List.monotone_filter_right log fun a ha => ?_).length_le
  simp only [decide_eq_true_eq] at ha ⊢
  exact ha.1

/-- A log is cut at the start of the window: the calls the window counts after its first one, and
those before it. -/
structure Cut (w : RateWindow) (earlier counted : List (ℤ × Bool)) : Prop where
  length : counted.length + 1 = w.count
  le_counted : ∀ a ∈ counted, w.start ≤ a.1
  earlier_le : ∀ a ∈ earlier, a.1 ≤ w.start
  /-- what the window let through after its first call -/
  allowed : (counted.filter fun a => a.2 = true).length + 1 ≤ min w.count opts.most
  /-- what was let through in the interval before the window -/
  recent : ∀ t, w.start - opts.intervalMs < t → (allowedFrom earlier t).length + 1 ≤ opts.most
  sliding : ∀ t, (opts.allowedIn earlier t).length + 1 ≤ 2 * opts.most

/-- The window of a peer after the calls of a log. -/
def Windowed (window : Option RateWindow) (log : List (ℤ × Bool)) : Prop :=
  match window with
  | none => log = []
  | some w => ∃ earlier counted, log = earlier ++ (w.start, true) :: counted ∧
      opts.Cut w earlier counted

variable {opts} {w : RateWindow} {earlier counted : List (ℤ × Bool)}

lemma one_le_most : 1 ≤ opts.most := le_max_right _ _

lemma Cut.length_allowedFrom_counted (h : opts.Cut w earlier counted) (t : ℤ) :
    (allowedFrom counted t).length + 1 ≤ opts.most :=
  (Nat.succ_le_succ (length_allowedFrom_le counted t)).trans (h.allowed.trans (min_le_right _ _))

/-- An interval meets the window and the one before it at most, and misses the first call of the
one before it when it meets both. -/
lemma Cut.length_allowedIn (h : opts.Cut w earlier counted) (t : ℤ) :
    (opts.allowedIn (earlier ++ (w.start, true) :: counted) t).length + 1 ≤ 2 * opts.most := by
  have hsplit : (opts.allowedIn (earlier ++ (w.start, true) :: counted) t).length ≤
      (opts.allowedIn earlier t).length +
      (opts.allowedIn ((w.start, true) :: counted) t).length := by
    rw [allowedIn, List.filter_append, List.length_append]
    rfl
  by_cases ht : t + opts.intervalMs ≤ w.start
  · have hwindow : opts.allowedIn ((w.start, true) :: counted) t = [] := by
      refine List.filter_eq_nil_iff.mpr fun a ha hin => ?_
      obtain ⟨-, -, hlt⟩ := of_decide_eq_true hin
      have hstart : w.start ≤ a.1 := by
        rcases List.mem_cons.mp ha with rfl | ha
        · exact le_rfl
        · exact h.le_counted a ha
      omega
    rw [hwindow, List.length_nil] at hsplit
    exact (Nat.succ_le_succ hsplit).trans (h.sliding t)
  · have hearlier := (opts.length_allowedIn_le earlier t).trans
      (Nat.le_sub_one_of_lt (h.recent t (by omega)))
    have hwindow : (opts.allowedIn ((w.start, true) :: counted) t).length ≤ opts.most := by
      refine le_trans ?_ (h.length_allowedFrom_counted t)
      calc (opts.allowedIn ((w.start, true) :: counted) t).length
          ≤ (opts.allowedIn counted t).length + 1 := by
            rw [allowedIn, List.filter_cons]
            split_ifs
            · exact le_rfl
            · exact Nat.le_succ _
        _ ≤ (allowedFrom counted t).length + 1 :=
            Nat.succ_le_succ (opts.length_allowedIn_le counted t)
    have hmost := opts.one_le_most
    omega

/-- The first window of a peer, or the one that replaces a window that is over. -/
lemma Cut.renew {log : List (ℤ × Bool)} {now : ℤ} (hle : ∀ a ∈ log, a.1 ≤ now)
    (hrecent : ∀ t, now - opts.intervalMs < t → (allowedFrom log t).length + 1 ≤ opts.most)
    (hsliding : ∀ t, (opts.allowedIn log t).length + 1 ≤ 2 * opts.most) :
    opts.Cut ⟨1, now⟩ log [] :=
  ⟨rfl, fun _ ha => absurd ha List.not_mem_nil, hle, le_min le_rfl one_le_most, hrecent, hsliding⟩

/-- A call that the window counts. -/
lemma Cut.count (h : opts.Cut w earlier counted) {now : ℤ} (hle : w.start ≤ now) :
    opts.Cut { w with count := w.count + 1 } earlier
      (counted ++ [(now, decide (w.count + 1 ≤ opts.limit))]) := by
  refine ⟨by rw [List.length_append, ← h.length]; rfl, fun a ha => ?_, h.earlier_le, ?_, h.recent,
    h.sliding⟩
  · rcases List.mem_append.mp ha with ha | ha
    · exact h.le_counted a ha
    · obtain rfl := List.mem_singleton.mp ha
      exact hle
  · have hallowed := h.allowed
    have hmost : opts.limit ≤ opts.most := le_max_left _ _
    rw [List.filter_append, List.length_append]
    by_cases hlimit : w.count + 1 ≤ opts.limit
    · simp only [hlimit, decide_true, List.filter_cons_of_pos, List.filter_nil,
        List.length_singleton]
      omega
    · simp only [hlimit, decide_false, Bool.false_eq_true, List.filter_cons, if_false,
        List.filter_nil, List.length_nil]
      omega

/-- One more call of a peer. -/
lemma Windowed.count {window : Option RateWindow} {log : List (ℤ × Bool)}
    (h : opts.Windowed window log) {now : ℤ} (hle : ∀ a ∈ log, a.1 ≤ now) :
    opts.Windowed (some (opts.count window now).2) (log ++ [(now, (opts.count window now).1)]) := by
  have hmost := opts.one_le_most
  cases window with
  | none =>
      obtain rfl : log = [] := h
      exact ⟨[], [], rfl, Cut.renew (fun _ ha => absurd ha List.not_mem_nil)
        (fun _ _ => hmost) (fun _ => show 1 ≤ 2 * opts.most by omega)⟩
  | some w =>
      obtain ⟨earlier, counted, rfl, hcut⟩ := h
      have hstart : w.start ≤ now := hle (w.start, true) (by simp)
      rw [RateLimiter.count]
      split_ifs with hover
      · refine ⟨_, [], rfl, Cut.renew hle (fun t ht => ?_) hcut.length_allowedIn⟩
        have hsplit : allowedFrom (earlier ++ (w.start, true) :: counted) t =
            allowedFrom counted t := by
          have hgone : ∀ a ∈ earlier ++ [(w.start, true)], ¬ (a.2 = true ∧ t ≤ a.1) := by
            rintro a ha ⟨-, hta⟩
            have hle : a.1 ≤ w.start := by
              rcases List.mem_append.mp ha with ha | ha
              · exact hcut.earlier_le a ha
              · obtain rfl := List.mem_singleton.mp ha
                exact le_rfl
            omega
          rw [allowedFrom, List.append_cons, List.filter_append,
            List.filter_eq_nil_iff.mpr fun a ha => by simpa using hgone a ha, List.nil_append]
          rfl
        rw [hsplit]
        exact hcut.length_allowedFrom_counted t
      · exact ⟨earlier, _, by rw [List.append_assoc]; rfl, hcut.count hstart⟩

/-- The window of a peer after its calls. -/
lemma windowed_windowAfter {nows : List ℤ} (hclock : nows.Pairwise (· ≤ ·)) :
    opts.Windowed (opts.windowAfter none nows) (opts.peerAnswers none nows) := by
  induction nows using List.reverseRecOn with
  | nil => rfl
  | append_singleton nows now ih =>
      obtain ⟨hbefore, -, hle⟩ := List.pairwise_append.mp hclock
      rw [peerAnswers_append, windowAfter, List.foldl_concat]
      refine (ih hbefore).count fun a ha => hle a.1 ?_ now (List.mem_singleton_self now)
      rw [← opts.map_fst_peerAnswers none nows]
      exact List.mem_map_of_mem ha

/-- No interval of a peer's log holds what two windows let through. -/
lemma Windowed.length_allowedIn {window : Option RateWindow} {log : List (ℤ × Bool)}
    (h : opts.Windowed window log) (t : ℤ) : (opts.allowedIn log t).length < 2 * opts.most := by
  cases window with
  | none =>
      obtain rfl : log = [] := h
      exact Nat.mul_pos Nat.two_pos one_le_most
  | some w =>
      obtain ⟨earlier, counted, rfl, hcut⟩ := h
      exact hcut.length_allowedIn t

/-- A peer that is refused has just sent as many messages as a window lets through. -/
lemma Windowed.refused {window : Option RateWindow} {log : List (ℤ × Bool)}
    (h : opts.Windowed window log) {now : ℤ} (hrefused : (opts.count window now).1 = false) :
    opts.most ≤ (log.filter fun a => now - opts.intervalMs < a.1).length := by
  cases window with
  | none => cases hrefused
  | some w =>
      obtain ⟨earlier, counted, rfl, hcut⟩ := h
      rw [RateLimiter.count] at hrefused
      split_ifs at hrefused with hover
      have hlimit := of_decide_eq_false hrefused
      have hcount := hcut.length
      have hwindow : ((w.start, true) :: counted).filter
          (fun a => now - opts.intervalMs < a.1) = (w.start, true) :: counted := by
        refine List.filter_eq_self.mpr fun a ha => decide_eq_true ?_
        have hstart : w.start ≤ a.1 := by
          rcases List.mem_cons.mp ha with rfl | ha
          · exact le_rfl
          · exact hcut.le_counted a ha
        omega
      calc opts.most ≤ w.count := by rw [most]; omega
        _ = (((w.start, true) :: counted).filter fun a =>
              now - opts.intervalMs < a.1).length := by rw [hwindow, List.length_cons, hcount]
        _ ≤ _ := by rw [List.filter_append, List.length_append]; exact Nat.le_add_left _ _

end RateLimiter

open RateLimiter in
/-- With a clock that does not go back, the gate lets fewer messages of a peer through in any
stretch of one interval than two windows hold, refuses a message only when its peer has sent a
window's worth in the interval before it, and answers a peer as if there were no other. -/
theorem rateLimit_sliding {P : Type} [DecidableEq P] (opts : RateLimiter)
    {calls : List (RateCall P)} (hclock : calls.Pairwise fun a b => a.now ≤ b.now) (p : P) :
    (∀ t, ((opts.answers ∅ calls).filter fun a =>
        a.1.peer = p ∧ a.2 = true ∧ t ≤ a.1.now ∧ a.1.now < t + opts.intervalMs).length <
          2 * max opts.limit 1) ∧
      (∀ done call rest, opts.answers ∅ calls = done ++ (call, false) :: rest → call.peer = p →
        max opts.limit 1 ≤ (done.filter fun a =>
          a.1.peer = p ∧ call.now - opts.intervalMs < a.1.now).length) ∧
      ((opts.answers ∅ calls).filter fun a => a.1.peer = p) =
        opts.answers ∅ (calls.filter fun c => c.peer = p) := by
  have hown := opts.filter_answers p (rfl : (∅ : JsMap P RateWindow).get? p = none) calls
  have hpeer : ∀ c ∈ calls.filter (fun c => c.peer = p), c.peer = p := fun c hc =>
    of_decide_eq_true (List.mem_filter.mp hc).2
  have hlog := opts.map_answers ∅ hpeer
  rw [JsMap.get?_empty] at hlog
  have hsorted : ((calls.filter fun c => c.peer = p).map RateCall.now).Pairwise (· ≤ ·) :=
    List.pairwise_map.mpr (hclock.sublist List.filter_sublist)
  refine ⟨fun t => ?_, fun done call rest hsplit hcall => ?_, hown⟩
  · have hwindowed : opts.Windowed _ _ := windowed_windowAfter hsorted
    have hsliding := hwindowed.length_allowedIn t
    rw [← hlog, ← hown, allowedIn, List.filter_map, List.length_map, List.filter_filter] at hsliding
    refine lt_of_eq_of_lt (congrArg List.length (List.filter_congr fun a _ => ?_)) hsliding
    rw [Bool.and_comm, Bool.decide_and]
    rfl
  · have hpeerlog := congrArg (List.map fun a : RateCall P × Bool => (a.1.now, a.2))
      (congrArg (List.filter fun a => a.1.peer = p) hsplit)
    rw [hown, hlog, List.filter_append, List.filter_cons_of_pos (by simpa using hcall),
      List.map_append, List.map_cons] at hpeerlog
    obtain ⟨hdone, hrefused, hpre⟩ := opts.of_peerAnswers_eq hpeerlog
    have hwindowed : opts.Windowed _ _ := windowed_windowAfter (hsorted.sublist hpre.sublist)
    rw [← hdone] at hwindowed
    have hsent := hwindowed.refused hrefused.symm
    rw [List.filter_map, List.length_map, List.filter_filter] at hsent
    refine hsent.trans_eq (congrArg List.length (List.filter_congr fun a _ => ?_))
    rw [Bool.and_comm, Bool.decide_and]
    rfl

/-- A peer's messages around the start of its second window, with another peer's between them. -/
def straddlingCalls : List (RateCall ℕ) :=
  [⟨0, 0⟩, ⟨0, 9⟩, ⟨1, 9⟩, ⟨0, 9⟩, ⟨0, 10⟩, ⟨0, 11⟩, ⟨0, 11⟩]

open RateLimiter in
/-- With two messages a window, three get through in one interval, and the one refused there comes
after two others. -/
theorem rateLimit_sliding_straddling :
    ((⟨2, 10⟩ : RateLimiter).answers ∅ straddlingCalls).map Prod.snd =
        [true, true, true, false, true, true, false] ∧
      (((⟨2, 10⟩ : RateLimiter).answers ∅ straddlingCalls).filter fun a =>
        a.1.peer = 0 ∧ a.2 = true ∧ 2 ≤ a.1.now ∧ a.1.now < 2 + 10).length < 2 * max 2 1 :=
  have hclock : straddlingCalls.Pairwise fun a b => a.now ≤ b.now := by decide
  ⟨by decide +kernel, (rateLimit_sliding ⟨2, 10⟩ hclock 0).1 2⟩

end PubsubVoting
