import PubsubVoting.Checkpoint.Encode
import PubsubVoting.Lib.Transition
import PubsubVoting.Rules.Cache

/-!
The cache of name resolutions (`verify/name-resolution-cache.ts`): calls that resolve names side by
side, over a store that serves what was written to it or nothing, registries that move, and a clock.

* `NameResolutionCache.keyFor`, `get`: the key of an entry, and when an entry is used.
* `NameCaching.step`: `resolveNameThroughCache` as calls that await the store and a resolver; the
  answers of the resolvers are logged.
* `keyFor_inj`: resolver keys without a colon keep the names and the resolvers apart.
* `NameCaching.Sound`: what is written and what calls end with comes from the logged answers.
* `nameCaching_fresh`: a call ends with what its resolver answered to this call, or is served an
  answer the resolver gave at most an hour ago, so that a name that moved is honoured within the
  hour.
-/

namespace PubsubVoting

open Cbor

/-! ### Keys and entries -/

/-- What identifies a resolver. -/
structure ResolverIdentity where
  key : JsString
  provider : JsString

/-- An entry of the cache. -/
structure NameResolutionCacheEntry where
  publicKey : JsString
  resolverKey : JsString
  provider : JsString
  resolvedAtMs : ℤ
deriving DecidableEq

/-- `NAME_RESOLUTION_MAX_AGE_SECONDS` -/
def nameResolutionMaxAgeSeconds : ℕ := 3600

/-- What a `getItem` brings: it throws, what it finds is no entry or nothing, or it is an entry. -/
inductive StoreReply
  | threw
  | other
  | entry (entry : NameResolutionCacheEntry)

/-- The entry of a reply. -/
def StoreReply.entry? : StoreReply → Option NameResolutionCacheEntry
  | .threw | .other => none
  | .entry e => some e

namespace NameResolutionCache

/-- The digest of a provider, as `keyFor` takes it. -/
def providerDigest (C : Codecs) (provider : JsString) : Bytes :=
  C.sha256 (utf8 provider.toWellFormed)

/-- `keyFor` -/
def keyFor (C : Codecs) (name : JsString) (resolver : ResolverIdentity) : JsString :=
  name ++ colon :: colon :: (resolver.key ++ colon :: colon ::
    bytesToHex (providerDigest C resolver.provider))

/-- `get`, from what its read brings on. -/
def get (maxAgeSeconds : Option ℕ) (now : ℤ) (reply : StoreReply) :
    Option NameResolutionCacheEntry :=
  if maxAgeSeconds = some 0 then none
  else
    match reply with
    | .threw | .other => none
    | .entry cached =>
      if maxAgeSeconds.any fun seconds : ℕ =>
          decide (now - cached.resolvedAtMs > (seconds : ℤ) * 1000) then none
      else some cached

/-- What stands behind the last two colons is cut off where it has none. -/
lemma append_colons_inj {xs xs' ys ys' : JsString}
    (h : xs ++ colon :: colon :: ys = xs' ++ colon :: colon :: ys')
    (hys : colon ∉ ys) (hys' : colon ∉ ys') : xs = xs' ∧ ys = ys' := by
  have hcut : ∀ {zs zs' c : JsString}, colon ∉ zs →
      colon :: colon :: zs = c ++ colon :: colon :: zs' → c = [] := by
    intro zs zs' c hzs heq
    cases c with
    | nil => rfl
    | cons u c =>
        cases c with
        | nil =>
            simp only [List.cons_append, List.nil_append, List.cons.injEq] at heq
            exact absurd (heq.2.2 ▸ List.mem_cons_self) hzs
        | cons v c =>
            simp only [List.cons_append, List.cons.injEq] at heq
            exact absurd (heq.2.2 ▸ by simp) hzs
  rcases List.append_eq_append_iff.mp h with ⟨c, rfl, hc⟩ | ⟨c, rfl, hc⟩
  · obtain rfl := hcut hys hc
    exact ⟨(List.append_nil _).symm, by simpa using hc⟩
  · obtain rfl := hcut hys' hc
    exact ⟨List.append_nil _, by simpa using hc.symm⟩

/-- Names and resolvers keep apart, as far as the digests of providers do. -/
lemma keyFor_inj {C : Codecs} (hsha : Sha256Length C) {name name' : JsString}
    {resolver resolver' : ResolverIdentity} (hkey : colon ∉ resolver.key)
    (hkey' : colon ∉ resolver'.key)
    (h : keyFor C name resolver = keyFor C name' resolver') :
    name = name' ∧ resolver.key = resolver'.key ∧
      providerDigest C resolver.provider = providerDigest C resolver'.provider := by
  have hlength : ∀ provider, (bytesToHex (providerDigest C provider)).length = 66 := by
    intro provider
    rw [bytesToHex, List.length_cons, List.length_cons, length_flatMap_byteToHex, providerDigest,
      hsha]
  have hsplit : ∀ name (resolver : ResolverIdentity), keyFor C name resolver =
      (name ++ colon :: colon :: resolver.key) ++
        colon :: colon :: bytesToHex (providerDigest C resolver.provider) := by
    intro name resolver
    simp [keyFor]
  rw [hsplit, hsplit] at h
  obtain ⟨hfront, hback⟩ := List.append_inj' h (by simp [hlength])
  obtain ⟨hname, hresolver⟩ := append_colons_inj hfront hkey hkey'
  refine ⟨hname, hresolver, ?_⟩
  have hhex : bytesToHex (providerDigest C resolver.provider) =
      bytesToHex (providerDigest C resolver'.provider) := by simpa using hback
  rw [bytesToHex, bytesToHex] at hhex
  have hpairs := congrArg hexPairs (List.cons.inj (List.cons.inj hhex).2).2
  rw [hexPairs_flatMap, hexPairs_flatMap] at hpairs
  exact Option.some.inj hpairs

/-- What the cache brings was read, and is not over its age. -/
lemma entry_of_get {maxAgeSeconds : Option ℕ} {now : ℤ} {reply : StoreReply}
    {cached : NameResolutionCacheEntry} (h : get maxAgeSeconds now reply = some cached) :
    reply = .entry cached ∧
      ∀ seconds ∈ maxAgeSeconds, now ≤ cached.resolvedAtMs + seconds * 1000 := by
  unfold get at h
  split_ifs at h with hzero
  cases reply with
  | threw => cases h
  | other => cases h
  | entry e =>
      dsimp only at h
      split_ifs at h with hold
      obtain rfl := Option.some.inj h
      refine ⟨rfl, fun seconds hseconds => ?_⟩
      obtain rfl := Option.mem_def.mp hseconds
      simp only [Option.any_some, decide_eq_true_eq] at hold
      omega

end NameResolutionCache

/-! ### Calls side by side -/

/-- What `resolveNameThroughCache` comes to: an entry that `get` took at a reading of the clock, a
record of the resolver, none, or what the resolver threw. -/
inductive NameOutcome
  | served (publicKey : JsString) (now : ℤ)
  | resolved (publicKey : JsString)
  | noRecord
  | threw
deriving DecidableEq

/-- What a call of `resolveNameThroughCache` awaits. -/
inductive NameCallPhase
  | reading
  | resolving
  | writing (publicKey : JsString)
  | ended (outcome : NameOutcome)
deriving DecidableEq

/-- A call of `resolveNameThroughCache`. -/
structure NameCall where
  name : JsString
  resolver : ResolverIdentity
  phase : NameCallPhase

/-- A record that a resolver gave a call for a name, and the reading of the clock when it came. -/
structure NameAnswer where
  call : ℕ
  name : JsString
  resolver : ResolverIdentity
  publicKey : JsString
  resolvedAtMs : ℤ

/-- What a call of a resolver comes to. -/
inductive ResolverReply
  | threw
  | noRecord
  | record (publicKey : JsString)

/-- The calls, the records of the resolvers so far, and all that was handed to the store. -/
structure NameCaching where
  calls : List NameCall
  answers : List NameAnswer
  written : List (JsString × NameResolutionCacheEntry)

/-- What happens next: a call, the reply of the store to a call's read, the reply of a call's
resolver, or the end of a call's write. -/
inductive NameInput
  | call (name : JsString) (resolver : ResolverIdentity)
  | read (i : ℕ) (reply : StoreReply) (now : ℤ)
  | answered (i : ℕ) (reply : ResolverReply) (now : ℤ)
  | wrote (i : ℕ)

/-- The entry that `set` makes of an answer. -/
def NameAnswer.entry (a : NameAnswer) : NameResolutionCacheEntry :=
  ⟨a.publicKey, a.resolver.key, a.resolver.provider, a.resolvedAtMs⟩

namespace NameCaching

open NameResolutionCache

/-- No calls yet. -/
def init : NameCaching := ⟨[], [], []⟩

/-- A call goes on. -/
def put (s : NameCaching) (i : ℕ) (c : NameCall) (phase : NameCallPhase) : NameCaching :=
  { s with calls := s.calls.set i { c with phase := phase } }

/-- One event. The store serves under a key what was written under it at some time, or nothing;
`cached` is whether there is a cache. -/
def step (C : Codecs) (cached : Bool) (s : NameCaching) : NameInput → Option NameCaching
  | .call name resolver =>
      some { s with
        calls := s.calls ++ [⟨name, resolver, if cached then .reading else .resolving⟩] }
  | .read i reply now =>
      match s.calls[i]? with
      | some ⟨name, resolver, .reading⟩ =>
          if ∀ e ∈ reply.entry?, (NameResolutionCache.keyFor C name resolver, e) ∈ s.written then
            match get (some nameResolutionMaxAgeSeconds) now reply with
            | some e => some (s.put i ⟨name, resolver, .reading⟩ (.ended (.served e.publicKey now)))
            | none => some (s.put i ⟨name, resolver, .reading⟩ .resolving)
          else none
      | _ => none
  | .answered i reply now =>
      match s.calls[i]? with
      | some ⟨name, resolver, .resolving⟩ =>
          match reply with
          | .threw => some (s.put i ⟨name, resolver, .resolving⟩ (.ended .threw))
          | .noRecord => some (s.put i ⟨name, resolver, .resolving⟩ (.ended .noRecord))
          | .record publicKey =>
              let answer : NameAnswer := ⟨i, name, resolver, publicKey, now⟩
              let s := { s with answers := s.answers ++ [answer] }
              if cached then
                some ({ s with
                  written := s.written ++
                    [(NameResolutionCache.keyFor C name resolver, answer.entry)] }.put i
                    ⟨name, resolver, .resolving⟩ (.writing publicKey))
              else some (s.put i ⟨name, resolver, .resolving⟩ (.ended (.resolved publicKey)))
      | _ => none
  | .wrote i =>
      match s.calls[i]? with
      | some ⟨name, resolver, .writing publicKey⟩ =>
          some (s.put i ⟨name, resolver, .writing publicKey⟩ (.ended (.resolved publicKey)))
      | _ => none

end NameCaching

/-- The answer is one of the call's resolver about the call's name, as far as the digests of
providers tell resolvers apart. -/
def NameAnswer.Answers (C : Codecs) (a : NameAnswer) (c : NameCall) : Prop :=
  a.name = c.name ∧ a.resolver.key = c.resolver.key ∧
    NameResolutionCache.providerDigest C a.resolver.provider =
      NameResolutionCache.providerDigest C c.resolver.provider

/-- The call of a number ends with an answer given to it by its own resolver, or with one that is
not too old. -/
def NameCall.Sound (C : Codecs) (answers : List NameAnswer) (i : ℕ) (c : NameCall) : Prop :=
  match c.phase with
  | .writing publicKey | .ended (.resolved publicKey) =>
      ∃ a ∈ answers, a.call = i ∧ a.name = c.name ∧ a.resolver = c.resolver ∧
        a.publicKey = publicKey
  | .ended (.served publicKey now) =>
      ∃ a ∈ answers, a.Answers C c ∧ a.publicKey = publicKey ∧
        now ≤ a.resolvedAtMs + nameResolutionMaxAgeSeconds * 1000
  | .reading | .resolving | .ended .noRecord | .ended .threw => True

lemma NameCall.Sound.mono {C : Codecs} {answers answers' : List NameAnswer} {i : ℕ}
    {c : NameCall} (h : c.Sound C answers i) (hsub : answers ⊆ answers') :
    c.Sound C answers' i := by
  unfold NameCall.Sound at h ⊢
  split at h
  · exact h.imp fun a ha => ⟨hsub ha.1, ha.2⟩
  · exact h.imp fun a ha => ⟨hsub ha.1, ha.2⟩
  · exact h.imp fun a ha => ⟨hsub ha.1, ha.2⟩
  all_goals trivial

namespace NameCaching

open NameResolutionCache

variable {C : Codecs} {cached : Bool} {s t : NameCaching}

/-- Everything in the store was answered by a resolver, and every call ends with an answer. -/
structure Sound (C : Codecs) (s : NameCaching) : Prop where
  plain : ∀ c ∈ s.calls, colon ∉ c.resolver.key
  written : ∀ w ∈ s.written, ∃ a ∈ s.answers, colon ∉ a.resolver.key ∧
    w = (NameResolutionCache.keyFor C a.name a.resolver, a.entry)
  calls : ∀ i (c : NameCall), s.calls[i]? = some c → c.Sound C s.answers i

/-- A call goes on, and an answer may come in and be handed to the store. -/
structure Advance (C : Codecs) (s t : NameCaching) (i : ℕ) (c c' : NameCall) : Prop where
  call : s.calls[i]? = some c
  calls : t.calls = s.calls.set i c'
  same : c'.name = c.name ∧ c'.resolver = c.resolver
  answers : s.answers ⊆ t.answers
  written : ∀ w ∈ t.written, w ∈ s.written ∨ ∃ a ∈ t.answers,
    a.resolver = c.resolver ∧ w = (NameResolutionCache.keyFor C a.name a.resolver, a.entry)

/-- Calls go on one at a time, and each stays sound. -/
lemma Sound.advance (h : s.Sound C) {i : ℕ} {c c' : NameCall} (hadv : Advance C s t i c c')
    (hc' : c'.Sound C t.answers i) : t.Sound C := by
  have hplain : colon ∉ c.resolver.key := h.plain c (List.mem_of_getElem? hadv.call)
  have hmem : ∀ d ∈ t.calls, d = c' ∨ d ∈ s.calls := by
    intro d hd
    rw [hadv.calls] at hd
    exact (List.mem_or_eq_of_mem_set hd).symm
  constructor
  · intro d hd
    rcases hmem d hd with rfl | hd
    · rw [hadv.same.2]
      exact hplain
    · exact h.plain d hd
  · intro w hw
    rcases hadv.written w hw with hw | ⟨a, ha, hresolver, hw⟩
    · obtain ⟨a, ha, hrest⟩ := h.written w hw
      exact ⟨a, hadv.answers ha, hrest⟩
    · exact ⟨a, ha, hresolver ▸ hplain, hw⟩
  · intro j d hd
    rw [hadv.calls, List.getElem?_set] at hd
    split_ifs at hd with hij hlt
    · obtain rfl := Option.some.inj hd
      exact hij ▸ hc'
    · exact (h.calls j d hd).mono hadv.answers

/-- What a read brings was answered, for this name by this resolver. -/
lemma Sound.exists_answer (hsha : Sha256Length C) (h : s.Sound C) {c : NameCall} (hc : c ∈ s.calls)
    {e : NameResolutionCacheEntry}
    (he : (NameResolutionCache.keyFor C c.name c.resolver, e) ∈ s.written) :
    ∃ a ∈ s.answers, a.Answers C c ∧ a.entry = e := by
  obtain ⟨a, ha, hplain, heq⟩ := h.written _ he
  obtain ⟨hkey, rfl⟩ := Prod.mk.inj heq
  obtain ⟨hname, hresolver, hdigest⟩ := keyFor_inj hsha (h.plain c hc) hplain hkey
  exact ⟨a, ha, ⟨hname.symm, hresolver.symm, hdigest.symm⟩, rfl⟩

/-- A call that goes on without an answer. -/
lemma advance_put {i : ℕ} {c : NameCall} (hc : s.calls[i]? = some c) (phase : NameCallPhase) :
    Advance C s (s.put i c phase) i c { c with phase := phase } :=
  ⟨hc, rfl, ⟨rfl, rfl⟩, fun _ ha => ha, fun _ hw => .inl hw⟩

/-- The resolvers that calls are made with have keys without a colon. -/
def PlainKeys : NameCaching → NameInput → Prop
  | _, .call _ resolver => colon ∉ resolver.key
  | _, _ => True

/-- An event keeps everything sound. -/
lemma Sound.step (hsha : Sha256Length C) (h : s.Sound C) {i : NameInput} (hplain : PlainKeys s i)
    (hstep : s.step C cached i = some t) : t.Sound C := by
  cases i with
  | call name resolver =>
      obtain rfl := Option.some.inj hstep
      refine ⟨fun c hc => ?_, h.written, fun i c hc => ?_⟩
      · rcases List.mem_append.mp hc with hc | hc
        · exact h.plain c hc
        · obtain rfl := List.mem_singleton.mp hc
          exact hplain
      · rcases Nat.lt_or_ge i s.calls.length with hlt | hge
        · rw [List.getElem?_append_left hlt] at hc
          exact h.calls i c hc
        · rw [List.getElem?_append_right hge] at hc
          obtain rfl := List.mem_singleton.mp (List.mem_of_getElem? hc)
          cases cached <;> trivial
  | read i reply now =>
      rw [NameCaching.step] at hstep
      split at hstep
      next name resolver hcall =>
        split_ifs at hstep with hserved
        split at hstep
        next e hget =>
          obtain rfl := Option.some.inj hstep
          obtain ⟨rfl, hfresh⟩ := entry_of_get hget
          obtain ⟨a, ha, hanswers, rfl⟩ :=
            h.exists_answer hsha (List.mem_of_getElem? hcall) (hserved e rfl)
          exact h.advance (advance_put hcall _) ⟨a, ha, hanswers, rfl, hfresh _ rfl⟩
        next =>
          obtain rfl := Option.some.inj hstep
          exact h.advance (advance_put hcall _) trivial
      next => cases hstep
  | answered i reply now =>
      rw [NameCaching.step] at hstep
      split at hstep
      next name resolver hcall =>
        cases reply with
        | threw =>
            obtain rfl := Option.some.inj hstep
            exact h.advance (advance_put hcall _) trivial
        | noRecord =>
            obtain rfl := Option.some.inj hstep
            exact h.advance (advance_put hcall _) trivial
        | record publicKey =>
            have hlast : (⟨i, name, resolver, publicKey, now⟩ : NameAnswer) ∈
                s.answers ++ [⟨i, name, resolver, publicKey, now⟩] :=
              List.mem_append_right _ List.mem_cons_self
            have hsub : s.answers ⊆ s.answers ++ [⟨i, name, resolver, publicKey, now⟩] :=
              List.subset_append_left _ _
            dsimp only at hstep
            split_ifs at hstep
            · obtain rfl := Option.some.inj hstep
              refine h.advance ⟨hcall, rfl, ⟨rfl, rfl⟩, hsub, fun w hw => ?_⟩
                ⟨_, hlast, rfl, rfl, rfl, rfl⟩
              rcases List.mem_append.mp hw with hw | hw
              · exact .inl hw
              · exact .inr ⟨_, hlast, rfl, List.mem_singleton.mp hw⟩
            · obtain rfl := Option.some.inj hstep
              exact h.advance ⟨hcall, rfl, ⟨rfl, rfl⟩, hsub, fun w hw => .inl hw⟩
                ⟨_, hlast, rfl, rfl, rfl, rfl⟩
      next => cases hstep
  | wrote i =>
      rw [NameCaching.step] at hstep
      split at hstep
      next name resolver publicKey hcall =>
        obtain rfl := Option.some.inj hstep
        have hwriting : (⟨name, resolver, .writing publicKey⟩ : NameCall).Sound C s.answers i :=
          h.calls i _ hcall
        exact h.advance (advance_put hcall _) hwriting
      next => cases hstep

end NameCaching

open NameCaching in
/-- In every run of calls side by side, a call that ends with a record has it from its resolver,
which gave it to this very call, or is served an answer its resolver gave for the name at most an
hour before. A name that moved at some time is honoured by every call served more than an hour
later. -/
theorem nameCaching_fresh {C : Codecs} (hsha : Sha256Length C) {cached : Bool} {s : NameCaching}
    (h : Reaches (step C cached) PlainKeys init s) {i : ℕ} {c : NameCall}
    (hc : s.calls[i]? = some c) :
    (∀ publicKey, c.phase = .ended (.resolved publicKey) →
      ∃ a ∈ s.answers, a.call = i ∧ a.name = c.name ∧ a.resolver = c.resolver ∧
        a.publicKey = publicKey) ∧
    ∀ publicKey now, c.phase = .ended (.served publicKey now) →
      (∃ a ∈ s.answers, a.Answers C c ∧ a.publicKey = publicKey ∧
        now ≤ a.resolvedAtMs + 3600000) ∧
      ∀ moved publicKey', moved + 3600000 < now →
        (∀ a ∈ s.answers, a.Answers C c → moved < a.resolvedAtMs → a.publicKey = publicKey') →
        publicKey = publicKey' := by
  have hsound : s.Sound C := by
    refine h.invariant (P := NameCaching.Sound C) ?_ fun t i t' ht hplain hstep =>
      ht.step hsha hplain hstep
    exact ⟨fun _ hx => absurd hx List.not_mem_nil, fun _ hx => absurd hx List.not_mem_nil,
      fun _ _ hx => by cases hx⟩
  have hcall := hsound.calls i c hc
  constructor
  · intro publicKey hphase
    simpa only [NameCall.Sound, hphase] using hcall
  · intro publicKey now hphase
    have hserved : ∃ a ∈ s.answers, a.Answers C c ∧ a.publicKey = publicKey ∧
        now ≤ a.resolvedAtMs + 3600000 := by
      simp only [NameCall.Sound, hphase, nameResolutionMaxAgeSeconds] at hcall
      obtain ⟨a, ha, hanswers, hkey, hage⟩ := hcall
      exact ⟨a, ha, hanswers, hkey, by omega⟩
    refine ⟨hserved, fun moved publicKey' hmoved hall => ?_⟩
    obtain ⟨a, ha, hanswers, rfl, hage⟩ := hserved
    exact hall a ha hanswers (by omega)

/-- A name that is resolved once and then served. -/
def servedTwice : List NameInput :=
  let resolver : ResolverIdentity := ⟨JsString.ofString "bso-viem", JsString.ofString "viem"⟩
  [.call (JsString.ofString "a.bso") resolver, .read 0 .other 900,
    .answered 0 (.record (JsString.ofString "11")) 1000, .wrote 0,
    .call (JsString.ofString "a.bso") resolver,
    .read 1 (.entry ⟨JsString.ofString "11", resolver.key, resolver.provider, 1000⟩) 2000]

instance (s : NameCaching) : DecidablePred (NameCaching.PlainKeys s) := fun i =>
  match i with
  | .call _ resolver => inferInstanceAs (Decidable (colon ∉ resolver.key))
  | .read .. | .answered .. | .wrote _ => .isTrue trivial

open NameCaching in
/-- The first call ends with what it was answered, and the second one is served it. -/
theorem nameCaching_fresh_served : ∃ s c d,
    Reaches (step .reference true) PlainKeys init s ∧ s.calls[0]? = some c ∧
      s.calls[1]? = some d ∧
      (c.phase = .ended (.resolved (JsString.ofString "11")) ∧
        ∃ a ∈ s.answers, a.call = 0 ∧ a.publicKey = JsString.ofString "11") ∧
      d.phase = .ended (.served (JsString.ofString "11") 2000) ∧
      ∃ a ∈ s.answers, a.publicKey = JsString.ofString "11" ∧ 2000 ≤ a.resolvedAtMs + 3600000 := by
  have hserved : (runIf (step .reference true) PlainKeys servedTwice init).any (fun s =>
      decide (s.calls.map (·.phase) = [.ended (.resolved (JsString.ofString "11")),
        .ended (.served (JsString.ofString "11") 2000)])) = true := by
    decide +kernel
  obtain ⟨s, hs, hphases⟩ := (Option.any_eq_true _ _).mp hserved
  have hreach : Reaches (step .reference true) PlainKeys init s := reaches_of_runIf hs
  have hphases := of_decide_eq_true hphases
  obtain ⟨c, rest, hcalls, hc, hrest⟩ := List.map_eq_cons_iff.mp hphases
  obtain ⟨d, tail, rfl, hd, -⟩ := List.map_eq_cons_iff.mp hrest
  have hc0 : s.calls[0]? = some c := by rw [hcalls]; rfl
  have hd1 : s.calls[1]? = some d := by rw [hcalls]; rfl
  obtain ⟨a, ha, hcall, -, -, hkey⟩ :=
    (nameCaching_fresh (C := .reference) Sha256.length_sha256 hreach hc0).1 _ hc
  obtain ⟨⟨a', ha', -, hkey', hage⟩, -⟩ :=
    (nameCaching_fresh (C := .reference) Sha256.length_sha256 hreach hd1).2 _ _ hd
  exact ⟨s, c, d, hreach, hc0, hd1, ⟨hc, a, ha, hcall, hkey⟩, hd, a', ha', hkey', hage⟩

end PubsubVoting
