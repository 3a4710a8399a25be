import PubsubVoting.Verify.Bundle

/-!
The names of a ballot before it is published (`verify/name-preflight.ts`): the publisher's twin of
the name checks of the pipeline, which skips a name whose resolution throws.

* `preflightCommunityNames`: the scan over the votes, up to the first definitive failure.
* `Skipped`: a vote whose resolution throws.
* `preflight_spec`: what the scan comes to, by the votes it went past.
* `preflight_agrees`: it passes and is settled exactly if the pipeline's name checks pass, it fails
  only where they do, and with the same text unless it skipped a name before.
-/

namespace PubsubVoting

/-- The first name that definitively failed. -/
structure NamePreflightFailure where
  communityName : JsString
  claimedPublicKey : JsString
  /-- Absent where nobody resolves the name or it has no record. -/
  resolvedPublicKey : Option JsString
  reason : String

/-- What the preflight comes to. -/
inductive NamePreflightResult
  | ok (settled : Bool)
  | failure (failure : NamePreflightFailure)

/-- The scan over the votes, each with whether its resolution throws. -/
def preflightCommunityNames (nameResolvers : List NameResolver) (settled : Bool) :
    List (Vote × Bool) → NamePreflightResult
  | [] => .ok settled
  | (v, throws) :: votes =>
    match carriedName v with
    | none => preflightCommunityNames nameResolvers settled votes
    | some name =>
      match nameResolvers.find? (·.canResolve name) with
      | none => .failure
          ⟨name, v.community.publicKey, none,
            "no resolver handles community name \"" ++ name.toWellFormed ++ "\""⟩
      | some resolver =>
        if throws then preflightCommunityNames nameResolvers false votes
        else
          match resolver.resolve name with
          | none => .failure
              ⟨name, v.community.publicKey, none,
                "community name \"" ++ name.toWellFormed ++ "\" does not resolve"⟩
          | some record =>
            if record ≠ v.community.publicKey then
              .failure ⟨name, v.community.publicKey, some record,
                "community name \"" ++ name.toWellFormed ++ "\" resolves to "
                  ++ record.toWellFormed ++ ", not the claimed "
                  ++ v.community.publicKey.toWellFormed⟩
            else preflightCommunityNames nameResolvers settled votes

/-- The vote's name has a resolver, and its resolution throws. -/
def Skipped (nameResolvers : List NameResolver) (p : Vote × Bool) : Prop :=
  p.2 = true ∧ ∃ name ∈ carriedName p.1, ∃ resolver,
    nameResolvers.find? (·.canResolve name) = some resolver

/-- A failure is that of a vote which is not skipped: the name does not resolve to the key it
claims. -/
structure NamePreflightFailure.Of (nameResolvers : List NameResolver) (f : NamePreflightFailure)
    (p : Vote × Bool) : Prop where
  notSkipped : ¬ Skipped nameResolvers p
  name : carriedName p.1 = some f.communityName
  claimed : f.claimedPublicKey = p.1.community.publicKey
  resolved : f.resolvedPublicKey = resolveName nameResolvers f.communityName
  differs : f.resolvedPublicKey ≠ some f.claimedPublicKey

/-- What the scan comes to: every vote it goes past is skipped or has its claim. -/
inductive PreflightTrace (d : VerifierDeps) : Bool → List (Vote × Bool) → NamePreflightResult → Prop
  | done (settled : Bool) : PreflightTrace d settled [] (.ok settled)
  | claims {settled : Bool} {p : Vote × Bool} {votes : List (Vote × Bool)}
      {result : NamePreflightResult} : ¬ Skipped d.nameResolvers p →
      NameClaim d.nameResolvers p.1 → PreflightTrace d settled votes result →
      PreflightTrace d settled (p :: votes) result
  | skips {settled : Bool} {p : Vote × Bool} {votes : List (Vote × Bool)}
      {result : NamePreflightResult} : Skipped d.nameResolvers p →
      PreflightTrace d false votes result → PreflightTrace d settled (p :: votes) result
  | fails {settled : Bool} {p : Vote × Bool} {votes : List (Vote × Bool)}
      {f : NamePreflightFailure} : f.Of d.nameResolvers p →
      (∀ resolved votes', ∃ fail, resolveNames d resolved (p.1 :: votes') = .error fail ∧
        fail.reason = f.reason) →
      PreflightTrace d settled (p :: votes) (.failure f)

variable {d : VerifierDeps}

/-- The scan is traced. -/
lemma preflight_spec (settled : Bool) (votes : List (Vote × Bool)) :
    PreflightTrace d settled votes (preflightCommunityNames d.nameResolvers settled votes) := by
  induction votes generalizing settled with
  | nil => exact .done settled
  | cons p votes ih =>
      obtain ⟨v, throws⟩ := p
      rw [preflightCommunityNames]
      cases hname : carriedName v with
      | none =>
          refine .claims ?_ ?_ (ih settled)
          · rintro ⟨-, name, hmem, -⟩
            rw [hname] at hmem
            cases hmem
          · intro name hmem
            rw [hname] at hmem
            cases hmem
      | some name =>
          dsimp only
          cases hfind : d.nameResolvers.find? (·.canResolve name) with
          | none =>
              dsimp only
              refine .fails ⟨?_, hname, rfl, ?_, by simp⟩ fun resolved votes' => ?_
              · rintro ⟨-, name', hmem, resolver, hresolver⟩
                obtain rfl := Option.some.inj (hname.symm.trans hmem)
                rw [hfind] at hresolver
                cases hresolver
              · rw [resolveName, hfind, Option.bind_none]
              · exact ⟨noResolver name, by simp only [resolveNames, hname, hfind], rfl⟩
          | some resolver =>
              have hresolve : resolveName d.nameResolvers name = resolver.resolve name := by
                rw [resolveName, hfind, Option.bind_some]
              dsimp only
              cases throws with
              | true => exact .skips ⟨rfl, name, hname, resolver, hfind⟩ (ih false)
              | false =>
                  have hnot : ¬ Skipped d.nameResolvers (v, false) := fun h => by cases h.1
                  rw [if_neg Bool.false_ne_true]
                  cases hrecord : resolver.resolve name with
                  | none =>
                      dsimp only
                      refine .fails ⟨hnot, hname, rfl, (hresolve.trans hrecord).symm, by simp⟩
                        fun resolved votes' => ?_
                      exact ⟨doesNotResolve name,
                        by simp only [resolveNames, hname, hfind, hrecord], rfl⟩
                  | some record =>
                      dsimp only
                      by_cases hkey : record = v.community.publicKey
                      · rw [if_neg (not_not.mpr hkey)]
                        refine .claims hnot ?_ (ih settled)
                        intro name' hmem
                        obtain rfl := Option.some.inj (hname.symm.trans hmem)
                        rw [hresolve, hrecord, hkey]
                      · rw [if_pos hkey]
                        refine .fails ⟨hnot, hname, rfl, (hresolve.trans hrecord).symm, ?_⟩
                          fun resolved votes' => ?_
                        · exact fun h => hkey (Option.some.inj h)
                        · exact ⟨resolvesElsewhere name record v.community.publicKey,
                            by simp only [resolveNames, hname, hfind, hrecord, if_pos hkey], rfl⟩

/-- The pipeline goes past a vote whose claim holds. -/
lemma resolveNames_of_claim {v : Vote} (h : NameClaim d.nameResolvers v) (resolved : ResolvedNames)
    (votes : List Vote) :
    ∃ resolved', resolveNames d resolved (v :: votes) = resolveNames d resolved' votes := by
  rw [resolveNames]
  cases hname : carriedName v with
  | none => exact ⟨resolved, rfl⟩
  | some name =>
      have hresolve := h name hname
      rw [resolveName] at hresolve
      obtain ⟨resolver, hfind, hrecord⟩ := Option.bind_eq_some_iff.mp hresolve
      dsimp only
      rw [hfind]
      dsimp only
      rw [hrecord]
      exact ⟨resolved.set name v.community.publicKey, if_neg (not_not.mpr rfl)⟩

namespace PreflightTrace

variable {settled settled' : Bool} {votes : List (Vote × Bool)} {f : NamePreflightFailure}

/-- A scan that passes went past every vote. -/
lemma ok (h : PreflightTrace d settled votes (.ok settled')) :
    (∀ p ∈ votes, Skipped d.nameResolvers p ∨ NameClaim d.nameResolvers p.1) ∧
      (settled' = true ↔ settled = true ∧ ∀ p ∈ votes, ¬ Skipped d.nameResolvers p) := by
  generalize hresult : NamePreflightResult.ok settled' = result at h
  induction h with
  | done settled =>
      cases hresult
      simp
  | claims hnot hclaim _ ih =>
      obtain ⟨hall, hiff⟩ := ih hresult
      refine ⟨List.forall_mem_cons.mpr ⟨.inr hclaim, hall⟩, ?_⟩
      rw [List.forall_mem_cons, hiff]
      exact and_congr_right fun _ => (and_iff_right hnot).symm
  | skips hskipped _ ih =>
      obtain ⟨hall, hiff⟩ := ih hresult
      refine ⟨List.forall_mem_cons.mpr ⟨.inl hskipped, hall⟩, ?_⟩
      rw [List.forall_mem_cons, hiff]
      exact iff_of_false (fun h => by cases h.1) fun h => h.2.1 hskipped
  | fails => cases hresult

/-- A scan that fails went past every earlier vote. -/
lemma failure (h : PreflightTrace d settled votes (.failure f)) :
    ∃ earlier p later, votes = earlier ++ p :: later ∧ f.Of d.nameResolvers p ∧
      (∀ q ∈ earlier, Skipped d.nameResolvers q ∨ NameClaim d.nameResolvers q.1) ∧
      ((∀ q ∈ earlier, ¬ Skipped d.nameResolvers q) → ∀ resolved, ∃ fail,
        resolveNames d resolved (votes.map Prod.fst) = .error fail ∧ fail.reason = f.reason) := by
  generalize hresult : NamePreflightResult.failure f = result at h
  induction h with
  | done => cases hresult
  | claims hnot hclaim _ ih =>
      obtain ⟨earlier, p, later, rfl, hof, hall, htext⟩ := ih hresult
      refine ⟨_ :: earlier, p, later, rfl, hof, List.forall_mem_cons.mpr ⟨.inr hclaim, hall⟩, ?_⟩
      intro hskips resolved
      obtain ⟨resolved', heq⟩ := resolveNames_of_claim hclaim resolved
        ((earlier ++ p :: later).map Prod.fst)
      rw [List.map_cons, heq]
      exact htext (List.forall_mem_cons.mp hskips).2 resolved'
  | skips hskipped _ ih =>
      obtain ⟨earlier, p, later, rfl, hof, hall, htext⟩ := ih hresult
      refine ⟨_ :: earlier, p, later, rfl, hof, List.forall_mem_cons.mpr ⟨.inl hskipped, hall⟩, ?_⟩
      exact fun hskips => absurd hskipped (List.forall_mem_cons.mp hskips).1
  | fails hof htext =>
      cases hresult
      refine ⟨[], _, _, rfl, hof, fun q hq => (List.not_mem_nil hq).elim, fun _ resolved => ?_⟩
      exact htext resolved _

end PreflightTrace

/-- The preflight of a ballot passes, settled, exactly if the name checks of the pipeline pass and
no resolution throws; it passes unsettled if only names whose resolution throws are open; and it
fails only where the pipeline refuses the ballot, at the first vote whose name definitively does not
resolve to its key, with the text of the pipeline unless it skipped a name before. -/
theorem preflight_agrees (d : VerifierDeps) (votes : List (Vote × Bool)) :
    (preflightCommunityNames d.nameResolvers true votes = .ok true ↔
      (resolveNames d ∅ (votes.map Prod.fst)).valid = true ∧
        ∀ p ∈ votes, ¬ Skipped d.nameResolvers p) ∧
    (preflightCommunityNames d.nameResolvers true votes = .ok false →
      (∃ p ∈ votes, Skipped d.nameResolvers p) ∧
        ∀ p ∈ votes, Skipped d.nameResolvers p ∨ NameClaim d.nameResolvers p.1) ∧
    ∀ f, preflightCommunityNames d.nameResolvers true votes = .failure f →
      (resolveNames d ∅ (votes.map Prod.fst)).valid = false ∧
      ∃ earlier p later, votes = earlier ++ p :: later ∧ f.Of d.nameResolvers p ∧
        (∀ q ∈ earlier, Skipped d.nameResolvers q ∨ NameClaim d.nameResolvers q.1) ∧
        ((∀ q ∈ earlier, ¬ Skipped d.nameResolvers q) → ∃ fail,
          resolveNames d ∅ (votes.map Prod.fst) = .error fail ∧ fail.reason = f.reason) := by
  have htrace := preflight_spec (d := d) true votes
  have hvalid : (resolveNames d ∅ (votes.map Prod.fst)).valid = true ↔
      ∀ p ∈ votes, NameClaim d.nameResolvers p.1 := by
    rw [resolveNames_valid_iff, List.forall_mem_map]
  have hinvalid : ∀ f, preflightCommunityNames d.nameResolvers true votes = .failure f →
      ∃ p ∈ votes, ¬ NameClaim d.nameResolvers p.1 := by
    intro f hf
    rw [hf] at htrace
    obtain ⟨earlier, p, later, rfl, hof, -⟩ := htrace.failure
    refine ⟨p, List.mem_append_right _ List.mem_cons_self, fun hclaim => hof.differs ?_⟩
    rw [hof.resolved, hof.claimed]
    exact hclaim _ hof.name
  refine ⟨⟨fun h => ?_, fun h => ?_⟩, fun h => ?_, fun f hf => ⟨?_, ?_⟩⟩
  · rw [h] at htrace
    obtain ⟨hall, hiff⟩ := htrace.ok
    have hskips := (hiff.mp rfl).2
    exact ⟨hvalid.mpr fun p hp => (hall p hp).resolve_left (hskips p hp), hskips⟩
  · cases hresult : preflightCommunityNames d.nameResolvers true votes with
    | ok settled =>
        rw [hresult] at htrace
        rw [htrace.ok.2.mpr ⟨rfl, h.2⟩]
    | failure f =>
        obtain ⟨p, hp, hnot⟩ := hinvalid f hresult
        exact absurd (hvalid.mp h.1 p hp) hnot
  · rw [h] at htrace
    obtain ⟨hall, hiff⟩ := htrace.ok
    refine ⟨?_, hall⟩
    by_contra hnone
    exact absurd (hiff.mpr ⟨rfl, fun p hp hskipped => hnone ⟨p, hp, hskipped⟩⟩) Bool.false_ne_true
  · obtain ⟨p, hp, hnot⟩ := hinvalid f hf
    rw [← Bool.not_eq_true, hvalid]
    exact fun hall => hnot (hall p hp)
  · rw [hf] at htrace
    obtain ⟨earlier, p, later, hvotes, hof, hall, htext⟩ := htrace.failure
    exact ⟨earlier, p, later, hvotes, hof, hall, fun hskips => htext hskips ∅⟩

end PubsubVoting
