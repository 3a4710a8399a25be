import PubsubVoting.Schema.Topic
import PubsubVoting.Transport.Messages
import PubsubVoting.Verify.Background
import PubsubVoting.Verify.Signature

/-!
What an engine derives from its criteria, and that a topic fixes it (`client/voter.ts`,
`rules/registry.ts`).

* `validateCriteriaRules`, `contestEngine`: the registry's check, and the constructor of the engine.
* `Criteria.Agrees.leaves`, `Criteria.Agrees.resolveGate`: documents that say the same have the same
  tree and, leaf by leaf, the same rules and keys.
* `topic_fixes_rules`: two nodes on one topic count in the same blocks, keep a bundle for the same
  time, weigh it by the same rule and give every bundle the same verdict.
-/

namespace PubsubVoting

open Cbor

/-! ### The engine of a contest -/

/-- `makeBucketMath`; `none` where it throws. -/
def makeBucketMath (blocksPerBucket : ℕ) : Option BucketMath :=
  if h : 0 < blocksPerBucket then some ⟨blocksPerBucket, h⟩ else none

/-- What the engines of a voter share. -/
structure EngineDeps where
  codecs : Codecs
  cidStrings : CidStrings
  /-- the rules of the registry,
    reading through the client of a chain; `none` where the voter has no
  client for it -/
  chains : ℕ → Option RuleRegistry
  /-- the registry has a rule of that type -/
  implements : JsString → Bool
  nameResolvers : List NameResolver
  recover : RecoverTypedDataAddress

/-- What an engine makes of its criteria. -/
structure ContestEngine where
  topic : String
  criteriaCid : Cid
  chainId : ℕ
  bucketMath : BucketMath
  voteExpiryBuckets : ℕ
  maxBundleMessageBytes : ℕ
  /-- for each leaf of the gate, its keyspace in the store that contests share -/
  ruleIds : List Bytes
  weight : BoundRule
  verify : VotesBundle → Option BundleVerdict

/-- Every rule that the criteria name can be resolved; `none` where the check throws. -/
def validateCriteriaRules (deps : EngineDeps) (registry : RuleRegistry) (c : Criteria) :
    Option Unit :=
  if (gateLeaves c.gate).all (fun ref => (registry.resolve ref).isSome) &&
      (registry.resolve c.weight).isSome && c.requires.all deps.implements then some ()
  else none

/-- The question of a leaf, which names its keyspace. -/
def ruleId (C : Codecs) (chainId : ℕ) (ref : RuleRef) : Option Bytes :=
  (C.encodeCanonical (.map [("chainId", .int chainId), ("rule", ref.toValue)])).map C.sha256

/-- The constructor of an engine, behind the registry's check; `none` where one of them throws. -/
def contestEngine (deps : EngineDeps) (c : Criteria) : Option ContestEngine := do
  let criteriaCid ← criteriaCid deps.codecs c
  let registry ← deps.chains c.bucketChainId
  let () ← validateCriteriaRules deps registry c
  let bucketMath ← makeBucketMath c.blocksPerBucket
  let ruleIds ← (gateLeaves c.gate).mapM (ruleId deps.codecs c.bucketChainId)
  let weight ← registry.resolve c.weight
  let leaves ← resolveGate deps.codecs registry c
  let verifier : VerifierDeps :=
    { criteria := c
      leaves := leaves
      bucketMath := bucketMath
      nameResolvers := deps.nameResolvers
      verifyBundleSignature := verifyBundleSignature deps.recover criteriaCid c.bucketChainId }
  return {
    topic := topicPrefix ++ deps.cidStrings.toString criteriaCid
    criteriaCid := criteriaCid
    chainId := c.bucketChainId
    bucketMath := bucketMath
    voteExpiryBuckets := c.voteExpiryBuckets
    maxBundleMessageBytes := maxBundleMessageBytes c
    ruleIds := ruleIds
    weight := weight
    verify := verify verifier }

/-- The types and requirements of the criteria are well-formed Unicode. -/
structure Criteria.RulesWellFormed (c : Criteria) : Prop where
  gate : ∀ ref ∈ gateLeaves c.gate, ref.type.WellFormed
  requires : ∀ rule ∈ c.requires, rule.WellFormed

/-! ### Trees that agree -/

mutual

/-- Trees that agree have the same numbered tree. -/
lemma indexGate_of_agrees {node node' : GateNode} (h : node.Agrees node') (next : ℕ) :
    indexGate next node = indexGate next node' := by
  cases node with
  | rule ref =>
      cases node' with
      | rule ref' => rfl
      | branch kind' children' => exact absurd h (by simp [GateNode.Agrees])
  | branch kind children =>
      cases node' with
      | rule ref' => exact absurd h (by simp [GateNode.Agrees])
      | branch kind' children' =>
          rw [GateNode.Agrees] at h
          obtain ⟨rfl, hchildren⟩ := h
          rw [indexGate, indexGate, indexGates_of_agree hchildren next]

lemma indexGates_of_agree {children children' : List GateNode} (h : gatesAgree children children')
    (next : ℕ) : indexGates next children = indexGates next children' := by
  cases children with
  | nil =>
      cases children' with
      | nil => rfl
      | cons child' children' => exact absurd h (by simp [gatesAgree])
  | cons child children =>
      cases children' with
      | nil => exact absurd h (by simp [gatesAgree])
      | cons child' children' =>
          rw [gatesAgree] at h
          obtain ⟨hchild, hchildren⟩ := h
          rw [indexGates, indexGates, indexGate_of_agrees hchild next]
          dsimp only
          rw [indexGates_of_agree hchildren]

end

/-- References that agree. -/
def RuleRef.Agrees (ref ref' : RuleRef) : Prop := ref.toValue.canon = ref'.toValue.canon

mutual

/-- Trees that agree name, leaf by leaf, references that agree. -/
lemma gateLeaves_of_agrees {node node' : GateNode} (h : node.Agrees node') :
    List.Forall₂ RuleRef.Agrees (gateLeaves node) (gateLeaves node') := by
  cases node with
  | rule ref =>
      cases node' with
      | rule ref' =>
          rw [GateNode.Agrees] at h
          exact .cons h .nil
      | branch kind' children' => exact absurd h (by simp [GateNode.Agrees])
  | branch kind children =>
      cases node' with
      | rule ref' => exact absurd h (by simp [GateNode.Agrees])
      | branch kind' children' =>
          rw [GateNode.Agrees] at h
          exact gateLeavesOf_of_agree h.2

lemma gateLeavesOf_of_agree {children children' : List GateNode}
    (h : gatesAgree children children') :
    List.Forall₂ RuleRef.Agrees (gateLeavesOf children) (gateLeavesOf children') := by
  cases children with
  | nil =>
      cases children' with
      | nil => exact .nil
      | cons child' children' => exact absurd h (by simp [gatesAgree])
  | cons child children =>
      cases children' with
      | nil => exact absurd h (by simp [gatesAgree])
      | cons child' children' =>
          rw [gatesAgree] at h
          exact List.rel_append (gateLeaves_of_agrees h.1) (gateLeavesOf_of_agree h.2)

end

section

variable {C : Codecs} {registry : RuleRegistry} {c c' : Criteria}

/-- References that agree name one type. -/
lemma RuleRef.Agrees.type {ref ref' : RuleRef} (h : ref.Agrees ref') {key : Bytes}
    (hkey : C.encodeCanonical ref.toValue = some key) :
    ref.type.toWellFormed = ref'.type.toWellFormed := by
  have hencodable : ref.toValue.encodable = true := by
    rw [← encodable_canon]
    exact C.decode_encodable key _ (C.decode_encode _ key hkey)
  have hencodable' : ref'.toValue.encodable = true := by
    rw [← encodable_canon, ← show ref.toValue.canon = ref'.toValue.canon from h, encodable_canon]
    exact hencodable
  exact Value.text.inj (Option.some.inj (canon_get? hencodable hencodable' h "type"))

/-- Two leaves with one rule, and types that are written alike. -/
def ResolvedGateLeaf.Agrees (leaf leaf' : ResolvedGateLeaf) : Prop :=
  leaf.rule = leaf'.rule ∧ leaf.ref.type.toWellFormed = leaf'.ref.type.toWellFormed

/-- Gates that agree resolve to leaves that do. -/
lemma resolveGate_of_agrees (h : c.gate.Agrees c'.gate) {leaves : List ResolvedGateLeaf}
    (hleaves : resolveGate C registry c = some leaves) :
    ∃ leaves', resolveGate C registry c' = some leaves' ∧
      List.Forall₂ ResolvedGateLeaf.Agrees leaves leaves' := by
  refine List.exists_mapM_of_forall₂ (gateLeaves_of_agrees h) ?_ hleaves
  intro ref ref' leaf hagrees hleaf
  simp only [Option.bind_eq_bind, Option.bind_eq_some_iff, Option.pure_def, Option.some.injEq]
    at hleaf
  obtain ⟨rule, hrule, key, hkey, rfl⟩ := hleaf
  refine ⟨⟨ref', rule, key⟩, ?_, rfl, hagrees.type hkey⟩
  rw [← registry.resolve_canon ref ref' hagrees, hrule, ← Codecs.encodeCanonical_congr hagrees,
    hkey]
  rfl

/-- The references of resolved leaves are those of the gate. -/
lemma map_ref_of_resolveGate {leaves : List ResolvedGateLeaf}
    (h : resolveGate C registry c = some leaves) :
    leaves.map ResolvedGateLeaf.ref = gateLeaves c.gate := by
  refine (List.map_eq_map_of_mapM (g := id) h fun ref _ leaf hleaf => ?_).trans (List.map_id _)
  simp only [Option.bind_eq_bind, Option.bind_eq_some_iff, Option.pure_def, Option.some.injEq]
    at hleaf
  obtain ⟨rule, -, key, -, rfl⟩ := hleaf
  rfl

/-- Well-formed texts that are written alike are the same. -/
lemma eq_of_map_toWellFormed {texts texts' : List JsString} (h : ∀ s ∈ texts, s.WellFormed)
    (h' : ∀ s ∈ texts', s.WellFormed)
    (heq : texts.map JsString.toWellFormed = texts'.map JsString.toWellFormed) :
    texts = texts' := by
  have hback : ∀ ts : List JsString, (∀ s ∈ ts, s.WellFormed) →
      (ts.map JsString.toWellFormed).map JsString.ofString = ts := by
    intro ts hts
    rw [List.map_map]
    conv_rhs => rw [← List.map_id ts]
    exact List.map_congr_left fun s hs => hts s hs
  rw [← hback texts h, heq, hback texts' h']

/-- The types of the leaves, which a refusal quotes. -/
lemma map_type_of_agree {leaves leaves' : List ResolvedGateLeaf}
    (hleaves : resolveGate C registry c = some leaves)
    (hleaves' : resolveGate C registry c' = some leaves')
    (hagree : List.Forall₂ ResolvedGateLeaf.Agrees leaves leaves') (hwf : c.RulesWellFormed)
    (hwf' : c'.RulesWellFormed) :
    leaves.map (·.ref.type) = leaves'.map (·.ref.type) := by
  have hmem : ∀ {c : Criteria} {leaves : List ResolvedGateLeaf},
      resolveGate C registry c = some leaves → c.RulesWellFormed →
        ∀ type ∈ leaves.map (·.ref.type), type.WellFormed := by
    intro c leaves h hwf type htype
    obtain ⟨leaf, hleaf, rfl⟩ := List.mem_map.mp htype
    refine hwf.gate _ ?_
    rw [← map_ref_of_resolveGate h]
    exact List.mem_map_of_mem hleaf
  refine eq_of_map_toWellFormed (hmem hleaves hwf) (hmem hleaves' hwf') ?_
  rw [List.map_map, List.map_map]
  exact List.map_eq_map_of_forall₂ hagree fun _ _ h => h.2

end

/-! ### Verdicts -/

section

variable {d d' : VerifierDeps}

lemma checkBundleConstraints_of_agrees {c c' : Criteria} (h : c.Agrees c') (bundle : VotesBundle) :
    checkBundleConstraints bundle c = checkBundleConstraints bundle c' := by
  rw [checkBundleConstraints, checkBundleConstraints, h.maxVotesPerAddress, h.voteSchema]

lemma scoreLeaf_congr (h : d.leaves.map (·.rule) = d'.leaves.map (·.rule)) (wallet : RuleWallet) :
    scoreLeaf d wallet = scoreLeaf d' wallet := by
  have hscore : ∀ d : VerifierDeps, scoreLeaf d wallet = fun leaf =>
      ((d.leaves.map (·.rule))[leaf]?).map (·.evaluate wallet) := by
    intro d
    funext leaf
    rw [scoreLeaf, List.getElem?_map, Option.map_map]
    rfl
  rw [hscore d, hscore d', h]

lemma ruleFailures_congr {leaves leaves' : List ResolvedGateLeaf}
    (h : leaves.map (·.ref.type) = leaves'.map (·.ref.type)) (gate : GateResult) :
    ruleFailures leaves gate = ruleFailures leaves' gate := by
  have htype : ∀ (leaves : List ResolvedGateLeaf) (leaf : ℕ),
      (leaves[leaf]?).elim [] (·.ref.type) = ((leaves.map (·.ref.type))[leaf]?).getD [] := by
    intro leaves leaf
    rw [List.getElem?_map]
    cases leaves[leaf]? <;> rfl
  rw [ruleFailures, ruleFailures]
  refine List.map_congr_left fun blamed _ => ?_
  rw [htype, htype, h]

lemma resolveNames_congr (h : d.nameResolvers = d'.nameResolvers) (resolved : ResolvedNames)
    (votes : List Vote) : resolveNames d resolved votes = resolveNames d' resolved votes := by
  induction votes generalizing resolved with
  | nil => rfl
  | cons v votes ih =>
      rw [resolveNames, resolveNames, h]
      simp only [ih]

/-- What a verifier answers depends on what its criteria say, the rules of the leaves, and the
rest it is built from. -/
lemma verify_congr (hcriteria : d.criteria.Agrees d'.criteria)
    (hrules : d.leaves.map (·.rule) = d'.leaves.map (·.rule))
    (htypes : d.leaves.map (·.ref.type) = d'.leaves.map (·.ref.type))
    (hbuckets : d.bucketMath = d'.bucketMath) (hnames : d.nameResolvers = d'.nameResolvers)
    (hsignature : d.verifyBundleSignature = d'.verifyBundleSignature) : verify d = verify d' := by
  funext bundle
  have hoffline : verifyOffline d bundle = verifyOffline d' bundle := by
    rw [verifyOffline, verifyOffline, hsignature, checkBundleConstraints_of_agrees hcriteria]
  have honline : verifyOnline d bundle = verifyOnline d' bundle := by
    rw [verifyOnline, verifyOnline, hbuckets, scoreLeaf_congr hrules, evaluateGate, evaluateGate,
      indexGate_of_agrees hcriteria.gate]
    simp only [ruleFailures_congr htypes, resolveNames_congr hnames]
  rw [verify, verify, hoffline, honline]

end

/-! ### One topic, one contest -/

section

variable {deps : EngineDeps} {c c' : Criteria}

lemma Criteria.Agrees.symm (h : c.Agrees c') : c'.Agrees c :=
  ⟨h.name.symm, h.contestId.symm, h.voteSchema.symm, h.maxVotesPerAddress.symm,
    h.bucketChainId.symm, h.blocksPerBucket.symm, h.voteExpiryBuckets.symm,
    (canon_gate_eq_iff _ _).mp ((canon_gate_eq_iff _ _).mpr h.gate).symm, h.weight.symm,
    h.requires.symm⟩

/-- The registry implements both documents or neither. -/
lemma validateCriteriaRules_of_agrees (h : c.Agrees c') (hwf : c.RulesWellFormed)
    (hwf' : c'.RulesWellFormed) (registry : RuleRegistry) :
    validateCriteriaRules deps registry c = validateCriteriaRules deps registry c' := by
  have hgate : (gateLeaves c.gate).map (fun ref => (registry.resolve ref).isSome) =
      (gateLeaves c'.gate).map fun ref => (registry.resolve ref).isSome :=
    List.map_eq_map_of_forall₂ (gateLeaves_of_agrees h.gate) fun ref ref' hagrees => by
      rw [registry.resolve_canon ref ref' hagrees]
  have hgate' : (gateLeaves c.gate).all (fun ref => (registry.resolve ref).isSome) =
      (gateLeaves c'.gate).all fun ref => (registry.resolve ref).isSome := by
    have := congrArg (List.all · id) hgate
    simpa only [List.all_map, Function.comp_def, id] using this
  rw [validateCriteriaRules, validateCriteriaRules, hgate', registry.resolve_canon _ _ h.weight,
    eq_of_map_toWellFormed hwf.requires hwf'.requires h.requires]

/-- The keyspaces of the leaves are the same. -/
lemma ruleIds_of_agrees {C : Codecs} (h : c.gate.Agrees c'.gate) (chainId : ℕ)
    {ruleIds : List Bytes} (hids : (gateLeaves c.gate).mapM (ruleId C chainId) = some ruleIds) :
    (gateLeaves c'.gate).mapM (ruleId C chainId) = some ruleIds := by
  obtain ⟨ids, hids', heq⟩ := List.exists_mapM_of_forall₂ (Q := Eq) (gateLeaves_of_agrees h)
    (fun ref ref' id hagrees hid => ⟨id, by
      have hquestion : (Value.map [("chainId", .int chainId), ("rule", ref.toValue)]).canon =
          (Value.map [("chainId", .int chainId), ("rule", ref'.toValue)]).canon :=
        canon_map_congr (by
          simp only [List.map_cons, List.map_nil,
            show ref.toValue.canon = ref'.toValue.canon from hagrees])
      rw [ruleId, ← Codecs.encodeCanonical_congr hquestion]
      exact hid, rfl⟩) hids
  rw [List.forall₂_eq_eq_eq] at heq
  rw [hids', heq]

/-- Documents that say the same, under one CID, make one engine. -/
lemma contestEngine_of_agrees (h : c.Agrees c')
    (hcid : criteriaCid deps.codecs c = criteriaCid deps.codecs c') (hwf : c.RulesWellFormed)
    (hwf' : c'.RulesWellFormed) {engine : ContestEngine}
    (hengine : contestEngine deps c = some engine) : contestEngine deps c' = some engine := by
  simp only [contestEngine, Option.bind_eq_bind, Option.bind_eq_some_iff, Option.pure_def,
    Option.some.injEq] at hengine ⊢
  obtain ⟨cid, hc, registry, hregistry, u, hvalid, bucketMath, hbuckets, ruleIds, hids, weight,
    hweight, leaves, hleaves, rfl⟩ := hengine
  obtain ⟨leaves', hleaves', hagree⟩ := resolveGate_of_agrees h.gate hleaves
  refine ⟨cid, hcid ▸ hc, registry, h.bucketChainId ▸ hregistry, u,
    validateCriteriaRules_of_agrees h hwf hwf' registry ▸ hvalid, bucketMath,
    h.blocksPerBucket ▸ hbuckets, ruleIds, ?_, weight,
    registry.resolve_canon _ _ h.weight ▸ hweight, leaves', hleaves', ?_⟩
  · rw [← h.bucketChainId]
    exact ruleIds_of_agrees h.gate _ hids
  · have hverify :
        verify ⟨c, leaves, bucketMath, deps.nameResolvers,
            verifyBundleSignature deps.recover cid c.bucketChainId⟩ =
          verify ⟨c', leaves', bucketMath, deps.nameResolvers,
            verifyBundleSignature deps.recover cid c'.bucketChainId⟩ :=
      verify_congr h (List.map_eq_map_of_forall₂ hagree fun _ _ hl => hl.1)
        (map_type_of_agree hleaves hleaves' hagree hwf hwf') rfl rfl (by rw [h.bucketChainId])
    rw [← h.bucketChainId, ← h.voteExpiryBuckets, maxBundleMessageBytes, maxBundleMessageBytes,
      ← h.maxVotesPerAddress]
    rw [← h.bucketChainId] at hverify
    rw [hverify]

end

/-- Two nodes on one topic, whose documents do not collide, make the same of their criteria: the
chain and the buckets they count in, how long a bundle is kept and how large it may be, the
keyspaces of the gate's reads, the rule that weighs it, and the verdict on every bundle. -/
theorem topic_fixes_rules {deps : EngineDeps} {c c' : Criteria} {x x' : Bytes}
    (h : encodeCriteria deps.codecs c = some x) (h' : encodeCriteria deps.codecs c' = some x')
    (hcollide : deps.codecs.sha256 x = deps.codecs.sha256 x' → x = x')
    (hwf : c.RulesWellFormed) (hwf' : c'.RulesWellFormed)
    (htopic : topicFor deps.codecs deps.cidStrings c = topicFor deps.codecs deps.cidStrings c') :
    contestEngine deps c = contestEngine deps c' := by
  have hdigest := (topicFor_eq_iff_sha256 h h').mp htopic
  obtain rfl := hcollide hdigest
  have hagrees : c.Agrees c' := (canon_toValue_eq_iff (encodable_of_encodeCriteria h)
    (encodable_of_encodeCriteria h')).mp (Codecs.encodeCanonical_inj h h')
  have hcid : criteriaCid deps.codecs c = criteriaCid deps.codecs c' := by
    rw [criteriaCid_eq_some h, criteriaCid_eq_some h']
  refine Option.ext fun engine => ⟨fun hengine => ?_, fun hengine => ?_⟩
  · exact contestEngine_of_agrees hagrees hcid hwf hwf' hengine
  · exact contestEngine_of_agrees hagrees.symm hcid.symm hwf' hwf hengine

/-- A voter with one client, whose registry has one rule, which admits everybody. -/
def boardDeps : EngineDeps where
  codecs := .reference
  cidStrings := .base32
  chains chainId := if chainId = 8453 then some openRegistry else none
  implements _ := true
  nameResolvers := []
  recover _ _ := .error "no signature"

lemma rulesWellFormed_passBoard (options : List (String × Value)) :
    (passBoard options).RulesWellFormed := by
  refine ⟨fun ref href => ?_, fun rule hrule => ?_⟩
  · obtain rfl := List.mem_singleton.mp href
    exact JsString.wellFormed_ofString _
  · rcases List.mem_pair.mp hrule with rfl | rfl <;> exact JsString.wellFormed_ofString _

/-- Two boards that differ in the order of the gate's options have one engine. -/
theorem topic_fixes_rules_reordered :
    contestEngine boardDeps (passBoard passOptions) =
      contestEngine boardDeps (passBoard passOptions.reverse) := by
  obtain ⟨x, hx, hx'⟩ := encodeCriteria_passBoard
  exact topic_fixes_rules hx hx' (fun _ => rfl) (rulesWellFormed_passBoard _)
    (rulesWellFormed_passBoard _) ((topicFor_eq_iff_sha256 hx hx').mpr rfl)

end PubsubVoting
