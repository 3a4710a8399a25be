import PubsubVoting.Schema.Votes

/-!
The criteria document: one contest, its clock, and the gate that decides who may vote.

* `RuleRef`, `GateNode`: a reference to a rule, and the boolean tree over such references.
* `gateShape`, `gateSchema`: depth, leaf count and the redundant spellings, in one walk.
* `Criteria`, `criteriaSchema`: the document and what parses.
-/

namespace PubsubVoting

open Cbor

/-- A reference to a rule by `type`, with the options that rule owns. -/
structure RuleRef where
  type : JsString
  options : List (String × Value)

/-- The two ways a branch composes its children. -/
inductive GateKind where
  | all
  | any
  deriving DecidableEq

/-- The gate: a boolean tree over rule references. -/
inductive GateNode where
  | rule (ref : RuleRef)
  | branch (kind : GateKind) (children : List GateNode)

/-- The document form of a rule reference. -/
def RuleRef.toValue (ref : RuleRef) : Value :=
  .map (("type", .text ref.type.toWellFormed) :: ref.options)

/-- The key of a branch. -/
def GateKind.key : GateKind → String
  | .all => "all"
  | .any => "any"

mutual

/-- The document form of a gate node. -/
def GateNode.toValue : GateNode → Value
  | .rule ref => .map [("rule", ref.toValue)]
  | .branch kind children => .map [(kind.key, .list (gateValues children))]

/-- The document forms of a branch's children. -/
def gateValues : List GateNode → List Value
  | [] => []
  | child :: children => child.toValue :: gateValues children

end

/-! ### The gate schema -/

/-- `MAX_GATE_DEPTH` -/
def maxGateDepth : ℕ := 4

/-- `MAX_GATE_LEAVES` -/
def maxGateLeaves : ℕ := 8

/-- `MAX_GATE_NODES` -/
def maxGateNodes : ℕ := maxGateLeaves * 2

/-- What one walk over a gate finds out. -/
structure GateShape where
  depth : ℕ
  leaves : ℕ
  nodes : ℕ
  redundant : Option String
  deriving DecidableEq

/-- The node is a branch of the given kind. -/
def GateNode.isKind (kind : GateKind) : GateNode → Bool
  | .rule _ => false
  | .branch kind' _ => decide (kind' = kind)

/-- The first complaint stays. -/
def orElse (redundant : Option String) (complain : Bool) (message : String) : Option String :=
  redundant.or (if complain then some message else none)

mutual

/-- Depth (a leaf is 1), leaf count, node count, and the redundant spellings; `none` where a child
cannot be encoded. -/
def gateShape (C : Codecs) : GateNode → Option GateShape
  | .rule _ => some ⟨1, 1, 1, none⟩
  | .branch kind children => do
    let shape ← childrenShape C kind [] ⟨0, 0, 1, none⟩ children
    return { shape with depth := shape.depth + 1 }

/-- The loop over the children of a branch: the canonical bytes seen so far, and the shape so
far. -/
def childrenShape (C : Codecs) (kind : GateKind) (seen : List Bytes) (acc : GateShape) :
    List GateNode → Option GateShape
  | [] => some acc
  | child :: children => do
    let shape ← gateShape C child
    let bytes ← C.encodeCanonical child.toValue
    let redundant := acc.redundant.or shape.redundant
    let redundant := orElse redundant (child.isKind kind)
      ("a `" ++ kind.key ++ "` nested directly inside an `" ++ kind.key
        ++ "` says nothing its parent does not; inline its children")
    let redundant := orElse redundant (seen.contains bytes)
      ("a `" ++ kind.key ++ "` repeats one of its children; drop the duplicate")
    childrenShape C kind (bytes :: seen)
      ⟨max acc.depth shape.depth, acc.leaves + shape.leaves, acc.nodes + shape.nodes, redundant⟩
      children

end

mutual

/-- Every branch has two children at least, every rule a type. -/
def gateNodeSchema : GateNode → Bool
  | .rule ref => decide (1 ≤ ref.type.length)
  | .branch _ children => decide (2 ≤ children.length) && gateNodesSchema children

/-- Every child parses. -/
def gateNodesSchema : List GateNode → Bool
  | [] => true
  | child :: children => gateNodeSchema child && gateNodesSchema children

end

/-- `GateSchema` on a typed tree. -/
def gateSchema (C : Codecs) (node : GateNode) : Bool :=
  gateNodeSchema node &&
    match gateShape C node with
    | none => false
    | some shape => decide (shape.depth ≤ maxGateDepth) && decide (shape.leaves ≤ maxGateLeaves)
      && decide (shape.nodes ≤ maxGateNodes) && shape.redundant.isNone

/-! ### The document -/

/-- Inclusive bounds for a single vote. -/
structure VoteRange where
  min : ℤ
  max : ℤ

/-- The criteria document of one contest. -/
structure Criteria where
  name : JsString
  contestId : JsString
  voteSchema : VoteRange
  maxVotesPerAddress : ℕ
  bucketChainId : ℕ
  blocksPerBucket : ℕ
  voteExpiryBuckets : ℕ
  gate : GateNode
  weight : RuleRef
  requires : List JsString

/-- `z.number().int().positive()` -/
def isPositiveInt (n : ℕ) : Bool := isInt n && decide (1 ≤ n)

/-- `CriteriaSchema` -/
def criteriaSchema (C : Codecs) (c : Criteria) : Bool :=
  decide (1 ≤ c.name.length) && decide (1 ≤ c.contestId.length) && isInt c.voteSchema.min
    && isInt c.voteSchema.max && isPositiveInt c.maxVotesPerAddress && isPositiveInt c.bucketChainId
    && isPositiveInt c.blocksPerBucket && isPositiveInt c.voteExpiryBuckets && gateSchema C c.gate
    && decide (1 ≤ c.weight.type.length) && decide (1 ≤ c.requires.length)
    && c.requires.all fun rule => decide (1 ≤ rule.length)

end PubsubVoting
