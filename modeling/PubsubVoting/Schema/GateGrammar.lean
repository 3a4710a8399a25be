import PubsubVoting.Lib.CborFields
import PubsubVoting.Schema.RawGate

/-!
The language of the gate schema, and what it takes for its parser not to throw.

* `rawGateShape_some`, `rawGateShape_none`: what the walk over a parsed tree finds, and that it
  throws exactly if the encoder does.
* `walkGate_none_of_spells`: the bounds on the raw value let every tree of the grammar through.
* `InGrammar`: the documented grammar (`gateSchema_accepts_iff`).
* `safeParseGate_threw`: the parser throws exactly if the bounds let a value through whose arrays
  are nested deeper than the stack holds, or from which a tree is read that has a child that is
  not encoded.
-/

namespace PubsubVoting

open Cbor

mutual

/-- Leaf references of a tree. -/
def RawGate.leafCount : RawGate → ℕ
  | .rule _ _ => 1
  | .branch _ children => leafCountOf children

/-- Leaf references of a branch's children. -/
def leafCountOf : List RawGate → ℕ
  | [] => 0
  | child :: children => child.leafCount + leafCountOf children

end

mutual

/-- Nodes of a tree. -/
def RawGate.nodeCount : RawGate → ℕ
  | .rule _ _ => 1
  | .branch _ children => nodeCountOf children + 1

/-- Nodes below a branch. -/
def nodeCountOf : List RawGate → ℕ
  | [] => 0
  | child :: children => child.nodeCount + nodeCountOf children

end

mutual

/-- The nodes below the root. -/
def RawGate.descendants : RawGate → List RawGate
  | .rule _ _ => []
  | .branch _ children => descendantsOf children

/-- The children of a branch and the nodes below them. -/
def descendantsOf : List RawGate → List RawGate
  | [] => []
  | child :: children => child :: (child.descendants ++ descendantsOf children)

end

/-- No branch directly inside one of its own kind, and no two siblings with the same bytes. -/
inductive RawGate.Canonical (bytes : RawGate → Option Bytes) : RawGate → Prop
  | rule (type : JsString) (options : List (String × RawValue)) :
      Canonical bytes (.rule type options)
  | branch (kind : GateKind) (children : List RawGate)
      (hkind : ∀ child ∈ children, child.isKind kind = false)
      (hbytes : (children.map bytes).Nodup) (h : ∀ child ∈ children, Canonical bytes child) :
      Canonical bytes (.branch kind children)

/-! ### The shape of a parsed tree -/

section

variable {encode : RawGate → Option Bytes} {kind : GateKind} {children : List RawGate}

lemma orElse_eq_none {redundant : Option String} {complain : Bool} {message : String} :
    orElse redundant complain message = none ↔ redundant = none ∧ complain = false := by
  cases redundant <;> cases complain <;> simp [orElse]

/-- What the loop over the children of a branch finds. -/
structure ChildrenFound (encode : RawGate → Option Bytes) (kind : GateKind) (seen : List Bytes)
    (acc shape : RawShape) (children : List RawGate) : Prop where
  depth : shape.depth = max acc.depth (depthOf children)
  leaves : shape.leaves = acc.leaves + leafCountOf children
  redundant : shape.redundant = none ↔ acc.redundant = none
    ∧ (∀ child ∈ children, child.isKind kind = false) ∧ (children.map encode).Nodup
    ∧ (∀ child ∈ children, ∀ bytes ∈ seen, encode child ≠ some bytes)
    ∧ ∀ child ∈ children, child.Canonical encode

lemma rawChildrenShape_some
    (ih : ∀ child ∈ children, ∀ shape, rawGateShape encode child = some shape →
      shape.depth = child.depth ∧ shape.leaves = child.leafCount
        ∧ (shape.redundant = none ↔ child.Canonical encode))
    {seen : List Bytes} {acc shape : RawShape}
    (h : rawChildrenShape encode kind seen acc children = some shape) :
    ChildrenFound encode kind seen acc shape children := by
  induction children generalizing seen acc with
  | nil =>
      obtain rfl := Option.some.inj h
      exact ⟨by simp [depthOf], by simp [leafCountOf], by simp⟩
  | cons child children ih' =>
      obtain ⟨hchild, hrest⟩ := List.forall_mem_cons.mp ih
      simp only [rawChildrenShape, Option.bind_eq_bind, Option.bind_eq_some_iff] at h
      obtain ⟨first, hfirst, bytes, hbytes, h⟩ := h
      obtain ⟨hdepth, hleaves, hcanonical⟩ := hchild first hfirst
      have hfound := ih' hrest h
      refine ⟨?_, ?_, ?_⟩
      · rw [hfound.depth, depthOf, hdepth, max_assoc]
      · rw [hfound.leaves, leafCountOf, hleaves, Nat.add_assoc]
      · have hfirstSeen : seen.contains bytes = false ↔
            ∀ other ∈ seen, encode child ≠ some other := by
          rw [hbytes, ← Bool.not_eq_true, List.contains_iff_mem]
          constructor
          · intro hnot other hother heq
            exact hnot ((Option.some.inj heq) ▸ hother)
          · intro hall hmem
            exact hall bytes hmem rfl
        have hsibling : encode child ∉ children.map encode ↔
            ∀ other ∈ children, encode other ≠ some bytes := by
          rw [hbytes, List.mem_map]
          push Not
          rfl
        have hseen : (∀ other ∈ children, ∀ earlier ∈ bytes :: seen, encode other ≠ some earlier) ↔
            (∀ other ∈ children, encode other ≠ some bytes)
              ∧ ∀ other ∈ children, ∀ earlier ∈ seen, encode other ≠ some earlier := by
          simp only [List.forall_mem_cons, ← forall_and]
        rw [hfound.redundant, hseen, orElse_eq_none, orElse_eq_none, Option.or_eq_none_iff,
          hcanonical, hfirstSeen, List.map_cons, List.nodup_cons, hsibling]
        simp only [List.forall_mem_cons]
        tauto

/-- **What the walk finds**: depth, leaves, and no complaint exactly about a canonical tree. -/
theorem rawGateShape_some {node : RawGate} {shape : RawShape}
    (h : rawGateShape encode node = some shape) :
    shape.depth = node.depth ∧ shape.leaves = node.leafCount
      ∧ (shape.redundant = none ↔ node.Canonical encode) := by
  induction node using RawGate.ind generalizing shape with
  | rule type options =>
      obtain rfl := Option.some.inj h
      exact ⟨rfl, rfl, fun _ => .rule type options, fun _ => rfl⟩
  | branch kind children ih =>
      simp only [rawGateShape, Option.bind_eq_bind, Option.bind_eq_some_iff, Option.pure_def,
        Option.some.injEq] at h
      obtain ⟨inner, hinner, rfl⟩ := h
      have hfound := rawChildrenShape_some (fun child hchild _ => ih child hchild) hinner
      refine ⟨?_, ?_, ?_⟩
      · simp [hfound.depth, RawGate.depth]
      · simp [hfound.leaves, RawGate.leafCount]
      · rw [hfound.redundant]
        constructor
        · rintro ⟨-, hkind, hbytes, -, hcanonical⟩
          exact .branch kind children hkind hbytes hcanonical
        · intro h
          cases h with
          | branch _ _ hkind hbytes hcanonical =>
              exact ⟨rfl, hkind, hbytes, fun _ _ _ hmem => absurd hmem List.not_mem_nil, hcanonical⟩

lemma rawChildrenShape_none (kind : GateKind) (seen : List Bytes) (acc : RawShape)
    (ih : ∀ child ∈ children, rawGateShape encode child = none ↔
      ∃ inner ∈ child.descendants, encode inner = none) :
    rawChildrenShape encode kind seen acc children = none ↔
      ∃ inner ∈ descendantsOf children, encode inner = none := by
  induction children generalizing seen acc with
  | nil => simp [rawChildrenShape, descendantsOf]
  | cons child children ih' =>
      obtain ⟨hchild, hrest⟩ := List.forall_mem_cons.mp ih
      rw [rawChildrenShape, descendantsOf]
      constructor
      · intro h
        cases hfirst : rawGateShape encode child with
        | none =>
            obtain ⟨inner, hinner, hthrew⟩ := hchild.mp hfirst
            exact ⟨inner, by simp [hinner], hthrew⟩
        | some shape =>
            cases hbytes : encode child with
            | none => exact ⟨child, List.mem_cons_self, hbytes⟩
            | some bytes =>
                simp only [hfirst, hbytes, Option.bind_eq_bind, Option.bind_some] at h
                obtain ⟨inner, hinner, hthrew⟩ := (ih' _ _ hrest).mp h
                exact ⟨inner, by simp [hinner], hthrew⟩
      · rintro ⟨inner, hinner, hthrew⟩
        cases hfirst : rawGateShape encode child with
        | none => rfl
        | some shape =>
            cases hbytes : encode child with
            | none => rfl
            | some bytes =>
                simp only [Option.bind_eq_bind, Option.bind_some]
                refine (ih' _ _ hrest).mpr ⟨inner, ?_, hthrew⟩
                rcases List.mem_cons.mp hinner with rfl | hinner
                · rw [hbytes] at hthrew
                  cases hthrew
                · rcases List.mem_append.mp hinner with hinner | hinner
                  · have := hchild.mpr ⟨inner, hinner, hthrew⟩
                    rw [hfirst] at this
                    cases this
                  · exact hinner

/-- **The walk throws exactly if the encoder does**, on a node below the root. -/
theorem rawGateShape_none {node : RawGate} :
    rawGateShape encode node = none ↔ ∃ inner ∈ node.descendants, encode inner = none := by
  induction node using RawGate.ind with
  | rule type options => simp [rawGateShape, RawGate.descendants]
  | branch kind children ih =>
      rw [RawGate.descendants, ← rawChildrenShape_none kind [] ⟨0, 0, none⟩ ih, rawGateShape]
      cases rawChildrenShape encode kind [] ⟨0, 0, none⟩ children <;> simp

/-! ### The bounds on the raw value -/

/-- What holds of the pairs of two lists of one length holds of the second list. -/
lemma forall_mem_of_zip {α β : Type} {xs : List α} {ys : List β} {P : β → Prop}
    (hlen : xs.length = ys.length) (h : ∀ x y, (x, y) ∈ xs.zip ys → P y) : ∀ y ∈ ys, P y := by
  intro y hy
  obtain ⟨i, hi, rfl⟩ := List.mem_iff_getElem.mp hy
  have hx : i < xs.length := hlen ▸ hi
  exact h xs[i] ys[i] (List.mem_iff_getElem.mpr ⟨i, by simp [hx, hi], List.getElem_zip⟩)

lemma nodeCountOf_eq_sum (children : List RawGate) :
    nodeCountOf children = (children.map RawGate.nodeCount).sum := by
  induction children with
  | nil => rfl
  | cons child children ih => rw [nodeCountOf, ih, List.map_cons, List.sum_cons]

lemma nodeCountOf_add_length_le
    (h : ∀ child ∈ children, child.nodeCount + 1 ≤ 2 * child.leafCount) :
    nodeCountOf children + children.length ≤ 2 * leafCountOf children := by
  induction children with
  | nil => exact le_refl _
  | cons child children ih =>
      obtain ⟨hchild, hrest⟩ := List.forall_mem_cons.mp h
      have := ih hrest
      rw [nodeCountOf, leafCountOf, List.length_cons]
      omega

/-- Every branch has two children or more, so the leaves bound the nodes. -/
lemma nodeCount_lt_of_spells {raw : RawValue} {node : RawGate} (h : raw.Spells node) :
    node.nodeCount + 1 ≤ 2 * node.leafCount := by
  induction h with
  | rule raw ref fields type hrule hstrict hfields htype hne => exact le_refl _
  | branch raw kind xs children hget hstrict hlen _ htwo ih =>
      have := nodeCountOf_add_length_le (forall_mem_of_zip hlen ih)
      rw [RawGate.nodeCount, RawGate.leafCount]
      omega

lemma one_le_depth (node : RawGate) : 1 ≤ node.depth := by
  cases node <;> simp [RawGate.depth]

lemma one_le_nodeCount (node : RawGate) : 1 ≤ node.nodeCount := by
  cases node <;> simp [RawGate.nodeCount]

/-- The walk follows the array of `all`, and that of `any` where `all` is none. -/
lemma walkChildren_of_get? {raw : RawValue} {kind : GateKind} {xs : List RawValue}
    (hget : raw.get? kind.key = some (.list xs))
    (hnone : kind = .any → (raw.get? "all").bind (·.list?) = none) : walkChildren raw = xs := by
  rw [walkChildren]
  cases kind with
  | all =>
      have hall : raw.get? "all" = some (.list xs) := hget
      rw [hall]
      rfl
  | any =>
      have hany : raw.get? "any" = some (.list xs) := hget
      rw [hnone rfl, hany]
      rfl

/-- The children that the walk follows from what spells a tree are those of the tree. -/
lemma walkChildren_of_spells {raw : RawValue} {node : RawGate} (h : raw.Spells node) :
    ∃ children, List.Forall₂ RawValue.Spells (walkChildren raw) children
      ∧ nodeCountOf children + 1 = node.nodeCount ∧ depthOf children + 1 = node.depth := by
  cases h with
  | rule _ ref fields type hrule hstrict hfields htype hne =>
      refine ⟨[], ?_, rfl, rfl⟩
      rw [walkChildren, get?_of_onlyKey hstrict (by decide), get?_of_onlyKey hstrict (by decide)]
      exact .nil
  | branch _ kind xs children hget hstrict hlen h htwo =>
      refine ⟨children, ?_, rfl, rfl⟩
      rw [walkChildren_of_get? hget fun hkind => by
        rw [get?_of_onlyKey hstrict (hkind ▸ by decide)]
        rfl]
      exact List.forall₂_iff_zip.mpr ⟨hlen, fun hmem => h _ _ hmem⟩

lemma foldl_push (children : List RawValue) (depth : ℕ) (stack : List (RawValue × ℕ)) :
    children.foldl (fun stack child => (child, depth) :: stack) stack
      = (children.map fun child => (child, depth)).reverse ++ stack := by
  induction children generalizing stack with
  | nil => rfl
  | cons child children ih => simp [ih]

/-- The walk empties a stack of trees that fit into what is left of the bounds. -/
lemma walkGate_none_of_spells {left : ℕ} {stack : List (RawValue × ℕ)} {trees : List RawGate}
    (hspells : List.Forall₂ (fun entry node => entry.1.Spells node
      ∧ entry.2 + node.depth ≤ maxGateDepth + 1) stack trees)
    (hcount : nodeCountOf trees ≤ left) : walkGate left stack = none := by
  induction left generalizing stack trees with
  | zero =>
      cases hspells with
      | nil => rfl
      | @cons entry node stack trees _ _ =>
          have := one_le_nodeCount node
          rw [nodeCountOf] at hcount
          omega
  | succ left ih =>
      cases hspells with
      | nil => rfl
      | @cons entry node stack trees hentry hrest =>
          obtain ⟨raw, depth⟩ := entry
          obtain ⟨hraw, hdepth⟩ := hentry
          have hpositive := one_le_depth node
          obtain ⟨children, hchildren, hnodes, hdepths⟩ := walkChildren_of_spells hraw
          rw [walkGate, if_neg (by simp only at hdepth; omega), foldl_push]
          have hpush : List.Forall₂ (fun entry node => entry.1.Spells node
              ∧ entry.2 + node.depth ≤ maxGateDepth + 1)
              ((walkChildren raw).map fun child => (child, depth + 1)) children := by
            rw [List.forall₂_map_left_iff]
            have hall : ∀ child ∈ children, child.depth ≤ depthOf children :=
              depthOf_le.mp le_rfl
            refine List.forall₂_iff_zip.mpr ⟨hchildren.length_eq, fun {x child} hmem => ?_⟩
            have hle := hall child (List.of_mem_zip hmem).2
            simp only at hdepth
            exact ⟨(List.forall₂_iff_zip.mp hchildren).2 hmem, by simp only; omega⟩
          refine ih (List.rel_append (List.rel_reverse hpush) hrest) ?_
          rw [nodeCountOf_eq_sum, List.map_append, List.sum_append, List.map_reverse,
            List.sum_reverse, ← nodeCountOf_eq_sum, ← nodeCountOf_eq_sum]
          rw [nodeCountOf] at hcount
          omega

/-- **The bounds on the raw value let every tree through** that keeps those on the parsed one. -/
theorem checkGateBounds_of_spells {raw : RawValue} {node : RawGate} (h : raw.Spells node)
    (hdepth : node.depth ≤ maxGateDepth) (hleaves : node.leafCount ≤ maxGateLeaves) :
    checkGateBounds raw = none := by
  have hcount := nodeCount_lt_of_spells h
  refine walkGate_none_of_spells (.cons ⟨h, ?_⟩ .nil) ?_
  · rw [Nat.add_comm]
    exact Nat.add_le_add_right hdepth 1
  · rw [nodeCountOf, nodeCountOf, maxGateNodes]
    omega

end

/-! ### The documented grammar -/

/-- The options of every rule are what dag-cbor encodes. -/
inductive RawGate.OptionsEncodable : RawGate → Prop
  | rule (type : JsString) (options : List (String × RawValue)) (entries : List (String × Value))
      (hentries : RawValue.toEntries? options = some entries)
      (h : (RuleRef.toValue ⟨type, entries⟩).encodable = true) :
      OptionsEncodable (.rule type options)
  | branch (kind : GateKind) (children : List RawGate)
      (h : ∀ child ∈ children, OptionsEncodable child) : OptionsEncodable (.branch kind children)

/-- The documented grammar: strict leaves and strict branches of two children or more, no branch
directly inside one of its kind, no two siblings with equal canonical bytes, and the bounds on depth
and leaves. -/
def InGrammar (C : Codecs) (raw : RawValue) (node : RawGate) : Prop :=
  raw.Spells node ∧ node.Canonical (RawGate.canonicalBytes C) ∧ node.depth ≤ maxGateDepth
    ∧ node.leafCount ≤ maxGateLeaves

section

variable {C : Codecs} {raw : RawValue} {node : RawGate} {levels : ℕ}

lemma mem_descendantsOf {children : List RawGate} {inner : RawGate} :
    inner ∈ descendantsOf children ↔
      ∃ child ∈ children, inner = child ∨ inner ∈ child.descendants := by
  induction children with
  | nil => simp [descendantsOf]
  | cons child children ih => simp [descendantsOf, ih, or_assoc]

/-- Being canonical is a matter of the bytes of the nodes below the root. -/
lemma canonical_congr {bytes bytes' : RawGate → Option Bytes}
    (h : ∀ inner ∈ node.descendants, bytes inner = bytes' inner)
    (hcanonical : node.Canonical bytes) : node.Canonical bytes' := by
  induction hcanonical with
  | rule type options => exact .rule type options
  | branch kind children hkind hbytes _ ih =>
      rw [RawGate.descendants] at h
      refine .branch kind children hkind ?_ fun child hchild => ih child hchild fun inner hinner =>
        h inner (mem_descendantsOf.mpr ⟨child, hchild, .inr hinner⟩)
      rwa [← List.map_congr_left fun child hchild =>
        h child (mem_descendantsOf.mpr ⟨child, hchild, .inl rfl⟩)]

/-- The encoder on a bounded stack agrees with the encoder where it returns. -/
lemma canonicalBytes_of_encodeWithin {inner : RawGate}
    (h : inner.encodeWithin C levels ≠ none) :
    inner.encodeWithin C levels = inner.canonicalBytes C := by
  unfold RawGate.encodeWithin RawGate.canonicalBytes at *
  cases hnode : inner.toNode? with
  | none => rfl
  | some tree =>
      simp only [hnode, Option.bind_some] at h ⊢
      split_ifs at h ⊢ with hdepth
      · rfl
      · exact absurd rfl h

lemma toNodes?_eq_some {children : List RawGate} {nodes : List GateNode} :
    toNodes? children = some nodes ↔
      List.Forall₂ (fun child tree => child.toNode? = some tree) children nodes := by
  induction children generalizing nodes with
  | nil =>
      rw [toNodes?, Option.some.injEq]
      constructor
      · rintro rfl
        exact .nil
      · intro h
        cases h
        rfl
  | cons child children ih =>
      simp only [toNodes?, Option.bind_eq_bind, Option.bind_eq_some_iff, Option.pure_def,
        Option.some.injEq]
      constructor
      · rintro ⟨tree, htree, nodes, hnodes, rfl⟩
        exact .cons htree (ih.mp hnodes)
      · intro h
        cases h with
        | cons htree hnodes => exact ⟨_, htree, _, ih.mpr hnodes, rfl⟩

lemma gateValues_eq_map (nodes : List GateNode) :
    gateValues nodes = nodes.map GateNode.toValue := by
  induction nodes with
  | nil => rfl
  | cons tree nodes ih => rw [gateValues, ih, List.map_cons]

/-- One property with an encodable value makes an encodable object. -/
lemma encodable_singleton {key : String} {value : Value} (hkey : (utf8 key).length < 2 ^ 64)
    (h : value.encodable = true) : (Value.map [(key, value)]).encodable = true := by
  rw [encodable_map_iff]
  refine ⟨by simp, by simp, ?_⟩
  intro e he
  obtain rfl := List.mem_singleton.mp he
  exact ⟨hkey, h⟩

lemma nodeCount_le_nodeCountOf {children : List RawGate} {child : RawGate} (h : child ∈ children) :
    child.nodeCount ≤ nodeCountOf children := by
  rw [nodeCountOf_eq_sum]
  exact List.le_sum_of_mem (List.mem_map_of_mem h)

lemma length_le_nodeCountOf (children : List RawGate) : children.length ≤ nodeCountOf children := by
  induction children with
  | nil => exact le_refl _
  | cons child children ih =>
      have := one_le_nodeCount child
      rw [nodeCountOf, List.length_cons]
      omega

lemma exists_toNodes? {children : List RawGate}
    (h : ∀ child ∈ children, ∃ tree, child.toNode? = some tree ∧ tree.toValue.encodable = true) :
    ∃ nodes, toNodes? children = some nodes ∧ ∀ tree ∈ nodes, tree.toValue.encodable = true := by
  induction children with
  | nil => exact ⟨[], rfl, fun _ h => nomatch h⟩
  | cons child children ih =>
      obtain ⟨⟨tree, htree, hencodable⟩, hrest⟩ := List.forall_mem_cons.mp h
      obtain ⟨nodes, hnodes, hall⟩ := ih hrest
      exact ⟨tree :: nodes, by simp [toNodes?, htree, hnodes],
        List.forall_mem_cons.mpr ⟨hencodable, hall⟩⟩

/-- Trees of encodable options are encodable, as long as their arrays have a length that is. -/
lemma encodable_of_options (h : node.OptionsEncodable) (hcount : node.nodeCount < 2 ^ 64) :
    ∃ tree, node.toNode? = some tree ∧ tree.toValue.encodable = true := by
  induction h with
  | rule type options entries hentries h =>
      refine ⟨.rule ⟨type, entries⟩, by simp [RawGate.toNode?, hentries], ?_⟩
      exact encodable_singleton (by decide) h
  | branch kind children _ ih =>
      rw [RawGate.nodeCount] at hcount
      obtain ⟨nodes, hnodes, hall⟩ := exists_toNodes? fun child hchild =>
        ih child hchild (lt_of_le_of_lt (nodeCount_le_nodeCountOf hchild) (by omega))
      refine ⟨.branch kind nodes, by simp [RawGate.toNode?, hnodes], ?_⟩
      have hlen := (toNodes?_eq_some.mp hnodes).length_eq
      have hbound := length_le_nodeCountOf children
      refine encodable_singleton (by cases kind <;> decide) ?_
      rw [gateValues_eq_map, encodable_list_iff, List.length_map, List.forall_mem_map]
      exact ⟨by omega, hall⟩

lemma optionsEncodable_of_mem {inner : RawGate} (h : node.OptionsEncodable)
    (hmem : inner ∈ node.descendants) :
    inner.OptionsEncodable ∧ inner.nodeCount ≤ node.nodeCount := by
  induction h with
  | rule type options entries hentries h => cases hmem
  | branch kind children hchildren ih =>
      rw [RawGate.descendants, mem_descendantsOf] at hmem
      obtain ⟨child, hchild, hinner⟩ := hmem
      have hle := nodeCount_le_nodeCountOf hchild
      rw [RawGate.nodeCount]
      rcases hinner with rfl | hinner
      · exact ⟨hchildren _ hchild, by omega⟩
      · obtain ⟨hoptions, hcount⟩ := ih child hchild hinner
        exact ⟨hoptions, by omega⟩

/-- A stack that has room for the encoder on every node below the root. -/
lemma exists_room (nodes : List RawGate) :
    ∃ room, ∀ inner ∈ nodes, ∀ tree, inner.toNode? = some tree →
      valueDepth tree.toValue ≤ room := by
  induction nodes with
  | nil => exact ⟨0, fun _ h => nomatch h⟩
  | cons inner nodes ih =>
      obtain ⟨room, hroom⟩ := ih
      refine ⟨max room ((inner.toNode?).elim 0 fun tree => valueDepth tree.toValue), ?_⟩
      refine List.forall_mem_cons.mpr ⟨fun tree htree => ?_, fun other hother tree htree => ?_⟩
      · rw [htree, Option.elim_some]
        exact le_max_right _ _
      · exact (hroom other hother tree htree).trans (le_max_left _ _)

/-- A parse that succeeds found a canonical tree within the bounds. -/
lemma safeParseGate_parsed (h : safeParseGate C levels raw = .parsed node) :
    InGrammar C raw node := by
  rw [safeParseGate] at h
  cases hbounds : checkGateBounds raw with
  | some message => simp [hbounds] at h
  | none =>
      cases hparse : rawGateNodeSchema levels raw with
      | threw => simp [hbounds, hparse] at h
      | refused => simp [hbounds, hparse] at h
      | continued tree =>
          cases hshape : rawGateShape (RawGate.encodeWithin C levels) tree <;>
            simp [hbounds, hparse, hshape] at h
      | parsed tree =>
          cases hshape : rawGateShape (RawGate.encodeWithin C levels) tree with
          | none => simp [hbounds, hparse, hshape] at h
          | some shape =>
              simp only [hbounds, hparse, hshape] at h
              split_ifs at h with hok
              obtain rfl := Outcome.parsed.inj h
              obtain ⟨hdepth, hleaves, hcanonical⟩ := rawGateShape_some hshape
              obtain ⟨hd, hl, hredundant⟩ := hok
              have hencoded : ∀ inner ∈ tree.descendants, inner.encodeWithin C levels ≠ none := by
                intro inner hinner hnone
                rw [rawGateShape_none.mpr ⟨inner, hinner, hnone⟩] at hshape
                cases hshape
              exact ⟨spells_of_parsed hparse, canonical_congr (fun inner hinner =>
                canonicalBytes_of_encodeWithin (hencoded inner hinner)) (hcanonical.mp hredundant),
                hdepth ▸ hd, hleaves ▸ hl⟩

/-- A value spells one tree at most. -/
lemma spells_unique {node' : RawGate} (h : raw.Spells node) (h' : raw.Spells node') :
    node = node' := by
  have hparse : rawGateNodeSchema (max node.depth node'.depth) raw = .parsed node :=
    parsed_of_spells h (le_max_left _ _)
  have hparse' : rawGateNodeSchema (max node.depth node'.depth) raw = .parsed node' :=
    parsed_of_spells h' (le_max_right _ _)
  exact Outcome.parsed.inj (hparse.symm.trans hparse')

/-- With encodable options and room on the stack every node below the root is encoded. -/
lemma encodeWithin_ne_none (hoptions : node.OptionsEncodable) (hleaves : node.nodeCount < 2 ^ 64)
    {room : ℕ} (hroom : ∀ inner ∈ node.descendants, ∀ tree, inner.toNode? = some tree →
      valueDepth tree.toValue ≤ room) (hlevels : room ≤ levels) :
    ∀ inner ∈ node.descendants, inner.encodeWithin C levels ≠ none := by
  intro inner hinner
  obtain ⟨hencodable, hcount⟩ := optionsEncodable_of_mem hoptions hinner
  obtain ⟨tree, htree, hvalue⟩ := encodable_of_options hencodable (by omega)
  have hdepth := hroom inner hinner tree htree
  rw [RawGate.encodeWithin, htree, Option.bind_some, if_pos (hdepth.trans hlevels)]
  exact Option.isSome_iff_ne_none.mp (C.encode_isSome _ hvalue)

/-- A tree of the grammar is parsed where its nodes are encoded. -/
lemma safeParseGate_of_inGrammar (h : InGrammar C raw node) (hlevels : node.depth ≤ levels)
    (hencoded : ∀ inner ∈ node.descendants, inner.encodeWithin C levels ≠ none) :
    safeParseGate C levels raw = .parsed node := by
  obtain ⟨hspells, hcanonical, hdepth, hleaves⟩ := h
  cases hshape : rawGateShape (RawGate.encodeWithin C levels) node with
  | none =>
      obtain ⟨inner, hinner, hthrew⟩ := rawGateShape_none.mp hshape
      exact absurd hthrew (hencoded inner hinner)
  | some shape =>
      obtain ⟨hd, hl, hredundant⟩ := rawGateShape_some hshape
      have hsame : node.Canonical (RawGate.encodeWithin C levels) :=
        canonical_congr (fun inner hinner =>
          (canonicalBytes_of_encodeWithin (hencoded inner hinner)).symm) hcanonical
      have hok : shape.depth ≤ maxGateDepth ∧ shape.leaves ≤ maxGateLeaves
          ∧ shape.redundant = none := ⟨hd ▸ hdepth, hl ▸ hleaves, hredundant.mpr hsame⟩
      simp only [safeParseGate, checkGateBounds_of_spells hspells hdepth hleaves,
        parsed_of_spells hspells hlevels, hshape, if_pos hok]

/-- **The schema accepts its grammar and nothing else**, on a stack that has room for the value and
with options that dag-cbor encodes; and the bounds on the raw value refuse nothing that the bounds
on the parsed tree let through. -/
theorem gateSchema_accepts_iff {raw : RawValue}
    (hoptions : ∀ node, raw.Spells node → node.OptionsEncodable) (C : Codecs) :
    (∃ room, ∀ levels, room ≤ levels → ∀ node,
      safeParseGate C levels raw = .parsed node ↔ InGrammar C raw node)
    ∧ ∀ node, raw.Spells node → node.depth ≤ maxGateDepth → node.leafCount ≤ maxGateLeaves →
        checkGateBounds raw = none := by
  refine ⟨?_, fun node => checkGateBounds_of_spells⟩
  by_cases hspelled : ∃ node, raw.Spells node
  · obtain ⟨node, hspells⟩ := hspelled
    obtain ⟨room, hroom⟩ := exists_room node.descendants
    refine ⟨max node.depth room, fun levels hlevels node' => ⟨safeParseGate_parsed, fun h => ?_⟩⟩
    obtain rfl := spells_unique hspells h.1
    have hnodes := nodeCount_lt_of_spells hspells
    have hleaves : node.leafCount ≤ 8 := h.2.2.2
    exact safeParseGate_of_inGrammar h ((le_max_left _ _).trans hlevels)
      (encodeWithin_ne_none (hoptions node hspells) (by omega) hroom
        ((le_max_right _ _).trans hlevels))
  · refine ⟨0, fun levels _ node => ⟨safeParseGate_parsed, fun h => ?_⟩⟩
    exact absurd ⟨node, h.1⟩ hspelled

/-- A leaf that asks for one pass, as a document spells it. -/
def passLeaf (type : String) : RawValue :=
  .object [("rule", .object [("type", .text (JsString.ofString type)), ("min", .int 1)])]

/-- The parsed leaf. -/
def passRule (type : String) : RawGate := .rule (JsString.ofString type) [("min", .int 1)]

/-- One pass, or both of two others. -/
def passDocument : RawValue :=
  .object [("any", .list [passLeaf "a", .object [("all", .list [passLeaf "b", passLeaf "c"])]])]

/-- The parsed gate. -/
def passGate : RawGate :=
  .branch .any [passRule "a", .branch .all [passRule "b", passRule "c"]]

lemma spells_passDocument : passDocument.Spells passGate := by
  have hparse : rawGateNodeSchema 3 passDocument = .parsed passGate := rfl
  exact spells_of_parsed hparse

/-- The document is read as the gate it spells, by the encoders of the reference. -/
theorem gateSchema_accepts_iff_pass : ∃ room, ∀ levels, room ≤ levels →
    safeParseGate Codecs.reference levels passDocument = .parsed passGate := by
  have hrule : ∀ type : String,
      (RuleRef.toValue ⟨JsString.ofString type, [("min", .int 1)]⟩).encodable = true →
        (passRule type).OptionsEncodable := fun type h => .rule _ _ _ rfl h
  have hoptions : passGate.OptionsEncodable := by
    refine .branch _ _ (List.forall_mem_cons.mpr ⟨hrule "a" (by decide +kernel), ?_⟩)
    refine List.forall_mem_cons.mpr ⟨.branch _ _ ?_, fun _ h => nomatch h⟩
    exact List.forall_mem_cons.mpr ⟨hrule "b" (by decide +kernel),
      List.forall_mem_cons.mpr ⟨hrule "c" (by decide +kernel), fun _ h => nomatch h⟩⟩
  obtain ⟨⟨room, hroom⟩, -⟩ := gateSchema_accepts_iff
    (fun node hspells => spells_unique spells_passDocument hspells ▸ hoptions) Codecs.reference
  refine ⟨room, fun levels hlevels => (hroom levels hlevels passGate).mpr
    ⟨spells_passDocument, ?_, by decide, by decide⟩⟩
  have hleaf : ∀ type, (passRule type).Canonical (RawGate.canonicalBytes Codecs.reference) :=
    fun type => .rule _ _
  have hinner : (RawGate.branch .all [passRule "b", passRule "c"]).Canonical
      (RawGate.canonicalBytes Codecs.reference) :=
    .branch _ _ (by decide) (by decide +kernel) (List.forall_mem_cons.mpr ⟨hleaf "b",
      List.forall_mem_cons.mpr ⟨hleaf "c", fun _ h => nomatch h⟩⟩)
  exact .branch _ _ (by decide) (by decide +kernel) (List.forall_mem_cons.mpr ⟨hleaf "a",
    List.forall_mem_cons.mpr ⟨hinner, fun _ h => nomatch h⟩⟩)

end

/-! ### What it takes not to throw -/

/-- A node that the recursive schema may visit. -/
inductive RawValue.Reaches : RawValue → RawValue → Prop
  | refl (raw : RawValue) : Reaches raw raw
  | step (raw child inner : RawValue) (kind : GateKind) (xs : List RawValue)
      (hget : raw.get? kind.key = some (.list xs)) (hmem : child ∈ xs) (h : Reaches child inner) :
      Reaches raw inner

/-- Not both of `all` and `any` are arrays. -/
def RawValue.OneArray (raw : RawValue) : Prop :=
  ∀ xs ys, ¬ (raw.get? "all" = some (.list xs) ∧ raw.get? "any" = some (.list ys))

section

variable {C : Codecs} {raw : RawValue} {levels : ℕ}

lemma walkChildren_eq {kind : GateKind} {xs : List RawValue} (hone : raw.OneArray)
    (hget : raw.get? kind.key = some (.list xs)) : walkChildren raw = xs := by
  refine walkChildren_of_get? hget fun hkind => ?_
  subst hkind
  cases hall : (raw.get? "all").bind (·.list?) with
  | none => rfl
  | some ys => exact absurd ⟨list?_eq_some.mp hall, hget⟩ (hone ys xs)

/-- The walk visits all that the recursive schema may visit, if no node has two arrays. -/
lemma depth_le_of_walkGate {left : ℕ} {stack : List (RawValue × ℕ)}
    (h : walkGate left stack = none) :
    ∀ entry ∈ stack, (∀ inner, entry.1.Reaches inner → inner.OneArray) →
      ∀ n, entry.1.Deeper n → entry.2 + n ≤ maxGateDepth := by
  induction left generalizing stack with
  | zero =>
      cases stack with
      | nil => exact fun _ hmem => nomatch hmem
      | cons entry stack =>
          rw [walkGate] at h
          split_ifs at h
  | succ left ih =>
      cases stack with
      | nil => exact fun _ hmem => nomatch hmem
      | cons entry stack =>
          obtain ⟨node, depth⟩ := entry
          rw [walkGate] at h
          split_ifs at h with hdepth
          rw [foldl_push] at h
          have hrest := ih h
          intro entry hentry hone n hdeeper
          rcases List.mem_cons.mp hentry with rfl | hentry
          · cases hdeeper with
            | zero => exact Nat.le_of_not_lt hdepth
            | succ n _ child kind xs hget hmem hchild =>
                have hwalk := walkChildren_eq (hone node (.refl node)) hget
                have hpushed : (child, depth + 1) ∈
                    ((walkChildren node).map fun child => (child, depth + 1)).reverse ++ stack := by
                  rw [hwalk]
                  exact List.mem_append_left _ (List.mem_reverse.mpr (List.mem_map_of_mem hmem))
                have hle := hrest _ hpushed (fun inner hreaches =>
                  hone inner (.step node child inner kind xs hget hmem hreaches)) n hchild
                simp only at hle ⊢
                omega
          · exact hrest entry (List.mem_append_right _ hentry) hone n hdeeper

/-- **The parser throws exactly if** the bounds let a value through whose arrays are nested deeper
than the stack holds, or from which the schema reads, with issues of the minima or without, a tree
with a node below its root that is not encoded. -/
theorem safeParseGate_threw : safeParseGate C levels raw = .threw ↔ checkGateBounds raw = none
    ∧ (raw.Deeper levels ∨ ∃ node, raw.Reads node
      ∧ ∃ inner ∈ node.descendants, inner.encodeWithin C levels = none) := by
  constructor
  · intro h
    rw [safeParseGate] at h
    cases hbounds : checkGateBounds raw with
    | some message => simp [hbounds] at h
    | none =>
        refine ⟨rfl, ?_⟩
        cases hparse : rawGateNodeSchema levels raw with
        | threw => exact .inl (rawGateNodeSchema_threw.mp hparse)
        | refused => simp [hbounds, hparse] at h
        | continued node =>
            cases hshape : rawGateShape (RawGate.encodeWithin C levels) node with
            | none =>
                exact .inr ⟨node, reads_of_value? (congrArg Outcome.value? hparse),
                  rawGateShape_none.mp hshape⟩
            | some shape => simp [hbounds, hparse, hshape] at h
        | parsed node =>
            cases hshape : rawGateShape (RawGate.encodeWithin C levels) node with
            | none =>
                exact .inr ⟨node, reads_of_value? (congrArg Outcome.value? hparse),
                  rawGateShape_none.mp hshape⟩
            | some shape =>
                simp only [hbounds, hparse, hshape] at h
                split_ifs at h
  · rintro ⟨hbounds, h⟩
    by_cases hdeeper : raw.Deeper levels
    · simp only [safeParseGate, hbounds, rawGateNodeSchema_threw.mpr hdeeper]
    · obtain ⟨node, hreads, hthrew⟩ := h.resolve_left hdeeper
      have hdepth : node.depth ≤ levels := by
        by_contra hlt
        exact hdeeper (deeper_of_reads hreads (by omega))
      have hvalue := value?_of_reads hreads hdepth
      cases hparse : rawGateNodeSchema levels raw with
      | threw | refused =>
          rw [hparse] at hvalue
          cases hvalue
      | continued tree | parsed tree =>
          rw [hparse] at hvalue
          obtain rfl := Option.some.inj hvalue
          simp only [safeParseGate, hbounds, hparse, rawGateShape_none.mpr hthrew]

/-- **When `safeParse` returns**: the bounds raise an issue, or the arrays are nested no deeper than
the stack holds and every node below the root of the tree that is read from them is encoded, be the
tree read without an issue or with issues of the minima only. The bounds keep the nesting below
their constant wherever no node has both arrays. -/
theorem gateSchema_returns_iff (C : Codecs) (levels : ℕ) (raw : RawValue) :
    (safeParseGate C levels raw ≠ .threw ↔ checkGateBounds raw ≠ none
      ∨ ¬ raw.Deeper levels ∧ ∀ node, raw.Reads node →
          ∀ inner ∈ node.descendants, inner.encodeWithin C levels ≠ none)
    ∧ (checkGateBounds raw = none → (∀ inner, raw.Reaches inner → inner.OneArray) →
        ¬ raw.Deeper maxGateDepth) := by
  constructor
  · rw [Ne, safeParseGate_threw, not_and_or, not_or]
    push Not
    rfl
  · intro hbounds hone hdeeper
    have := depth_le_of_walkGate hbounds (raw, 1) (List.mem_singleton_self _) hone _ hdeeper
    simp only at this
    omega

/-- A leaf with an option that dag-cbor does not encode. -/
def foreignLeaf (type : String) : RawValue :=
  .object [("rule", .object [("type", .text (JsString.ofString type)), ("min", .foreign)])]

/-- Two leaves, one of them not encoded. -/
def foreignOption : RawValue := .object [("all", .list [foreignLeaf "a", passLeaf "b"])]

/-- One child, which is an issue, and it is not encoded. -/
def foreignChild : RawValue := .object [("all", .list [foreignLeaf "a"])]

/-- Branches inside branches. -/
def nestedAny : ℕ → RawValue
  | 0 => .null
  | depth + 1 => .object [("any", .list [nestedAny depth])]

/-- A node with two arrays, the second of which the walk does not follow. -/
def twoArrays (depth : ℕ) : RawValue :=
  .object [("all", .list [passLeaf "a", passLeaf "b"]), ("any", .list [nestedAny depth])]

lemma deeper_nestedAny {n depth : ℕ} (h : n ≤ depth) : (nestedAny depth).Deeper n := by
  induction depth generalizing n with
  | zero =>
      obtain rfl : n = 0 := by omega
      exact .zero _
  | succ depth ih =>
      cases n with
      | zero => exact .zero _
      | succ n => exact .succ n _ _ .any _ rfl (List.mem_singleton_self _) (ih (by omega))

/-- No stack is enough: an option that is not encoded throws on every one, in a gate of the grammar
and in one with too few children, and so does an array beside the one that the walk follows, nested
deep enough. -/
theorem gateSchema_throws :
    (¬ ∃ levels, ∀ raw, safeParseGate Codecs.reference levels raw ≠ .threw)
    ∧ (∀ levels, safeParseGate Codecs.reference levels foreignOption = .threw)
    ∧ (∀ levels, safeParseGate Codecs.reference levels foreignChild = .threw)
    ∧ ∀ levels, safeParseGate Codecs.reference levels (twoArrays levels) = .threw := by
  have hthrows : ∀ raw, checkGateBounds raw = none → ∀ children,
      (rawGateNodeSchema 2 raw).value? = some (.branch .all
        (.rule (JsString.ofString "a") [("min", .foreign)] :: children)) →
      ∀ levels, safeParseGate Codecs.reference levels raw = .threw := by
    intro raw hbounds children hparse levels
    exact safeParseGate_threw.mpr ⟨hbounds, .inr ⟨_, reads_of_value? hparse,
      .rule (JsString.ofString "a") [("min", .foreign)], List.mem_cons_self, rfl⟩⟩
  have hforeign := hthrows foreignOption (by decide +kernel) [passRule "b"] rfl
  have hchild := hthrows foreignChild (by decide +kernel) [] rfl
  refine ⟨?_, hforeign, hchild, fun levels => safeParseGate_threw.mpr ⟨rfl, .inl ?_⟩⟩
  · rintro ⟨levels, hreturns⟩
    exact hreturns foreignOption (hforeign levels)
  · cases levels with
    | zero => exact .zero _
    | succ levels =>
        exact .succ levels _ _ .any _ rfl (List.mem_singleton_self _)
          (deeper_nestedAny (Nat.le_succ levels))

end

end PubsubVoting
