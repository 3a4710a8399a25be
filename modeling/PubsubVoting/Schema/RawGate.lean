import PubsubVoting.Schema.Criteria

/-!
The gate schema on the value a document really is, before anything is known of its shape.

* `RawValue`: a JavaScript value, with what dag-cbor does not encode.
* `checkGateBounds`: the iterative walk that goes before the recursive schema.
* `rawGateNodeSchema`: the recursive schema, which throws once it is deeper than the call stack and
  goes on past the issues of its minima (`unionSchema`).
* `rawGateShape`: the walk over the parsed tree, with the encoder it calls.
* `RawValue.Spells`: what a value has to look like for the recursive schema to read a tree from it
  without an issue (`spells_of_parsed`, `parsed_of_spells`), `RawValue.Reads`: or with issues that
  do not abort it (`reads_of_value?`, `value?_of_reads`), and `RawValue.Deeper`: how deep it then
  descends (`rawGateNodeSchema_threw`).
-/

namespace PubsubVoting

open Cbor

/-! ### Values -/

/-- A JavaScript value: data, or something dag-cbor does not encode (`undefined`, a function, a
number that is not finite). -/
inductive RawValue where
  | null
  | bool (b : Bool)
  | int (n : ℤ)
  | float (bits : UInt64)
  | bytes (b : Bytes)
  | text (s : JsString)
  | link (cid : Bytes)
  | foreign
  | list (xs : List RawValue)
  | object (fields : List (String × RawValue))

namespace RawValue

/-- A property of an object. -/
def get? (key : String) : RawValue → Option RawValue
  | .object fields => fields.lookup key
  | _ => none

/-- An object with no property but one. -/
def onlyKey (key : String) : RawValue → Bool
  | .object fields => fields.all fun field => decide (field.1 = key)
  | _ => false

/-- `Array.isArray` -/
def list? : RawValue → Option (List RawValue)
  | .list xs => some xs
  | _ => none

/-- A string. -/
def text? : RawValue → Option JsString
  | .text s => some s
  | _ => none

/-- The properties of an object. -/
def fields? : RawValue → Option (List (String × RawValue))
  | .object fields => some fields
  | _ => none

mutual

/-- The value as dag-cbor sees it; `none` where it refuses. -/
def toValue? : RawValue → Option Value
  | .null => some .null
  | .bool b => some (.bool b)
  | .int n => some (.int n)
  | .float bits => some (.float bits)
  | .bytes b => some (.bytes b)
  | .text s => some (.text s.toWellFormed)
  | .link cid => some (.link cid)
  | .foreign => none
  | .list xs => do
    let xs ← toValues? xs
    return .list xs
  | .object fields => do
    let fields ← toEntries? fields
    return .map fields

/-- The items of an array as dag-cbor sees them. -/
def toValues? : List RawValue → Option (List Value)
  | [] => some []
  | x :: xs => do
    let x ← toValue? x
    let xs ← toValues? xs
    return x :: xs

/-- The properties of an object as dag-cbor sees them. -/
def toEntries? : List (String × RawValue) → Option (List (String × Value))
  | [] => some []
  | (key, x) :: fields => do
    let x ← toValue? x
    let fields ← toEntries? fields
    return (key, x) :: fields

end

end RawValue

mutual

/-- How deep a value is nested, which is how deep its encoder recurses. -/
def valueDepth : Value → ℕ
  | .list xs => valuesDepth xs + 1
  | .map entries => entriesDepth entries + 1
  | _ => 1

/-- The deepest item. -/
def valuesDepth : List Value → ℕ
  | [] => 0
  | x :: xs => max (valueDepth x) (valuesDepth xs)

/-- The deepest entry. -/
def entriesDepth : List (String × Value) → ℕ
  | [] => 0
  | (_, x) :: entries => max (valueDepth x) (entriesDepth entries)

end

/-! ### The bounds on the raw value -/

/-- The children the walk follows: those under `all` if that is an array, else those under `any`. -/
def walkChildren (node : RawValue) : List RawValue :=
  match (node.get? "all").bind (·.list?) with
  | some children => children
  | none => ((node.get? "any").bind (·.list?)).getD []

/-- The loop of the walk; `left` is how many more nodes it visits before the tree is too large, and
the top of the stack stands in front. -/
def walkGate : ℕ → List (RawValue × ℕ) → Option String
  | _, [] => none
  | left, (node, depth) :: stack =>
    if depth > maxGateDepth then
      some ("gate tree is more than " ++ toString maxGateDepth ++ " levels deep")
    else
      match left with
      | 0 => some ("gate tree has more than " ++ toString maxGateNodes ++ " nodes")
      | left + 1 =>
        walkGate left
          ((walkChildren node).foldl (fun stack child => (child, depth + 1) :: stack) stack)

/-- The issue the walk adds, if it adds one. -/
def checkGateBounds (raw : RawValue) : Option String := walkGate maxGateNodes [(raw, 1)]

/-! ### The recursive schema -/

/-- How a parse ends: with an exception, aborted by an issue, with issues that let later checks go
on with the value, or with none. -/
inductive Outcome (α : Type) where
  | threw
  | refused
  | continued (value : α)
  | parsed (value : α)

/-- The value of a parse that is not aborted. -/
def Outcome.value? {α : Type} : Outcome α → Option α
  | .threw => none
  | .refused => none
  | .continued value => some value
  | .parsed value => some value

/-- A value with an issue of a minimum, which lets the parse go on, unless the minimum is kept. -/
def Outcome.ofMin {α : Type} (kept : Bool) (value : α) : Outcome α :=
  if kept then .parsed value else .continued value

/-- A parsed gate whose rule options are still raw. -/
inductive RawGate where
  | rule (type : JsString) (options : List (String × RawValue))
  | branch (kind : GateKind) (children : List RawGate)

/-- The type and the options of a strict leaf. -/
def gateLeaf? (raw : RawValue) : Option (JsString × List (String × RawValue)) := do
  let ref ← raw.get? "rule"
  let fields ← ref.fields?
  let type ← (ref.get? "type").bind (·.text?)
  if raw.onlyKey "rule" then some (type, fields.filter fun field => field.1 ≠ "type") else none

/-- `z.strictObject({ rule: RuleRefSchema })`, with the `.min(1)` of the type. -/
def gateLeafSchema (raw : RawValue) : Outcome RawGate :=
  match gateLeaf? raw with
  | none => .refused
  | some (type, options) => .ofMin (decide (1 ≤ type.length)) (.rule type options)

/-- The items of an array together: an exception goes first, then an issue that aborts. -/
def Outcome.cons {α : Type} : Outcome α → Outcome (List α) → Outcome (List α)
  | .threw, _ => .threw
  | _, .threw => .threw
  | .refused, _ => .refused
  | _, .refused => .refused
  | .parsed x, .parsed xs => .parsed (x :: xs)
  | .parsed x, .continued xs => .continued (x :: xs)
  | .continued x, .parsed xs => .continued (x :: xs)
  | .continued x, .continued xs => .continued (x :: xs)

/-- Every item of an array is parsed, whatever became of those before it. -/
def parseItems (parse : RawValue → Outcome RawGate) : List RawValue → Outcome (List RawGate)
  | [] => .parsed []
  | x :: xs => (parse x).cons (parseItems parse xs)

/-- `z.strictObject({ all: z.array(GateNodeSchema).min(2) })`, and the same with `any`: the known
key is parsed before the unknown ones are reported. -/
def gateBranchSchema (parse : RawValue → Outcome RawGate) (kind : GateKind) (raw : RawValue) :
    Outcome RawGate :=
  match (raw.get? kind.key).bind (·.list?) with
  | none => .refused
  | some xs =>
    match parseItems parse xs with
    | .threw => .threw
    | .refused => .refused
    | .continued children =>
      if raw.onlyKey kind.key then .continued (.branch kind children) else .refused
    | .parsed children =>
      if raw.onlyKey kind.key then
        .ofMin (decide (2 ≤ children.length)) (.branch kind children)
      else .refused

/-- What a union makes of the values of its options, if every option has issues: the only one that
is not aborted stands for the union. -/
def onlyContinued : List RawGate → Outcome RawGate
  | [value] => .continued value
  | _ => .refused

/-- `z.union`: the options are tried in turn up to one without an issue; `left` are the values of
those before that have issues and are not aborted. -/
def unionSchema (left : List RawGate) (raw : RawValue) :
    List (RawValue → Outcome RawGate) → Outcome RawGate
  | [] => onlyContinued left
  | option :: options =>
    match option raw with
    | .threw => .threw
    | .parsed value => .parsed value
    | .continued value => unionSchema (value :: left) raw options
    | .refused => unionSchema left raw options

/-- The options of `GateNodeSchema`. -/
def gateNodeOptions (parse : RawValue → Outcome RawGate) : List (RawValue → Outcome RawGate) :=
  [gateLeafSchema, gateBranchSchema parse .all, gateBranchSchema parse .any]

/-- `GateNodeSchema` on a stack that has room for `levels` levels of it. -/
def rawGateNodeSchema : ℕ → RawValue → Outcome RawGate
  | 0, _ => .threw
  | levels + 1, raw => unionSchema [] raw (gateNodeOptions (rawGateNodeSchema levels))

/-! ### The shape of the parsed tree -/

mutual

/-- The tree with its options as dag-cbor sees them; `none` where it refuses one. -/
def RawGate.toNode? : RawGate → Option GateNode
  | .rule type options => do
    let options ← RawValue.toEntries? options
    return .rule ⟨type, options⟩
  | .branch kind children => do
    let children ← toNodes? children
    return .branch kind children

/-- The children of a branch as dag-cbor sees them. -/
def toNodes? : List RawGate → Option (List GateNode)
  | [] => some []
  | child :: children => do
    let child ← child.toNode?
    let children ← toNodes? children
    return child :: children

end

/-- The canonical bytes of a tree; `none` where the encoder throws. -/
def RawGate.canonicalBytes (C : Codecs) (node : RawGate) : Option Bytes :=
  node.toNode?.bind fun node => C.encodeCanonical node.toValue

/-- The same on a stack that has room for `levels` levels of the encoder. -/
def RawGate.encodeWithin (C : Codecs) (levels : ℕ) (node : RawGate) : Option Bytes :=
  node.toNode?.bind fun node =>
    if valueDepth node.toValue ≤ levels then C.encodeCanonical node.toValue else none

/-- What `gateShape` finds out. -/
structure RawShape where
  depth : ℕ
  leaves : ℕ
  redundant : Option String

/-- The node is a branch of the given kind. -/
def RawGate.isKind (kind : GateKind) : RawGate → Bool
  | .rule _ _ => false
  | .branch kind' _ => decide (kind' = kind)

mutual

/-- `gateShape`; `none` where the encoder throws. -/
def rawGateShape (encode : RawGate → Option Bytes) : RawGate → Option RawShape
  | .rule _ _ => some ⟨1, 1, none⟩
  | .branch kind children => do
    let shape ← rawChildrenShape encode kind [] ⟨0, 0, none⟩ children
    return { shape with depth := shape.depth + 1 }

/-- The loop over the children of a branch: the canonical bytes seen so far, and the shape so
far. -/
def rawChildrenShape (encode : RawGate → Option Bytes) (kind : GateKind) (seen : List Bytes)
    (acc : RawShape) : List RawGate → Option RawShape
  | [] => some acc
  | child :: children => do
    let shape ← rawGateShape encode child
    let redundant := acc.redundant.or shape.redundant
    let redundant := orElse redundant (child.isKind kind)
      ("a `" ++ kind.key ++ "` nested directly inside an `" ++ kind.key
        ++ "` says nothing its parent does not; inline its children")
    let bytes ← encode child
    let redundant := orElse redundant (seen.contains bytes)
      ("a `" ++ kind.key ++ "` repeats one of its children; drop the duplicate")
    rawChildrenShape encode kind (bytes :: seen)
      ⟨max acc.depth shape.depth, acc.leaves + shape.leaves, redundant⟩ children

end

/-- `GateSchema.safeParse` on a stack that has room for `levels` levels of the recursive schema and
of the encoder: an issue of the bounds ends the pipe, while the walk over the parsed tree also runs
on a tree whose issues let the parse go on. -/
def safeParseGate (C : Codecs) (levels : ℕ) (raw : RawValue) : Outcome RawGate :=
  match checkGateBounds raw with
  | some _ => .refused
  | none =>
    match rawGateNodeSchema levels raw with
    | .threw => .threw
    | .refused => .refused
    | .continued node =>
      match rawGateShape (RawGate.encodeWithin C levels) node with
      | none => .threw
      | some _ => .refused
    | .parsed node =>
      match rawGateShape (RawGate.encodeWithin C levels) node with
      | none => .threw
      | some shape =>
        if shape.depth ≤ maxGateDepth ∧ shape.leaves ≤ maxGateLeaves ∧ shape.redundant = none then
          .parsed node
        else .refused

/-! ### What the recursive schema reads -/

/-- A value spells a tree: strict leaves with a rule that has a type, strict branches with two
children or more. -/
inductive RawValue.Spells : RawValue → RawGate → Prop
  | rule (raw ref : RawValue) (fields : List (String × RawValue)) (type : JsString)
      (hrule : raw.get? "rule" = some ref) (hstrict : raw.onlyKey "rule" = true)
      (hfields : ref = .object fields) (htype : ref.get? "type" = some (.text type))
      (hne : 1 ≤ type.length) :
      Spells raw (.rule type (fields.filter fun field => field.1 ≠ "type"))
  | branch (raw : RawValue) (kind : GateKind) (xs : List RawValue) (children : List RawGate)
      (hget : raw.get? kind.key = some (.list xs)) (hstrict : raw.onlyKey kind.key = true)
      (hlen : xs.length = children.length)
      (h : ∀ x child, (x, child) ∈ xs.zip children → Spells x child)
      (htwo : 2 ≤ children.length) : Spells raw (.branch kind children)

/-- The same without the minima: a value from which the schema reads a tree, with issues or
without. -/
inductive RawValue.Reads : RawValue → RawGate → Prop
  | rule (raw ref : RawValue) (fields : List (String × RawValue)) (type : JsString)
      (hrule : raw.get? "rule" = some ref) (hstrict : raw.onlyKey "rule" = true)
      (hfields : ref = .object fields) (htype : ref.get? "type" = some (.text type)) :
      Reads raw (.rule type (fields.filter fun field => field.1 ≠ "type"))
  | branch (raw : RawValue) (kind : GateKind) (xs : List RawValue) (children : List RawGate)
      (hget : raw.get? kind.key = some (.list xs)) (hstrict : raw.onlyKey kind.key = true)
      (hlen : xs.length = children.length)
      (h : ∀ x child, (x, child) ∈ xs.zip children → Reads x child) :
      Reads raw (.branch kind children)

/-- The arrays under `all` and `any` are nested deeper than so many levels. -/
inductive RawValue.Deeper : ℕ → RawValue → Prop
  | zero (raw : RawValue) : Deeper 0 raw
  | succ (levels : ℕ) (raw child : RawValue) (kind : GateKind) (xs : List RawValue)
      (hget : raw.get? kind.key = some (.list xs)) (hmem : child ∈ xs) (h : Deeper levels child) :
      Deeper (levels + 1) raw

mutual

/-- Depth of a tree; a leaf is 1. -/
def RawGate.depth : RawGate → ℕ
  | .rule _ _ => 1
  | .branch _ children => depthOf children + 1

/-- The deepest child. -/
def depthOf : List RawGate → ℕ
  | [] => 0
  | child :: children => max child.depth (depthOf children)

end

/-- The induction principle of the nested inductive. -/
@[elab_as_elim]
theorem RawGate.ind {P : RawGate → Prop} (rule : ∀ type options, P (.rule type options))
    (branch : ∀ kind children, (∀ child ∈ children, P child) → P (.branch kind children))
    (node : RawGate) : P node :=
  @RawGate.rec P (fun children => ∀ child ∈ children, P child)
    rule branch (fun _ h => absurd h List.not_mem_nil)
    (fun _ _ hchild hchildren => List.forall_mem_cons.mpr ⟨hchild, hchildren⟩) node

lemma depthOf_le {children : List RawGate} {n : ℕ} :
    depthOf children ≤ n ↔ ∀ child ∈ children, child.depth ≤ n := by
  induction children with
  | nil => simp [depthOf]
  | cons child children ih => simp [depthOf, ih]

section

variable {raw : RawValue} {node : RawGate} {levels : ℕ} {parse : RawValue → Outcome RawGate}

/-- A strict object has no other property. -/
lemma get?_of_onlyKey {key key' : String} (h : raw.onlyKey key = true) (hne : key' ≠ key) :
    raw.get? key' = none := by
  cases raw with
  | object fields =>
      rw [RawValue.onlyKey, List.all_eq_true] at h
      rw [RawValue.get?, List.lookup_eq_none_iff]
      intro field hfield
      rw [of_decide_eq_true (h field hfield)]
      exact bne_iff_ne.mpr hne
  | null | bool _ | int _ | float _ | bytes _ | text _ | link _ | foreign | list _ => rfl

lemma list?_eq_some {x : Option RawValue} {xs : List RawValue} :
    x.bind (·.list?) = some xs ↔ x = some (.list xs) := by
  cases x with
  | none => exact ⟨fun h => (nomatch h), fun h => nomatch h⟩
  | some x => cases x <;> simp [RawValue.list?]

lemma text?_eq_some {x : Option RawValue} {type : JsString} :
    x.bind (·.text?) = some type ↔ x = some (.text type) := by
  cases x with
  | none => exact ⟨fun h => (nomatch h), fun h => nomatch h⟩
  | some x => cases x <;> simp [RawValue.text?]

lemma fields?_eq_some {ref : RawValue} {fields : List (String × RawValue)} :
    ref.fields? = some fields ↔ ref = .object fields := by
  cases ref <;> simp [RawValue.fields?]

lemma gateLeaf?_eq_some {type : JsString} {options : List (String × RawValue)} :
    gateLeaf? raw = some (type, options) ↔ ∃ ref fields, raw.get? "rule" = some ref
      ∧ ref = .object fields ∧ ref.get? "type" = some (.text type) ∧ raw.onlyKey "rule" = true
      ∧ options = fields.filter fun field => field.1 ≠ "type" := by
  simp only [gateLeaf?, Option.bind_eq_bind, Option.bind_eq_some_iff, fields?_eq_some]
  constructor
  · rintro ⟨ref, hrule, fields, hfields, type', htype, h⟩
    split_ifs at h with hstrict
    obtain ⟨rfl, rfl⟩ := Prod.mk.inj (Option.some.inj h)
    exact ⟨ref, fields, hrule, hfields,
      text?_eq_some.mp (Option.bind_eq_some_iff.mpr htype), hstrict, rfl⟩
  · rintro ⟨ref, fields, hrule, hfields, htype, hstrict, rfl⟩
    exact ⟨ref, hrule, fields, hfields, type,
      Option.bind_eq_some_iff.mp (text?_eq_some.mpr htype), if_pos hstrict⟩

@[simp]
lemma value?_ofMin {α : Type} (kept : Bool) (value : α) :
    (Outcome.ofMin kept value).value? = some value := by
  cases kept <;> rfl

lemma ofMin_eq_parsed {α : Type} {kept : Bool} {value value' : α} :
    Outcome.ofMin kept value = .parsed value' ↔ kept = true ∧ value = value' := by
  cases kept <;> simp [Outcome.ofMin]

lemma ofMin_ne_threw {α : Type} (kept : Bool) (value : α) :
    Outcome.ofMin kept value ≠ .threw := by
  cases kept <;> simp [Outcome.ofMin]

/-- The leaf of the union reads the strict leaves. -/
lemma gateLeafSchema_value? :
    (gateLeafSchema raw).value? = some node ↔ raw.Reads node ∧ raw.onlyKey "rule" = true := by
  constructor
  · intro h
    rw [gateLeafSchema] at h
    cases hleaf : gateLeaf? raw with
    | none =>
        rw [hleaf] at h
        cases h
    | some leaf =>
        obtain ⟨type, options⟩ := leaf
        rw [hleaf, value?_ofMin] at h
        obtain rfl := Option.some.inj h
        obtain ⟨ref, fields, hrule, hfields, htype, hstrict, rfl⟩ := gateLeaf?_eq_some.mp hleaf
        exact ⟨.rule raw ref fields type hrule hstrict hfields htype, hstrict⟩
  · rintro ⟨hreads, hleaf⟩
    cases hreads with
    | rule _ ref fields type hrule hstrict hfields htype =>
        rw [gateLeafSchema, gateLeaf?_eq_some.mpr
          ⟨ref, fields, hrule, hfields, htype, hstrict, rfl⟩, value?_ofMin]
    | branch _ kind xs children hget hstrict hlen h =>
        rw [get?_of_onlyKey hleaf (by cases kind <;> decide)] at hget
        cases hget

/-- And has no issue if they have a type. -/
lemma gateLeafSchema_parsed :
    gateLeafSchema raw = .parsed node ↔ raw.Spells node ∧ raw.onlyKey "rule" = true := by
  constructor
  · intro h
    rw [gateLeafSchema] at h
    cases hleaf : gateLeaf? raw with
    | none =>
        rw [hleaf] at h
        cases h
    | some leaf =>
        obtain ⟨type, options⟩ := leaf
        rw [hleaf, ofMin_eq_parsed, decide_eq_true_iff] at h
        obtain ⟨hne, rfl⟩ := h
        obtain ⟨ref, fields, hrule, hfields, htype, hstrict, rfl⟩ := gateLeaf?_eq_some.mp hleaf
        exact ⟨.rule raw ref fields type hrule hstrict hfields htype hne, hstrict⟩
  · rintro ⟨hspells, hleaf⟩
    cases hspells with
    | rule _ ref fields type hrule hstrict hfields htype hne =>
        rw [gateLeafSchema, gateLeaf?_eq_some.mpr
          ⟨ref, fields, hrule, hfields, htype, hstrict, rfl⟩]
        exact ofMin_eq_parsed.mpr ⟨decide_eq_true hne, rfl⟩
    | branch _ kind xs children hget hstrict hlen h htwo =>
        rw [get?_of_onlyKey hleaf (by cases kind <;> decide)] at hget
        cases hget

/-- Without a rule the leaf of the union is aborted. -/
lemma gateLeafSchema_of_get? (h : raw.get? "rule" = none) : gateLeafSchema raw = .refused := by
  rw [gateLeafSchema, gateLeaf?, h]
  rfl

lemma gateLeafSchema_ne_threw : gateLeafSchema raw ≠ .threw := by
  rw [gateLeafSchema]
  cases gateLeaf? raw with
  | none => exact fun h => nomatch h
  | some leaf => exact ofMin_ne_threw _ _

lemma cons_parsed {α : Type} {o : Outcome α} {os : Outcome (List α)} {xs : List α} :
    o.cons os = .parsed xs ↔ ∃ x rest, o = .parsed x ∧ os = .parsed rest ∧ xs = x :: rest := by
  cases o <;> cases os <;> simp [Outcome.cons, eq_comm]

lemma cons_value? {α : Type} {o : Outcome α} {os : Outcome (List α)} {xs : List α} :
    (o.cons os).value? = some xs ↔
      ∃ x rest, o.value? = some x ∧ os.value? = some rest ∧ xs = x :: rest := by
  cases o <;> cases os <;> simp [Outcome.cons, Outcome.value?, eq_comm]

lemma cons_threw {α : Type} {o : Outcome α} {os : Outcome (List α)} :
    o.cons os = .threw ↔ o = .threw ∨ os = .threw := by
  cases o <;> cases os <;> simp [Outcome.cons]

lemma parseItems_parsed {xs : List RawValue} {children : List RawGate} :
    parseItems parse xs = .parsed children ↔
      List.Forall₂ (fun x child => parse x = .parsed child) xs children := by
  induction xs generalizing children with
  | nil => simp [parseItems, eq_comm]
  | cons x xs ih =>
      simp only [parseItems, cons_parsed, ih, List.forall₂_cons_left_iff]

lemma parseItems_value? {xs : List RawValue} {children : List RawGate} :
    (parseItems parse xs).value? = some children ↔
      List.Forall₂ (fun x child => (parse x).value? = some child) xs children := by
  induction xs generalizing children with
  | nil => simp [parseItems, Outcome.value?, eq_comm]
  | cons x xs ih =>
      simp only [parseItems, cons_value?, ih, List.forall₂_cons_left_iff]

lemma parseItems_threw {xs : List RawValue} :
    parseItems parse xs = .threw ↔ ∃ x ∈ xs, parse x = .threw := by
  induction xs with
  | nil => simp [parseItems]
  | cons x xs ih => simp [parseItems, cons_threw, ih]

lemma gateBranchSchema_parsed {kind : GateKind} :
    gateBranchSchema parse kind raw = .parsed node ↔
      ∃ xs children, raw.get? kind.key = some (.list xs) ∧ raw.onlyKey kind.key = true
        ∧ List.Forall₂ (fun x child => parse x = .parsed child) xs children
        ∧ 2 ≤ children.length ∧ node = .branch kind children := by
  rw [gateBranchSchema]
  constructor
  · intro h
    cases hget : (raw.get? kind.key).bind (·.list?) with
    | none => simp [hget] at h
    | some xs =>
        simp only [hget] at h
        cases hitems : parseItems parse xs with
        | threw => simp [hitems] at h
        | refused => simp [hitems] at h
        | continued children =>
            simp only [hitems] at h
            split_ifs at h
        | parsed children =>
            simp only [hitems] at h
            split_ifs at h with hstrict
            obtain ⟨htwo, rfl⟩ := ofMin_eq_parsed.mp h
            exact ⟨xs, children, list?_eq_some.mp hget, hstrict, parseItems_parsed.mp hitems,
              of_decide_eq_true htwo, rfl⟩
  · rintro ⟨xs, children, hget, hstrict, hitems, htwo, rfl⟩
    simp only [list?_eq_some.mpr hget, parseItems_parsed.mpr hitems, if_pos hstrict]
    exact ofMin_eq_parsed.mpr ⟨decide_eq_true htwo, rfl⟩

lemma gateBranchSchema_value? {kind : GateKind} :
    (gateBranchSchema parse kind raw).value? = some node ↔
      ∃ xs children, raw.get? kind.key = some (.list xs) ∧ raw.onlyKey kind.key = true
        ∧ List.Forall₂ (fun x child => (parse x).value? = some child) xs children
        ∧ node = .branch kind children := by
  rw [gateBranchSchema]
  constructor
  · intro h
    cases hget : (raw.get? kind.key).bind (·.list?) with
    | none => simp [hget, Outcome.value?] at h
    | some xs =>
        simp only [hget] at h
        cases hitems : parseItems parse xs with
        | threw => simp [hitems, Outcome.value?] at h
        | refused => simp [hitems, Outcome.value?] at h
        | continued children =>
            have hread := parseItems_value?.mp (congrArg Outcome.value? hitems)
            simp only [hitems] at h
            split_ifs at h with hstrict
            · exact ⟨xs, children, list?_eq_some.mp hget, hstrict, hread,
                (Option.some.inj h).symm⟩
            · cases h
        | parsed children =>
            have hread := parseItems_value?.mp (congrArg Outcome.value? hitems)
            simp only [hitems] at h
            split_ifs at h with hstrict
            · rw [value?_ofMin] at h
              exact ⟨xs, children, list?_eq_some.mp hget, hstrict, hread,
                (Option.some.inj h).symm⟩
            · cases h
  · rintro ⟨xs, children, hget, hstrict, hread, rfl⟩
    have hitems := parseItems_value?.mpr hread
    simp only [list?_eq_some.mpr hget]
    cases hparse : parseItems parse xs with
    | threw | refused =>
        rw [hparse] at hitems
        cases hitems
    | continued children' =>
        rw [hparse] at hitems
        obtain rfl := Option.some.inj hitems
        simp only [if_pos hstrict]
        rfl
    | parsed children' =>
        rw [hparse] at hitems
        obtain rfl := Option.some.inj hitems
        simp only [if_pos hstrict, value?_ofMin]

lemma gateBranchSchema_threw {kind : GateKind} :
    gateBranchSchema parse kind raw = .threw ↔
      ∃ xs, raw.get? kind.key = some (.list xs) ∧ ∃ x ∈ xs, parse x = .threw := by
  rw [gateBranchSchema]
  constructor
  · intro h
    cases hget : (raw.get? kind.key).bind (·.list?) with
    | none => simp [hget] at h
    | some xs =>
        simp only [hget] at h
        refine ⟨xs, list?_eq_some.mp hget, parseItems_threw.mp ?_⟩
        cases hitems : parseItems parse xs with
        | threw => rfl
        | refused => simp [hitems] at h
        | continued children =>
            simp only [hitems] at h
            split_ifs at h
        | parsed children =>
            simp only [hitems] at h
            split_ifs at h
            exact absurd h (ofMin_ne_threw _ _)
  · rintro ⟨xs, hget, hthrew⟩
    simp only [list?_eq_some.mpr hget, parseItems_threw.mpr hthrew]

/-- Without its array a branch of the union is aborted. -/
lemma gateBranchSchema_of_get? {kind : GateKind} (h : raw.get? kind.key = none) :
    gateBranchSchema parse kind raw = .refused := by
  rw [gateBranchSchema, h]
  rfl

/-! ### The union -/

section

variable {left : List RawGate} {options pre post : List (RawValue → Outcome RawGate)}
  {option : RawValue → Outcome RawGate}

lemma onlyContinued_ne_parsed : onlyContinued left ≠ .parsed node := by
  unfold onlyContinued
  split <;> exact fun h => nomatch h

lemma onlyContinued_ne_threw : onlyContinued left ≠ .threw := by
  unfold onlyContinued
  split <;> exact fun h => nomatch h

lemma mem_of_onlyContinued (h : (onlyContinued left).value? = some node) : node ∈ left := by
  unfold onlyContinued at h
  split at h
  · obtain rfl := Option.some.inj h
    exact List.mem_singleton_self _
  · cases h

/-- A union without an issue is an option without one. -/
lemma exists_parsed_of_unionSchema (h : unionSchema left raw options = .parsed node) :
    ∃ option ∈ options, option raw = .parsed node := by
  induction options generalizing left with
  | nil => exact absurd h onlyContinued_ne_parsed
  | cons option options ih =>
      rw [unionSchema] at h
      cases hoption : option raw with
      | threw => simp [hoption] at h
      | parsed value =>
          simp only [hoption] at h
          exact ⟨option, List.mem_cons_self, hoption.trans h⟩
      | continued value | refused =>
          simp only [hoption] at h
          obtain ⟨other, hmem, hother⟩ := ih h
          exact ⟨other, List.mem_cons_of_mem _ hmem, hother⟩

/-- What a union reads without aborting, one of its options reads. -/
lemma exists_value?_of_unionSchema (h : (unionSchema left raw options).value? = some node) :
    node ∈ left ∨ ∃ option ∈ options, (option raw).value? = some node := by
  induction options generalizing left with
  | nil => exact .inl (mem_of_onlyContinued h)
  | cons option options ih =>
      rw [unionSchema] at h
      cases hoption : option raw with
      | threw => simp [hoption, Outcome.value?] at h
      | parsed value =>
          simp only [hoption] at h
          exact .inr ⟨option, List.mem_cons_self, (congrArg Outcome.value? hoption).trans h⟩
      | refused =>
          simp only [hoption] at h
          refine (ih h).imp_right ?_
          rintro ⟨other, hmem, hother⟩
          exact ⟨other, List.mem_cons_of_mem _ hmem, hother⟩
      | continued value =>
          simp only [hoption] at h
          rcases ih h with hmem | ⟨other, hmem, hother⟩
          · rcases List.mem_cons.mp hmem with rfl | hmem
            · exact .inr ⟨option, List.mem_cons_self, congrArg Outcome.value? hoption⟩
            · exact .inl hmem
          · exact .inr ⟨other, List.mem_cons_of_mem _ hmem, hother⟩

/-- A union throws only if an option does. -/
lemma exists_threw_of_unionSchema (h : unionSchema left raw options = .threw) :
    ∃ option ∈ options, option raw = .threw := by
  induction options generalizing left with
  | nil => exact absurd h onlyContinued_ne_threw
  | cons option options ih =>
      rw [unionSchema] at h
      cases hoption : option raw with
      | threw => exact ⟨option, List.mem_cons_self, hoption⟩
      | parsed value => simp [hoption] at h
      | continued value | refused =>
          simp only [hoption] at h
          obtain ⟨other, hmem, hother⟩ := ih h
          exact ⟨other, List.mem_cons_of_mem _ hmem, hother⟩

lemma unionSchema_of_refused (h : ∀ option ∈ options, option raw = .refused) :
    unionSchema left raw options = unionSchema left raw [] := by
  induction options with
  | nil => rfl
  | cons option options ih =>
      obtain ⟨hoption, hrest⟩ := List.forall_mem_cons.mp h
      refine Eq.trans ?_ (ih hrest)
      simp only [unionSchema, hoption]

/-- If all options but one are aborted, the union does what that one does. -/
lemma unionSchema_of_only (hpre : ∀ other ∈ pre, other raw = .refused)
    (hpost : ∀ other ∈ post, other raw = .refused) :
    unionSchema [] raw (pre ++ option :: post) = option raw := by
  induction pre with
  | nil =>
      rw [List.nil_append, unionSchema]
      cases hoption : option raw with
      | threw | parsed value => rfl
      | refused | continued value =>
          simp only [unionSchema_of_refused hpost]
          rfl
  | cons other pre ih =>
      obtain ⟨hother, hrest⟩ := List.forall_mem_cons.mp hpre
      rw [List.cons_append, unionSchema, hother]
      exact ih hrest

/-- If none of its options succeeds and one throws, the union throws. -/
lemma unionSchema_threw (hparsed : ∀ option ∈ options, ∀ value, option raw ≠ .parsed value)
    (hthrew : ∃ option ∈ options, option raw = .threw) :
    unionSchema left raw options = .threw := by
  induction options generalizing left with
  | nil =>
      obtain ⟨_, hmem, -⟩ := hthrew
      cases hmem
  | cons option options ih =>
      obtain ⟨hfirst, hrest⟩ := List.forall_mem_cons.mp hparsed
      rw [unionSchema]
      cases hoption : option raw with
      | threw => rfl
      | parsed value => exact absurd hoption (hfirst value)
      | refused | continued value =>
          refine ih hrest ?_
          obtain ⟨other, hmem, hother⟩ := hthrew
          rcases List.mem_cons.mp hmem with rfl | hmem
          · rw [hoption] at hother
            cases hother
          · exact ⟨other, hmem, hother⟩

end

lemma key_ne_rule (kind : GateKind) : kind.key ≠ "rule" := by cases kind <;> decide

/-- On a strict leaf the union does what its leaf does. -/
lemma unionSchema_leaf (hstrict : raw.onlyKey "rule" = true) :
    unionSchema [] raw (gateNodeOptions parse) = gateLeafSchema raw := by
  have hpre : ∀ other ∈ ([] : List (RawValue → Outcome RawGate)), other raw = .refused :=
    fun _ h => absurd h List.not_mem_nil
  refine unionSchema_of_only hpre ?_
  rw [List.forall_mem_cons, List.forall_mem_singleton]
  exact ⟨gateBranchSchema_of_get? (get?_of_onlyKey hstrict (by decide)),
    gateBranchSchema_of_get? (get?_of_onlyKey hstrict (by decide))⟩

/-- On a strict branch the union does what the branch of that kind does. -/
lemma unionSchema_branch {kind : GateKind} (hstrict : raw.onlyKey kind.key = true) :
    unionSchema [] raw (gateNodeOptions parse) = gateBranchSchema parse kind raw := by
  have hleaf : gateLeafSchema raw = .refused :=
    gateLeafSchema_of_get? (get?_of_onlyKey hstrict (key_ne_rule kind).symm)
  cases kind with
  | all =>
      have hany : gateBranchSchema parse .any raw = .refused :=
        gateBranchSchema_of_get? (get?_of_onlyKey hstrict (by decide))
      have hpre : ∀ other ∈ [gateLeafSchema], other raw = .refused :=
        List.forall_mem_singleton.mpr hleaf
      exact unionSchema_of_only hpre (List.forall_mem_singleton.mpr hany)
  | any =>
      have hall : gateBranchSchema parse .all raw = .refused :=
        gateBranchSchema_of_get? (get?_of_onlyKey hstrict (by decide))
      have hpre : ∀ other ∈ [gateLeafSchema, gateBranchSchema parse .all],
          other raw = .refused := by
        rw [List.forall_mem_cons, List.forall_mem_singleton]
        exact ⟨hleaf, hall⟩
      exact unionSchema_of_only hpre (fun _ h => absurd h List.not_mem_nil)

/-- **What the recursive schema parses is what the value spells.** -/
theorem spells_of_parsed (h : rawGateNodeSchema levels raw = .parsed node) : raw.Spells node := by
  induction levels generalizing raw node with
  | zero => cases h
  | succ levels ih =>
      have hbranch : ∀ kind, gateBranchSchema (rawGateNodeSchema levels) kind raw = .parsed node →
          raw.Spells node := by
        intro kind hparsed
        obtain ⟨xs, children, hget, hstrict, hitems, htwo, rfl⟩ :=
          gateBranchSchema_parsed.mp hparsed
        refine .branch raw kind xs children hget hstrict hitems.length_eq ?_ htwo
        intro x child hmem
        exact ih ((List.forall₂_iff_zip.mp hitems).2 hmem)
      rw [rawGateNodeSchema] at h
      obtain ⟨option, hmem, hoption⟩ := exists_parsed_of_unionSchema h
      simp only [gateNodeOptions, List.mem_cons, List.not_mem_nil, or_false] at hmem
      rcases hmem with rfl | rfl | rfl
      · exact (gateLeafSchema_parsed.mp hoption).1
      · exact hbranch .all hoption
      · exact hbranch .any hoption

/-- **What it reads with issues is what the value spells but for the minima.** -/
theorem reads_of_value? (h : (rawGateNodeSchema levels raw).value? = some node) :
    raw.Reads node := by
  induction levels generalizing raw node with
  | zero => cases h
  | succ levels ih =>
      have hbranch : ∀ kind,
          (gateBranchSchema (rawGateNodeSchema levels) kind raw).value? = some node →
            raw.Reads node := by
        intro kind hvalue
        obtain ⟨xs, children, hget, hstrict, hitems, rfl⟩ := gateBranchSchema_value?.mp hvalue
        refine .branch raw kind xs children hget hstrict hitems.length_eq ?_
        intro x child hmem
        exact ih ((List.forall₂_iff_zip.mp hitems).2 hmem)
      rw [rawGateNodeSchema] at h
      rcases exists_value?_of_unionSchema h with hmem | ⟨option, hmem, hoption⟩
      · cases hmem
      · simp only [gateNodeOptions, List.mem_cons, List.not_mem_nil, or_false] at hmem
        rcases hmem with rfl | rfl | rfl
        · exact (gateLeafSchema_value?.mp hoption).1
        · exact hbranch .all hoption
        · exact hbranch .any hoption

/-- And given the levels it parses all that a value spells. -/
theorem parsed_of_spells (h : raw.Spells node) (hlevels : node.depth ≤ levels) :
    rawGateNodeSchema levels raw = .parsed node := by
  induction h generalizing levels with
  | rule raw ref fields type hrule hstrict hfields htype hne =>
      cases levels with
      | zero => simp [RawGate.depth] at hlevels
      | succ levels =>
          rw [rawGateNodeSchema, unionSchema_leaf hstrict]
          exact gateLeafSchema_parsed.mpr
            ⟨.rule raw ref fields type hrule hstrict hfields htype hne, hstrict⟩
  | branch raw kind xs children hget hstrict hlen _ htwo ih =>
      cases levels with
      | zero => simp [RawGate.depth] at hlevels
      | succ levels =>
          rw [RawGate.depth, Nat.add_le_add_iff_right, depthOf_le] at hlevels
          have hitems : List.Forall₂ (fun x child => rawGateNodeSchema levels x = .parsed child)
              xs children :=
            List.forall₂_iff_zip.mpr ⟨hlen, fun hmem =>
              ih _ _ hmem (hlevels _ (List.of_mem_zip hmem).2)⟩
          rw [rawGateNodeSchema, unionSchema_branch hstrict]
          exact gateBranchSchema_parsed.mpr ⟨xs, children, hget, hstrict, hitems, htwo, rfl⟩

/-- And reads the rest. -/
theorem value?_of_reads (h : raw.Reads node) (hlevels : node.depth ≤ levels) :
    (rawGateNodeSchema levels raw).value? = some node := by
  induction h generalizing levels with
  | rule raw ref fields type hrule hstrict hfields htype =>
      cases levels with
      | zero => simp [RawGate.depth] at hlevels
      | succ levels =>
          rw [rawGateNodeSchema, unionSchema_leaf hstrict]
          exact gateLeafSchema_value?.mpr
            ⟨.rule raw ref fields type hrule hstrict hfields htype, hstrict⟩
  | branch raw kind xs children hget hstrict hlen _ ih =>
      cases levels with
      | zero => simp [RawGate.depth] at hlevels
      | succ levels =>
          rw [RawGate.depth, Nat.add_le_add_iff_right, depthOf_le] at hlevels
          have hitems : List.Forall₂
              (fun x child => (rawGateNodeSchema levels x).value? = some child) xs children :=
            List.forall₂_iff_zip.mpr ⟨hlen, fun hmem =>
              ih _ _ hmem (hlevels _ (List.of_mem_zip hmem).2)⟩
          rw [rawGateNodeSchema, unionSchema_branch hstrict]
          exact gateBranchSchema_value?.mpr ⟨xs, children, hget, hstrict, hitems, rfl⟩

/-- No deeper tree is read from a value than its arrays are nested. -/
lemma deeper_of_reads (h : raw.Reads node) {n : ℕ} (hn : n < node.depth) : raw.Deeper n := by
  induction h generalizing n with
  | rule raw ref fields type hrule hstrict hfields htype =>
      obtain rfl : n = 0 := by
        rw [RawGate.depth] at hn
        omega
      exact .zero raw
  | branch raw kind xs children hget _ hlen _ ih =>
      cases n with
      | zero => exact .zero raw
      | succ n =>
          have hdeep : ¬ depthOf children ≤ n := by
            rw [RawGate.depth] at hn
            omega
          rw [depthOf_le] at hdeep
          push Not at hdeep
          obtain ⟨child, hchild, hdepth⟩ := hdeep
          obtain ⟨i, hi, rfl⟩ := List.mem_iff_getElem.mp hchild
          have hx : i < xs.length := hlen ▸ hi
          have hzip : (xs[i], children[i]) ∈ xs.zip children := by
            rw [List.mem_iff_getElem]
            exact ⟨i, by simp [hx, hi], List.getElem_zip⟩
          exact .succ n raw xs[i] kind xs hget (List.getElem_mem hx) (ih _ _ hzip hdepth)

/-- **The recursive schema throws exactly if the arrays are nested deeper than the stack holds.** -/
theorem rawGateNodeSchema_threw : rawGateNodeSchema levels raw = .threw ↔ raw.Deeper levels := by
  induction levels generalizing raw with
  | zero => exact ⟨fun _ => .zero raw, fun _ => rfl⟩
  | succ levels ih =>
      have hbranch : ∀ kind, gateBranchSchema (rawGateNodeSchema levels) kind raw = .threw ↔
          ∃ xs, raw.get? kind.key = some (.list xs) ∧ ∃ x ∈ xs, x.Deeper levels := by
        intro kind
        rw [gateBranchSchema_threw]
        simp only [ih]
      have hdeeper : raw.Deeper (levels + 1) ↔
          ∃ kind, gateBranchSchema (rawGateNodeSchema levels) kind raw = .threw := by
        constructor
        · intro h
          cases h with
          | succ _ _ child kind xs hget hmem h =>
              exact ⟨kind, (hbranch kind).mpr ⟨xs, hget, child, hmem, h⟩⟩
        · rintro ⟨kind, hthrew⟩
          obtain ⟨xs, hget, child, hmem, h⟩ := (hbranch kind).mp hthrew
          exact .succ levels raw child kind xs hget hmem h
      rw [hdeeper, rawGateNodeSchema]
      constructor
      · intro h
        obtain ⟨option, hmem, hoption⟩ := exists_threw_of_unionSchema h
        simp only [gateNodeOptions, List.mem_cons, List.not_mem_nil, or_false] at hmem
        rcases hmem with rfl | rfl | rfl
        · exact absurd hoption gateLeafSchema_ne_threw
        · exact ⟨.all, hoption⟩
        · exact ⟨.any, hoption⟩
      · rintro ⟨kind, hthrew⟩
        obtain ⟨xs, hget, -⟩ := (hbranch kind).mp hthrew
        -- a strict object has one key, so the option that throws is the one that could succeed
        by_cases hstrict : ∃ kind' : GateKind, raw.onlyKey kind'.key = true
        · obtain ⟨kind', hstrict⟩ := hstrict
          have hkey : kind.key = kind'.key := by
            by_contra hne
            rw [get?_of_onlyKey hstrict hne] at hget
            cases hget
          rw [unionSchema_branch (hkey ▸ hstrict)]
          exact hthrew
        · refine unionSchema_threw ?_ ?_
          · rw [gateNodeOptions, List.forall_mem_cons, List.forall_mem_cons,
              List.forall_mem_singleton]
            refine ⟨fun value h => ?_, fun value h => ?_, fun value h => ?_⟩
            · rw [get?_of_onlyKey (gateLeafSchema_parsed.mp h).2 (key_ne_rule kind)] at hget
              cases hget
            · obtain ⟨_, _, _, honly, -⟩ := gateBranchSchema_parsed.mp h
              exact hstrict ⟨.all, honly⟩
            · obtain ⟨_, _, _, honly, -⟩ := gateBranchSchema_parsed.mp h
              exact hstrict ⟨.any, honly⟩
          · cases kind with
            | all => exact ⟨_, List.mem_cons_of_mem _ List.mem_cons_self, hthrew⟩
            | any =>
                exact ⟨_, List.mem_cons_of_mem _ (List.mem_cons_of_mem _ List.mem_cons_self),
                  hthrew⟩

end

end PubsubVoting
