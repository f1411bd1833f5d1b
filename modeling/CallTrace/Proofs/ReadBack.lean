import CallTrace.Proofs.Numbering

/-!
What an imported arena holds, as a tree.

`Json.tree?` gives the tree of a document by recursion on the document alone: the node of each object,
its fields and its span, where a value of the wrong kind counts as absent. `Arena.treeAt` reads a tree
off an arena through the fields of its nodes. Importing a document and reading the arena back gives the
tree of the document.
-/
namespace CallTrace

/-- What a value holds for the node around it. -/
inductive Holding where
  | nothing
  | node (t : Tree)
  | nodes (ts : List Tree)

namespace Holding

def node? : Holding → Option Tree
  | .node t => some t
  | _ => none

def nodeList : Holding → List Tree
  | .nodes ts => ts
  | _ => []

def all : Holding → List Tree
  | .nothing => []
  | .node t => [t]
  | .nodes ts => ts

end Holding

namespace Json

variable (members : List (String × Json)) (held : List (String × Holding))

/-- The offsets `start` and `end` if both are words, else a `range` of two words, else zero. -/
def spanOf : Span :=
  match (lookup "start" members).bind word?, (lookup "end" members).bind word? with
  | some pos, some stop => ⟨pos, stop⟩
  | _, _ =>
    match lookup "range" members with
    | some (.array [pos, stop]) =>
      match pos.word?, stop.word? with
      | some pos, some stop => ⟨pos, stop⟩
      | _, _ => ⟨0, 0⟩
    | _ => ⟨0, 0⟩

/-- The kind of a declaration, `var` if it is not given. -/
def kindOf : VariableKind :=
  match (lookup "kind" members).bind string? with
  | some "let" => .letKind
  | some "const" => .const
  | some "using" => .using
  | some "await using" => .awaitUsing
  | _ => .var

/-- The text of a literal: its `raw` text, else its value, printed unless it is a text itself. -/
def textOf : String :=
  match lookup "raw" members with
  | some (.string raw) => raw
  | _ =>
    match lookup "value" members with
    | some (.string text) => text
    | some v => v.compress
    | none => ""

def isSet (key : String) : Bool :=
  match lookup key members with
  | some (.bool true) => true
  | _ => false

def metadata : List String := ["type", "loc", "range", "start", "end", "comments", "tokens"]

def childIn (key : String) : Option Tree := (held.lookup key).bind Holding.node?

def childrenIn (key : String) : List (Option Tree) :=
  ((held.lookup key).elim [] Holding.nodeList).map some

/-- The children in all fields that may hold some, in the order of the fields. -/
def allChildren : List (Option Tree) :=
  ((held.filter fun m => m.1 ∉ metadata).flatMap fun m => m.2.all).map some

/-- The node for an object of a type, whose fields hold the given nodes. -/
def shapeOf (type : String) : Node Tree :=
  match type with
  | "Program" => .program (childrenIn held "body")
  | "BlockStatement" | "StaticBlock" => .block (childrenIn held "body")
  | "VariableDeclaration" => .variableStatement (kindOf members) (childrenIn held "declarations")
  | "VariableDeclarator" => .variableDeclaration (childIn held "id") (childIn held "init")
  | "Identifier" => .identifier (((lookup "name" members).bind string?).getD "")
  | "FunctionDeclaration" => function .declaration
  | "FunctionExpression" => function .expression
  | "ArrowFunctionExpression" => function .arrow
  | "CallExpression" =>
    .call (childIn held "callee") (childrenIn held "arguments") (isSet members "optional")
  | "MemberExpression" =>
    .member (childIn held "object") (childIn held "property") (isSet members "computed")
  | "ExpressionStatement" => .expressionStatement (childIn held "expression")
  | "ReturnStatement" => .returnStatement (childIn held "argument")
  | "Literal" => .literal (textOf members)
  | type => .other type (allChildren held)
where
  function (form : FunctionForm) : Node Tree :=
    .function form (childIn held "id") (childrenIn held "params") (childIn held "body")
      (isSet members "async") (isSet members "generator")

mutual

/-- What a value holds: a node if it is an object with a type, several if it is an array. -/
def holding : Json → Holding
  | .object members =>
    match (lookup "type" members).bind string? with
    | some type => .node (.node (some (spanOf members)) (shapeOf members (holdings members) type))
    | none => .nothing
  | .array items => .nodes (nodesIn items)
  | _ => .nothing

def nodesIn : List Json → List Tree
  | [] => []
  | v :: rest => (holding v).node?.toList ++ nodesIn rest

def holdings : List (String × Json) → List (String × Holding)
  | [] => []
  | (key, v) :: rest => (key, holding v) :: holdings rest

end

/-- The tree of a document. -/
def tree? (v : Json) : Option Tree := v.holding.node?

end Json

namespace Node

variable {α β γ : Type}

def replaceChild (f : α → Option β) : Option α → Option (Option β)
  | none => some none
  | some x => (f x).map some

/-- The node with each child replaced, if this succeeds for all. -/
def replace (f : α → Option β) : Node α → Option (Node β)
  | .program statements => do
    let statements ← statements.mapM (replaceChild f)
    return .program statements
  | .block statements => do
    let statements ← statements.mapM (replaceChild f)
    return .block statements
  | .variableStatement kind declarations => do
    let declarations ← declarations.mapM (replaceChild f)
    return .variableStatement kind declarations
  | .variableDeclaration name initializer => do
    let name ← replaceChild f name
    let initializer ← replaceChild f initializer
    return .variableDeclaration name initializer
  | .identifier text => some (.identifier text)
  | .function form name parameters body isAsync isGenerator => do
    let name ← replaceChild f name
    let parameters ← parameters.mapM (replaceChild f)
    let body ← replaceChild f body
    return .function form name parameters body isAsync isGenerator
  | .call callee arguments optional => do
    let callee ← replaceChild f callee
    let arguments ← arguments.mapM (replaceChild f)
    return .call callee arguments optional
  | .member object property computed => do
    let object ← replaceChild f object
    let property ← replaceChild f property
    return .member object property computed
  | .expressionStatement expression => do
    let expression ← replaceChild f expression
    return .expressionStatement expression
  | .returnStatement argument => do
    let argument ← replaceChild f argument
    return .returnStatement argument
  | .literal text => some (.literal text)
  | .other typeName children => do
    let children ← children.mapM (replaceChild f)
    return .other typeName children

theorem map_map (f : α → β) (g : β → γ) (n : Node α) : (n.map f).map g = n.map (g ∘ f) := by
  cases n <;> simp [map, Function.comp_def]

theorem replace_map {f : β → Option γ} {g : α → β} {h : α → γ} {n : Node α}
    (hf : ∀ x ∈ n.present, f (g x) = some (h x)) : (n.map g).replace f = some (n.map h) := by
  have child : ∀ o : Option α, (∀ x, o = some x → x ∈ n.present) →
      replaceChild f (o.map g) = some (o.map h) := by
    intro o ho
    cases o with
    | none => rfl
    | some x => simp [replaceChild, hf x (ho x rfl)]
  have list : ∀ os : List (Option α), (∀ x, some x ∈ os → x ∈ n.present) →
      (os.map (Option.map g)).mapM (replaceChild f) = some (os.map (Option.map h)) := by
    intro os hos
    rw [List.mapM_map]
    apply mapM_eq_some_map
    intro o ho
    exact child o fun x hx => hos x (hx ▸ ho)
  simp only [mem_present] at child list
  cases n with
  | program os | block os | variableStatement _ os =>
    simp [map, replace, list os (fun x hx => hx)]
  | variableDeclaration x y | member x y _ =>
    simp [map, replace, child x (by rintro z rfl; simp [children, single]),
      child y (by rintro z rfl; simp [children, single])]
  | function form x os y _ _ =>
    simp [map, replace, child x (by rintro z rfl; simp [children, single]),
      list os (by intro z hz; simp [children, hz]),
      child y (by rintro z rfl; simp [children, single])]
  | call x os _ =>
    simp [map, replace, child x (by rintro z rfl; simp [children, single]),
      list os (by intro z hz; simp [children, hz])]
  | expressionStatement x | returnStatement x =>
    simp [map, replace, child x (by rintro z rfl; simp [children, single])]
  | other _ os => simp [map, replace, list os (by intro z hz; simp [children, hz])]
  | identifier | literal => rfl

end Node

/-- The tree below a node, read through the fields of its nodes; nothing if it has more levels than
the given number or refers to a node that does not exist. -/
def Arena.treeAt (a : Arena) : Nat → Ref → Option Tree
  | 0, _ => none
  | levels + 1, r => do
    let n ← a.node? r
    let span ← a.span? r
    let shape ← n.replace fun i => a.treeAt levels (some i)
    return .node (some span) shape

/-- The tree below a node. A tree has no more levels than nodes. -/
def Arena.readBack (a : Arena) (r : Ref) : Option Tree := a.treeAt a.size r

namespace Tree

mutual

/-- The tree with zero offsets wherever it has none. -/
def spanned : Tree → Tree
  | .node span shape => .node (some (span.getD ⟨0, 0⟩)) (spannedNode shape)

def spannedNode : Node Tree → Node Tree
  | .program statements => .program (spannedList statements)
  | .block statements => .block (spannedList statements)
  | .variableStatement kind declarations => .variableStatement kind (spannedList declarations)
  | .variableDeclaration name initializer =>
    .variableDeclaration (spannedChild name) (spannedChild initializer)
  | .identifier text => .identifier text
  | .function form name parameters body isAsync isGenerator =>
    .function form (spannedChild name) (spannedList parameters) (spannedChild body) isAsync
      isGenerator
  | .call callee arguments optional => .call (spannedChild callee) (spannedList arguments) optional
  | .member object property computed => .member (spannedChild object) (spannedChild property) computed
  | .expressionStatement expression => .expressionStatement (spannedChild expression)
  | .returnStatement argument => .returnStatement (spannedChild argument)
  | .literal text => .literal text
  | .other typeName children => .other typeName (spannedList children)

def spannedList : List (Option Tree) → List (Option Tree)
  | [] => []
  | t :: rest => spannedChild t :: spannedList rest

def spannedChild : Option Tree → Option Tree
  | none => none
  | some t => some (spanned t)

end

theorem spannedChild_eq (o : Option Tree) : spannedChild o = o.map spanned := by
  cases o <;> rfl

theorem spannedList_eq (os : List (Option Tree)) : spannedList os = os.map (Option.map spanned) := by
  induction os with
  | nil => rfl
  | cons o os ih => rw [spannedList, ih, spannedChild_eq, List.map_cons]

theorem spanned_eq (t : Tree) :
    t.spanned = .node (some (t.span.getD ⟨0, 0⟩)) (t.shape.map spanned) := by
  obtain ⟨span, shape⟩ := t
  rw [spanned]
  congr 1
  cases shape <;> simp only [spannedNode, Node.map, spannedList_eq, spannedChild_eq] <;> rfl

end Tree

theorem Arena.Holds.treeAt_eq {a : Arena} {root s : Spot} {above : List Spot} (h : a.Holds root)
    (way : Spot.Path root above s) {levels : Nat} (hl : s.tree.height ≤ levels) :
    a.treeAt levels s.ref = some s.tree.spanned := by
  induction levels generalizing above s with
  | zero =>
    have := s.tree.height_pos
    omega
  | succ levels ih =>
    have hkids : ∀ k ∈ s.shape.present, a.treeAt levels (some k.index) = some k.tree.spanned := by
      intro k hk
      have hk' : k.tree.height ≤ levels := Tree.height_le_succ_iff.1 hl _ (Spot.tree_mem_kids hk)
      exact ih (way.down hk) hk'
    have hspan : a.span? s.ref = some s.span := by
      rw [Arena.span?, h.info? way]
      rfl
    have hshape : s.node.replace (fun i => a.treeAt levels (some i)) =
        some (s.tree.shape.map Tree.spanned) := by
      have hmap := Node.replace_map (f := fun i => a.treeAt levels (some i)) (g := Spot.index) hkids
      rw [Spot.node, hmap, ← s.map_tree_shape, Node.map_map]
      rfl
    simp only [Arena.treeAt, h.node? way, hspan, hshape, Option.bind_eq_bind, Option.bind_some,
      Tree.spanned_eq]
    rfl

theorem flatMap_filter_eq {α β : Type} {p : α → Bool} {f : α → List β} {xs : List α}
    (h : ∀ x, p x = false → f x = []) : (xs.filter p).flatMap f = xs.flatMap f := by
  induction xs with
  | nil => rfl
  | cons x xs ih =>
    cases hp : p x with
    | true => simp [hp, ih]
    | false => simp [hp, ih, h x hp]

namespace Json

theorem nodesIn_eq (items : List Json) : nodesIn items = items.flatMap fun v => v.tree?.toList := by
  induction items with
  | nil => rw [nodesIn, List.flatMap_nil]
  | cons v items ih => rw [nodesIn, ih, List.flatMap_cons, tree?]

theorem holdings_eq (members : List (String × Json)) :
    holdings members = members.map fun m => (m.1, m.2.holding) := by
  induction members with
  | nil => rw [holdings, List.map_nil]
  | cons m members ih => rw [holdings, ih, List.map_cons]

theorem lookup_holdings (key : String) (members : List (String × Json)) :
    (holdings members).lookup key = (lookup key members).map holding := by
  rw [holdings_eq]
  unfold Json.lookup
  induction members with
  | nil => rfl
  | cons m members ih =>
    by_cases h : m.1 = key
    · simp [h]
    · have hkey : (key == m.1) = false := by simpa using Ne.symm h
      simp [h, hkey, List.lookup_cons, ih]

theorem tree?_eq_none {v : Json} (h : Tree.isNodeObject v = false) : v.tree? = none := by
  cases v with
  | object members =>
    have htype : (lookup "type" members).bind string? = none := by
      simpa [Tree.isNodeObject, Tree.typeName?] using h
    rw [tree?, holding, htype]
    rfl
  | array items =>
    rw [tree?, holding]
    rfl
  | _ => rfl

theorem spanOf_eq (members : List (String × Json)) :
    spanOf members = (Tree.span? members).getD ⟨0, 0⟩ := by
  unfold spanOf Tree.span?
  generalize lookup "range" members = range
  cases (lookup "start" members).bind word? <;> cases (lookup "end" members).bind word?
  case some.some => rfl
  all_goals
    rcases range with _ | (_ | _ | _ | _ | _ | ⟨_ | ⟨x, _ | ⟨y, _ | _⟩⟩⟩ | _)
    case some.array.cons.cons.nil =>
      dsimp only
      cases x.word? <;> cases y.word? <;> rfl
    all_goals rfl

theorem kindOf_eq {members : List (String × Json)} {kind : VariableKind}
    (h : Tree.readKind members = .ok kind) : kindOf members = kind := by
  unfold Tree.readKind VariableKind.ofKeyword? at h
  unfold kindOf
  generalize (lookup "kind" members).bind string? = keyword at h ⊢
  cases keyword with
  | none => exact Except.ok.inj h
  | some keyword =>
    simp only [Option.getD_some] at h
    split_ifs at h
    all_goals
      subst keyword
      exact Except.ok.inj h

theorem textOf_eq (members : List (String × Json)) :
    textOf members = Tree.literalText members := by
  unfold textOf Tree.literalText
  cases lookup "raw" members with
  | none => rfl
  | some raw => cases raw <;> rfl

theorem isSet_eq (members : List (String × Json)) (key : String) :
    isSet members key = Tree.flag members key := by
  unfold isSet Tree.flag
  cases lookup key members with
  | none => rfl
  | some v =>
    cases v with
    | bool b => cases b <;> rfl
    | _ => rfl

/-- A child was read from a value. -/
def Yields (v : Json) (t : Tree) : Prop := v.holding = .node t.spanned

variable {members : List (String × Json)}

theorem Yields.tree?_eq {v : Json} {t : Tree} (h : v.Yields t) : v.tree? = some t.spanned := by
  rw [tree?, h]
  rfl

theorem flatMap_tree?_eq {vs : List Json} {ts : List Tree} (h : List.Forall₂ Yields vs ts) :
    (vs.flatMap fun v => v.tree?.toList) = ts.map Tree.spanned := by
  induction h with
  | nil => rfl
  | cons hv _ ih => rw [List.flatMap_cons, hv.tree?_eq, ih]; rfl

theorem eq_null_of_isNull {v : Json} (h : v.isNull = true) : v = .null := by
  cases v with
  | null => rfl
  | _ => cases h

theorem childIn_eq {key : String} {o : Option Tree} (h : Tree.Single Yields members key o) :
    childIn (holdings members) key = o.map Tree.spanned := by
  unfold Tree.Single oneAt at h
  rw [childIn, lookup_holdings]
  cases hv : lookup key members with
  | none =>
    rw [hv] at h
    cases o with
    | none => rfl
    | some t => cases h
  | some v =>
    rw [hv] at h
    cases hn : v.isNull with
    | true =>
      obtain rfl := eq_null_of_isNull hn
      cases o with
      | none => rfl
      | some t => cases h
    | false =>
      cases o with
      | none => simp [hn] at h
      | some t =>
        have ht : v.Yields t := by simpa [hn] using h
        exact ht.tree?_eq

theorem nodeList_holding (v : Json) :
    v.holding.nodeList = match v with
      | .array items => items.flatMap fun v => v.tree?.toList
      | _ => [] := by
  cases v with
  | array items =>
    rw [holding]
    exact nodesIn_eq items
  | object members =>
    rw [holding]
    split <;> rfl
  | _ => rfl

theorem all_holding (key : String) (v : Json) :
    v.holding.all = (Tree.heldNodes (key, v)).flatMap fun m => m.2.tree?.toList := by
  have lone : ∀ v : Json, v.holding.all = v.tree?.toList → v.holding.all =
      (if Tree.isNodeObject v then [(key, v)] else []).flatMap fun m => m.2.tree?.toList := by
    intro v hv
    cases hn : Tree.isNodeObject v with
    | true => simp [hv]
    | false => simp [hv, tree?_eq_none hn]
  cases v with
  | array items =>
    rw [holding, Tree.heldNodes, List.flatMap_map]
    exact (nodesIn_eq items).trans (flatMap_filter_eq fun v hv => by simp [tree?_eq_none hv]).symm
  | object members =>
    apply lone
    rw [tree?, holding]
    split <;> rfl
  | _ => exact lone _ rfl

theorem map_some_flatMap_tree? {values : List Json} {ts : List (Option Tree)}
    (h : Tree.Listed Yields values ts) :
    (values.flatMap fun v => v.tree?.toList).map some = ts.map (Option.map Tree.spanned) := by
  rw [flatMap_tree?_eq h.reads, List.map_map]
  conv_rhs => rw [Node.eq_map_some_reduceOption h.full, List.map_map]
  rfl

theorem childrenIn_eq {key : String} {ts : List (Option Tree)}
    (h : Tree.Listed Yields (manyAt members key) ts) :
    childrenIn (holdings members) key = ts.map (Option.map Tree.spanned) := by
  rw [← map_some_flatMap_tree? h, childrenIn, lookup_holdings, manyAt]
  congr 1
  cases lookup key members with
  | none => rfl
  | some v =>
    rw [Option.map_some, Option.elim_some, nodeList_holding]
    cases v with
    | array items =>
      refine (flatMap_filter_eq fun v hv => ?_).symm
      obtain rfl := eq_null_of_isNull (by simpa using hv)
      rfl
    | _ => rfl

theorem allChildren_eq {ts : List (Option Tree)}
    (h : Tree.Listed Yields (held members) ts) :
    allChildren (holdings members) = ts.map (Option.map Tree.spanned) := by
  rw [← map_some_flatMap_tree? h, allChildren, held, holdings_eq, List.filter_map, List.flatMap_map,
    List.flatMap_map, List.flatMap_assoc]
  congr 1
  have hkeys : ((fun m : String × Holding => decide (m.1 ∉ metadata)) ∘
      fun m : String × Json => (m.1, m.2.holding)) = fun m => !Tree.skipped.contains m.1 := by
    funext m
    simp [metadata, Tree.skipped]
  rw [hkeys]
  exact List.flatMap_congr fun m _ => all_holding m.1 m.2

theorem shapeOf_eq {type : String} {shape : Node Tree} (h : Tree.Shaped Yields members type shape) :
    shapeOf members (holdings members) type = shape.map Tree.spanned := by
  cases h with
  | program ts => simp only [shapeOf, Node.map, childrenIn_eq ts]
  | block known ts =>
    rcases known with rfl | rfl <;> simp only [shapeOf, Node.map, childrenIn_eq ts]
  | variableStatement keyword ts =>
    simp only [shapeOf, Node.map, childrenIn_eq ts, kindOf_eq keyword]
  | variableDeclaration x y => simp only [shapeOf, Node.map, childIn_eq x, childIn_eq y]
  | identifier name => simp only [shapeOf, Node.map, name, Option.getD_some]
  | function form x ts y =>
    cases form <;> simp only [Tree.functionType, shapeOf, shapeOf.function, Node.map, childIn_eq x,
      childrenIn_eq ts, childIn_eq y, isSet_eq]
  | call x ts => simp only [shapeOf, Node.map, childIn_eq x, childrenIn_eq ts, isSet_eq]
  | member x y => simp only [shapeOf, Node.map, childIn_eq x, childIn_eq y, isSet_eq]
  | expressionStatement x | returnStatement x => simp only [shapeOf, Node.map, childIn_eq x]
  | literal => simp only [shapeOf, Node.map, textOf_eq]
  | other unknown ts =>
    simp only [Tree.typedKinds, List.mem_cons, List.not_mem_nil, or_false, not_or] at unknown
    unfold shapeOf
    split <;> simp_all [Node.map, allChildren_eq ts]

end Json

theorem Tree.Reads.yields {levels : Nat} {v : Json} {t : Tree} (h : Tree.Reads levels v t) :
    v.Yields t := by
  refine h.induct (P := fun _ v t => v.Yields t) fun htype hspan hshape => ?_
  have hshaped := Json.shapeOf_eq (hshape.mono fun hv => hv.2)
  unfold Tree.typeName? at htype
  rw [Json.Yields, Json.holding, htype, Tree.spanned_eq, hspan, ← hshaped, ← Json.spanOf_eq]

/-- An imported arena, read back from the program through the fields of its nodes, gives the tree of
the document. -/
theorem importProgram_readBack {v : Json} {a : Arena} {root : Ref}
    (h : importProgram v = .ok (a, root)) (hs : a.size ≤ 2 ^ 32 - 1) :
    ∃ t, a.readBack root = some t ∧ v.tree? = some t := by
  obtain ⟨t, imported⟩ := importedAs_of_importProgram h hs
  refine ⟨t.spanned, ?_, imported.reads.yields.tree?_eq⟩
  rw [imported.root_eq]
  apply imported.holds.treeAt_eq .here
  rw [imported.size_eq]
  exact t.height_le_size

/-- A program with a range and an empty place, around a statement of no particular kind. -/
def Sample.conditional : Json :=
  node "Program" [("range", .array [.int 0, .int 9]), ("body", .array [.null,
    node "IfStatement" [("start", .int 1), ("end", .int 5), ("loc", identifier "x"),
      ("test", node "Literal" [("value", .bool true)]),
      ("consequent", node "StaticBlock" [("start", .int 3), ("body", .null)])]])]

theorem importProgram_readBack_conditional :
    ∃ a root, importProgram Sample.conditional = .ok (a, root) ∧ a.size = 4 ∧
      a.readBack root = some (.node (some ⟨0, 9⟩) (.program [some (.node (some ⟨1, 5⟩)
        (.other "IfStatement" [some (.node (some ⟨0, 0⟩) (.literal "true")),
          some (.node (some ⟨0, 0⟩) (.block []))]))])) := by
  have himport : (importProgram Sample.conditional).map (fun p => p.1.size) = .ok 4 := by
    decide +kernel
  obtain ⟨⟨a, root⟩, h, hsize⟩ := exists_ok_of_map himport
  simp only at hsize
  obtain ⟨t, hback, htree⟩ := importProgram_readBack h (by omega)
  refine ⟨a, root, h, hsize, ?_⟩
  rw [hback, ← htree]
  rfl

end CallTrace
