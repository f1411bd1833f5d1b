import CallTrace.Proofs.Editing
import CallTrace.Proofs.Grammar

/-!
What of a document matters to its import.

`Json.Alike` relates two documents that differ only in what is not structure: positions and comments,
the order of the members of a node that is read field by field, the fields that are not read, and in
any other node the members that hold no node. Two such documents are read in lockstep (`Agree` on
results, `Lockstep` on what is built), so the imports fail alike or give arenas that differ in
their spans only.
-/
namespace CallTrace

section Results

variable {ε α β γ δ : Type}

/-- Two results agree: both are the same error, or both are there and related. -/
inductive Agree (R : α → β → Prop) : Except ε α → Except ε β → Prop
  | ok {a : α} {b : β} (related : R a b) : Agree R (.ok a) (.ok b)
  | error (e : ε) : Agree R (.error e) (.error e)

namespace Agree

variable {R : α → β → Prop} {S : γ → δ → Prop}

theorem of_eq {x y : Except ε α} (h : x = y) : Agree Eq x y := by
  subst h
  cases x with
  | ok a => exact .ok rfl
  | error e => exact .error e

theorem bind {x : Except ε α} {y : Except ε β} {f : α → Except ε γ} {g : β → Except ε δ}
    (h : Agree R x y) (h' : ∀ {a b}, R a b → Agree S (f a) (g b)) : Agree S (x >>= f) (y >>= g) := by
  cases h with
  | ok related => exact h' related
  | error e => exact .error e

theorem mapM {f : γ → Except ε α} {g : δ → Except ε β} {xs : List γ} {ys : List δ}
    (h : List.Forall₂ S xs ys) (h' : ∀ {x y}, S x y → Agree R (f x) (g y)) :
    Agree (List.Forall₂ R) (xs.mapM f) (ys.mapM g) := by
  induction h with
  | nil => exact .ok .nil
  | cons hxy _ ih =>
    rw [List.mapM_cons, List.mapM_cons]
    exact (h' hxy).bind fun hab => ih.bind fun habs => .ok (.cons hab habs)

end Agree

end Results

/-- Two nodes that are the same but for their children, which are related. -/
inductive Node.Rel {α β : Type} (R : α → β → Prop) : Node α → Node β → Prop
  | program {xs : List (Option α)} {ys : List (Option β)}
      (statements : List.Forall₂ (Option.Rel R) xs ys) : Rel R (.program xs) (.program ys)
  | block {xs : List (Option α)} {ys : List (Option β)}
      (statements : List.Forall₂ (Option.Rel R) xs ys) : Rel R (.block xs) (.block ys)
  | variableStatement (kind : VariableKind) {xs : List (Option α)} {ys : List (Option β)}
      (declarations : List.Forall₂ (Option.Rel R) xs ys) :
      Rel R (.variableStatement kind xs) (.variableStatement kind ys)
  | variableDeclaration {x x' : Option α} {y y' : Option β} (name : Option.Rel R x y)
      (initializer : Option.Rel R x' y') :
      Rel R (.variableDeclaration x x') (.variableDeclaration y y')
  | identifier (text : String) : Rel R (.identifier text) (.identifier text)
  | function (form : FunctionForm) (isAsync isGenerator : Bool) {x x' : Option α} {y y' : Option β}
      {xs : List (Option α)} {ys : List (Option β)} (name : Option.Rel R x y)
      (parameters : List.Forall₂ (Option.Rel R) xs ys) (body : Option.Rel R x' y') :
      Rel R (.function form x xs x' isAsync isGenerator) (.function form y ys y' isAsync isGenerator)
  | call (optional : Bool) {x : Option α} {y : Option β} {xs : List (Option α)}
      {ys : List (Option β)} (callee : Option.Rel R x y)
      (arguments : List.Forall₂ (Option.Rel R) xs ys) :
      Rel R (.call x xs optional) (.call y ys optional)
  | member (computed : Bool) {x x' : Option α} {y y' : Option β} (object : Option.Rel R x y)
      (property : Option.Rel R x' y') : Rel R (.member x x' computed) (.member y y' computed)
  | expressionStatement {x : Option α} {y : Option β} (expression : Option.Rel R x y) :
      Rel R (.expressionStatement x) (.expressionStatement y)
  | returnStatement {x : Option α} {y : Option β} (argument : Option.Rel R x y) :
      Rel R (.returnStatement x) (.returnStatement y)
  | literal (text : String) : Rel R (.literal text) (.literal text)
  | other (typeName : String) {xs : List (Option α)} {ys : List (Option β)}
      (children : List.Forall₂ (Option.Rel R) xs ys) : Rel R (.other typeName xs) (.other typeName ys)

def Tree.ChildField.key : ChildField → String
  | .one key => key
  | .many key => key

namespace Json

open CallTrace.Tree (Members childFields typedKinds isNodeObject typeName?)

/-- The fields of a type that is read field by field, those with children apart. -/
def ownFields : String → List String
  | "VariableDeclaration" => ["kind"]
  | "Identifier" => ["name"]
  | "FunctionDeclaration" | "FunctionExpression" | "ArrowFunctionExpression" =>
    ["async", "generator"]
  | "CallExpression" => ["optional"]
  | "MemberExpression" => ["computed"]
  | "Literal" => ["raw", "value"]
  | _ => []

/-- A value is a node object, or an array with one among its items. -/
def holdsNode : Json → Bool
  | .array items => items.any isNodeObject
  | v => isNodeObject v

/-- The members of a node of no particular kind that count, in their order. -/
def holders (members : Members) : Members :=
  members.filter fun m => m.1 ∉ metadata && holdsNode m.2

mutual

/-- Two values differ only in what is not structure, at the node objects in them. -/
inductive Alike : Json → Json → Prop
  | same (v : Json) : Alike v v
  | array {xs ys : List Json} (items : List.Forall₂ Alike xs ys) : Alike (.array xs) (.array ys)
  | object {type : String} {m m' : Members} (left : typeName? m = some type)
      (right : typeName? m' = some type) (members : AlikeIn type m m') :
      Alike (.object m) (.object m')

/-- The members of two node objects of a type are alike: if the type is read field by field, what is read
from them, wherever it stands; else the members that hold nodes, one by one in their order. -/
inductive AlikeIn : String → Members → Members → Prop
  | typed {type : String} {m m' : Members} (known : type ∈ typedKinds)
      (own : ∀ key ∈ ownFields type, lookup key m = lookup key m')
      (children : ∀ field ∈ childFields type,
        Option.Rel Alike (lookup field.key m) (lookup field.key m')) :
      AlikeIn type m m'
  | generic {type : String} {m m' : Members} (unknown : type ∉ typedKinds)
      (held : List.Forall₂ AlikeField (holders m) (holders m')) : AlikeIn type m m'

/-- Two members with the same key and alike values. -/
inductive AlikeField : String × Json → String × Json → Prop
  | mk {key : String} {v w : Json} (alike : Alike v w) : AlikeField (key, v) (key, w)

end

theorem forall₂_alike_same (vs : List Json) : List.Forall₂ Alike vs vs :=
  List.forall₂_same.2 fun v _ => .same v

theorem AlikeIn.same (type : String) (m : Members) : AlikeIn type m m := by
  by_cases known : type ∈ typedKinds
  · refine .typed known (fun _ _ => rfl) fun field _ => ?_
    cases lookup field.key m with
    | none => exact .none
    | some v => exact .some (.same v)
  · exact .generic known (List.forall₂_same.2 fun x _ => .mk (.same x.2))

/-- Alike values: the same one without a type, two arrays, or two node objects of one type. -/
inductive Alike.View : Json → Json → Prop
  | plain {v : Json} (untyped : v.type? = none) (single : ∀ items, v ≠ .array items) : View v v
  | array {xs ys : List Json} (items : List.Forall₂ Alike xs ys) : View (.array xs) (.array ys)
  | object {type : String} {m m' : Members} (left : typeName? m = some type)
      (right : typeName? m' = some type) (members : AlikeIn type m m') :
      View (.object m) (.object m')

theorem Alike.view {v w : Json} (h : Alike v w) : View v w := by
  cases h with
  | same =>
    cases v with
    | array items => exact .array (forall₂_alike_same items)
    | object m =>
      cases hm : typeName? m with
      | none => exact .plain hm (by simp)
      | some type => exact .object hm hm (.same type m)
    | _ => exact .plain rfl (by simp)
  | array items => exact .array items
  | object left right members => exact .object left right members

theorem Alike.isNodeObject_eq {v w : Json} (h : Alike v w) : isNodeObject v = isNodeObject w := by
  cases h with
  | same => rfl
  | array => rfl
  | object left right => simp [isNodeObject, left, right]

theorem Alike.isNull_eq {v w : Json} (h : Alike v w) : v.isNull = w.isNull := by
  cases h <;> rfl

end Json

namespace Arena

/-- Two arenas with the same nodes and links; the spans may differ. -/
structure SameLinks (a b : Arena) : Prop where
  nodes : a.nodes = b.nodes
  parents : a.infos.map Info.parent = b.infos.map Info.parent

theorem map_parent_adopt (r : Ref) {xs ys : Array Info}
    (h : xs.map Info.parent = ys.map Info.parent) (c : Ref) :
    (adopt r xs c).map Info.parent = (adopt r ys c).map Info.parent := by
  cases c with
  | none => exact h
  | some i =>
    have slot : ∀ (zs : Array Info) (k : Nat), ((adopt r zs (some i)).map Info.parent)[k]? =
        if i.val = k then (zs.map Info.parent)[k]?.map (fun _ => r) else (zs.map Info.parent)[k]? := by
      intro zs k
      rw [Array.getElem?_map, Array.getElem?_map, adopt, Array.getElem?_modify]
      split <;> cases zs[k]? <;> rfl
    apply Array.ext_getElem?
    intro k
    rw [slot, slot, h]

theorem map_parent_foldl_adopt (r : Ref) (children : List Ref) {xs ys : Array Info}
    (h : xs.map Info.parent = ys.map Info.parent) :
    (children.foldl (adopt r) xs).map Info.parent = (children.foldl (adopt r) ys).map Info.parent := by
  induction children generalizing xs ys with
  | nil => exact h
  | cons c children ih => exact ih (map_parent_adopt r h c)

theorem map_parent_setSpan (a : Arena) (r : Ref) (span : Span) :
    (a.setSpan r span).infos.map Info.parent = a.infos.map Info.parent := by
  cases r with
  | none => rfl
  | some i =>
    apply Array.ext_getElem?
    intro k
    rw [Array.getElem?_map, Array.getElem?_map, setSpan, Array.getElem?_modify]
    split <;> cases a.infos[k]? <;> rfl

end Arena

namespace Tree

theorem nodes_place (span : Option Span) (n : Node Index) (a : Arena) :
    (place span n a).2.nodes = a.nodes.push n := by
  cases span with
  | none => rfl
  | some span => exact Arena.nodes_setSpan _ _ _

theorem map_parent_place (span : Option Span) (n : Node Index) (a : Arena) :
    (place span n a).2.infos.map Info.parent = (a.add n).2.infos.map Info.parent := by
  cases span with
  | none => rfl
  | some span => exact Arena.map_parent_setSpan _ _ _

theorem place_fst (span : Option Span) (n : Node Index) (a : Arena) :
    (place span n a).1 = Ref.ofNat a.nodes.size := by
  cases span <;> rfl

end Tree

/-- Two ways to go on from arenas that differ in spans only: they give the same answer and again such
arenas. -/
def Lockstep {α : Type} (x y : StateM Arena α) : Prop :=
  ∀ a b : Arena, a.SameLinks b → (x a).1 = (y b).1 ∧ (x a).2.SameLinks (y b).2

namespace Lockstep

variable {α β : Type}

theorem pure (x : α) : Lockstep (Pure.pure x : StateM Arena α) (Pure.pure x) := fun _ _ h => ⟨rfl, h⟩

theorem bind {x y : StateM Arena α} {f g : α → StateM Arena β} (h : Lockstep x y)
    (h' : ∀ r, Lockstep (f r) (g r)) : Lockstep (x >>= f) (y >>= g) := by
  intro a b hab
  obtain ⟨hfst, hsnd⟩ := h a b hab
  change (f (x a).1 (x a).2).1 = (g (y b).1 (y b).2).1 ∧
    (f (x a).1 (x a).2).2.SameLinks (g (y b).1 (y b).2).2
  rw [hfst]
  exact h' _ _ _ hsnd

theorem place (s s' : Option Span) (n : Node Index) :
    Lockstep (modifyGet (Tree.place s n)) (modifyGet (Tree.place s' n)) := by
  intro a b hab
  refine ⟨?_, ?_, ?_⟩
  · change (Tree.place s n a).1 = (Tree.place s' n b).1
    rw [Tree.place_fst, Tree.place_fst, hab.nodes]
  · change (Tree.place s n a).2.nodes = (Tree.place s' n b).2.nodes
    rw [Tree.nodes_place, Tree.nodes_place, hab.nodes]
  · change (Tree.place s n a).2.infos.map Info.parent = (Tree.place s' n b).2.infos.map Info.parent
    rw [Tree.map_parent_place, Tree.map_parent_place]
    simp only [Arena.add, Array.map_push, hab.nodes]
    rw [Arena.map_parent_foldl_adopt _ _ hab.parents]

end Lockstep

namespace Tree

/-- Two trees that are built in lockstep. -/
def Twin (t u : Tree) : Prop := Lockstep (build t) (build u)

theorem lockstep_buildChild {o o' : Option Tree} (h : Option.Rel Twin o o') :
    Lockstep (buildChild o) (buildChild o') := by
  cases h with
  | none => exact .pure none
  | some twin => exact twin

theorem lockstep_buildList {ts us : List (Option Tree)} (h : List.Forall₂ (Option.Rel Twin) ts us)
    (done : List Ref) : Lockstep (buildList done ts) (buildList done us) := by
  induction h generalizing done with
  | nil => exact .pure _
  | cons ho _ ih => exact (lockstep_buildChild ho).bind fun r => ih (r :: done)

theorem lockstep_buildNode {x y : Node Tree} (h : Node.Rel Twin x y) :
    Lockstep (buildNode x) (buildNode y) := by
  cases h with
  | program ts | block ts | variableStatement _ ts | other _ ts =>
    exact (lockstep_buildList ts []).bind fun _ => .pure _
  | variableDeclaration o o' | member _ o o' =>
    exact (lockstep_buildChild o).bind fun _ => (lockstep_buildChild o').bind fun _ => .pure _
  | identifier | literal => exact .pure _
  | function _ _ _ name parameters body =>
    exact (lockstep_buildChild name).bind fun _ => (lockstep_buildList parameters []).bind fun _ =>
      (lockstep_buildChild body).bind fun _ => .pure _
  | call _ callee arguments =>
    exact (lockstep_buildChild callee).bind fun _ => (lockstep_buildList arguments []).bind fun _ =>
      .pure _
  | expressionStatement o | returnStatement o =>
    exact (lockstep_buildChild o).bind fun _ => .pure _

/-- Spans make no difference to what is built in lockstep. -/
theorem twin_node {x y : Node Tree} (h : Node.Rel Twin x y) (span span' : Option Span) :
    Twin (.node span x) (.node span' y) :=
  (lockstep_buildNode h).bind fun n => .place span span' n

section Reading

variable {child : ChildReader} {m m' : Members}

theorem readNode_of_notMem {type : String} (h : type ∉ typedKinds) :
    readNode child type m = readHeld child m >>= fun ts => pure (.other type ts) := by
  unfold readNode
  split <;> first | rfl | exact absurd (by decide) h

theorem readNode_identifier : readNode child "Identifier" m =
    match (Json.lookup "name" m).bind Json.string? with
    | some name => pure (.identifier name)
    | none => throw (.unexpectedValue "name" .string) := rfl

theorem heldNodes_eq_nil {x : String × Json} (h : x.2.holdsNode = false) : heldNodes x = [] := by
  unfold heldNodes
  split
  · have hnone : List.filter isNodeObject _ = [] := List.filter_eq_nil_iff.2 (List.any_eq_false.1 h)
    rw [hnone, List.map_nil]
  · rename_i v hv
    have hnot : isNodeObject v = false := by
      cases v with
      | array items => exact (hv _ rfl).elim
      | _ => exact h
    simp [hnot]

/-- Members that hold no node add nothing to the children. -/
theorem flatMap_heldNodes_holders :
    (m.filter fun x => !skipped.contains x.1).flatMap heldNodes =
      (Json.holders m).flatMap heldNodes := by
  have hholders : Json.holders m =
      (m.filter fun x => !skipped.contains x.1).filter fun x => x.2.holdsNode := by
    rw [Json.holders, List.filter_filter]
    apply List.filter_congr
    intro x _
    have hskipped : skipped = Json.metadata := rfl
    simp [hskipped, Bool.and_comm]
  rw [hholders]
  exact (flatMap_filter_eq fun x hx => heldNodes_eq_nil hx).symm

theorem forall₂_heldNodes {x y : String × Json} (h : Json.AlikeField x y) :
    List.Forall₂ Json.AlikeField (heldNodes x) (heldNodes y) := by
  obtain ⟨alike⟩ := h
  cases alike with
  | same => exact List.forall₂_same.2 fun x _ => .mk (.same x.2)
  | array items =>
    refine List.rel_map (fun _ _ hvw => .mk hvw) (List.rel_filter ?_ items)
    intro v w hvw
    simp [hvw.isNodeObject_eq]
  | object left right members =>
    simpa [heldNodes, isNodeObject, left, right] using
      Json.AlikeField.mk (.object left right members)

/-- A reader treats alike values alike. -/
def Steady (child : ChildReader) : Prop :=
  ∀ field v w, Json.Alike v w → Agree (Option.Rel Twin) (child field v) (child field w)

theorem Steady.readField (hc : Steady child) {key : String}
    (h : Option.Rel Json.Alike (Json.lookup key m) (Json.lookup key m')) :
    Agree (Option.Rel Twin) (readField child m key) (readField child m' key) := by
  unfold Tree.readField
  generalize Json.lookup key m = o, Json.lookup key m' = o' at h
  cases h with
  | none => exact .ok .none
  | some alike => exact hc _ _ _ alike

theorem Steady.readList (hc : Steady child) {key : String}
    (h : Option.Rel Json.Alike (Json.lookup key m) (Json.lookup key m')) :
    Agree (List.Forall₂ (Option.Rel Twin)) (readList child m key) (readList child m' key) := by
  unfold Tree.readList
  generalize Json.lookup key m = o, Json.lookup key m' = o' at h
  cases h with
  | none => exact .ok .nil
  | @some v w alike =>
    cases alike.view with
    | plain untyped single =>
      cases v with
      | null => exact .ok .nil
      | array items => exact absurd rfl (single items)
      | _ => exact .error _
    | array items =>
      refine .mapM (List.rel_filter ?_ items) (hc key _ _)
      intro v w hvw
      simp [hvw.isNull_eq]
    | object => exact .error _

theorem Steady.readHeld (hc : Steady child)
    (h : List.Forall₂ Json.AlikeField (Json.holders m) (Json.holders m')) :
    Agree (List.Forall₂ (Option.Rel Twin)) (readHeld child m) (readHeld child m') := by
  have hnodes : List.Forall₂ Json.AlikeField ((Json.holders m).flatMap heldNodes)
      ((Json.holders m').flatMap heldNodes) :=
    List.rel_flatMap h fun _ _ hxy => forall₂_heldNodes hxy
  unfold Tree.readHeld
  rw [flatMap_heldNodes_holders, flatMap_heldNodes_holders]
  refine .mapM hnodes ?_
  rintro _ _ ⟨alike⟩
  exact hc _ _ _ alike

theorem Steady.readFunction (hc : Steady child) (form : FunctionForm)
    (own : ∀ key ∈ Json.ownFields (functionType form), Json.lookup key m = Json.lookup key m')
    (children : ∀ field ∈ childFields (functionType form),
      Option.Rel Json.Alike (Json.lookup field.key m) (Json.lookup field.key m')) :
    Agree (Node.Rel Twin) (readFunction child m form) (readFunction child m' form) := by
  have hown : Json.ownFields (functionType form) = ["async", "generator"] := by cases form <;> rfl
  have hfields : childFields (functionType form) = [.one "id", .many "params", .one "body"] := by
    cases form <;> rfl
  rw [hown] at own
  rw [hfields] at children
  have hasync : flag m "async" = flag m' "async" := by rw [flag, flag, own _ (by simp)]
  have hgenerator : flag m "generator" = flag m' "generator" := by
    rw [flag, flag, own _ (by simp)]
  unfold Tree.readFunction
  rw [hasync, hgenerator]
  refine (hc.readField (children (.one "id") (by simp))).bind fun hname => ?_
  refine (hc.readList (children (.many "params") (by simp))).bind fun hparameters => ?_
  refine (hc.readField (children (.one "body") (by simp))).bind fun hbody => ?_
  exact .ok (.function form _ _ hname hparameters hbody)

/-- From two node objects of one type with alike members, the same node is read but for the subtrees, and
those are built in lockstep. -/
theorem Steady.readNode (hc : Steady child) {type : String} (h : Json.AlikeIn type m m') :
    Agree (Node.Rel Twin) (readNode child type m) (readNode child type m') := by
  cases h with
  | typed known own children =>
    have one : ∀ key, .one key ∈ childFields type →
        Agree (Option.Rel Twin) (Tree.readField child m key) (Tree.readField child m' key) :=
      fun key h => hc.readField (children _ h)
    have many : ∀ key, .many key ∈ childFields type →
        Agree (List.Forall₂ (Option.Rel Twin)) (Tree.readList child m key)
          (Tree.readList child m' key) :=
      fun key h => hc.readList (children _ h)
    have hflag : ∀ key ∈ Json.ownFields type, flag m key = flag m' key := by
      intro key h
      rw [flag, flag, own key h]
    -- The fields are read in the order of the type, not of the members, so the first error is the same.
    simp only [typedKinds, List.mem_cons, List.not_mem_nil, or_false] at known
    rcases known with rfl | rfl | rfl | rfl | rfl | rfl | rfl | rfl | rfl | rfl | rfl | rfl | rfl | rfl
    · exact (many "body" (by simp [childFields])).bind fun hts => .ok (.program hts)
    · exact (many "body" (by simp [childFields])).bind fun hts => .ok (.block hts)
    · exact (many "body" (by simp [childFields])).bind fun hts => .ok (.block hts)
    · have hkind : readKind m = readKind m' := by
        rw [readKind, readKind, own "kind" (by simp [Json.ownFields])]
      refine (Agree.of_eq hkind).bind ?_
      rintro kind _ rfl
      exact (many "declarations" (by simp [childFields])).bind fun hts =>
        .ok (.variableStatement kind hts)
    · exact (one "id" (by simp [childFields])).bind fun hname =>
        (one "init" (by simp [childFields])).bind fun hinit => .ok (.variableDeclaration hname hinit)
    · rw [readNode_identifier, readNode_identifier, own "name" (by simp [Json.ownFields])]
      cases (Json.lookup "name" m').bind Json.string? with
      | none => exact .error _
      | some name => exact .ok (.identifier name)
    · exact hc.readFunction .declaration own children
    · exact hc.readFunction .expression own children
    · exact hc.readFunction .arrow own children
    · refine (one "callee" (by simp [childFields])).bind fun hcallee =>
        (many "arguments" (by simp [childFields])).bind fun hts => .ok ?_
      rw [hflag "optional" (by simp [Json.ownFields])]
      exact .call _ hcallee hts
    · refine (one "object" (by simp [childFields])).bind fun hobject =>
        (one "property" (by simp [childFields])).bind fun hproperty => .ok ?_
      rw [hflag "computed" (by simp [Json.ownFields])]
      exact .member _ hobject hproperty
    · exact (one "expression" (by simp [childFields])).bind fun hx => .ok (.expressionStatement hx)
    · exact (one "argument" (by simp [childFields])).bind fun hx => .ok (.returnStatement hx)
    · refine .ok (?_ : Node.Rel Twin (.literal (literalText m)) (.literal (literalText m')))
      rw [literalText, literalText, own "raw" (by simp [Json.ownFields]),
        own "value" (by simp [Json.ownFields])]
      exact .literal _
  | generic unknown held =>
    rw [readNode_of_notMem unknown, readNode_of_notMem unknown]
    exact (hc.readHeld held).bind fun hts => .ok (.other type hts)

theorem steady_readChild {below : Option ChildReader} (hb : ∀ child ∈ below, Steady child) :
    Steady (readChild below) := by
  intro field v w alike
  cases alike.view with
  | plain untyped single =>
    cases v with
    | null => exact .ok .none
    | object members =>
      have htype : typeName? members = none := untyped
      simp only [readChild, htype]
      exact .error _
    | _ => exact .error _
  | array => exact .error _
  | object left right members =>
    simp only [readChild, left, right]
    cases below with
    | none => exact .error _
    | some child =>
      exact ((hb child rfl).readNode members).bind fun hnode => .ok (.some (twin_node hnode _ _))

theorem steady_read (levels : Nat) : Steady (read levels) := by
  induction levels with
  | zero => exact steady_readChild (by simp)
  | succ levels ih => exact steady_readChild (by simpa using ih)

end Reading

end Tree

theorem Json.Alike.isProgram_eq {v w : Json} (h : v.Alike w) : isProgram v = isProgram w := by
  cases h with
  | same => rfl
  | array => rfl
  | object left right => simp [isProgram, left, right]

theorem Json.Alike.rootFound_eq {v w : Json} (h : v.Alike w) : rootFound v = rootFound w := by
  cases h with
  | same => rfl
  | array => rfl
  | object left right => simp [rootFound, left, right]

theorem agree_programTree {v w : Json} (h : v.Alike w) :
    Agree Tree.Twin (programTree v) (programTree w) := by
  have hread := Tree.steady_read maxLevels "program" v w h
  unfold programTree
  rw [h.isProgram_eq, h.rootFound_eq]
  split
  · generalize Tree.read maxLevels "program" v = x, Tree.read maxLevels "program" w = y at hread
    cases hread with
    | error e => exact .error e
    | ok related =>
      cases related with
      | none => exact .error _
      | some twin => exact .ok twin
  · exact .error _

/-- Two documents that differ only in what is not structure are imported alike: with the same error, or
with the same root, the same nodes and the same parent links. -/
theorem importProgram_alike {v w : Json} (h : v.Alike w) :
    Agree (fun (x y : Arena × Ref) => x.2 = y.2 ∧ x.1.nodes = y.1.nodes ∧
      x.1.infos.map Info.parent = y.1.infos.map Info.parent) (importProgram v) (importProgram w) := by
  have htree := agree_programTree h
  unfold importProgram
  generalize programTree v = x, programTree w = y at htree
  cases htree with
  | error e => exact .error e
  | ok twin =>
    obtain ⟨hroot, hlinks⟩ := twin .empty .empty ⟨rfl, rfl⟩
    exact .ok ⟨hroot, hlinks.nodes, hlinks.parents⟩

namespace Sample

/-- `if (x) f();` -/
def conditionalCall : Json :=
  node "Program" [("body", .array [node "IfStatement"
    [("test", identifier "x"), ("consequent", callStatement (identifier "f"))]])]

/-- The same with offsets, a comment, a token and more fields, the members in another order. -/
def annotatedCall : Json :=
  .object [("tokens", .array [identifier "if"]), ("sourceType", .string "module"),
    ("body", .array [.object [("comments", .array [node "Line" []]), ("start", .int 0),
      ("test", .object [("name", .string "x"), ("range", .array [.int 4, .int 5]),
        ("type", .string "Identifier")]),
      ("labels", .array [.null]), ("type", .string "IfStatement"), ("end", .int 11),
      ("consequent", callStatement (identifier "f"))]]),
    ("type", .string "Program")]

theorem conditionalCall_alike : conditionalCall.Alike annotatedCall := by
  refine .object rfl rfl (.typed (by decide) (by simp [Json.ownFields]) ?_)
  intro field hfield
  obtain rfl := List.mem_singleton.1 hfield
  refine .some (.array (.cons (.object rfl rfl (.generic (by decide) ?_)) .nil))
  refine .cons (.mk (.object rfl rfl (.typed (by decide) ?_ ?_))) (.cons (.mk (.same _)) .nil)
  · intro key hkey
    obtain rfl := List.mem_singleton.1 hkey
    rfl
  · intro field hfield
    cases hfield

end Sample

/-- The two documents give the same nodes and links. The identifier `x` has different spans. -/
theorem importProgram_alike_annotatedCall :
    ∃ a b root, importProgram Sample.conditionalCall = .ok (a, root) ∧
      importProgram Sample.annotatedCall = .ok (b, root) ∧ a.size = 6 ∧ a.nodes = b.nodes ∧
      a.infos.map Info.parent = b.infos.map Info.parent ∧
      a.span? (some 0) = some ⟨0, 0⟩ ∧ b.span? (some 0) = some ⟨4, 5⟩ := by
  have hplain : (importProgram Sample.conditionalCall).map (fun p => (p.1.size, p.1.span? (some 0))) =
      .ok (6, some ⟨0, 0⟩) := by
    decide +kernel
  have hannotated : (importProgram Sample.annotatedCall).map (fun p => p.1.span? (some 0)) =
      .ok (some ⟨4, 5⟩) := by
    decide +kernel
  obtain ⟨⟨a, root⟩, ha, hp⟩ := exists_ok_of_map hplain
  obtain ⟨⟨b, root'⟩, hb, hspan⟩ := exists_ok_of_map hannotated
  obtain ⟨hsize, hspan'⟩ := Prod.mk.inj hp
  have hagree := importProgram_alike Sample.conditionalCall_alike
  rw [ha, hb] at hagree
  cases hagree with
  | ok related =>
    obtain ⟨rfl, hnodes, hparents⟩ := related
    exact ⟨a, b, _, ha, hb, hsize, hnodes, hparents, hspan', hspan⟩

end CallTrace
