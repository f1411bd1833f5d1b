import CallTrace.Import
import CallTrace.Proofs.Shape

/-!
What a document must look like for a tree to be read from it.

`Tree.Shaped` says, for each type of node object, which node is read from it and from which values its
children are read; `Tree.Reads` is reading itself, whatever the field. Everything else about reading
(no more levels than allowed, no absent listed child, more levels do no harm) follows from the two.
-/
namespace CallTrace

section Results

variable {ε α β : Type}

theorem ok_of_bind {x : Except ε α} {f : α → Except ε β} {b : β} (h : x >>= f = .ok b) :
    ∃ a, x = .ok a ∧ f a = .ok b := by
  cases x with
  | error e => cases h
  | ok a => exact ⟨a, rfl, h⟩

theorem forall₂_of_mapM_ok {f : α → Except ε β} {xs : List α} {ys : List β}
    (h : xs.mapM f = .ok ys) : List.Forall₂ (fun x y => f x = .ok y) xs ys := by
  induction xs generalizing ys with
  | nil =>
    cases h
    exact .nil
  | cons x xs ih =>
    rw [List.mapM_cons] at h
    obtain ⟨y, hy, h⟩ := ok_of_bind h
    obtain ⟨ys, hys, h⟩ := ok_of_bind h
    cases h
    exact .cons hy (ih hys)

theorem exists_of_forall₂_right {R : α → β → Prop} {xs : List α} {ys : List β}
    (h : List.Forall₂ R xs ys) {y : β} (hy : y ∈ ys) : ∃ x ∈ xs, R x y := by
  induction h with
  | nil => simp at hy
  | cons hxy _ ih =>
    rcases List.mem_cons.1 hy with rfl | hy
    · exact ⟨_, List.mem_cons_self, hxy⟩
    · obtain ⟨x, hx, hr⟩ := ih hy
      exact ⟨x, List.mem_cons_of_mem _ hx, hr⟩

/-- One result holds at least as often as another. -/
def OkLe (x y : Except ε α) : Prop := ∀ a, x = .ok a → y = .ok a

theorem OkLe.refl (x : Except ε α) : OkLe x x := fun _ h => h

theorem OkLe.bind {x y : Except ε α} {f g : α → Except ε β} (h : OkLe x y)
    (h' : ∀ a, OkLe (f a) (g a)) : OkLe (x >>= f) (y >>= g) := by
  intro b hb
  obtain ⟨a, hx, hf⟩ := ok_of_bind hb
  rw [h a hx]
  exact h' a b hf

theorem OkLe.mapM {f g : α → Except ε β} (h : ∀ x, OkLe (f x) (g x)) (xs : List α) :
    OkLe (xs.mapM f) (xs.mapM g) := by
  induction xs with
  | nil => exact .refl _
  | cons x xs ih =>
    rw [List.mapM_cons, List.mapM_cons]
    exact (h x).bind fun y => ih.bind fun ys => .refl _

end Results

namespace Json

def oneAt (members : List (String × Json)) (key : String) : List Json :=
  (lookup key members).toList.filter fun v => !v.isNull

def manyAt (members : List (String × Json)) (key : String) : List Json :=
  match lookup key members with
  | some (.array items) => items.filter fun v => !v.isNull
  | _ => []

/-- The node objects in a node of no particular kind. -/
def held (members : List (String × Json)) : List Json :=
  ((members.filter fun m => !Tree.skipped.contains m.1).flatMap Tree.heldNodes).map (·.2)

end Json

namespace Tree

def typedKinds : List String :=
  ["Program", "BlockStatement", "StaticBlock", "VariableDeclaration", "VariableDeclarator",
    "Identifier", "FunctionDeclaration", "FunctionExpression", "ArrowFunctionExpression",
    "CallExpression", "MemberExpression", "ExpressionStatement", "ReturnStatement", "Literal"]

def functionType : FunctionForm → String
  | .declaration => "FunctionDeclaration"
  | .expression => "FunctionExpression"
  | .arrow => "ArrowFunctionExpression"

variable (R : Json → Tree → Prop) (members : Members)

def Single (key : String) (o : Option Tree) : Prop := List.Forall₂ R (Json.oneAt members key) o.toList

/-- A list without absent children, read by `R` from values. -/
structure Listed (values : List Json) (ts : List (Option Tree)) : Prop where
  full : none ∉ ts
  reads : List.Forall₂ R values ts.reduceOption

/-- The nodes that are read from a node object of a type, its children by `R`. -/
inductive Shaped : String → Node Tree → Prop
  | program {ts : List (Option Tree)} (statements : Listed R (Json.manyAt members "body") ts) :
      Shaped "Program" (.program ts)
  | block {type : String} {ts : List (Option Tree)}
      (known : type = "BlockStatement" ∨ type = "StaticBlock")
      (statements : Listed R (Json.manyAt members "body") ts) : Shaped type (.block ts)
  | variableStatement {kind : VariableKind} {ts : List (Option Tree)}
      (keyword : readKind members = .ok kind)
      (declarations : Listed R (Json.manyAt members "declarations") ts) :
      Shaped "VariableDeclaration" (.variableStatement kind ts)
  | variableDeclaration {x y : Option Tree} (name : Single R members "id" x)
      (initializer : Single R members "init" y) :
      Shaped "VariableDeclarator" (.variableDeclaration x y)
  | identifier {text : String}
      (name : (Json.lookup "name" members).bind Json.string? = some text) :
      Shaped "Identifier" (.identifier text)
  | function (form : FunctionForm) {x y : Option Tree} {ts : List (Option Tree)}
      (name : Single R members "id" x) (parameters : Listed R (Json.manyAt members "params") ts)
      (body : Single R members "body" y) :
      Shaped (functionType form)
        (.function form x ts y (flag members "async") (flag members "generator"))
  | call {x : Option Tree} {ts : List (Option Tree)} (callee : Single R members "callee" x)
      (arguments : Listed R (Json.manyAt members "arguments") ts) :
      Shaped "CallExpression" (.call x ts (flag members "optional"))
  | member {x y : Option Tree} (object : Single R members "object" x)
      (property : Single R members "property" y) :
      Shaped "MemberExpression" (.member x y (flag members "computed"))
  | expressionStatement {x : Option Tree} (expression : Single R members "expression" x) :
      Shaped "ExpressionStatement" (.expressionStatement x)
  | returnStatement {x : Option Tree} (argument : Single R members "argument" x) :
      Shaped "ReturnStatement" (.returnStatement x)
  | literal : Shaped "Literal" (.literal (literalText members))
  | other {type : String} {ts : List (Option Tree)} (unknown : type ∉ typedKinds)
      (children : Listed R (Json.held members) ts) : Shaped type (.other type ts)

/-- Children are read by `R`, and only null is read as no child. -/
structure ReadsBy (R : Json → Tree → Prop) (child : ChildReader) : Prop where
  reads : ∀ {field v t}, child field v = .ok (some t) → R v t
  null : ∀ {field v}, child field v = .ok none ↔ v = .null

variable {R members} {child : ChildReader}

theorem ReadsBy.single (hc : ReadsBy R child) {key : String} {o : Option Tree}
    (h : readField child members key = .ok o) : Single R members key o := by
  unfold readField at h
  unfold Single Json.oneAt
  cases hv : Json.lookup key members with
  | none =>
    rw [hv] at h
    cases h
    simp
  | some v =>
    rw [hv] at h
    cases o with
    | none =>
      obtain rfl := hc.null.1 h
      simp [Json.isNull]
    | some t =>
      have hn : v.isNull = false := by
        cases v with
        | null => simp [hc.null.2 rfl] at h
        | _ => rfl
      simpa [hn] using hc.reads h

theorem ReadsBy.listed (hc : ReadsBy R child) (keyed : List (String × Json))
    (there : ∀ m ∈ keyed, m.2.isNull = false) {ts : List (Option Tree)}
    (h : keyed.mapM (fun m => child m.1 m.2) = .ok ts) : Listed R (keyed.map (·.2)) ts := by
  have hall := forall₂_of_mapM_ok h
  clear h
  induction hall with
  | nil => exact ⟨by simp, by simp⟩
  | @cons m o keyed ts hm _ ih =>
    have hrest := ih fun m hm => there m (List.mem_cons_of_mem _ hm)
    cases o with
    | none =>
      have := there m List.mem_cons_self
      simp [hc.null.1 hm, Json.isNull] at this
    | some t => exact ⟨by simpa using hrest.full, .cons (hc.reads hm) hrest.reads⟩

theorem ReadsBy.listed_of_readList (hc : ReadsBy R child) {key : String} {ts : List (Option Tree)}
    (h : readList child members key = .ok ts) : Listed R (Json.manyAt members key) ts := by
  unfold readList at h
  unfold Json.manyAt
  split at h
  · rename_i hv
    cases h
    rw [hv]
    exact ⟨by simp, by simp⟩
  · rename_i hv
    cases h
    rw [hv]
    exact ⟨by simp, by simp⟩
  · rename_i items hv
    have there : ∀ m ∈ (items.filter fun v => !v.isNull).map (fun v => (key, v)),
        m.2.isNull = false := by
      intro m hm
      obtain ⟨v, hv, rfl⟩ := List.mem_map.1 hm
      simpa using (List.mem_filter.1 hv).2
    have hlist := hc.listed _ there (by rw [List.mapM_map]; exact h)
    rw [hv]
    simpa [Function.comp_def] using hlist
  · cases h

theorem isNull_of_isNodeObject {v : Json} (h : isNodeObject v = true) : v.isNull = false := by
  cases v <;> simp_all [isNodeObject, Json.isNull]

theorem isNodeObject_of_mem_heldNodes {m m' : String × Json} (h : m' ∈ heldNodes m) :
    isNodeObject m'.2 = true := by
  unfold heldNodes at h
  split at h
  · obtain ⟨v, hv, rfl⟩ := List.mem_map.1 h
    exact (List.mem_filter.1 hv).2
  · split at h
    · obtain rfl := List.mem_singleton.1 h
      assumption
    · simp at h

theorem ReadsBy.listed_of_readHeld (hc : ReadsBy R child) {ts : List (Option Tree)}
    (h : readHeld child members = .ok ts) : Listed R (Json.held members) ts := by
  refine hc.listed _ ?_ h
  intro m hm
  obtain ⟨m', -, hm⟩ := List.mem_flatMap.1 hm
  exact isNull_of_isNodeObject (isNodeObject_of_mem_heldNodes hm)

theorem ReadsBy.function (hc : ReadsBy R child) (form : FunctionForm) {shape : Node Tree}
    (h : readFunction child members form = .ok shape) :
    Shaped R members (functionType form) shape := by
  obtain ⟨name, hname, h⟩ := ok_of_bind h
  obtain ⟨parameters, hparameters, h⟩ := ok_of_bind h
  obtain ⟨body, hbody, h⟩ := ok_of_bind h
  cases h
  exact .function form (hc.single hname) (hc.listed_of_readList hparameters) (hc.single hbody)

theorem ReadsBy.shaped (hc : ReadsBy R child) {type : String} {shape : Node Tree}
    (h : readNode child type members = .ok shape) : Shaped R members type shape := by
  unfold readNode at h
  split at h
  · obtain ⟨ts, hts, h⟩ := ok_of_bind h
    cases h
    exact .program (hc.listed_of_readList hts)
  · obtain ⟨ts, hts, h⟩ := ok_of_bind h
    cases h
    exact .block (.inl rfl) (hc.listed_of_readList hts)
  · obtain ⟨ts, hts, h⟩ := ok_of_bind h
    cases h
    exact .block (.inr rfl) (hc.listed_of_readList hts)
  · obtain ⟨kind, hkind, h⟩ := ok_of_bind h
    obtain ⟨ts, hts, h⟩ := ok_of_bind h
    cases h
    exact .variableStatement hkind (hc.listed_of_readList hts)
  · obtain ⟨x, hx, h⟩ := ok_of_bind h
    obtain ⟨y, hy, h⟩ := ok_of_bind h
    cases h
    exact .variableDeclaration (hc.single hx) (hc.single hy)
  · split at h
    · rename_i name hname
      cases h
      exact .identifier hname
    · cases h
  · exact hc.function .declaration h
  · exact hc.function .expression h
  · exact hc.function .arrow h
  · obtain ⟨x, hx, h⟩ := ok_of_bind h
    obtain ⟨ts, hts, h⟩ := ok_of_bind h
    cases h
    exact .call (hc.single hx) (hc.listed_of_readList hts)
  · obtain ⟨x, hx, h⟩ := ok_of_bind h
    obtain ⟨y, hy, h⟩ := ok_of_bind h
    cases h
    exact .member (hc.single hx) (hc.single hy)
  · obtain ⟨x, hx, h⟩ := ok_of_bind h
    cases h
    exact .expressionStatement (hc.single hx)
  · obtain ⟨x, hx, h⟩ := ok_of_bind h
    cases h
    exact .returnStatement (hc.single hx)
  · cases h
    exact .literal
  · obtain ⟨ts, hts, h⟩ := ok_of_bind h
    cases h
    refine .other ?_ (hc.listed_of_readHeld hts)
    simp only [typedKinds, List.mem_cons, List.not_mem_nil, or_false, not_or]
    refine ⟨?_, ?_, ?_, ?_, ?_, ?_, ?_, ?_, ?_, ?_, ?_, ?_, ?_, ?_⟩ <;> assumption

/-- A tree is read from a value, with at most the given number of levels. -/
def Reads (levels : Nat) (v : Json) (t : Tree) : Prop := ∃ field, read levels field v = .ok (some t)

theorem readChild_eq_ok_none {below : Option ChildReader} {field : String} {v : Json} :
    readChild below field v = .ok none ↔ v = .null := by
  cases v with
  | null => simp [readChild]
  | object members =>
    simp only [readChild]
    split
    · simp
    · simp
    · simp only [reduceCtorEq, iff_false]
      intro h
      obtain ⟨shape, -, h⟩ := ok_of_bind h
      cases h
  | _ => simp [readChild]

theorem readsBy_read (levels : Nat) : ReadsBy (Reads levels) (read levels) where
  reads h := ⟨_, h⟩
  null := by
    intro field v
    cases levels <;> exact readChild_eq_ok_none

theorem Reads.readNode_eq {levels : Nat} {v : Json} {t : Tree} (h : Reads levels v t) :
    ∃ l members type, levels = l + 1 ∧ v = .object members ∧ typeName? members = some type ∧
      t.span = span? members ∧ readNode (read l) type members = .ok t.shape := by
  obtain ⟨field, h⟩ := h
  cases v with
  | object members =>
    cases htype : typeName? members with
    | none => cases levels <;> simp [read, readChild, htype] at h
    | some type =>
      cases levels with
      | zero => simp [read, readChild, htype] at h
      | succ l =>
        simp only [read, readChild, htype] at h
        obtain ⟨shape, hshape, h⟩ := ok_of_bind h
        cases h
        exact ⟨l, members, type, rfl, rfl, htype, rfl, hshape⟩
  | null => cases levels <;> simp [read, readChild] at h
  | _ => cases levels <;> simp [read, readChild] at h

/-- What a tree is read from: an object of a type, whose children are read one level below. -/
theorem Reads.object {levels : Nat} {v : Json} {t : Tree} (h : Reads levels v t) :
    ∃ l members type, levels = l + 1 ∧ v = .object members ∧ typeName? members = some type ∧
      t.span = span? members ∧ Shaped (Reads l) members type t.shape := by
  obtain ⟨l, members, type, hl, hv, htype, hspan, hshape⟩ := h.readNode_eq
  exact ⟨l, members, type, hl, hv, htype, hspan, (readsBy_read l).shaped hshape⟩

/-- The statements of a program or block are read from the list in its `body`. -/
theorem Reads.readList_eq {levels : Nat} {members : Members} {t : Tree} {ts : List (Option Tree)}
    (h : Reads levels (.object members) t) (hs : t.shape.statements? = some ts) :
    ∃ l, l < levels ∧ readList (read l) members "body" = .ok ts := by
  obtain ⟨l, members', type, rfl, hv, -, -, hread⟩ := h.readNode_eq
  cases hv
  refine ⟨l, by omega, ?_⟩
  have hshaped := (readsBy_read l).shaped hread
  generalize t.shape = shape at hs hread hshaped
  cases hshaped with
  | program =>
    obtain ⟨ts', hts, hread⟩ := ok_of_bind hread
    cases hread
    cases hs
    exact hts
  | block known =>
    rcases known with rfl | rfl
    all_goals
      obtain ⟨ts', hts, hread⟩ := ok_of_bind hread
      cases hread
      cases hs
      exact hts
  | _ => cases hs

section MoreLevels

variable {child child' : ChildReader} (h : ∀ field v, OkLe (child field v) (child' field v))
include h

theorem readField_le (key : String) :
    OkLe (readField child members key) (readField child' members key) := by
  unfold readField
  split
  · exact h _ _
  · exact .refl _

theorem readList_le (key : String) :
    OkLe (readList child members key) (readList child' members key) := by
  unfold readList
  split
  · exact .refl _
  · exact .refl _
  · exact .mapM (h key) _
  · exact .refl _

theorem readFunction_le (form : FunctionForm) :
    OkLe (readFunction child members form) (readFunction child' members form) :=
  (readField_le h "id").bind fun _ => (readList_le h "params").bind fun _ =>
    (readField_le h "body").bind fun _ => .refl _

theorem readNode_le (type : String) :
    OkLe (readNode child type members) (readNode child' type members) := by
  unfold readNode
  split
  · exact (readList_le h "body").bind fun _ => .refl _
  · exact (readList_le h "body").bind fun _ => .refl _
  · exact (readList_le h "body").bind fun _ => .refl _
  · exact (OkLe.refl _).bind fun _ => (readList_le h "declarations").bind fun _ => .refl _
  · exact (readField_le h "id").bind fun _ => (readField_le h "init").bind fun _ => .refl _
  · exact .refl _
  · exact readFunction_le h .declaration
  · exact readFunction_le h .expression
  · exact readFunction_le h .arrow
  · exact (readField_le h "callee").bind fun _ => (readList_le h "arguments").bind fun _ => .refl _
  · exact (readField_le h "object").bind fun _ => (readField_le h "property").bind fun _ => .refl _
  · exact (readField_le h "expression").bind fun _ => .refl _
  · exact (readField_le h "argument").bind fun _ => .refl _
  · exact .refl _
  · exact (OkLe.mapM (fun m : String × Json => h m.1 m.2) _).bind fun _ => .refl _

theorem readChild_le (field : String) (v : Json) :
    OkLe (readChild (some child) field v) (readChild (some child') field v) := by
  cases v with
  | object members =>
    cases htype : typeName? members with
    | none => simpa [readChild, htype] using OkLe.refl _
    | some type =>
      simp only [readChild, htype]
      exact (readNode_le h type).bind fun _ => .refl _
  | _ => exact .refl _

end MoreLevels

theorem read_le_succ (levels : Nat) (field : String) (v : Json) :
    OkLe (read levels field v) (read (levels + 1) field v) := by
  induction levels generalizing field v with
  | zero =>
    cases v with
    | object members =>
      cases htype : typeName? members with
      | none => simpa [read, readChild, htype] using OkLe.refl _
      | some type =>
        intro r hr
        simp [read, readChild, htype] at hr
    | _ => exact .refl _
  | succ levels ih => exact readChild_le ih field v

theorem read_le {l m : Nat} (h : l ≤ m) (field : String) (v : Json) :
    OkLe (read l field v) (read m field v) := by
  induction h with
  | refl => exact .refl _
  | step _ ih => exact fun r hr => read_le_succ _ field v r (ih r hr)

theorem Reads.mono {l m : Nat} (h : l ≤ m) {v : Json} {t : Tree} (hr : Reads l v t) :
    Reads m v t := by
  obtain ⟨field, hr⟩ := hr
  exact ⟨field, read_le h field v _ hr⟩

theorem Single.mono {R' : Json → Tree → Prop} (h : ∀ {v t}, R v t → R' v t) {key : String}
    {o : Option Tree} (ho : Single R members key o) : Single R' members key o :=
  List.Forall₂.imp (fun _ _ => h) ho

theorem Listed.mono {R' : Json → Tree → Prop} (h : ∀ {v t}, R v t → R' v t) {values : List Json}
    {ts : List (Option Tree)} (hts : Listed R values ts) : Listed R' values ts :=
  ⟨hts.full, hts.reads.imp fun _ _ => h⟩

theorem Shaped.mono {R' : Json → Tree → Prop} (h : ∀ {v t}, R v t → R' v t) {type : String}
    {shape : Node Tree} (hs : Shaped R members type shape) : Shaped R' members type shape := by
  cases hs with
  | program ts => exact .program (ts.mono h)
  | block known ts => exact .block known (ts.mono h)
  | variableStatement keyword ts => exact .variableStatement keyword (ts.mono h)
  | variableDeclaration x y => exact .variableDeclaration (x.mono h) (y.mono h)
  | identifier name => exact .identifier name
  | function form x ts y => exact .function form (x.mono h) (ts.mono h) (y.mono h)
  | call x ts => exact .call (x.mono h) (ts.mono h)
  | member x y => exact .member (x.mono h) (y.mono h)
  | expressionStatement x => exact .expressionStatement (x.mono h)
  | returnStatement x => exact .returnStatement (x.mono h)
  | literal => exact .literal
  | other unknown ts => exact .other unknown (ts.mono h)

theorem Reads.induct {P : Nat → Json → Tree → Prop}
    (step : ∀ {l : Nat} {members : Members} {type : String} {t : Tree},
      typeName? members = some type → t.span = span? members →
      Shaped (fun v c => Reads l v c ∧ P l v c) members type t.shape →
      P (l + 1) (.object members) t)
    {levels : Nat} {v : Json} {t : Tree} (h : Reads levels v t) : P levels v t := by
  induction levels generalizing v t with
  | zero =>
    obtain ⟨l, -, -, hl, -⟩ := h.object
    omega
  | succ levels ih =>
    obtain ⟨l, members, type, hl, rfl, htype, hspan, hshape⟩ := h.object
    obtain rfl : levels = l := by omega
    exact step htype hspan (hshape.mono fun hv => ⟨hv, ih hv⟩)

inductive ChildField where
  | one (key : String)
  | many (key : String)

/-- The fields with children of a type that is read field by field, in the order of reading. -/
def childFields : String → List ChildField
  | "Program" | "BlockStatement" | "StaticBlock" => [.many "body"]
  | "VariableDeclaration" => [.many "declarations"]
  | "VariableDeclarator" => [.one "id", .one "init"]
  | "FunctionDeclaration" | "FunctionExpression" | "ArrowFunctionExpression" =>
    [.one "id", .many "params", .one "body"]
  | "CallExpression" => [.one "callee", .many "arguments"]
  | "MemberExpression" => [.one "object", .one "property"]
  | "ExpressionStatement" => [.one "expression"]
  | "ReturnStatement" => [.one "argument"]
  | _ => []

def ChildField.values (members : Members) : ChildField → List Json
  | .one key => Json.oneAt members key
  | .many key => Json.manyAt members key

/-- The values from which the children of a node object are read, in order. -/
def childValues (type : String) (members : Members) : List Json :=
  if type ∈ typedKinds then (childFields type).flatMap (ChildField.values members)
  else Json.held members

theorem Shaped.reads {type : String} {shape : Node Tree} (h : Shaped R members type shape) :
    List.Forall₂ R (childValues type members) shape.present := by
  have fields : type ∈ typedKinds →
      childValues type members = (childFields type).flatMap (ChildField.values members) :=
    fun ht => if_pos ht
  cases h with
  | program statements =>
    rw [fields (by decide)]
    simpa [childFields, ChildField.values, Node.present, Node.children] using statements.reads
  | block known statements =>
    rcases known with rfl | rfl <;> rw [fields (by decide)] <;>
      simpa [childFields, ChildField.values, Node.present, Node.children] using statements.reads
  | variableStatement keyword declarations =>
    rw [fields (by decide)]
    simpa [childFields, ChildField.values, Node.present, Node.children] using declarations.reads
  | variableDeclaration first second | member first second =>
    rw [fields (by decide)]
    simpa [childFields, ChildField.values, Node.present, Node.children, List.reduceOption_append]
      using List.rel_append first second
  | identifier =>
    rw [fields (by decide)]
    exact .nil
  | function form name parameters body =>
    have hf : functionType form ∈ typedKinds := by cases form <;> decide
    have hc : childFields (functionType form) = [.one "id", .many "params", .one "body"] := by
      cases form <;> rfl
    rw [fields hf, hc]
    simpa [ChildField.values, Node.present, Node.children, List.reduceOption_append]
      using List.rel_append name (List.rel_append parameters.reads body)
  | call callee arguments =>
    rw [fields (by decide)]
    simpa [childFields, ChildField.values, Node.present, Node.children, List.reduceOption_append]
      using List.rel_append callee arguments.reads
  | expressionStatement x | returnStatement x =>
    rw [fields (by decide)]
    simpa [childFields, ChildField.values, Node.present, Node.children, Single] using x
  | literal =>
    rw [fields (by decide)]
    exact .nil
  | other unknown children =>
    rw [childValues, if_neg unknown]
    simpa [Node.present, Node.children] using children.reads

theorem Shaped.full {type : String} {shape : Node Tree} (h : Shaped R members type shape) :
    none ∉ shape.children := by
  have single : ∀ o : Option Tree, none ∉ Node.single o := by
    intro o
    cases o <;> simp [Node.single]
  cases h with
  | program ts | block _ ts | variableStatement _ ts => exact ts.full
  | variableDeclaration | member | expressionStatement | returnStatement =>
    simp [Node.children, single]
  | function _ _ ts _ | call _ ts => simpa [Node.children, single] using ts.full
  | identifier | literal => simp [Node.children]
  | other _ ts => simp [Node.children]

theorem Reads.height_le {levels : Nat} {v : Json} {t : Tree} (h : Reads levels v t) :
    t.height ≤ levels := by
  refine h.induct (P := fun levels _ t => t.height ≤ levels) fun _ _ hshape => ?_
  rw [height_le_succ_iff]
  intro c hc
  obtain ⟨v, -, -, hv⟩ := exists_of_forall₂_right hshape.reads hc
  exact hv

theorem Reads.full {levels : Nat} {v : Json} {t : Tree} (h : Reads levels v t) : t.Full := by
  refine h.induct (P := fun _ _ t => t.Full) fun _ _ hshape => ⟨hshape.full, ?_⟩
  intro c hc
  obtain ⟨v, -, -, hv⟩ := exists_of_forall₂_right hshape.reads hc
  exact hv

end Tree

end CallTrace
