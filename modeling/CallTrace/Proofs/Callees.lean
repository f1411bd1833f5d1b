import CallTrace.Proofs.Agreement
import CallTrace.Proofs.Nesting

/-!
What a resolved callee refers to.

Both ways to resolve a callee end at a function expression that has a body, and they give this body. In an
imported program it is the node for the `body` of the function's object. Any node object can stand there:
the body is a block if its object says so, and else whatever the object is.
-/
namespace CallTrace

namespace Arena

variable {a : Arena}

/-- The second node is the body of the first, which is a function expression. -/
def ExpressionBody (a : Arena) (f b : Index) : Prop :=
  ∃ name parameters isAsync isGenerator, a.node? (some f) =
    some (.function .expression name parameters (some b) isAsync isGenerator)

/-! ### Resolved callees of any arena -/

theorem Uncircled.exists_of_findVisit {β : Type} {test : Visit → Option β} {root : Ref} {x : β}
    (h : a.Uncircled root) (hfound : a.findVisit test root = some (some x)) : ∃ v, test v = some x := by
  cases hroot : a.node? root with
  | none => simp [findVisit, scan, Walk.start, hroot, scanFrom] at hfound
  | some n =>
    obtain ⟨visits, hvisits⟩ := h.exists_fullWalk none
    rw [findVisit_eq_some hroot hvisits, Option.some_inj] at hfound
    obtain ⟨v, -, hv⟩ := List.exists_of_findSome?_eq_some hfound
    exact ⟨v, hv⟩

theorem exists_expressionBody {r : Ref} {b : Index} (hr : (a.node? r).any Node.isFunctionExpression)
    (hb : (a.node? r).bind Node.functionBody? = some b) : ∃ f, a.ExpressionBody f b := by
  obtain ⟨n, hn, hbody⟩ := Option.bind_eq_some_iff.1 hb
  obtain ⟨f, rfl, -⟩ := exists_index_of_node? hn
  rw [hn] at hr
  cases n with
  | function form name parameters body isAsync isGenerator =>
    obtain rfl : body = some b := hbody
    cases form with
    | expression => exact ⟨f, name, parameters, isAsync, isGenerator, hn⟩
    | declaration | arrow => cases hr
  | _ => cases hr

theorem Uncircled.exists_of_boundFunction {root : Ref} {name : String} {b : Index}
    (h : a.Uncircled root) (hfound : a.boundFunction root name = some (some b)) :
    ∃ f, a.ExpressionBody f b := by
  obtain ⟨found, hvisit, hbody⟩ := Option.map_eq_some_iff.1 hfound
  obtain ⟨r, rfl, hbody⟩ : ∃ r, found = some r ∧ (a.node? r).bind Node.functionBody? = some b := by
    cases found with
    | none => cases hbody
    | some r => exact ⟨r, rfl, hbody⟩
  obtain ⟨v, hv⟩ := h.exists_of_findVisit hvisit
  obtain ⟨hbinds, hnode⟩ := Option.ite_none_right_eq_some.1 hv
  obtain rfl := Option.some.inj hnode
  rw [bindsFunction, Bool.and_eq_true] at hbinds
  exact exists_expressionBody hbinds.1 hbody

/-- Whichever way a callee is resolved, it is the body of a function expression. -/
theorem exists_of_functionExpressions (free : ∀ r, a.Uncircled r) {body : List Ref} {callee : Ref}
    {c : Callee} (h : functionExpressions a body callee = some (some c)) :
    ∃ f b, c.body = some b ∧ a.ExpressionBody f b := by
  unfold functionExpressions at h
  split at h
  · unfold resolveName at h
    split at h
    · cases h
    · obtain ⟨found, hfound, hc⟩ := Option.map_eq_some_iff.1 h
      obtain ⟨b, rfl, rfl⟩ := Option.map_eq_some_iff.1 hc
      obtain ⟨f, hf⟩ := (free _).exists_of_boundFunction hfound
      exact ⟨f, b, rfl, hf⟩
  · rename_i name parameters inner isAsync isGenerator hnode
    obtain ⟨b, rfl, rfl⟩ := Option.map_eq_some_iff.1 (Option.some.inj h)
    obtain ⟨f, rfl, -⟩ := exists_index_of_node? hnode
    exact ⟨f, b, rfl, name, parameters, isAsync, isGenerator, hnode⟩
  · cases h

end Arena

/-! ### Function bodies of an imported program -/

namespace Tree

variable {R : Json → Tree → Prop} {members : Members}

theorem Shaped.block_iff {type : String} {shape : Node Tree} (h : Shaped R members type shape) :
    (∃ ts, shape = .block ts) ↔ type = "BlockStatement" ∨ type = "StaticBlock" := by
  cases h with
  | block known => exact ⟨fun _ => known, fun _ => ⟨_, rfl⟩⟩
  | function form => cases form <;> simp [functionType]
  | other unknown =>
    simp only [reduceCtorEq, exists_false, false_iff]
    rintro (rfl | rfl) <;> exact unknown (by decide)
  | _ => simp

/-- The body of a function expression is read from the last of its child values. -/
theorem Shaped.exists_body {type : String} {name body : Option Tree} {parameters : List (Option Tree)}
    {isAsync isGenerator : Bool} {t : Tree} (hbody : body = some t)
    (h : Shaped R members type (.function .expression name parameters body isAsync isGenerator)) :
    type = "FunctionExpression" ∧ ∃ w before, Json.lookup "body" members = some w ∧ R w t ∧
      childValues type members = before ++ [w] := by
  subst hbody
  cases h with
  | function form hname hparameters hbody =>
    refine ⟨rfl, ?_⟩
    obtain ⟨w, hone, hw⟩ : ∃ w, Json.oneAt members "body" = [w] ∧ R w t := by
      unfold Single at hbody
      cases hvalues : Json.oneAt members "body" with
      | nil => simp [hvalues] at hbody
      | cons w rest =>
        rw [hvalues] at hbody
        obtain ⟨hw, hrest⟩ := List.forall₂_cons.1 hbody
        cases hrest
        exact ⟨w, rfl, hw⟩
    have hlookup : Json.lookup "body" members = some w := by
      have hmem : w ∈ Json.oneAt members "body" := by simp [hone]
      exact Option.mem_toList.1 (List.mem_filter.1 hmem).1
    refine ⟨w, Json.oneAt members "id" ++ Json.manyAt members "params", hlookup, hw, ?_⟩
    rw [childValues, if_pos (by decide)]
    simp [functionType, childFields, ChildField.values, hone]

end Tree

theorem Node.exists_map_eq_block {α β : Type} {f : α → β} {n : Node α} :
    (∃ statements, n.map f = .block statements) ↔ ∃ statements, n = .block statements := by
  cases n <;> simp [Node.map]

theorem Node.exists_of_map_eq_function {α β : Type} {f : α → β} {n : Node α} {name : Option β}
    {parameters : List (Option β)} {b : β} {isAsync isGenerator : Bool}
    (h : n.map f = .function .expression name parameters (some b) isAsync isGenerator) :
    ∃ name' parameters' b', n = .function .expression name' parameters' (some b') isAsync isGenerator ∧
      f b' = b := by
  cases n with
  | function form name' parameters' body =>
    obtain ⟨rfl, -, -, hbody, rfl, rfl⟩ := Node.function.inj h
    obtain ⟨b', rfl, hb⟩ := Option.map_eq_some_iff.1 hbody
    exact ⟨name', parameters', b', rfl, hb⟩
  | _ => cases h

/-- A node is the body of a function expression and was imported from the `body` of the function's
object, which has the given members. -/
def BodyOrigin (v : Json) (a : Arena) (root : Ref) (b : Index) (members : Tree.Members) : Prop :=
  Origin v a root (some b) (.object members) ∧
    ∃ f function, a.ExpressionBody f b ∧ Origin v a root (some f) (.object function) ∧
      Tree.typeName? function = some "FunctionExpression" ∧
      Json.lookup "body" function = some (.object members)

namespace ImportedAs

variable {v : Json} {a : Arena} {root : Ref} {t : Tree}

theorem exists_block_iff (h : ImportedAs v a root t) {b : Index} {members : Tree.Members}
    (ho : Origin v a root (some b) (.object members)) :
    (∃ statements, a.node? (some b) = some (.block statements)) ↔
      Tree.typeName? members = some "BlockStatement" ∨ Tree.typeName? members = some "StaticBlock" := by
  obtain ⟨above, s, way, hs, hreads⟩ := h.exists_of_origin ho
  obtain ⟨l, members', type, -, hm, htype, -, hshape⟩ := hreads.object
  cases hm
  rw [htype, Option.some_inj, Option.some_inj, ← hshape.block_iff, ← s.map_tree_shape,
    Node.exists_map_eq_block, ← hs, h.holds.node? way]
  simp only [Option.some_inj]
  exact Node.exists_map_eq_block

theorem exists_bodyOrigin (h : ImportedAs v a root t) {f b : Index} (hb : a.ExpressionBody f b) :
    ∃ members, BodyOrigin v a root b members := by
  obtain ⟨name, parameters, isAsync, isGenerator, hnode⟩ := id hb
  obtain ⟨above, s, way, hs⟩ := h.exists_of_node? hnode
  obtain ⟨function, horigin, hreads⟩ := h.exists_origin way
  rw [hs] at horigin
  obtain ⟨l, function', type, -, hm, htype, -, hshape⟩ := hreads.object
  cases hm
  have hspot : s.node = .function .expression name parameters (some b) isAsync isGenerator := by
    rw [← hs, h.holds.node? way] at hnode
    exact Option.some.inj hnode
  obtain ⟨name', parameters', k, hfunction, hk⟩ := Node.exists_of_map_eq_function hspot
  rw [← s.map_tree_shape, hfunction] at hshape
  obtain ⟨rfl, w, before, hlookup, hw, hvalues⟩ := hshape.exists_body rfl
  obtain ⟨-, members, -, -, rfl, -⟩ := hw.object
  -- The body is the last of the values and the last of the children, and there are as many of both.
  have hchildren : a.children (some f) = (Node.single name ++ parameters) ++ [some b] := by
    rw [Arena.children, hnode]
    rfl
  have hlength : before.length = (Node.single name ++ parameters).length := by
    obtain ⟨type', htype', hkids⟩ := forall₂_kids hreads
    obtain rfl := Option.some.inj (htype'.symm.trans htype)
    have hall := hkids.length_eq
    have hsame := congrArg List.length (h.holds.children way)
    rw [hs, hchildren, List.length_map, ← hall, hvalues] at hsame
    simp only [List.length_append, List.length_singleton] at hsame ⊢
    omega
  refine ⟨members, .child horigin htype (i := before.length) ?_ ?_, f, function, hb, horigin, htype,
    hlookup⟩
  · rw [hvalues, List.getElem?_concat_length]
  · rw [hchildren, hlength, List.getElem?_concat_length]

theorem isSome_node? (h : ImportedAs v a root t) {r : Ref} {w : Json} (ho : Origin v a root r w) :
    (a.node? r).isSome := by
  obtain ⟨above, s, way, rfl, -⟩ := h.exists_of_origin ho
  rw [h.holds.node? way]
  rfl

end ImportedAs

/-- To resolve a call of an imported program by its number always gives an answer. If the answer has a
function body, this is a node of the arena: the one for the `body` of a function expression's object. It is
a block exactly if that object is a `BlockStatement` or `StaticBlock`. -/
theorem resolveCall_bodyOrigin {v : Json} {a : Arena} {root : Ref}
    (h : importProgram v = .ok (a, root)) (hs : a.size ≤ 2 ^ 32 - 1) (n : Nat) :
    ∃ found, a.resolveCall root n = some found ∧
      ∀ call c, found = some ⟨call, some c⟩ →
        ∃ b members, c.body = some b ∧ (a.node? (some b)).isSome ∧ BodyOrigin v a root b members ∧
          ((∃ statements, a.node? (some b) = some (.block statements)) ↔
            Tree.typeName? members = some "BlockStatement" ∨
              Tree.typeName? members = some "StaticBlock") := by
  obtain ⟨t, imported⟩ := importedAs_of_importProgram h hs
  refine ⟨_, imported.resolveCall_eq n, fun call c hfound => ?_⟩
  obtain ⟨w, -, hw⟩ := Option.map_eq_some_iff.1 hfound
  obtain ⟨-, hcallee⟩ := Resolution.mk.inj hw
  have hc : a.calleeOf w.node = some (some c) := Option.join_eq_some_iff.1 hcallee
  obtain ⟨f, b, hbody, hf⟩ := Arena.exists_of_functionExpressions imported.uncircled hc
  obtain ⟨members, horigin⟩ := imported.exists_bodyOrigin hf
  exact ⟨b, members, hbody, imported.isSome_node? horigin.1, horigin, imported.exists_block_iff horigin.1⟩

/-- The call of `f` runs node 6, which is a block. -/
theorem resolveCall_bodyOrigin_nestedCalls :
    ∃ a root members, importProgram Sample.nestedCalls = .ok (a, root) ∧
      a.resolveCall root 1 = some (some ⟨some 11, some ⟨some 6, some "f"⟩⟩) ∧
      BodyOrigin Sample.nestedCalls a root 6 members ∧
      (Tree.typeName? members = some "BlockStatement" ∨
        Tree.typeName? members = some "StaticBlock") := by
  have himport : (importProgram Sample.nestedCalls).map (fun p =>
      (p.1.size, p.1.node? (some 6), p.1.resolveCall p.2 1)) =
      .ok (14, some (.block [some 5]), some (some ⟨some 11, some ⟨some 6, some "f"⟩⟩)) := by
    decide +kernel
  obtain ⟨⟨a, root⟩, h, hp⟩ := exists_ok_of_map himport
  simp only [Prod.mk.injEq] at hp
  obtain ⟨hsize, hnode, hresolve⟩ := hp
  obtain ⟨found, hfound, hbody⟩ := resolveCall_bodyOrigin h (by omega) 1
  obtain rfl := Option.some.inj (hfound.symm.trans hresolve)
  obtain ⟨b, members, hb, -, horigin, hblock⟩ := hbody _ _ rfl
  obtain rfl := Option.some.inj hb
  exact ⟨a, root, members, h, hresolve, horigin, hblock.1 ⟨_, hnode⟩⟩

/-- `(function () x)()`, where the body of the function is a name. -/
def Sample.nameAsBody : Json :=
  node "Program" [("body", .array [callStatement (node "FunctionExpression"
    [("id", .null), ("params", .array []), ("body", identifier "x")])])]

/-- The call is resolved all the same, to the name. -/
theorem resolveCall_nameAsBody :
    ∃ a root, importProgram Sample.nameAsBody = .ok (a, root) ∧
      a.resolveCall root 0 = some (some ⟨some 2, some ⟨some 0, none⟩⟩) ∧
      a.node? (some 0) = some (.identifier "x") := by
  have himport : (importProgram Sample.nameAsBody).map (fun p =>
      (p.1.resolveCall p.2 0, p.1.node? (some 0))) =
      .ok (some (some ⟨some 2, some ⟨some 0, none⟩⟩), some (.identifier "x")) := by
    decide +kernel
  obtain ⟨⟨a, root⟩, h, hp⟩ := exists_ok_of_map himport
  obtain ⟨hresolve, hnode⟩ := Prod.mk.inj hp
  exact ⟨a, root, h, hresolve, hnode⟩

end CallTrace
