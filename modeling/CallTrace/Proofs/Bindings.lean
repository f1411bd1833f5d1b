import CallTrace.Proofs.ScopeChains

/-!
What a name stands for.

A name is looked up by searching a scope for a function expression whose parent declares the name. On an
imported program this is a matter of the declarations alone: the function expressions that are found in
the order of the walk are the initializers of the declarations in the order of the walk
(`Spot.map_fst_filter_reached`), since nothing can be bound between a declaration and its initializer.
So the first declaration of the name decides, whether it stands in the scope itself or in a function
below.
-/
namespace CallTrace

theorem findSome?_eq_bind_find? {α β : Type} (f : α → Option β) (xs : List α) :
    xs.findSome? f = (xs.find? fun x => (f x).isSome).bind f := by
  induction xs with
  | nil => rfl
  | cons x xs ih => cases hx : f x <;> simp [hx, ih]

namespace Arena

/-- Whether a node declares the name and starts it with a function expression: `name = function …`. -/
def isBinding (a : Arena) (name : String) (r : Ref) : Bool :=
  match a.node? r with
  | some (.variableDeclaration target initializer) =>
    a.identifierText? target = some name && (a.node? initializer).any Node.isFunctionExpression
  | _ => false

/-- The body of the function that a declaration starts with. -/
def boundBody (a : Arena) (r : Ref) : Ref :=
  match a.node? r with
  | some (.variableDeclaration _ initializer) => (a.node? initializer).bind Node.functionBody?
  | _ => none

/-- The declarations that bind the name to a function expression, in the order of the walk from a
node. -/
def bindings (a : Arena) (top : Ref) (name : String) : Walked (List Ref) :=
  (a.preOrder top).map fun visits => (visits.map Visit.node).filter (a.isBinding name)

theorem isBinding_iff {a : Arena} {name : String} {r : Ref} :
    a.isBinding name r = true ↔ ∃ target initializer,
      a.node? r = some (.variableDeclaration target initializer) ∧
      a.identifierText? target = some name ∧
      (a.node? initializer).any Node.isFunctionExpression = true := by
  unfold isBinding
  constructor
  · intro h
    split at h
    · rename_i target initializer hr
      rw [Bool.and_eq_true, decide_eq_true_iff] at h
      exact ⟨target, initializer, hr, h⟩
    · cases h
  · rintro ⟨target, initializer, hr, hname, hfunction⟩
    rw [hr]
    simp [hname, hfunction]

end Arena

namespace Spot

/-- The function expression that a declaration binds to the name. -/
def bound? (name : String) (s : Spot) : Option Spot :=
  match s.shape with
  | .variableDeclaration target initializer =>
    if name? target = some name then initializer.filter fun f => f.shape.isFunctionExpression else none
  | _ => none

theorem shape_eq_identifier {n : Spot} {name : String} (h : n.shape.text? = some name) :
    n.shape = .identifier name := by
  cases hn : n.shape <;> rw [hn] at h <;> cases h
  rfl

theorem bound?_eq_some_iff {name : String} {s f : Spot} :
    s.bound? name = some f ↔ ∃ n, s.shape = .variableDeclaration (some n) (some f) ∧
      n.shape = .identifier name ∧ f.shape.isFunctionExpression = true := by
  constructor
  · intro h
    unfold bound? at h
    split at h
    · rename_i target initializer hs
      split at h
      · rename_i hname
        obtain ⟨n, rfl, hn⟩ := Option.bind_eq_some_iff.1 hname
        obtain ⟨rfl, hf⟩ := Option.filter_eq_some_iff.1 h
        exact ⟨n, hs, shape_eq_identifier hn, hf⟩
      · cases h
    · cases h
  · rintro ⟨n, hs, hn, hf⟩
    simp [bound?, hs, name?, hn, Node.text?, hf]

/-- A subtree is found for the name exactly if it is what its parent binds to the name. -/
theorem binds_iff {name : String} {s k : Spot} (hk : k ∈ s.kids) :
    binds name (k, some s) = true ↔ s.bound? name = some k := by
  rw [bound?_eq_some_iff]
  constructor
  · intro h
    obtain ⟨hfunction, hdeclares⟩ := Bool.and_eq_true_iff.1 h
    simp only [Option.map_some] at hdeclares
    split at hdeclares
    · rename_i target initializer hs
      obtain ⟨n, rfl, hn⟩ := Option.bind_eq_some_iff.1 (of_decide_eq_true hdeclares)
      have hn := shape_eq_identifier hn
      have hs := Option.some.inj hs
      rcases (mem_kids_iff_of_declaration hs).1 hk with hname | rfl
      · obtain rfl := Option.some.inj hname
        rw [hn] at hfunction
        cases hfunction
      · exact ⟨n, hs, hn, hfunction⟩
    · cases hdeclares
  · rintro ⟨n, hs, hn, hf⟩
    simp [binds, hf, hs, name?, hn, Node.text?]

/-- The function expressions that are found for a name are those that the declarations bind to it, in
the order of the declarations. What the parent of the root binds comes first. -/
theorem map_fst_filter_reached (name : String) (s : Spot) (parent : Option Spot) :
    ((s.reached parent).filter (binds name)).map Prod.fst =
      (if binds name (s, parent) then [s] else []) ++
        (s.reached parent).filterMap fun x => x.1.bound? name := by
  induction s using induct generalizing parent with
  | step s ih =>
    have hkids : ((s.kids.flatMap fun k => k.reached (some s)).filter (binds name)).map Prod.fst =
        (s.bound? name).toList ++
          (s.kids.flatMap fun k => k.reached (some s)).filterMap fun x => x.1.bound? name := by
      rw [List.filter_flatMap, List.map_flatMap, List.filterMap_flatMap,
        List.flatMap_congr fun k hk => ih k hk (some s)]
      cases hs : s.bound? name with
      | none =>
        refine List.flatMap_congr fun k hk => ?_
        have hbinds : ¬ binds name (k, some s) = true := by
          rw [binds_iff hk, hs]
          simp
        rw [if_neg hbinds, List.nil_append]
      | some f =>
        -- The name is a leaf, so the function comes first among all that is bound below.
        obtain ⟨n, hshape, hn, hf⟩ := bound?_eq_some_iff.1 hs
        have hall : s.kids = [n, f] := by
          rw [kids, hshape]
          rfl
        have hleaf : n.reached (some s) = [(n, some s)] := by
          rw [reached_eq, kids, hn]
          rfl
        have hname : n.bound? name = none := by simp [bound?, hn]
        have hbinds : binds name (f, some s) = true := (binds_iff (by simp [hall])).2 hs
        have hnot : binds name (n, some s) = false := by simp [binds, hn, Node.isFunctionExpression]
        simp [hall, hleaf, hname, hbinds, hnot]
    rw [reached_eq, List.filter_cons, List.filterMap_cons]
    cases binds name (s, parent) <;> cases hs : s.bound? name <;> simp [hkids, hs]

theorem boundIn_eq {s : Spot} (h : s.shape.statements?.isSome) (name : String) :
    boundIn s.kids name = ((s.reached none).findSome? fun x => x.1.bound? name).bind
      fun f => f.shape.functionBody? := by
  have hfound := congrArg List.head? (map_fst_filter_reached name s none)
  have hroot : binds name (s, none) = false := by simp [binds]
  rw [hroot, List.head?_map, List.head?_filter] at hfound
  simp only [Bool.false_eq_true, if_false, List.nil_append, List.head?_filterMap] at hfound
  rw [boundIn, ← find?_reached h, ← hfound, Option.bind_map]
  rfl

end Spot

namespace Arena.Holds

variable {a : Arena} {root s f : Spot} {above : List Spot} {name : String}

theorem isBinding_eq (h : a.Holds root) (way : Spot.Path root above s) (name : String) :
    a.isBinding name s.ref = (s.bound? name).isSome := by
  unfold isBinding Spot.bound?
  rw [h.node? way, Spot.node]
  cases hs : s.shape with
  | variableDeclaration target initializer =>
    have htarget : a.identifierText? (target.map Spot.index) = Spot.name? target := by
      apply h.identifierText?_eq way
      intro k hk
      exact (Spot.mem_kids_iff_of_declaration hs).2 (.inl hk)
    have hfunction : (a.node? (initializer.map Spot.index)).any Node.isFunctionExpression =
        initializer.any fun f => f.shape.isFunctionExpression := by
      cases initializer with
      | none => rfl
      | some f =>
        have hkid := (Spot.mem_kids_iff_of_declaration hs).2 (.inr rfl)
        have hf : a.node? (some f.index) = some f.node := h.node? (way.down hkid)
        simp [hf, Spot.node]
    simp only [Node.map, htarget, hfunction]
    by_cases hname : Spot.name? target = some name
    · simp [hname]
    · simp [hname]
  | _ => rfl

theorem boundBody_eq (h : a.Holds root) (way : Spot.Path root above s) (hf : s.bound? name = some f) :
    a.boundBody s.ref = f.shape.functionBody?.map Spot.index := by
  obtain ⟨n, hs, -, -⟩ := Spot.bound?_eq_some_iff.1 hf
  have hkid := (Spot.mem_kids_iff_of_declaration hs).2 (.inr rfl)
  have hnode : a.node? (some f.index) = some f.node := h.node? (way.down hkid)
  unfold boundBody
  rw [h.node? way, Spot.node, hs]
  simp only [Node.map, Option.map_some, hnode]
  simp [Spot.node]

end Arena.Holds

namespace ImportedAs

variable {v : Json} {a : Arena} {root : Ref} {t : Tree} {above : List Spot} {s : Spot}

theorem bindings_eq (h : ImportedAs v a root t) (way : Spot.Path ⟨0, t⟩ above s) (name : String) :
    a.bindings s.ref name =
      some (((s.reached none).filter fun x => (x.1.bound? name).isSome).map fun x => x.1.ref) := by
  have hnodes : (s.visits none).map Visit.node = (s.reached none).map fun x => x.1.ref := by
    have hmap := s.visits_eq_map_reached none
    rw [Option.map_none] at hmap
    rw [hmap, List.map_map]
    rfl
  rw [Arena.bindings, h.preOrder_eq way, Option.map_some, hnodes, List.filter_map]
  congr 2
  refine List.filter_congr fun x hx => ?_
  obtain ⟨above', way', -⟩ := Spot.exists_path_of_mem_reached hx
  exact h.holds.isBinding_eq (way.trans way') name

/-- The function that the first binding starts with is the one that is found for the name. -/
theorem head?_bindings_bind (h : ImportedAs v a root t) (way : Spot.Path ⟨0, t⟩ above s)
    (hb : s.shape.statements?.isSome) {name : String} {found : List Ref}
    (hfound : a.bindings s.ref name = some found) :
    found.head?.bind a.boundBody = (Spot.boundIn s.kids name).map Spot.index := by
  rw [h.bindings_eq way, Option.some_inj] at hfound
  rw [← hfound, List.head?_map, List.head?_filter, Spot.boundIn_eq hb, findSome?_eq_bind_find?]
  cases hfind : (s.reached none).find? fun x => (x.1.bound? name).isSome with
  | none => rfl
  | some x =>
    obtain ⟨above', way', -⟩ := Spot.exists_path_of_mem_reached (List.mem_of_find?_eq_some hfind)
    have hsome := List.find?_some hfind
    obtain ⟨f, hf⟩ := Option.isSome_iff_exists.1 hsome
    simp [h.holds.boundBody_eq (way.trans way') hf, hf]

theorem mem_bindings_iff (h : ImportedAs v a root t) (way : Spot.Path ⟨0, t⟩ above s)
    (hb : s.shape.statements?.isSome) {name : String} {found : List Ref}
    (hfound : a.bindings s.ref name = some found) {d : Ref} :
    d ∈ found ↔ a.Above s.ref d ∧ a.isBinding name d = true := by
  have hmem : d ∈ found ↔ a.comesTo s.ref d = true ∧ a.isBinding name d = true := by
    rw [Arena.bindings, h.preOrder_eq way, Option.map_some, Option.some_inj] at hfound
    rw [← hfound, List.mem_filter, h.comesTo_iff way, Spot.mem_map_visits_iff]
  rw [hmem]
  refine and_congr_left fun hd => ?_
  obtain ⟨target, initializer, hnode, -⟩ := Arena.isBinding_iff.1 hd
  obtain ⟨above', x, wayx, rfl⟩ := h.exists_of_node? hnode
  rw [h.above_iff_comesTo way wayx]
  -- The scope itself is a program or a block, and so no binding.
  have hne : s.ref ≠ x.ref := by
    intro href
    rw [← href, h.holds.node? way, Option.some_inj] at hnode
    have hsome : s.node.statements?.isSome := by
      rw [Spot.node, Node.statements?_map, Option.isSome_map]
      exact hb
    rw [hnode] at hsome
    cases hsome
  exact (and_iff_right hne).symm

end ImportedAs

/-- A name that is called among the statements of a scope stands for the first of its bindings that the
walk from the scope meets: the call runs the body of the function that this declaration starts with, and
is not resolved if there is no binding or that function has no body. The bindings are the declarations
below the scope that give the name a function expression to start with, in nested functions as well. -/
theorem functionExpressions_eq_firstBinding {v : Json} {a : Arena} {root : Ref}
    (h : importProgram v = .ok (a, root)) (hs : a.size ≤ 2 ^ 32 - 1) {scope callee : Ref}
    {body : List Ref} {name : String} (hopen : a.opensScope scope = true)
    (hbody : a.statements? scope = some body) (hne : body ≠ [])
    (hcallee : a.node? callee = some (.identifier name)) :
    ∃ found, a.bindings scope name = some found ∧
      Arena.functionExpressions a body callee =
        some ((found.head?.bind a.boundBody).map fun b => ⟨some b, some name⟩) ∧
      ∀ d, d ∈ found ↔ a.Above scope d ∧ ∃ target initializer,
        a.node? d = some (.variableDeclaration target initializer) ∧
        a.identifierText? target = some name ∧
        (a.node? initializer).any Node.isFunctionExpression = true := by
  obtain ⟨t, imported⟩ := importedAs_of_importProgram h hs
  obtain ⟨above, s, way, rfl, rfl⟩ := imported.exists_of_statements? hbody
  obtain ⟨above', c, wayc, rfl⟩ := imported.exists_of_node? hcallee
  have hshape : c.shape = .identifier name := by
    rw [imported.holds.node? wayc, Option.some_inj] at hcallee
    have htext : c.node.text? = some name := by rw [hcallee]; rfl
    rw [Spot.node, Node.text?_map] at htext
    exact Spot.shape_eq_identifier htext
  have hstatements : s.shape.statements?.isSome := by
    rw [imported.holds.opensScope_eq way] at hopen
    exact (Spot.statements?_isSome_of_opens hopen).1
  have hfound := imported.bindings_eq way name
  refine ⟨_, hfound, ?_, fun d => ?_⟩
  · have hkids : s.kids ≠ [] := by
      rintro hnil
      simp [hnil] at hne
    have hc : ∀ k, some c = some k → ∃ above, Spot.Path ⟨0, t⟩ above k := by
      rintro k ⟨⟩
      exact ⟨above', wayc⟩
    have hresolve := imported.functionExpressions_eq way hopen hkids hc
    rw [imported.head?_bindings_bind way hstatements hfound]
    simpa [Spot.resolve, hshape, Spot.ref, Function.comp_def] using hresolve
  · rw [imported.mem_bindings_iff way hstatements hfound, Arena.isBinding_iff]

/-- `var f = () => g; var g = function () { var f = function () { var f = function () {}; }; };
var f = function () {}; f();` -/
def Sample.manyBindings : Json :=
  node "Program" [("body", .array
    [binding "f" (node "ArrowFunctionExpression" [("params", .array []), ("body", identifier "g")]),
      binding "g" (function .null [binding "f" (function .null [binding "f" (function .null [])])]),
      binding "f" (function .null []), callStatement (identifier "f")])]

/-- The first binding of `f` that is met is in `g`. One with a smaller number is below it, and the
program's own comes last. The arrow is no binding. -/
theorem functionExpressions_eq_firstBinding_manyBindings :
    ∃ a root body, importProgram Sample.manyBindings = .ok (a, root) ∧
      a.opensScope root = true ∧ a.statements? root = some body ∧ body.length = 4 ∧
      a.node? (some 25) = some (.identifier "f") ∧
      a.bindings root "f" = some [some 14, some 10, some 23] ∧
      Arena.functionExpressions a body (some 25) = some (some ⟨some 12, some "f"⟩) ∧
      a.Above root (some 14) := by
  have himport : (importProgram Sample.manyBindings).map (fun p =>
      (p.1.size, p.1.opensScope p.2, p.1.boundBody (some 14))) = .ok (29, true, some 12) := by
    decide +kernel
  have hnames : (importProgram Sample.manyBindings).map (fun p =>
      (p.1.statements? p.2, p.1.node? (some 25), p.1.bindings p.2 "f")) =
      .ok (some [some 4, some 19, some 24, some 27], some (.identifier "f"),
        some [some 14, some 10, some 23]) := by
    decide +kernel
  obtain ⟨⟨a, root⟩, h, hp⟩ := exists_ok_of_map himport
  simp only [Prod.mk.injEq] at hp
  obtain ⟨hsize, hopen, hbound⟩ := hp
  rw [h] at hnames
  obtain ⟨hbody, hnames⟩ := Prod.mk.inj (Except.ok.inj hnames)
  obtain ⟨hcallee, hbindings⟩ := Prod.mk.inj hnames
  obtain ⟨found, hfound, hresolve, hmem⟩ :=
    functionExpressions_eq_firstBinding h (by omega) hopen hbody (by simp) hcallee
  obtain rfl := Option.some.inj (hfound.symm.trans hbindings)
  rw [List.head?_cons, Option.bind_some, hbound] at hresolve
  exact ⟨a, root, _, h, hopen, hbody, rfl, hcallee, hbindings, hresolve,
    ((hmem (some 14)).1 List.mem_cons_self).1⟩

end CallTrace
