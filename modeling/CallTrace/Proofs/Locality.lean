import CallTrace.Proofs.Bodies

/-!
Nothing outside a function body influences its trace.

The trace of a body is computed from its statements, and moving the statements to other numbers moves
the callees in the trace along (`Spot.traceOver_raise`). So the trace of a body that was called
anywhere in a program is the trace of a program that consists of this body alone.
-/
namespace CallTrace

/-- The reference that is greater by a number. -/
def Ref.raise (n : Nat) (r : Ref) : Ref :=
  r.bind fun i => if h : i.val + n < 0xffffffff then some ⟨i.val + n, h⟩ else none

namespace Call

mutual

/-- The entry with every callee greater by a number. -/
def raise (n : Nat) : Call → Call
  | .mk name callee calls => .mk name (callee.raise n) (raiseList n calls)

def raiseList (n : Nat) : List Call → List Call
  | [] => []
  | c :: rest => raise n c :: raiseList n rest

end

theorem raiseList_eq_map (n : Nat) (calls : List Call) : raiseList n calls = calls.map (raise n) := by
  induction calls with
  | nil => rfl
  | cons c rest ih => rw [raiseList, ih, List.map_cons]

/-- An entry of a trace at any depth. -/
inductive Occurs (e : Call) : List Call → Prop
  | here {calls : List Call} (mem : e ∈ calls) : Occurs e calls
  | within {calls : List Call} {c : Call} (mem : c ∈ calls) (below : Occurs e c.calls) :
      Occurs e calls

end Call

namespace Spot

def raise (n : Nat) (s : Spot) : Spot := ⟨s.base + n, s.tree⟩

@[simp] theorem tree_raise (n : Nat) (s : Spot) : (s.raise n).tree = s.tree := rfl

theorem spreadOver_raise (n lo : Nat) (os : List (Option Tree)) :
    spreadOver (lo + n) os = (spreadOver lo os).map (Option.map (raise n)) := by
  induction os generalizing lo with
  | nil => rfl
  | cons o os ih =>
    cases o with
    | none => simp [spreadOver, ih]
    | some t =>
      simp only [spreadOver, List.map_cons, Option.map_some, raise, ← ih]
      rw [Nat.add_right_comm]

end Spot

theorem Node.spread_raise (n lo : Nat) (shape : Node Tree) :
    shape.spread (lo + n) = (shape.spread lo).map (Spot.raise n) := by
  cases shape <;> simp [Node.spread, Node.map, Spot.spreadOver_raise, Nat.add_right_comm _ n,
    Function.comp_def, Spot.raise]

namespace Spot

@[simp] theorem shape_raise (n : Nat) (s : Spot) : (s.raise n).shape = s.shape.map (raise n) :=
  Node.spread_raise n s.base s.tree.shape

@[simp] theorem kids_raise (n : Nat) (s : Spot) : (s.raise n).kids = s.kids.map (raise n) := by
  rw [kids, shape_raise, Node.present_map]
  rfl

theorem number_raise (n : Nat) (s : Spot) : (s.raise n).number = s.number + n := by
  simp only [number, raise]
  omega

theorem ref_raise {n : Nat} {s : Spot} (h : s.number + n < capacity) :
    (s.raise n).ref = s.ref.raise n := by
  have hs : s.index.val = s.number := index_val (by omega)
  have hr : (s.raise n).index.val = s.number + n := by
    rw [index_val (by rwa [number_raise]), number_raise]
  have hlt : s.index.val + n < 0xffffffff := by rwa [hs]
  simp only [ref, Ref.raise, Option.bind_some, dif_pos hlt, Option.some_inj]
  exact Fin.ext (hr.trans (congrArg (· + n) hs.symm))

@[simp] theorem opens_raise (n : Nat) (inFunction : Bool) (s : Spot) :
    (s.raise n).opens inFunction = s.opens inFunction := by
  unfold opens
  rw [shape_raise]
  cases s.shape <;> rfl

theorem direct_raise (n : Nat) (s : Spot) (inFunction : Bool) :
    (s.raise n).direct inFunction = (s.direct inFunction).map (raise n) := by
  induction s using induct generalizing inFunction with
  | step s ih =>
    rw [direct_eq, direct_eq, opens_raise]
    split
    · rfl
    · simp only [shape_raise, Node.isFunction_map, kids_raise, List.flatMap_map, List.map_cons,
        List.map_flatMap]
      congr 1
      exact List.flatMap_congr fun k hk => ih k hk _

theorem callee?_raise (n : Nat) (s : Spot) :
    (s.raise n).callee? = s.callee?.map (Option.map (raise n)) := by
  unfold callee?
  rw [shape_raise]
  cases s.shape <;> rfl

theorem reached_raise (n : Nat) (s : Spot) (parent : Option Spot) :
    (s.raise n).reached (parent.map (raise n)) =
      (s.reached parent).map fun x => (x.1.raise n, x.2.map (raise n)) := by
  induction s using induct generalizing parent with
  | step s ih =>
    rw [reached_eq, reached_eq, kids_raise, List.flatMap_map, List.map_cons, List.map_flatMap]
    congr 1
    exact List.flatMap_congr fun k hk => ih k hk (some s)

theorem name?_raise (n : Nat) (o : Option Spot) : name? (o.map (raise n)) = name? o := by
  cases o <;> simp [name?]

theorem binds_raise (n : Nat) (name : String) (x : Spot × Option Spot) :
    binds name (x.1.raise n, x.2.map (raise n)) = binds name x := by
  obtain ⟨s, parent⟩ := x
  simp only [binds, shape_raise, Node.isFunctionExpression_map, Option.map_map]
  congr 1
  cases parent with
  | none => rfl
  | some p =>
    simp only [Option.map_some, Function.comp_apply, shape_raise]
    cases p.shape with
    | variableDeclaration target initializer => simp only [Node.map, name?_raise]
    | _ => rfl

theorem boundIn_raise (n : Nat) (body : List Spot) (name : String) :
    boundIn (body.map (raise n)) name = (boundIn body name).map (raise n) := by
  have hreached : (body.map (raise n)).flatMap (fun k => k.reached none) =
      (body.flatMap fun k => k.reached none).map fun x => (x.1.raise n, x.2.map (raise n)) := by
    rw [List.flatMap_map, List.map_flatMap]
    exact List.flatMap_congr fun k _ => k.reached_raise n none
  have hbinds : (binds name ∘ fun x : Spot × Option Spot => (x.1.raise n, x.2.map (raise n))) =
      binds name := funext fun x => binds_raise n name x
  simp only [boundIn, hreached, List.find?_map, hbinds]
  cases (body.flatMap fun k => k.reached none).find? (binds name) <;> simp

theorem resolve_raise (n : Nat) (body : List Spot) (callee : Option Spot) :
    resolve (body.map (raise n)) (callee.map (raise n)) =
      (resolve body callee).map fun x => (x.1, x.2.raise n) := by
  cases callee with
  | none => rfl
  | some c =>
    simp only [resolve, Option.map_some, shape_raise]
    cases c.shape with
    | identifier name =>
      simp only [Node.map, boundIn_raise, Option.map_map]
      rfl
    | function form name parameters inner _ _ =>
      cases form with
      | expression =>
        simp only [Node.map, name?_raise, Option.map_map]
        rfl
      | _ => rfl
    | _ => rfl

theorem foundAmong_raise (n : Nat) (looked body : List Spot) :
    foundAmong (looked.map (raise n)) (body.map (raise n)) =
      (foundAmong looked body).map fun x => (x.1, x.2.raise n) := by
  have hcallees : ∀ k : Spot, ((k.raise n).direct false).filterMap callee? =
      ((k.direct false).filterMap callee?).map (Option.map (raise n)) := by
    intro k
    rw [direct_raise, List.filterMap_map, List.map_filterMap]
    exact List.filterMap_congr fun s _ => callee?_raise n s
  have hlooked : (looked.map (raise n)).flatMap (fun k => (k.direct false).filterMap callee?) =
      (looked.flatMap fun k => (k.direct false).filterMap callee?).map (Option.map (raise n)) := by
    rw [List.flatMap_map, List.map_flatMap]
    exact List.flatMap_congr fun k _ => hcallees k
  rw [foundAmong, hlooked, foundAmong, List.filterMap_map, List.map_filterMap]
  exact List.filterMap_congr fun callee _ => resolve_raise n body callee

theorem found_raise (n : Nat) (body : List Spot) :
    found (body.map (raise n)) = (found body).map fun x => (x.1, x.2.raise n) := by
  rw [found, found, List.length_map, ← List.map_take, foundAmong_raise]

theorem statements_raise (n : Nat) (s : Spot) :
    (s.raise n).statements = s.statements.map (raise n) := by
  unfold statements
  rw [shape_raise, Node.statements?_map, Option.isSome_map, kids_raise]
  split <;> rfl

/-- Moving the statements moves the callees along. -/
theorem traceOver_raise (n depth : Nat) {body : List Spot}
    (h : ∀ k ∈ body, k.number + n < capacity) :
    traceOver depth (body.map (raise n)) = Call.raiseList n (traceOver depth body) := by
  induction depth generalizing body with
  | zero => rfl
  | succ depth ih =>
    rw [Call.raiseList_eq_map]
    simp only [traceOver, found_raise, List.map_map]
    apply List.map_congr_left
    intro x hx
    obtain ⟨k, hk, f, above, way, -⟩ := exists_path_of_mem_found hx
    have hlt : x.2.number + n < capacity := by
      have := way.range
      have := k.number_succ
      have := x.2.number_succ
      have := h k hk
      omega
    have hbelow : ∀ k ∈ x.2.statements, k.number + n < capacity := by
      intro k hk
      have := base_le_of_mem_kids (mem_kids_of_mem_statements hk)
      have := k.number_succ
      omega
    simp only [Function.comp_apply, ref_raise hlt, statements_raise, ih hbelow, Call.raise]

/-- An entry at any depth comes from the body of a function below, and its own entries are the trace of
this body, as deep as the statements allow. -/
theorem exists_function_of_occurs {depth : Nat} {body : List Spot}
    (hb : ∀ k ∈ body, k.tree.height ≤ 3 * depth) {e : Call} (h : e.Occurs (traceOver depth body)) :
    ∃ b m, e.callee = b.ref ∧ e.calls = traceOver m b.statements ∧
      (∀ k ∈ b.statements, k.tree.height ≤ 3 * m) ∧
      ∃ k ∈ body, ∃ f above, Path k (f :: above) b ∧ f.shape.isFunction = true := by
  induction depth generalizing body with
  | zero =>
    cases h with
    | here mem | within mem below => simp [traceOver] at mem
  | succ depth ih =>
    have hx : ∀ x ∈ found body, ∀ k ∈ x.2.statements, k.tree.height ≤ 3 * depth := by
      intro x hx k hk
      have := height_of_mem_found hb hx k hk
      omega
    cases h with
    | here mem =>
      obtain ⟨x, hmem, rfl⟩ := List.mem_map.1 mem
      obtain ⟨k, hk, f, above, way, hf, -⟩ := exists_path_of_mem_found hmem
      exact ⟨x.2, depth, rfl, rfl, hx x hmem, k, hk, f, above, way, hf⟩
    | within mem below =>
      obtain ⟨x, hmem, rfl⟩ := List.mem_map.1 mem
      obtain ⟨k, hk, f, above, way, -⟩ := exists_path_of_mem_found hmem
      obtain ⟨b, m, hcallee, hcalls, hle, k', hk', f', above', way', hf'⟩ := ih (hx x hmem) below
      have way' := (way.down (mem_kids_of_mem_statements hk')).trans way'
      exact ⟨b, m, hcallee, hcalls, hle, k, hk, f', _, way', hf'⟩

theorem exists_of_occurs {depth : Nat} {body : List Spot}
    (hb : ∀ k ∈ body, k.tree.height ≤ 3 * depth) {e : Call} (h : e.Occurs (traceOver depth body)) :
    ∃ b m, e.callee = b.ref ∧ e.calls = traceOver m b.statements ∧
      (∀ k ∈ b.statements, k.tree.height ≤ 3 * m) ∧ ∃ k ∈ body, ∃ above, Path k above b := by
  obtain ⟨b, m, hcallee, hcalls, hle, k, hk, f, above, way, -⟩ := exists_function_of_occurs hb h
  exact ⟨b, m, hcallee, hcalls, hle, k, hk, _, way⟩

theorem Path.eq_of_number_eq {root s s' : Spot} {above above' : List Spot} (way : Path root above s)
    (way' : Path root above' s') (h : s.number = s'.number) : s = s' := by
  have hs := (layout_getElem?_of_mem way.mem_layout).2
  have hs' := (layout_getElem?_of_mem way'.mem_layout).2
  simp only [h] at hs hs'
  rw [hs] at hs'
  exact congrArg Site.spot (Option.some.inj hs')

end Spot

theorem exists_getElem?_of_forall₂ {α β : Type} {R : α → β → Prop} {xs : List α} {ys : List β}
    (h : List.Forall₂ R xs ys) {i : Nat} {x : α} (hx : xs[i]? = some x) :
    ∃ y, ys[i]? = some y ∧ R x y := by
  induction h generalizing i with
  | nil => simp at hx
  | cons hxy _ ih =>
    cases i with
    | zero =>
      obtain rfl := Option.some.inj hx
      exact ⟨_, rfl, hxy⟩
    | succ i => exact ih hx

/-- A node was imported from a value: the program from the document, and the children of a node from
the child values of the node's object, place by place. -/
inductive Origin (v : Json) (a : Arena) (root : Ref) : Ref → Json → Prop
  | program : Origin v a root root v
  | child {r r' : Ref} {members : Tree.Members} {type : String} {i : Nat} {w : Json}
      (above : Origin v a root r (.object members)) (kind : Tree.typeName? members = some type)
      (value : (Tree.childValues type members)[i]? = some w)
      (place : (a.children r)[i]? = some r') : Origin v a root r' w

/-- The document of a program that has the body of a node object. -/
def standAlone (members : Tree.Members) : Json :=
  .object (("type", .string "Program") ::
    ((Json.lookup "body" members).map fun body => ("body", body)).toList)

theorem programTree_standAlone {members : Tree.Members} {ts : List (Option Tree)} {l : Nat}
    (hl : l < maxLevels) (h : Tree.readList (Tree.read l) members "body" = .ok ts) :
    programTree (standAlone members) = .ok (.node none (.program ts)) := by
  unfold standAlone
  generalize hms : ("type", Json.string "Program") ::
    ((Json.lookup "body" members).map fun body => ("body", body)).toList = ms
  have htype : Tree.typeName? ms = some "Program" := by
    simp [← hms, Tree.typeName?, Json.lookup, Json.string?]
  have hspan : Tree.span? ms = none := by
    rw [← hms]
    cases Json.lookup "body" members <;> simp [Tree.span?, Json.lookup]
  have hbody : Json.lookup "body" ms = Json.lookup "body" members := by
    rw [← hms]
    cases hb : Json.lookup "body" members <;> simp [Json.lookup]
  obtain ⟨m, hm⟩ : ∃ m, maxLevels = m + 1 := ⟨maxLevels - 1, by decide⟩
  have hlist : Tree.readList (Tree.read m) ms "body" = .ok ts := by
    have hle := Tree.readList_le (Tree.read_le (by omega : l ≤ m)) "body" ts h
    unfold Tree.readList at hle ⊢
    rwa [hbody]
  have hread : Tree.read maxLevels "program" (.object ms) =
      .ok (some (.node none (.program ts))) := by
    rw [hm]
    simp only [Tree.read, Tree.readChild, htype, Tree.readNode, hlist, hspan]
    rfl
  have hprogram : isProgram (.object ms) = true := by simp [isProgram, htype]
  rw [programTree, if_pos hprogram, hread]

namespace ImportedAs

variable {v : Json} {a : Arena} {root : Ref} {t : Tree} {above : List Spot} {s : Spot}

theorem forall₂_kids {members : Tree.Members} (h : Tree.Reads maxLevels (.object members) s.tree) :
    ∃ type, Tree.typeName? members = some type ∧
      List.Forall₂ (fun w (k : Spot) => Tree.Reads maxLevels w k.tree)
        (Tree.childValues type members) s.kids := by
  obtain ⟨l, members', type, hl, hm, htype, -, hshape⟩ := h.object
  cases hm
  refine ⟨type, htype, ?_⟩
  have hkids : List.Forall₂ (Tree.Reads l) (Tree.childValues type members) (s.kids.map Spot.tree) := by
    rw [s.map_tree_kids]
    exact hshape.reads
  exact (List.forall₂_map_right_iff.1 hkids).imp fun _ _ hw => hw.mono (by omega)

theorem exists_origin (h : ImportedAs v a root t) (way : Spot.Path ⟨0, t⟩ above s) :
    ∃ members, Origin v a root s.ref (.object members) ∧
      Tree.Reads maxLevels (.object members) s.tree := by
  have object : ∀ {w : Json} {u : Tree}, Tree.Reads maxLevels w u → ∃ members, w = .object members := by
    intro w u hw
    obtain ⟨-, members, -, -, rfl, -⟩ := hw.object
    exact ⟨members, rfl⟩
  induction way with
  | here =>
    obtain ⟨members, rfl⟩ := object h.reads
    exact ⟨members, h.root_eq ▸ .program, h.reads⟩
  | @down above s k way kid ih =>
    obtain ⟨members, horigin, hreads⟩ := ih
    obtain ⟨type, htype, hkids⟩ := forall₂_kids hreads
    obtain ⟨i, hi⟩ := List.mem_iff_getElem?.1 kid
    obtain ⟨w, hw, hk⟩ := exists_getElem?_of_forall₂ hkids.flip hi
    obtain ⟨members', rfl⟩ := object hk
    refine ⟨members', .child horigin htype hw ?_, hk⟩
    rw [h.holds.children way, List.getElem?_map, hi]
    rfl

theorem exists_of_origin (h : ImportedAs v a root t) {r : Ref} {w : Json}
    (ho : Origin v a root r w) :
    ∃ above s, Spot.Path ⟨0, t⟩ above s ∧ s.ref = r ∧ Tree.Reads maxLevels w s.tree := by
  induction ho with
  | program => exact ⟨[], ⟨0, t⟩, .here, h.root_eq.symm, h.reads⟩
  | @child r r' members type i w _ htype hw hr' ih =>
    obtain ⟨above, s, way, rfl, hreads⟩ := ih
    obtain ⟨type', htype', hkids⟩ := forall₂_kids hreads
    obtain rfl : type' = type := Option.some.inj (htype'.symm.trans htype)
    obtain ⟨k, hk, hreads⟩ := exists_getElem?_of_forall₂ hkids hw
    rw [h.holds.children way, List.getElem?_map, hk] at hr'
    exact ⟨_, k, way.down (List.mem_of_getElem? hk), Option.some.inj hr', hreads⟩

theorem number_eq (h : ImportedAs v a root t) (way : Spot.Path ⟨0, t⟩ above s) {b : Index}
    (hb : s.ref = some b) : s.number = b.val := by
  rw [← Spot.index_val (way.number_lt h.holds.fits)]
  exact congrArg Fin.val (Option.some.inj hb)

theorem height_le_of_path (h : ImportedAs v a root t) (way : Spot.Path ⟨0, t⟩ above s) :
    s.tree.height ≤ 3 * maxDepth := by
  have hlen := way.length_add_height_le
  have hle : t.height ≤ maxLevels := h.reads.height_le
  simp only [maxLevels, maxDepth] at hlen hle ⊢
  omega

theorem shape_eq (h : ImportedAs v a root t) : ∃ ts, t.shape = .program ts := by
  obtain ⟨l, members, type, -, rfl, htype, -, hshape⟩ := h.reads.object
  have hprogram : type = "Program" := by simpa [isProgram, htype] using h.program
  generalize t.shape = shape at hshape ⊢
  cases hshape with
  | program => exact ⟨_, rfl⟩
  | block known => simp [hprogram] at known
  | function form => cases form <;> simp [Tree.functionType] at hprogram
  | other unknown => exact absurd (by rw [hprogram]; decide) unknown
  | _ => simp at hprogram

theorem shape_root (h : ImportedAs v a root t) : ∃ ss, Spot.shape ⟨0, t⟩ = .program ss := by
  obtain ⟨ts, hts⟩ := h.shape_eq
  exact ⟨Spot.spreadOver 0 ts, by rw [Spot.shape, hts]; rfl⟩

theorem opensScope_root (h : ImportedAs v a root t) : a.opensScope (Spot.ref ⟨0, t⟩) = true := by
  obtain ⟨ss, hshape⟩ := h.shape_root
  rw [h.holds.opensScope_eq .here, Spot.opens, hshape]

theorem statements_root (h : ImportedAs v a root t) :
    Spot.statements ⟨0, t⟩ = Spot.kids ⟨0, t⟩ := by
  obtain ⟨ss, hshape⟩ := h.shape_root
  rw [Spot.statements, hshape]
  rfl

theorem statements?_root (h : ImportedAs v a root t) :
    a.statements? root = some ((Spot.kids ⟨0, t⟩).map Spot.ref) := by
  obtain ⟨ss, hshape⟩ := h.shape_root
  rw [h.root_eq, h.holds.statements?_eq .here, hshape]
  rfl

theorem defaultTrace_eq (h : ImportedAs v a root t) :
    a.defaultTrace root = some (Spot.traceOver maxDepth (Spot.kids ⟨0, t⟩)) := by
  rw [Arena.defaultTrace, Arena.trace, h.statements?_root]
  exact h.traceBody_eq maxDepth .here h.opensScope_root

end ImportedAs

theorem exists_programTree_standAlone {members : Tree.Members} {t : Tree}
    (h : Tree.Reads maxLevels (.object members) t) (hs : t.shape.statements?.isSome) :
    ∃ t', programTree (standAlone members) = .ok t' ∧ t'.kids = t.kids := by
  obtain ⟨ts, hts⟩ := Option.isSome_iff_exists.1 hs
  obtain ⟨l, hl, hlist⟩ := h.readList_eq hts
  refine ⟨_, programTree_standAlone hl hlist, ?_⟩
  rw [Tree.kids, Tree.kids, Node.present, Node.present, Node.statements?_eq_some hts]
  rfl

theorem Spot.traceOver_kids_eq {s : Spot} {t : Tree} (hk : t.kids = s.tree.kids)
    (hs : s.number < capacity) (depth : Nat) :
    traceOver depth s.kids = Call.raiseList s.base (traceOver depth (Spot.kids ⟨0, t⟩)) := by
  have hkids : s.kids = (Spot.kids ⟨0, t⟩).map (raise s.base) := by
    rw [← kids_raise, kids_eq, kids_eq, tree_raise, hk, raise, Nat.zero_add]
  rw [hkids]
  apply traceOver_raise
  intro k hk'
  have hbase := base_le_of_mem_kids hk'
  have hsucc := k.number_succ
  simp only [number, hk] at hbase hsucc hs ⊢
  omega

/-- The trace of an imported program exists. Let an entry at any depth of it have a program or block
as its callee, imported from some object. Then its own entries are the trace of the program that has
the body of this object, with the callees moved to the numbers that they have in the arena. -/
theorem calls_eq_standAlone {v : Json} {a : Arena} {root : Ref}
    (h : importProgram v = .ok (a, root)) (hs : a.size ≤ 2 ^ 32 - 1) :
    ∃ calls, a.defaultTrace root = some calls ∧
      ∀ e, Call.Occurs e calls → ∀ b : Index, e.callee = some b → (a.statements? (some b)).isSome →
        (∃ members, Origin v a root (some b) (.object members)) ∧
        ∀ members, Origin v a root (some b) (.object members) →
          ∃ a' root' calls', importProgram (standAlone members) = .ok (a', root') ∧
            a'.defaultTrace root' = some calls' ∧ a'.size ≤ b.val + 1 ∧
            e.calls = calls'.map (Call.raise (b.val + 1 - a'.size)) := by
  obtain ⟨t, imported⟩ := importedAs_of_importProgram h hs
  refine ⟨_, imported.defaultTrace_eq, ?_⟩
  intro e he b hb hstatements
  obtain ⟨s, m, hcallee, hcalls, hm, k, hk, above, way⟩ :=
    Spot.exists_of_occurs (fun k hk => imported.height_le_of_path (Spot.Path.here.down hk)) he
  have way := (Spot.Path.here.down hk).trans way
  have hsb : s.ref = some b := hcallee.symm.trans hb
  have hnumber := imported.number_eq way hsb
  refine ⟨?_, ?_⟩
  · obtain ⟨members, horigin, -⟩ := imported.exists_origin way
    exact ⟨members, hsb ▸ horigin⟩
  · intro members horigin
    obtain ⟨above', s', way', hs', hreads⟩ := imported.exists_of_origin horigin
    obtain rfl : s' = s :=
      way'.eq_of_number_eq way ((imported.number_eq way' hs').trans hnumber.symm)
    rw [← hsb, imported.holds.statements?_eq way, Option.isSome_map] at hstatements
    have hbody : s'.tree.shape.statements?.isSome := by
      rw [← s'.map_tree_shape, Node.statements?_map, Option.isSome_map]
      exact hstatements
    obtain ⟨t', hprogram, hkids⟩ := exists_programTree_standAlone hreads hbody
    have hsize : t'.size = s'.tree.size := by rw [Tree.size_eq, Tree.size_eq, hkids]
    have hsucc := s'.number_succ
    have hfits := way.number_lt imported.holds.fits
    have imported' := importedAs_of_programTree hprogram (by omega)
    have hsize' := imported'.size_eq
    refine ⟨_, _, _, ?_, imported'.defaultTrace_eq, by omega, ?_⟩
    · rw [importProgram, hprogram]
      rfl
    · have hdeep : e.calls = Spot.traceOver maxDepth s'.kids := by
        have hstatements : s'.statements = s'.kids := if_pos hstatements
        rw [hstatements] at hcalls hm
        rw [hcalls]
        refine Spot.traceOver_eq (Nat.min_le_left _ _) (Nat.min_le_right _ _) fun k hk => ?_
        exact Nat.le_min.2 ⟨hm k hk, imported.height_le_of_path (way.down hk)⟩
      have hbase : b.val + 1 - t'.toArena.1.size = s'.base := by omega
      rw [hdeep, hbase, Spot.traceOver_kids_eq hkids hfits, Call.raiseList_eq_map]

/-- The body of `f`, which is node 6, calls `g`, whose body is node 2; alone it is a program of six
nodes that calls node 1. -/
theorem calls_eq_standAlone_nestedCalls :
    ∃ a root calls e members a' root' calls',
      importProgram Sample.nestedCalls = .ok (a, root) ∧ a.defaultTrace root = some calls ∧
      Call.Occurs e calls ∧ e.callee = some 6 ∧ e.calls.map Call.callee = [some 2] ∧
      Origin Sample.nestedCalls a root (some 6) (.object members) ∧
      importProgram (standAlone members) = .ok (a', root') ∧ a'.defaultTrace root' = some calls' ∧
      e.calls = calls'.map (Call.raise (6 + 1 - a'.size)) := by
  have himport : (importProgram Sample.nestedCalls).map
      (fun p => (p.1.size, p.1.statements? (some 6))) = .ok (14, some [some 5]) := by
    decide +kernel
  have htrace : (importProgram Sample.nestedCalls).map (fun p => (p.1.defaultTrace p.2).map
      (List.map fun c => (c.callee, c.calls.map Call.callee))) =
      .ok (some [(some 6, [some 2])]) := by
    decide +kernel
  obtain ⟨⟨a, root⟩, h, hp⟩ := exists_ok_of_map himport
  obtain ⟨hsize, hbody⟩ := Prod.mk.inj hp
  simp only at hsize hbody
  obtain ⟨calls, hcalls, hlocal⟩ := calls_eq_standAlone h (by omega)
  rw [h] at htrace
  have hlist := Except.ok.inj htrace
  simp only [hcalls, Option.map_some, Option.some_inj] at hlist
  obtain ⟨e, rfl, he⟩ := List.map_eq_singleton_iff.1 hlist
  obtain ⟨hcallee, hinner⟩ := Prod.mk.inj he
  have hoccurs : Call.Occurs e [e] := .here List.mem_cons_self
  obtain ⟨⟨members, horigin⟩, halone⟩ := hlocal e hoccurs 6 hcallee (by rw [hbody]; rfl)
  obtain ⟨a', root', calls', h', htrace', -, heq⟩ := halone members horigin
  exact ⟨a, root, [e], e, members, a', root', calls', h, hcalls, hoccurs, hcallee, hinner, horigin,
    h', htrace', heq⟩

end CallTrace
