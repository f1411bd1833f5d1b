import CallTrace.Proofs.Scopes

/-!
Names count only up to equality.

Analysis compares the texts of identifiers and reports them, and does nothing else with them. If each of
them is replaced by another, different ones by different ones, all walks and scopes stay what they are and
a name is bound where it was bound before. So the trace has the same entries under the new names
(`Arena.traceBody_rename`).
-/
namespace CallTrace

namespace Node

variable {α : Type}

/-- The node with the text of an identifier replaced. -/
def rename (f : String → String) : Node α → Node α
  | .identifier text => .identifier (f text)
  | n => n

variable (f : String → String) (n : Node α)

@[simp] theorem children_rename : (n.rename f).children = n.children := by
  cases n <;> rfl

@[simp] theorem statements?_rename : (n.rename f).statements? = n.statements? := by
  cases n <;> rfl

@[simp] theorem isFunction_rename : (n.rename f).isFunction = n.isFunction := by
  cases n <;> rfl

@[simp] theorem isFunctionExpression_rename :
    (n.rename f).isFunctionExpression = n.isFunctionExpression := by
  cases n <;> rfl

@[simp] theorem functionBody?_rename : (n.rename f).functionBody? = n.functionBody? := by
  cases n <;> rfl

@[simp] theorem text?_rename : (n.rename f).text? = n.text?.map f := by
  cases n <;> rfl

end Node

/-- The callee under the new name. -/
def Callee.rename (f : String → String) (c : Callee) : Callee := { c with name := c.name.map f }

namespace Call

mutual

/-- The entry with every name that is present replaced, also in what is nested in it. -/
def rename (f : String → String) : Call → Call
  | .mk name callee calls => .mk (name.map f) callee (renameList f calls)

def renameList (f : String → String) : List Call → List Call
  | [] => []
  | c :: rest => rename f c :: renameList f rest

end

theorem renameList_eq_map (f : String → String) (calls : List Call) :
    renameList f calls = calls.map (rename f) := by
  induction calls with
  | nil => rfl
  | cons c rest ih => rw [renameList, ih, List.map_cons]

end Call

theorem Walked.gather_map_map {α β γ : Type} (xs : List α) (f : α → Walked (List β)) (g : β → γ) :
    gather xs (fun x => (f x).map (List.map g)) = (gather xs f).map (List.map g) := by
  induction xs with
  | nil => rfl
  | cons x xs ih =>
    rw [gather_cons, gather_cons, ih]
    cases f x with
    | none => rfl
    | some ys => cases gather xs f <;> simp

namespace Arena

/-- The arena with the text of every identifier replaced. -/
def rename (f : String → String) (a : Arena) : Arena :=
  { a with nodes := a.nodes.map (Node.rename f) }

variable (f : String → String) (a : Arena)

theorem node?_rename (r : Ref) : (a.rename f).node? r = (a.node? r).map (Node.rename f) := by
  cases r with
  | none => rfl
  | some i => simp [node?, rename]

theorem identifierText?_rename (r : Ref) :
    (a.rename f).identifierText? r = (a.identifierText? r).map f := by
  rw [identifierText?, identifierText?, node?_rename]
  cases a.node? r <;> simp

theorem statements?_rename (r : Ref) : (a.rename f).statements? r = a.statements? r := by
  rw [statements?, statements?, node?_rename]
  cases a.node? r <;> simp

theorem visitsBelow_rename (r : Ref) : (a.rename f).visitsBelow r = a.visitsBelow r := by
  rw [visitsBelow, visitsBelow, children, children, node?_rename]
  cases a.node? r <;> simp

theorem scanFrom_rename {σ β : Type} (visit : σ → Visit → Except β σ) (stack : List Pending) (s : σ) :
    (a.rename f).scanFrom visit stack s = a.scanFrom visit stack s := by
  induction stack, s using scanFrom.induct a visit with
  | case1 s => rw [scanFrom, scanFrom]
  | case2 v rest s => rw [scanFrom, scanFrom]
  | case3 levels v rest s b hv => rw [scanFrom, scanFrom, hv]
  | case4 levels v rest s s' hv ih =>
    rw [scanFrom, scanFrom, hv, visitsBelow_rename]
    exact ih

theorem scan_rename {σ β : Type} (rounds : Nat) (visit : σ → Visit → Except β σ) (s : σ) (root : Ref) :
    (a.rename f).scan rounds visit s root = a.scan rounds visit s root := by
  have hstart : Walk.start (a.rename f) root = Walk.start a root := by
    rw [Walk.start, Walk.start, node?_rename]
    cases a.node? root <;> rfl
  have hlevels : (a.rename f).levels rounds = a.levels rounds := by
    simp [levels, size, rename]
  rw [scan, scan, hstart, hlevels, scanFrom_rename]

theorem opensScope_rename (r : Ref) : (a.rename f).opensScope r = a.opensScope r := by
  have hparent : ((a.rename f).node? ((a.rename f).parent r)).any Node.isFunction =
      (a.node? (a.parent r)).any Node.isFunction := by
    have hsame : (a.rename f).parent r = a.parent r := rfl
    rw [hsame, node?_rename]
    cases a.node? (a.parent r) <;> simp
  rw [opensScope, opensScope, hparent, node?_rename]
  cases a.node? r with
  | none => rfl
  | some n => cases n <;> rfl

theorem firstScope_rename (n : Nat) (r : Ref) : (a.rename f).firstScope n r = a.firstScope n r := by
  induction n generalizing r with
  | zero => rfl
  | succ n ih =>
    cases r with
    | none => rfl
    | some i =>
      rw [firstScope, firstScope, opensScope_rename, ih]
      rfl

theorem innermostScope_rename (r : Ref) : (a.rename f).innermostScope r = a.innermostScope r :=
  firstScope_rename f a maxAncestors (a.parent r)

theorem calleesBelow_rename (statement : Ref) :
    (a.rename f).calleesBelow statement = a.calleesBelow statement := by
  have hcall : ∀ v, (a.rename f).calleeAt v = a.calleeAt v := by
    intro v
    rw [calleeAt, calleeAt, node?_rename]
    cases a.node? v.node with
    | none => rfl
    | some n => cases n <;> rfl
  have hscope : ∀ v : Visit, (a.rename f).liesIn ((a.rename f).parent statement) v.node =
      a.liesIn (a.parent statement) v.node := by
    intro v
    rw [liesIn, liesIn, innermostScope_rename]
    rfl
  rw [calleesBelow_eq_filter, calleesBelow_eq_filter, preOrder, preOrder, scan_rename]
  simp only [funext hcall, hscope]

theorem entriesFor_rename {deeper deeper' : List Ref → Walked (List Call)}
    (h : ∀ body, deeper' body = (deeper body).map (List.map (Call.rename f))) (found : Option Callee) :
    (a.rename f).entriesFor deeper' (found.map (Callee.rename f)) =
      (a.entriesFor deeper found).map (List.map (Call.rename f)) := by
  cases found with
  | none => rfl
  | some callee =>
    have hbody : (a.rename f).statements? (callee.rename f).body = a.statements? callee.body :=
      statements?_rename f a callee.body
    simp only [entriesFor, Option.map_some, hbody]
    cases a.statements? callee.body with
    | none => rfl
    | some body =>
      simp only [h]
      cases deeper body with
      | none => rfl
      | some calls => simp [Call.rename, Call.renameList_eq_map, Callee.rename]

section Names

variable {f} (hf : Function.Injective f)
include hf

theorem bindsFunction_rename (name : String) (v : Visit) :
    (a.rename f).bindsFunction (f name) v = a.bindsFunction name v := by
  have htext : ∀ target, (a.rename f).identifierText? target = some (f name) ↔
      a.identifierText? target = some name := by
    intro target
    rw [identifierText?_rename, ← Option.map_some]
    exact (Option.map_injective hf).eq_iff
  unfold bindsFunction
  rw [node?_rename, node?_rename]
  congr 1
  · cases a.node? v.node <;> simp
  · cases a.node? v.parent with
    | none => rfl
    | some n => cases n <;> simp [Node.rename, htext]

theorem boundFunction_rename (root : Ref) (name : String) :
    (a.rename f).boundFunction root (f name) = a.boundFunction root name := by
  have hbody : ∀ found : Option Ref, (found.bind (a.rename f).node?).bind Node.functionBody? =
      (found.bind a.node?).bind Node.functionBody? := by
    intro found
    cases found with
    | none => rfl
    | some r =>
      simp only [Option.bind_some, node?_rename]
      cases a.node? r <;> simp
  rw [boundFunction, boundFunction, findVisit, findVisit, scan_rename]
  simp only [bindsFunction_rename a hf, hbody]

/-- A name that is resolved is resolved to the same body under its new name. -/
theorem functionExpressions_rename (body : List Ref) (callee : Ref) :
    functionExpressions (a.rename f) body callee =
      (functionExpressions a body callee).map (Option.map (Callee.rename f)) := by
  have hscope : (a.rename f).lookupScope body = a.lookupScope body := by
    rw [lookupScope, lookupScope]
    exact congrArg _ (funext (innermostScope_rename f a))
  unfold functionExpressions
  rw [node?_rename]
  cases hcallee : a.node? callee with
  | none => rfl
  | some n =>
    cases n with
    | identifier name =>
      simp only [Option.map_some, Node.rename, resolveName, hscope]
      cases a.lookupScope body with
      | none => rfl
      | some scope =>
        simp only [boundFunction_rename a hf]
        cases a.boundFunction (some scope) name with
        | none => rfl
        | some found => cases found <;> rfl
    | function form name parameters inner isAsync isGenerator =>
      cases form with
      | expression =>
        simp only [Option.map_some, Node.rename, identifierText?_rename]
        cases inner <;> rfl
      | _ => rfl
    | _ => rfl

theorem traceBody_rename (depth : Nat) (body : List Ref) :
    (a.rename f).traceBody [functionExpressions] depth body =
      (a.traceBody [functionExpressions] depth body).map (List.map (Call.rename f)) := by
  induction depth generalizing body with
  | zero => rfl
  | succ depth ih =>
    have hentries : ∀ callee, (functionExpressions (a.rename f) body callee).bind
        ((a.rename f).entriesFor ((a.rename f).traceBody [functionExpressions] depth)) =
        ((functionExpressions a body callee).bind
          (a.entriesFor (a.traceBody [functionExpressions] depth))).map
            (List.map (Call.rename f)) := by
      intro callee
      rw [functionExpressions_rename a hf]
      cases functionExpressions a body callee with
      | none => rfl
      | some found => exact entriesFor_rename f a ih found
    rw [traceBody_succ, traceBody_succ, ← Walked.gather_map_map]
    apply Walked.gather_congr
    intro statement _
    rw [calleesBelow_rename]
    cases a.calleesBelow statement with
    | none => rfl
    | some callees =>
      simp only [Option.bind_some, Walked.gather_singleton, hentries]
      exact Walked.gather_map_map _ _ _

end Names

/-- On an arena all of whose walks end, replacing the texts of all identifiers, different ones by different
ones, changes the trace only in that the names in it are replaced. Its entries stay in their order and
nesting, with the same callees, and an entry without a name still has none. -/
theorem defaultTrace_rename {a : Arena}
    (walks : ∀ r, ∃ visits, Walk.Produces a (Walk.start a r) visits) {f : String → String}
    (hf : Function.Injective f) (root : Ref) :
    ∃ calls, a.defaultTrace root = some calls ∧
      (a.rename f).defaultTrace root = some (calls.map (Call.rename f)) := by
  have free : ∀ r, a.Uncircled r := fun r => exists_produces_iff_uncircled.1 (walks r)
  have answers : ∀ extract ∈ [functionExpressions], ∀ body callee, (extract a body callee).isSome := by
    intro extract hx
    obtain rfl := List.mem_singleton.1 hx
    exact isSome_functionExpressions free
  have htrace := isSome_traceBody free answers maxDepth ((a.statements? root).getD [])
  obtain ⟨calls, hcalls⟩ := Option.isSome_iff_exists.1 htrace
  refine ⟨calls, hcalls, ?_⟩
  rw [defaultTrace, trace, statements?_rename, traceBody_rename a hf, hcalls]
  rfl

end Arena

/-- The names `f` and `g` change places, in the calls and in the trace. -/
theorem Arena.defaultTrace_rename_nestedCalls :
    ∃ a root calls, importProgram Sample.nestedCalls = .ok (a, root) ∧
      Function.Injective (Equiv.swap "f" "g") ∧
      a.defaultTrace root = some calls ∧
      Call.flattenList 0 calls = [(0, some "f", some 6), (1, some "g", some 2)] ∧
      (a.rename (Equiv.swap "f" "g")).defaultTrace root =
        some (calls.map (Call.rename (Equiv.swap "f" "g"))) ∧
      Call.flattenList 0 (calls.map (Call.rename (Equiv.swap "f" "g"))) =
        [(0, some "g", some 6), (1, some "f", some 2)] := by
  have himport : (importProgram Sample.nestedCalls).map (fun p => p.1.size) = .ok 14 := by
    decide +kernel
  have htrace : (importProgram Sample.nestedCalls).map (fun p =>
      (p.1.defaultTrace p.2).map (Call.flattenList 0)) =
      .ok (some [(0, some "f", some 6), (1, some "g", some 2)]) := by
    decide +kernel
  have hrenamed : (importProgram Sample.nestedCalls).map (fun p =>
      ((p.1.rename (Equiv.swap "f" "g")).defaultTrace p.2).map (Call.flattenList 0)) =
      .ok (some [(0, some "g", some 6), (1, some "f", some 2)]) := by
    decide +kernel
  obtain ⟨⟨a, root⟩, h, hsize⟩ := exists_ok_of_map himport
  simp only at hsize
  rw [h] at htrace hrenamed
  obtain ⟨t, imported⟩ := importedAs_of_importProgram h (by omega)
  have hwalks : ∀ r, ∃ visits, Walk.Produces a (Walk.start a r) visits :=
    fun r => exists_produces_iff_uncircled.2 (imported.uncircled r)
  have hinjective := (Equiv.swap "f" "g").injective
  obtain ⟨calls, hcalls, hnew⟩ := defaultTrace_rename hwalks hinjective root
  have hold := Except.ok.inj htrace
  have hflat := Except.ok.inj hrenamed
  simp only [hcalls] at hold
  simp only [hnew] at hflat
  exact ⟨a, root, calls, h, hinjective, hcalls, Option.some.inj hold, hnew, Option.some.inj hflat⟩

end CallTrace
