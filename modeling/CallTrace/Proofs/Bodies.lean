import CallTrace.Proofs.Scopes

/-!
The trace of a body as a function of its statements alone.

`Spot.traceOver` computes the trace of some statements from their trees and numbers, without an arena
and without what is around them. On an arena that holds the statements as the body of a scope, the
trace with the usual extractor is this one (`ImportedAs.traceBody_eq`).
-/
namespace CallTrace

section Lists

variable {α β : Type}

theorem find?_flatMap_congr {p : β → Bool} {f g : α → List β} {xs : List α}
    (h : ∀ x ∈ xs, (f x).find? p = (g x).find? p) :
    (xs.flatMap f).find? p = (xs.flatMap g).find? p := by
  induction xs with
  | nil => rfl
  | cons x xs ih =>
    have hxs := ih fun y hy => h y (List.mem_cons_of_mem _ hy)
    rw [List.flatMap_cons, List.flatMap_cons, List.find?_append, List.find?_append,
      h x List.mem_cons_self, hxs]

theorem findSome?_ite {p q : α → Bool} {f : α → β} {xs : List α} (h : ∀ x ∈ xs, q x = p x) :
    xs.findSome? (fun x => if q x then some (f x) else none) = (xs.find? p).map f := by
  induction xs with
  | nil => rfl
  | cons x xs ih =>
    have hxs := ih fun y hy => h y (List.mem_cons_of_mem _ hy)
    rw [List.findSome?_cons, List.find?_cons, h x List.mem_cons_self, hxs]
    cases p x <;> rfl

end Lists

namespace Spot

/-- Whether the root opens a scope, given whether it is right below a function. -/
def opens (inFunction : Bool) (s : Spot) : Bool :=
  match s.shape with
  | .program _ => true
  | .block _ => inFunction
  | _ => false

/-- The subtrees that are met without entering a scope. -/
def direct : Spot → Bool → List Spot :=
  fold fun s below inFunction =>
    if s.opens inFunction then [] else s :: (below.map fun d => d s.shape.isFunction).flatten

theorem direct_eq (s : Spot) (inFunction : Bool) :
    s.direct inFunction =
      if s.opens inFunction then [] else s :: s.kids.flatMap fun k => k.direct s.shape.isFunction := by
  rw [direct, fold_eq, List.map_map]
  rfl

def callee? (s : Spot) : Option (Option Spot) :=
  match s.shape with
  | .call callee _ _ => some callee
  | _ => none

/-- All subtrees in the order of the walk, each with the one from which it is reached. -/
def reached : Spot → Option Spot → List (Spot × Option Spot) :=
  fold fun s below parent => (s, parent) :: (below.map fun r => r (some s)).flatten

theorem reached_eq (s : Spot) (parent : Option Spot) :
    s.reached parent = (s, parent) :: s.kids.flatMap fun k => k.reached (some s) := by
  rw [reached, fold_eq, List.map_map]
  rfl

def name? (o : Option Spot) : Option String := o.bind fun s => s.shape.text?

def binds (name : String) (x : Spot × Option Spot) : Bool :=
  x.1.shape.isFunctionExpression &&
    match x.2.map shape with
    | some (.variableDeclaration target _) => name? target = some name
    | _ => false

def boundIn (body : List Spot) (name : String) : Option Spot :=
  ((body.flatMap fun k => k.reached none).find? (binds name)).bind fun x => x.1.shape.functionBody?

/-- The function body that a callee runs among some statements, with its name. -/
def resolve (body : List Spot) (callee : Option Spot) : Option (Option String × Spot) :=
  match callee.map shape with
  | some (.identifier name) => (boundIn body name).map fun b => (some name, b)
  | some (.function .expression name _ inner _ _) => inner.map fun b => (name? name, b)
  | _ => none

/-- The function bodies that the calls made directly in some statements of a body run. -/
def foundAmong (looked body : List Spot) : List (Option String × Spot) :=
  (looked.flatMap fun k => (k.direct false).filterMap callee?).filterMap (resolve body)

def found (body : List Spot) : List (Option String × Spot) :=
  foundAmong (body.take (lastLooked body.length + 1)) body

def statements (s : Spot) : List Spot := if s.shape.statements?.isSome then s.kids else []

/-- The entries for a body, at most the given number of calls deep. -/
def traceOver : Nat → List Spot → List Call
  | 0, _ => []
  | depth + 1, body => (found body).map fun x => .mk x.1 x.2.ref (traceOver depth x.2.statements)

@[simp] theorem traceOver_nil (depth : Nat) : traceOver depth [] = [] := by
  cases depth <;> rfl

theorem mem_kids_of_mem_statements {s k : Spot} (h : k ∈ s.statements) : k ∈ s.kids := by
  unfold statements at h
  split at h
  · exact h
  · simp at h

theorem mem_kids_of_functionBody? {s b : Spot} (h : s.shape.functionBody? = some b) :
    b ∈ s.kids ∧ s.shape.isFunction = true := by
  rw [kids, Node.mem_present]
  cases hs : s.shape <;> rw [hs] at h <;> cases h
  simp [Node.children, Node.single, Node.isFunction]

theorem mem_kids_iff_of_declaration {s k : Spot} {target initializer : Option Spot}
    (h : s.shape = .variableDeclaration target initializer) :
    k ∈ s.kids ↔ target = some k ∨ initializer = some k := by
  rw [kids, Node.mem_present, h]
  cases target <;> cases initializer <;> simp [Node.children, Node.single, eq_comm]

theorem mem_kids_of_callee? {s c : Spot} (h : s.callee? = some (some c)) : c ∈ s.kids := by
  unfold callee? at h
  rw [kids, Node.mem_present]
  cases hs : s.shape <;> rw [hs] at h <;> cases h
  simp [Node.children, Node.single]

theorem exists_path_of_mem_direct {s x : Spot} {inFunction : Bool} (h : x ∈ s.direct inFunction) :
    ∃ above, Path s above x := by
  induction s using induct generalizing inFunction with
  | step s ih =>
    rw [direct_eq] at h
    split at h
    · simp at h
    · rcases List.mem_cons.1 h with rfl | h
      · exact ⟨[], .here⟩
      · obtain ⟨k, hk, h⟩ := List.mem_flatMap.1 h
        obtain ⟨above, way⟩ := ih k hk h
        exact ⟨_, (Path.here.down hk).trans way⟩

theorem exists_path_of_mem_reached {s : Spot} {x : Spot × Option Spot} {parent : Option Spot}
    (h : x ∈ s.reached parent) : ∃ above, Path s above x.1 ∧ x.2 = above.head?.or parent := by
  induction s using induct generalizing parent with
  | step s ih =>
    rw [reached_eq] at h
    rcases List.mem_cons.1 h with rfl | h
    · exact ⟨[], .here, rfl⟩
    · obtain ⟨k, hk, h⟩ := List.mem_flatMap.1 h
      obtain ⟨above, way, hx⟩ := ih k hk h
      refine ⟨above ++ [s], (Path.here.down hk).trans way, ?_⟩
      cases above <;> simpa using hx

/-- A function body that is found lies at least two levels below a statement, right below a
function. -/
theorem exists_path_of_mem_foundAmong {looked body : List Spot} (hsub : ∀ k ∈ looked, k ∈ body)
    {x : Option String × Spot} (h : x ∈ foundAmong looked body) :
    ∃ k ∈ body, ∃ f above, Path k (f :: above) x.2 ∧ f.shape.isFunction = true ∧ above ≠ [] := by
  obtain ⟨callee, hcallee, hx⟩ := List.mem_filterMap.1 h
  obtain ⟨k, hk, hcall⟩ := List.mem_flatMap.1 hcallee
  obtain ⟨call, hdirect, hcall⟩ := List.mem_filterMap.1 hcall
  unfold resolve at hx
  split at hx
  · rename_i name hname
    obtain ⟨b, hb, rfl⟩ := Option.map_eq_some_iff.1 hx
    obtain ⟨y, hy, hbody⟩ := Option.bind_eq_some_iff.1 hb
    obtain ⟨k, hk, hreached⟩ := List.mem_flatMap.1 (List.mem_of_find?_eq_some hy)
    obtain ⟨above, way, hparent⟩ := exists_path_of_mem_reached hreached
    obtain ⟨hkid, hfun⟩ := mem_kids_of_functionBody? hbody
    refine ⟨k, hk, y.1, above, way.down hkid, hfun, ?_⟩
    -- A function that is bound to a name is reached from the declaration.
    rintro rfl
    have hbinds := List.find?_some hy
    simp [binds, hparent] at hbinds
  · rename_i name parameters inner isAsync isGenerator hshape
    obtain ⟨b, rfl, rfl⟩ := Option.map_eq_some_iff.1 hx
    obtain ⟨f, rfl, hf⟩ := Option.map_eq_some_iff.1 hshape
    obtain ⟨above, way⟩ := exists_path_of_mem_direct hdirect
    have hbody : f.shape.functionBody? = some b := by rw [hf]; rfl
    obtain ⟨hkid, hfun⟩ := mem_kids_of_functionBody? hbody
    refine ⟨k, hsub k hk, f, call :: above, ?_, hfun, by simp⟩
    exact (way.down (mem_kids_of_callee? hcall)).down hkid
  · cases hx

theorem exists_path_of_mem_found {body : List Spot} {x : Option String × Spot} (h : x ∈ found body) :
    ∃ k ∈ body, ∃ f above, Path k (f :: above) x.2 ∧ f.shape.isFunction = true ∧ above ≠ [] :=
  exists_path_of_mem_foundAmong (fun _ => List.mem_of_mem_take) h

theorem height_of_mem_found {body : List Spot} {h : Nat} (hb : ∀ k ∈ body, k.tree.height ≤ h)
    {x : Option String × Spot} (hx : x ∈ found body) :
    ∀ k ∈ x.2.statements, k.tree.height + 3 ≤ h := by
  intro k hk
  obtain ⟨k', hk', f, above, way, -, hne⟩ := exists_path_of_mem_found hx
  have hlen := way.length_add_height_le
  have hpos : 0 < above.length := List.length_pos_of_ne_nil hne
  have hkid := height_lt_of_mem_kids (mem_kids_of_mem_statements hk)
  have := hb k' hk'
  simp only [List.length_cons] at hlen
  omega

theorem eq_nil_of_height_le_zero {body : List Spot} (h : ∀ k ∈ body, k.tree.height ≤ 0) : body = [] := by
  apply List.eq_nil_iff_forall_not_mem.2
  intro k hk
  have hle := h k hk
  have hpos := k.tree.height_pos
  omega

/-- A trace that may go down as deep as the statements allow does not depend on how much deeper it
may go. -/
theorem traceOver_eq {m n h : Nat} (hm : h ≤ 3 * m) (hn : h ≤ 3 * n) {body : List Spot}
    (hb : ∀ k ∈ body, k.tree.height ≤ h) : traceOver m body = traceOver n body := by
  -- No statements are left when no levels are.
  have empty : h = 0 → body = [] := by
    rintro rfl
    exact eq_nil_of_height_le_zero hb
  induction m generalizing n h body with
  | zero => rw [empty (by omega), traceOver_nil, traceOver_nil]
  | succ m ih =>
    cases n with
    | zero => rw [empty (by omega), traceOver_nil, traceOver_nil]
    | succ n =>
      refine List.map_congr_left fun x hx => ?_
      have hx := height_of_mem_found hb hx
      have hdeeper : traceOver m x.2.statements = traceOver n x.2.statements := by
        have hlow : ∀ k ∈ x.2.statements, k.tree.height ≤ h - 3 := by
          intro k hk
          have := hx k hk
          omega
        apply ih (h := h - 3) (by omega) (by omega) hlow
        intro hh
        rw [hh] at hlow
        exact eq_nil_of_height_le_zero hlow
      rw [hdeeper]

theorem visits_eq_map_reached (s : Spot) (parent : Option Spot) :
    s.visits (parent.map index) = (s.reached parent).map fun x => ⟨x.1.ref, x.2.map index⟩ := by
  induction s using induct generalizing parent with
  | step s ih =>
    rw [visits_eq, reached_eq, List.map_cons, List.map_flatMap]
    congr 1
    exact List.flatMap_congr fun k hk => ih k hk (some s)

theorem find?_reached {s : Spot} (h : s.shape.statements?.isSome) {name : String} :
    (s.reached none).find? (binds name) =
      (s.kids.flatMap fun k => k.reached none).find? (binds name) := by
  have hnone : ∀ k : Spot, ¬ binds name (k, none) = true := by simp [binds]
  have hsome : ∀ k : Spot, ¬ binds name (k, some s) = true := by
    intro k
    cases hs : s.shape with
    | program | block => simp [binds, hs]
    | _ => simp [hs, Node.statements?] at h
  rw [reached_eq, List.find?_cons_of_neg (hnone s)]
  apply find?_flatMap_congr
  intro k _
  rw [reached_eq, reached_eq, List.find?_cons_of_neg (hsome k), List.find?_cons_of_neg (hnone k)]

end Spot

namespace Arena.Holds

open Spot (direct callee? reached binds boundIn resolve found name?)

variable {a : Arena} {root s : Spot} {above : List Spot}

def inFunction (above : List Spot) : Bool := above.head?.any fun p => p.shape.isFunction

theorem opensScope_eq (h : a.Holds root) (way : Spot.Path root above s) :
    a.opensScope s.ref = s.opens (inFunction above) := by
  have hparent : (a.node? (a.parent s.ref)).any Node.isFunction = inFunction above := by
    rw [h.parent way]
    cases way with
    | here => rfl
    | @down above p _ way kid =>
      have hp : a.node? (Spot.Path.parent (p :: above)) = some p.node := h.node? way
      simp [hp, inFunction, Spot.node]
  unfold opensScope Spot.opens
  rw [hparent, h.node? way, Spot.node]
  cases s.shape <;> rfl

theorem calleeAt_eq (h : a.Holds root) (way : Spot.Path root above s) (parent : Ref) :
    a.calleeAt ⟨s.ref, parent⟩ = s.callee?.map (Option.map Spot.index) := by
  simp only [calleeAt, h.node? way, Spot.node, callee?]
  cases s.shape <;> rfl

theorem filterMap_walk_eq (h : a.Holds root) (way : Spot.Path root above s) (parent : Ref) :
    (s.walk (fun r => !a.opensScope r) parent).filterMap a.calleeAt =
      ((s.direct (inFunction above)).filterMap callee?).map (Option.map Spot.index) := by
  induction s using Spot.induct generalizing above parent with
  | step s ih =>
    rw [Spot.walk_eq, Spot.direct_eq, h.opensScope_eq way]
    cases s.opens (inFunction above) with
    | true => rfl
    | false =>
      have hkids : (s.kids.flatMap fun k => k.walk (fun r => !a.opensScope r) s.ref).filterMap
            a.calleeAt =
          ((s.kids.flatMap fun k => k.direct s.shape.isFunction).filterMap callee?).map
            (Option.map Spot.index) := by
        rw [List.filterMap_flatMap, List.filterMap_flatMap, List.map_flatMap]
        exact List.flatMap_congr fun k hk => ih k hk (way.down hk) s.ref
      simp only [Bool.not_false, if_true, Bool.false_eq_true, if_false, List.filterMap_cons,
        h.calleeAt_eq way, hkids]
      cases s.callee? <;> rfl

theorem identifierText?_eq (h : a.Holds root) (way : Spot.Path root above s) {o : Option Spot}
    (ho : ∀ k, o = some k → k ∈ s.kids) : a.identifierText? (o.map Spot.index) = name? o := by
  cases o with
  | none => rfl
  | some k =>
    have hk : a.node? (some k.index) = some k.node := h.node? (way.down (ho k rfl))
    simp [identifierText?, hk, name?, Spot.node]

theorem bindsFunction_eq (h : a.Holds root) (way : Spot.Path root above s) {parent : Option Spot}
    (hparent : ∀ p, parent = some p → ∃ above, Spot.Path root above p) (name : String) :
    a.bindsFunction name ⟨s.ref, parent.map Spot.index⟩ = binds name (s, parent) := by
  unfold bindsFunction binds
  rw [h.node? way]
  congr 1
  · simp [Spot.node]
  · cases parent with
    | none => rfl
    | some p =>
      obtain ⟨above, way⟩ := hparent p rfl
      have hp : a.node? (some p.index) = some p.node := h.node? way
      simp only [Option.map_some, hp, Spot.node]
      cases hshape : p.shape with
      | variableDeclaration target initializer =>
        have hkids : ∀ k, target = some k → k ∈ p.kids := fun k hk =>
          (Spot.mem_kids_iff_of_declaration hshape).2 (.inl hk)
        simp only [Node.map, h.identifierText?_eq way hkids]
      | _ => rfl

theorem boundFunction_eq (h : a.Holds root) (way : Spot.Path root above s)
    (hs : root.tree.size ≤ a.size) (hb : s.shape.statements?.isSome) (name : String) :
    a.boundFunction s.ref name = some ((boundIn s.kids name).map Spot.index) := by
  have hreached : ∀ x ∈ s.reached none, a.node? x.1.ref = some x.1.node ∧
      a.bindsFunction name ⟨x.1.ref, x.2.map Spot.index⟩ = binds name x := by
    intro x hx
    obtain ⟨above', way', hx⟩ := Spot.exists_path_of_mem_reached hx
    refine ⟨h.node? (way.trans way'), h.bindsFunction_eq (way.trans way') ?_ name⟩
    intro p hp
    rw [hx, Option.or_none] at hp
    cases way' with
    | here => cases hp
    | down way' kid =>
      cases hp
      exact ⟨_, way.trans way'⟩
  have hvisits : a.findVisit (fun v => if a.bindsFunction name v then some v.node else none) s.ref =
      some (((s.reached none).find? (binds name)).map fun x => x.1.ref) := by
    rw [findVisit_eq_some (h.node? way) (h.fullWalk_eq way hs 0 none)]
    have hmap := s.visits_eq_map_reached none
    rw [Option.map_none] at hmap
    rw [hmap, List.findSome?_map, Option.some_inj]
    exact findSome?_ite fun x hx => (hreached x hx).2
  rw [boundFunction, hvisits, Option.map_some, boundIn, ← Spot.find?_reached hb]
  cases hfind : (s.reached none).find? (binds name) with
  | none => rfl
  | some x =>
    have hnode := (hreached x (List.mem_of_find?_eq_some hfind)).1
    simp [hnode, Spot.node]

theorem statements?_eq (h : a.Holds root) (way : Spot.Path root above s) :
    a.statements? s.ref = s.shape.statements?.map fun _ => s.kids.map Spot.ref := by
  have hchildren := h.children way
  rw [Arena.children, h.node? way] at hchildren
  rw [Arena.statements?, h.node? way, Option.bind_some, Spot.node, Node.statements?_map]
  cases hs : s.shape.statements? with
  | none => rfl
  | some statements =>
    have hnode : s.node.statements? = some (statements.map (Option.map Spot.index)) := by
      rw [Spot.node, Node.statements?_map, hs]
      rfl
    rw [Option.map_some, Option.map_some, ← hchildren, ← Node.statements?_eq_some hnode]

end Arena.Holds

namespace Spot

theorem statements?_isSome_of_opens {s : Spot} {inFunction : Bool} (h : s.opens inFunction = true) :
    s.shape.statements?.isSome ∧ s.shape.isFunction = false := by
  cases hs : s.shape with
  | program | block => exact ⟨rfl, rfl⟩
  | _ => simp [opens, hs] at h

theorem opens_of_statements?_isSome {s : Spot} (h : s.shape.statements?.isSome) :
    s.opens true = true := by
  unfold opens
  cases hs : s.shape with
  | program | block => rfl
  | _ => simp [hs, Node.statements?] at h

end Spot

namespace ImportedAs

open Spot (found foundAmong resolve traceOver)
open Walked (gather gather_map gather_singleton gather_eq_some)

variable {v : Json} {a : Arena} {root : Ref} {t : Tree} {above : List Spot} {s : Spot}

theorem lookupScope_eq (h : ImportedAs v a root t) (way : Spot.Path ⟨0, t⟩ above s)
    (hopen : a.opensScope s.ref = true) (hne : s.kids ≠ []) :
    a.lookupScope (s.kids.map Spot.ref) = s.ref := by
  obtain ⟨k, ks, hk⟩ := List.exists_cons_of_ne_nil hne
  have hkid : k ∈ s.kids := by rw [hk]; exact List.mem_cons_self
  have hscope := h.holds.innermostScope_eq (way.down hkid) h.height_le
  rw [Spot.Path.scope_cons, if_pos hopen] at hscope
  simp [Arena.lookupScope, hk, hscope]

theorem functionExpressions_eq (h : ImportedAs v a root t) (way : Spot.Path ⟨0, t⟩ above s)
    (hopen : a.opensScope s.ref = true) (hne : s.kids ≠ []) {callee : Option Spot}
    (hc : ∀ c, callee = some c → ∃ above, Spot.Path ⟨0, t⟩ above c) :
    Arena.functionExpressions a (s.kids.map Spot.ref) (callee.map Spot.index) =
      some ((resolve s.kids callee).map fun x => ⟨x.2.ref, x.1⟩) := by
  unfold Arena.functionExpressions resolve
  cases callee with
  | none => rfl
  | some c =>
    obtain ⟨above', way'⟩ := hc c rfl
    have hnode : a.node? (some c.index) = some c.node := h.holds.node? way'
    simp only [Option.map_some, hnode, Spot.node]
    cases hshape : c.shape with
    | identifier name =>
      have hopens := hopen
      rw [h.holds.opensScope_eq way] at hopens
      have hb := (Spot.statements?_isSome_of_opens hopens).1
      have hbound := h.holds.boundFunction_eq way h.size_eq.ge hb name
      have hlookup := h.lookupScope_eq way hopen hne
      simp only [Node.map, Arena.resolveName, hlookup, Spot.ref] at hbound ⊢
      rw [hbound, Option.map_some, Option.map_map, Option.map_map]
      rfl
    | function form name parameters inner isAsync isGenerator =>
      cases form with
      | expression =>
        have hkids : ∀ k, name = some k → k ∈ c.kids := by
          rintro k rfl
          rw [Spot.kids, Node.mem_present, hshape]
          simp [Node.children, Node.single]
        simp only [Node.map, h.holds.identifierText?_eq way' hkids, Option.map_map]
        rfl
      | _ => rfl
    | _ => rfl

/-- The calls below a statement of a scope that belong to the scope are the ones that are met without
entering another scope. -/
theorem filterMap_visits_eq_direct (h : ImportedAs v a root t) (way : Spot.Path ⟨0, t⟩ above s)
    (hopen : a.opensScope s.ref = true) {k : Spot} (hk : k ∈ s.kids) (parent : Ref) :
    ((k.visits parent).filter fun w => a.innermostScope w.node == s.ref).filterMap a.calleeAt =
      ((k.direct false).filterMap Spot.callee?).map (Option.map Spot.index) := by
  have hfun : Arena.Holds.inFunction (s :: above) = false := by
    rw [h.holds.opensScope_eq way] at hopen
    exact (Spot.statements?_isSome_of_opens hopen).2
  have hscope : Spot.Path.scope a (s :: above) = s.ref := by
    rw [Spot.Path.scope_cons, if_pos hopen]
  have hlt : k.number < s.number := (way.down hk).number_lt_of_mem List.mem_cons_self
  rw [h.holds.filterMap_visits_eq (way.down hk) h.height_le (way.number_lt h.holds.fits) hlt hscope,
    h.holds.filterMap_walk_eq (way.down hk), hfun]

theorem calleesBelow_eq_direct (h : ImportedAs v a root t) (way : Spot.Path ⟨0, t⟩ above s)
    (hopen : a.opensScope s.ref = true) {k : Spot} (hk : k ∈ s.kids) :
    a.calleesBelow k.ref =
      some (((k.direct false).filterMap Spot.callee?).map (Option.map Spot.index)) := by
  have hparent : a.parent k.ref = s.ref := h.holds.parent (way.down hk)
  rw [Arena.calleesBelow_eq_filter, h.preOrder_eq (way.down hk), Option.map_some, hparent]
  exact congrArg some (h.filterMap_visits_eq_direct way hopen hk none)

theorem functionExpressions_eq_resolve (h : ImportedAs v a root t) (way : Spot.Path ⟨0, t⟩ above s)
    (hopen : a.opensScope s.ref = true) {k : Spot} (hk : k ∈ s.kids) {callee : Option Spot}
    (hcallee : callee ∈ (k.direct false).filterMap Spot.callee?) :
    Arena.functionExpressions a (s.kids.map Spot.ref) (callee.map Spot.index) =
      some ((resolve s.kids callee).map fun x => ⟨x.2.ref, x.1⟩) := by
  apply h.functionExpressions_eq way hopen (List.ne_nil_of_mem hk)
  rintro c rfl
  obtain ⟨call, hcall, hc⟩ := List.mem_filterMap.1 hcallee
  obtain ⟨above', way'⟩ := Spot.exists_path_of_mem_direct hcall
  exact ⟨_, ((way.down hk).trans way').down (Spot.mem_kids_of_callee? hc)⟩

/-- The body of a function opens a scope if it has statements. -/
theorem opensScope_of_isFunction (h : ImportedAs v a root t) {f : Spot}
    (way : Spot.Path ⟨0, t⟩ (f :: above) s) (hf : f.shape.isFunction = true)
    (hb : s.shape.statements?.isSome) : a.opensScope s.ref = true := by
  have hin : Arena.Holds.inFunction (f :: above) = true := hf
  rw [h.holds.opensScope_eq way, hin]
  exact Spot.opens_of_statements?_isSome hb

/-- A function body that a call leads to is on the tree, and opens a scope if it has statements. -/
theorem exists_path_of_mem_foundAmong (h : ImportedAs v a root t) (way : Spot.Path ⟨0, t⟩ above s)
    {looked : List Spot} (hsub : ∀ k ∈ looked, k ∈ s.kids) {x : Option String × Spot}
    (hx : x ∈ foundAmong looked s.kids) :
    ∃ above', Spot.Path ⟨0, t⟩ above' x.2 ∧
      (x.2.shape.statements?.isSome → a.opensScope x.2.ref = true) := by
  obtain ⟨k, hk, f, above', way', hf, -⟩ := Spot.exists_path_of_mem_foundAmong hsub hx
  have way' := (way.down hk).trans way'
  exact ⟨_, way', h.opensScope_of_isFunction way' hf⟩

theorem exists_path_of_mem_found (h : ImportedAs v a root t) (way : Spot.Path ⟨0, t⟩ above s)
    {x : Option String × Spot} (hx : x ∈ found s.kids) :
    ∃ above', Spot.Path ⟨0, t⟩ above' x.2 ∧
      (x.2.shape.statements?.isSome → a.opensScope x.2.ref = true) :=
  h.exists_path_of_mem_foundAmong way (fun _ => List.mem_of_mem_take) hx

/-- The calls made directly in some statements of the body of a scope run the function bodies that are
found for them among all statements. -/
theorem callsAmong_eq (h : ImportedAs v a root t) (way : Spot.Path ⟨0, t⟩ above s)
    (hopen : a.opensScope s.ref = true) {looked : List Spot} (hsub : ∀ k ∈ looked, k ∈ s.kids) :
    a.callsAmong [Arena.functionExpressions] (looked.map Spot.ref) (s.kids.map Spot.ref) =
      some ((foundAmong looked s.kids).map fun x => ⟨x.2.ref, x.1⟩) := by
  have hcallees := gather_eq_some fun k hk => h.calleesBelow_eq_direct way hopen (hsub k hk)
  have hresolve : ∀ callee ∈ looked.flatMap (fun k => (k.direct false).filterMap Spot.callee?),
      a.resolutions [Arena.functionExpressions] (s.kids.map Spot.ref) (callee.map Spot.index) =
        some ((resolve s.kids callee).toList.map fun x => ⟨x.2.ref, x.1⟩) := by
    intro callee hc
    obtain ⟨k, hk, hc⟩ := List.mem_flatMap.1 hc
    rw [Arena.resolutions, Walked.mapM_filterMap_id_eq_gather, gather_singleton,
      h.functionExpressions_eq_resolve way hopen (hsub k hk) hc]
    cases resolve s.kids callee <;> rfl
  rw [Arena.callsAmong, gather_map, hcallees, Option.bind_some, ← List.map_flatMap, gather_map,
    gather_eq_some hresolve, foundAmong, List.filterMap_eq_flatMap_toList, List.map_flatMap]

theorem callsIn_eq (h : ImportedAs v a root t) (way : Spot.Path ⟨0, t⟩ above s)
    (hopen : a.opensScope s.ref = true) :
    a.callsIn [Arena.functionExpressions] (s.kids.map Spot.ref) =
      some ((found s.kids).map fun x => ⟨x.2.ref, x.1⟩) := by
  have hlooked : Arena.lookedAt (s.kids.map Spot.ref) =
      (s.kids.take (lastLooked s.kids.length + 1)).map Spot.ref := by
    rw [Arena.lookedAt, List.length_map, List.map_take]
  rw [Arena.callsIn_eq_callsAmong, hlooked, found]
  exact h.callsAmong_eq way hopen fun _ => List.mem_of_mem_take

/-- The trace of the body of a scope is computed from the statements alone. -/
theorem traceBody_eq (h : ImportedAs v a root t) (depth : Nat) (way : Spot.Path ⟨0, t⟩ above s)
    (hopen : a.opensScope s.ref = true) :
    a.traceBody [Arena.functionExpressions] depth (s.kids.map Spot.ref) =
      some (traceOver depth s.kids) := by
  induction depth generalizing above s with
  | zero => rfl
  | succ depth ih =>
    have hinner : ∀ x ∈ found s.kids,
        a.traceBody [Arena.functionExpressions] depth ((a.statements? x.2.ref).getD []) =
          some (traceOver depth x.2.statements) := by
      intro x hx
      obtain ⟨above', way', hscope⟩ := h.exists_path_of_mem_found way hx
      rw [h.holds.statements?_eq way', Spot.statements]
      cases hb : x.2.shape.statements? with
      | none => cases depth <;> rfl
      | some body => simpa using ih way' (hscope (by rw [hb]; rfl))
    rw [Arena.traceBody, h.callsIn_eq way hopen, Option.bind_eq_bind, Option.bind_some,
      List.mapM_map, traceOver]
    apply mapM_eq_some_map
    intro x hx
    simp [hinner x hx]

end ImportedAs

end CallTrace
