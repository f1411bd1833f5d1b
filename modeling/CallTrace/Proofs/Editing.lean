import CallTrace.Arena.Build
import CallTrace.Proofs.Layout

/-!
Arenas built by hand.

A `Builder` adds one node, an `Edit` does that or sets a span, and the references that are handed over
may be any: to nodes not yet there, to the new node itself, the same one twice. A node is made the
parent of those of its children that are there before it. So after any run of edits the parent of a
node is the last of the nodes after it that list it (`Arena.Linked`), and the way up from a node goes
through ever larger numbers until it ends.
-/
namespace CallTrace

/-- A way to add a node, with the references and texts that it is given. -/
inductive Builder where
  | node (n : Node Index)
  | program (statements : List Ref)
  | block (statements : List Ref)
  | variableStatement (kind : VariableKind) (declarations : List Ref)
  | variableDeclaration (name initializer : Ref)
  | identifier (text : String)
  | function (form : FunctionForm) (name : Ref) (parameters : List Ref) (body : Ref)
  | call (callee : Ref) (arguments : List Ref)
  | member (object property : Ref) (computed : Bool)
  | expressionStatement (expression : Ref)
  | returnStatement (argument : Ref)
  | literal (text : String)
  | other (typeName : String) (children : List Ref)

namespace Builder

/-- The reference that the builder gives, and the arena after it. -/
def run (a : Arena) : Builder → Ref × Arena
  | .node n => a.add n
  | .program statements => a.addProgram statements
  | .block statements => a.addBlock statements
  | .variableStatement kind declarations => a.addVariableStatement kind declarations
  | .variableDeclaration name initializer => a.addVariableDeclaration name initializer
  | .identifier text => a.addIdentifier text
  | .function form name parameters body => a.addFunction form name parameters body
  | .call callee arguments => a.addCall callee arguments
  | .member object property computed => a.addMember object property computed
  | .expressionStatement expression => a.addExpressionStatement expression
  | .returnStatement argument => a.addReturnStatement argument
  | .literal text => a.addLiteral text
  | .other typeName children => a.addOther typeName children

/-- The node that is added. -/
def added : Builder → Node Index
  | .node n => n
  | .program statements => .program statements
  | .block statements => .block statements
  | .variableStatement kind declarations => .variableStatement kind declarations
  | .variableDeclaration name initializer => .variableDeclaration name initializer
  | .identifier text => .identifier text
  | .function form name parameters body => .function form name parameters body false false
  | .call callee arguments => .call callee arguments false
  | .member object property computed => .member object property computed
  | .expressionStatement expression => .expressionStatement expression
  | .returnStatement argument => .returnStatement argument
  | .literal text => .literal text
  | .other typeName children => .other typeName children

theorem run_eq_add (a : Arena) (b : Builder) : b.run a = a.add b.added := by
  cases b <;> rfl

end Builder

inductive Edit where
  | add (b : Builder)
  | setSpan (r : Ref) (span : Span)

def Edit.run (a : Arena) : Edit → Arena
  | .add b => (b.run a).2
  | .setSpan r span => a.setSpan r span

/-- The arena after a run of edits. -/
def Arena.edited (a : Arena) (edits : List Edit) : Arena := edits.foldl Edit.run a

namespace Arena

theorem edited_append (a : Arena) (before later : List Edit) :
    a.edited (before ++ later) = (a.edited before).edited later :=
  List.foldl_append

/-! ### What one edit does -/

@[simp] theorem size_add (a : Arena) (n : Node Index) : (a.add n).2.size = a.size + 1 := by
  simp [add, size]

@[simp] theorem nodes_setSpan (a : Arena) (r : Ref) (span : Span) :
    (a.setSpan r span).nodes = a.nodes := by
  cases r <;> rfl

theorem size_foldl_adopt (r : Ref) (children : List Ref) (infos : Array Info) :
    (children.foldl (adopt r) infos).size = infos.size := by
  induction children generalizing infos with
  | nil => rfl
  | cons c children ih =>
    rw [List.foldl_cons, ih]
    cases c <;> simp [adopt]

/-- A node becomes the parent of the children that have an entry, however often they are listed. -/
theorem parent_foldl_adopt (r : Ref) (children : List Ref) (infos : Array Info) (i : Index) :
    (children.foldl (adopt r) infos)[i.val]?.bind Info.parent =
      if i.val < infos.size ∧ some i ∈ children then r else infos[i.val]?.bind Info.parent := by
  induction children generalizing infos with
  | nil => simp
  | cons c children ih =>
    rw [List.foldl_cons, ih]
    cases c with
    | none => exact if_congr (by simp [adopt]) rfl rfl
    | some k =>
      simp only [adopt, Array.size_modify, Array.getElem?_modify]
      by_cases hk : k = i
      · subst hk
        by_cases hi : k.val < infos.size
        · simp [hi]
        · simp [hi]
      · have hval : k.val ≠ i.val := fun h => hk (Fin.ext h)
        simp only [if_neg hval]
        exact if_congr (by simp [Ne.symm hk]) rfl rfl

variable {a : Arena} {n : Node Index} {i j : Index}

theorem node?_add (hj : j.val = a.size) : (a.add n).2.node? (some j) = some n := by
  simp [add, node?, hj, size]

theorem node?_add_of_ne (hj : j.val ≠ a.size) : (a.add n).2.node? (some j) = a.node? (some j) := by
  have hj : j.val ≠ a.nodes.size := hj
  simp [add, node?, Array.getElem?_push, hj]

theorem lt_size_of_mem_children {c : Ref} (h : c ∈ a.children (some j)) : j.val < a.size := by
  unfold children at h
  split at h
  · rename_i hn
    exact lt_size_of_node? hn
  · simp at h

theorem children_add (hj : j.val = a.size) : (a.add n).2.children (some j) = n.children := by
  rw [children, node?_add hj]

theorem children_add_of_ne (hj : j.val ≠ a.size) :
    (a.add n).2.children (some j) = a.children (some j) := by
  rw [children, node?_add_of_ne hj, children]

theorem parent_eq_none_of_size_le (level : a.infos.size = a.nodes.size) (hi : a.size ≤ i.val) :
    a.parent (some i) = none := by
  have hi : a.nodes.size ≤ i.val := hi
  have hnone : a.infos[i.val]? = none := Array.getElem?_eq_none (by omega)
  simp [parent, info?, hnone]

/-- The new node itself has no parent, whatever it lists. -/
theorem parent_add (level : a.infos.size = a.nodes.size) :
    (a.add n).2.parent (some i) =
      if i.val < a.size ∧ some i ∈ n.children then Ref.ofNat a.size else a.parent (some i) := by
  have hfold := parent_foldl_adopt (Ref.ofNat a.nodes.size) n.children a.infos i
  have hsize := size_foldl_adopt (Ref.ofNat a.nodes.size) n.children a.infos
  have hinfo (b : Arena) : b.parent (some i) = b.infos[i.val]?.bind Info.parent := rfl
  rw [level] at hfold hsize
  by_cases hi : i.val = a.nodes.size
  · rw [parent_eq_none_of_size_le level hi.ge, if_neg (by simp [size, hi]), hinfo]
    simp only [add, Array.getElem?_push, hsize, if_pos hi]
    rfl
  · rw [hinfo, hinfo, size, ← hfold]
    simp [add, Array.getElem?_push, hsize, hi]

@[simp] theorem parent_setSpan (a : Arena) (r c : Ref) (span : Span) :
    (a.setSpan r span).parent c = a.parent c := by
  cases r with
  | none => rfl
  | some k =>
    cases c with
    | none => rfl
    | some i =>
      simp only [setSpan, parent, info?, Option.bind_some, Array.getElem?_modify]
      split
      · cases a.infos[i.val]? <;> rfl
      · rfl

/-! ### What every run preserves -/

/-- The later nodes that list a node as a child. -/
def laterListers (a : Arena) (i : Index) : Set Index := {j | i < j ∧ some i ∈ a.children (some j)}

/-- The two tables go together, and the parent of each node is the last of the later nodes that list
it. -/
structure Linked (a : Arena) : Prop where
  level : a.infos.size = a.nodes.size
  some_iff : ∀ i j : Index, i.val < a.size →
    (a.parent (some i) = some j ↔ IsGreatest (a.laterListers i) j)
  none_iff : ∀ i : Index, i.val < a.size → (a.parent (some i) = none ↔ a.laterListers i = ∅)

theorem linked_empty : empty.Linked :=
  ⟨rfl, fun _ _ h => absurd h (Nat.not_lt_zero _), fun _ h => absurd h (Nat.not_lt_zero _)⟩

/-- No node comes after the last one. -/
theorem laterListers_eq_empty (hi : a.size ≤ i.val + 1) : a.laterListers i = ∅ := by
  refine Set.eq_empty_of_forall_notMem fun j hj => ?_
  have hlt : i.val < j.val := hj.1
  have hsize := lt_size_of_mem_children hj.2
  omega

/-- The new node comes after all that list the node so far. -/
theorem isGreatest_laterListers_add (hj : j.val = a.size) (hi : i.val < a.size)
    (hmem : some i ∈ n.children) : IsGreatest ((a.add n).2.laterListers i) j := by
  have hlt : i < j := Fin.lt_def.2 (by omega)
  refine ⟨⟨hlt, by rwa [children_add hj]⟩, fun k hk => ?_⟩
  have hsize := lt_size_of_mem_children hk.2
  rw [size_add] at hsize
  exact Fin.le_def.2 (by omega)

theorem laterListers_add_of_notMem (hmem : ¬ (i.val < a.size ∧ some i ∈ n.children)) :
    (a.add n).2.laterListers i = a.laterListers i := by
  ext k
  by_cases hk : k.val = a.size
  · -- The new node lists no earlier node here, and it is not among the old ones.
    constructor
    · rintro ⟨hlt, hlist⟩
      have hlt : i.val < k.val := hlt
      rw [children_add hk] at hlist
      exact absurd ⟨by omega, hlist⟩ hmem
    · rintro ⟨-, hlist⟩
      have := lt_size_of_mem_children hlist
      omega
  · simp only [laterListers, Set.mem_ofPred_eq, children_add_of_ne hk]

theorem Linked.add (h : a.Linked) (hsize : a.size < capacity) : (a.add n).2.Linked := by
  have hnew : Ref.ofNat a.size = some ⟨a.size, hsize⟩ := Ref.ofNat_eq_some hsize
  have hlevel : (a.add n).2.infos.size = (a.add n).2.nodes.size := by
    simp [Arena.add, size_foldl_adopt, h.level]
  -- A node is either adopted by the new one, or it keeps its parent and those that list it.
  have hcases (i : Index) (hi : i.val < (a.add n).2.size) :
      (∃ j, (a.add n).2.parent (some i) = some j ∧ IsGreatest ((a.add n).2.laterListers i) j) ∨
      ((a.add n).2.parent (some i) = none ∧ (a.add n).2.laterListers i = ∅) := by
    rw [size_add] at hi
    rw [parent_add h.level, hnew]
    by_cases hmem : i.val < a.size ∧ some i ∈ n.children
    · rw [if_pos hmem]
      exact .inl ⟨_, rfl, isGreatest_laterListers_add rfl hmem.1 hmem.2⟩
    · rw [if_neg hmem, laterListers_add_of_notMem hmem]
      by_cases hold : i.val < a.size
      · cases hp : a.parent (some i) with
        | none => exact .inr ⟨rfl, (h.none_iff i hold).1 hp⟩
        | some j => exact .inl ⟨j, rfl, (h.some_iff i j hold).1 hp⟩
      · exact .inr ⟨parent_eq_none_of_size_le h.level (by omega), laterListers_eq_empty (by omega)⟩
  refine ⟨hlevel, fun i j hi => ?_, fun i hi => ?_⟩
  · rcases hcases i hi with ⟨k, hk, hgreatest⟩ | ⟨hnone, hempty⟩
    · rw [hk, Option.some_inj]
      exact ⟨fun hkj => hkj ▸ hgreatest, fun hj => hgreatest.unique hj⟩
    · simp [hnone, hempty, IsGreatest]
  · rcases hcases i hi with ⟨k, hk, hgreatest⟩ | ⟨hnone, hempty⟩
    · simp [hk, hgreatest.nonempty.ne_empty]
    · simp [hnone, hempty]

theorem Linked.setSpan (h : a.Linked) (r : Ref) (span : Span) : (a.setSpan r span).Linked := by
  have hsize : (a.setSpan r span).size = a.size := by simp [size]
  have hlisters (i : Index) : (a.setSpan r span).laterListers i = a.laterListers i := by
    simp [laterListers, children, node?]
  refine ⟨?_, fun i j hi => ?_, fun i hi => ?_⟩
  · cases r <;> simp [Arena.setSpan, h.level]
  · rw [parent_setSpan, hlisters]
    exact h.some_iff i j (hsize ▸ hi)
  · rw [parent_setSpan, hlisters]
    exact h.none_iff i (hsize ▸ hi)

end Arena

namespace Edit

variable {a : Arena}

theorem size_le_run (a : Arena) (e : Edit) : a.size ≤ (e.run a).size := by
  cases e with
  | add b => simp [run, Builder.run_eq_add]
  | setSpan r span => simp [run, Arena.size]

/-- An edit keeps the nodes that are there. -/
theorem node?_run {i : Index} (hi : i.val < a.size) (e : Edit) :
    (e.run a).node? (some i) = a.node? (some i) := by
  cases e with
  | add b =>
    rw [run, Builder.run_eq_add]
    exact Arena.node?_add_of_ne (by omega)
  | setSpan r span => simp [run, Arena.node?]

theorem linked_run (h : a.Linked) (e : Edit) (hsize : (e.run a).size ≤ capacity) :
    (e.run a).Linked := by
  cases e with
  | add b =>
    rw [run, Builder.run_eq_add] at hsize ⊢
    rw [Arena.size_add] at hsize
    exact h.add (by omega)
  | setSpan r span => exact h.setSpan r span

end Edit

namespace Arena

variable {a : Arena}

theorem size_le_edited (a : Arena) (edits : List Edit) : a.size ≤ (a.edited edits).size := by
  induction edits generalizing a with
  | nil => exact le_rfl
  | cons e edits ih => exact (Edit.size_le_run a e).trans (ih (e.run a))

theorem size_lt_edited_add (a : Arena) (b : Builder) (later : List Edit) :
    a.size < (a.edited (.add b :: later)).size := by
  have hlater : (b.run a).2.size ≤ (a.edited (.add b :: later)).size := size_le_edited _ later
  rw [Builder.run_eq_add, size_add] at hlater
  omega

theorem node?_edited {i : Index} (hi : i.val < a.size) (edits : List Edit) :
    (a.edited edits).node? (some i) = a.node? (some i) := by
  induction edits generalizing a with
  | nil => rfl
  | cons e edits ih =>
    have hstep := Edit.node?_run hi e
    exact (ih (hi.trans_le (Edit.size_le_run a e))).trans hstep

/-- A builder gives the number of nodes so far, and what it adds under this number stays there. -/
theorem exists_index_added (hroom : a.size < capacity) (b : Builder) (later : List Edit) :
    ∃ i : Index, (b.run a).1 = some i ∧ i.val = a.size ∧
      (a.edited (.add b :: later)).node? (some i) = some b.added := by
  have hlater : a.edited (.add b :: later) = (a.add b.added).2.edited later := by
    rw [← b.run_eq_add a]
    rfl
  refine ⟨⟨a.size, hroom⟩, ?_, rfl, ?_⟩
  · rw [b.run_eq_add a]
    exact Ref.ofNat_eq_some hroom
  · rw [hlater, node?_edited (by simp)]
    exact node?_add rfl

theorem Linked.edited (h : a.Linked) (edits : List Edit)
    (hsize : (a.edited edits).size ≤ capacity) : (a.edited edits).Linked := by
  induction edits generalizing a with
  | nil => exact h
  | cons e edits ih =>
    have hstep : (e.run a).size ≤ capacity := (size_le_edited _ edits).trans hsize
    exact ih (Edit.linked_run h e hstep) hsize

/-- The parent of a node exists and comes later. -/
theorem Linked.lt_of_parent (h : a.Linked) {i j : Index} (hp : a.parent (some i) = some j) :
    i < j ∧ j.val < a.size := by
  have hi : i.val < a.size := by
    by_contra hi
    rw [parent_eq_none_of_size_le h.level (by omega)] at hp
    cases hp
  obtain ⟨⟨hlt, hlist⟩, -⟩ := (h.some_iff i j hi).1 hp
  exact ⟨hlt, lt_size_of_mem_children hlist⟩

/-- The way up ends, since its numbers grow and stay below the size. -/
theorem Linked.exists_iterate_parent (h : a.Linked) (r : Ref) : ∃ k, a.parent^[k] r = none := by
  cases r with
  | none => exact ⟨0, rfl⟩
  | some i =>
    induction hd : a.size - i.val using Nat.strong_induction_on generalizing i with
    | h d ih =>
      cases hp : a.parent (some i) with
      | none => exact ⟨1, hp⟩
      | some j =>
        obtain ⟨hlt, hj⟩ := h.lt_of_parent hp
        have hlt : i.val < j.val := hlt
        obtain ⟨k, hk⟩ := ih (a.size - j.val) (by omega) j rfl
        exact ⟨k + 1, by rw [Function.iterate_succ_apply, hp, hk]⟩

/-- After any run of edits on an empty arena the tables have the same length, every builder has given
the number of nodes before it and its node is still the one that it added, and the parent of each
node is the last of the later nodes that list it. So the way up goes to larger numbers, and ends. -/
theorem edited_links (edits : List Edit) (hs : (empty.edited edits).size ≤ 2 ^ 32 - 1) :
    (empty.edited edits).infos.size = (empty.edited edits).nodes.size ∧
    (∀ before b between, before ++ Edit.add b :: between <+: edits →
      ∃ i : Index, (b.run (empty.edited before)).1 = some i ∧ i.val = (empty.edited before).size ∧
        (empty.edited (before ++ Edit.add b :: between)).node? (some i) = some b.added) ∧
    (∀ i : Index, i.val < (empty.edited edits).size →
      (∀ j, (empty.edited edits).parent (some i) = some j ↔
        IsGreatest {j | i < j ∧ some i ∈ (empty.edited edits).children (some j)} j) ∧
      ((empty.edited edits).parent (some i) = none ↔
        ∀ j, i < j → some i ∉ (empty.edited edits).children (some j))) ∧
    (∀ i j : Index, (empty.edited edits).parent (some i) = some j →
      i < j ∧ j.val < (empty.edited edits).size) ∧
    ∀ r, ∃ k, (empty.edited edits).parent^[k] r = none := by
  have hcapacity : capacity = 2 ^ 32 - 1 := rfl
  have hlinked := linked_empty.edited edits (by omega)
  refine ⟨hlinked.level, ?_, fun i hi => ⟨fun j => hlinked.some_iff i j hi, ?_⟩,
    fun i j => hlinked.lt_of_parent, hlinked.exists_iterate_parent⟩
  · rintro before b between ⟨later, rfl⟩
    rw [List.append_assoc, List.cons_append, edited_append] at hs
    have hgrow := size_lt_edited_add (empty.edited before) b (between ++ later)
    rw [edited_append]
    exact exists_index_added (by omega) b between
  · rw [hlinked.none_iff i hi, Set.eq_empty_iff_forall_notMem]
    simp [laterListers]

end Arena

namespace Sample

/-- The call lists node 0 twice, a node that is never added, itself and the node after it; then the
program lists node 0 and the call. -/
def edits : List Edit :=
  [.add (.identifier "x"), .add (.call (some 0) [some 0, some 9, none, some 1, some 2]),
    .add (.program [some 0, some 1]), .setSpan (some 1) ⟨3, 6⟩]

end Sample

/-- Node 0 ends up below the program, and the program has no parent although the call lists it. -/
theorem Arena.edited_links_edits :
    (empty.edited Sample.edits).size = 3 ∧
    (empty.edited Sample.edits).parent (some 0) = some 2 ∧
    IsGreatest {j | 0 < j ∧ some 0 ∈ (empty.edited Sample.edits).children (some j)} 2 ∧
    some 2 ∈ (empty.edited Sample.edits).children (some 1) ∧
    (empty.edited Sample.edits).parent (some 2) = none ∧
    ∃ i : Index, i.val = 1 ∧ (empty.edited Sample.edits).node? (some i) =
      some (.call (some 0) [some 0, some 9, none, some 1, some 2] false) := by
  have hsize : (empty.edited Sample.edits).size = 3 := by decide
  have hparents : (empty.edited Sample.edits).parent (some 0) = some 2 ∧
      (empty.edited Sample.edits).parent (some 2) = none := by decide
  obtain ⟨-, hadded, hparent, -, -⟩ := edited_links Sample.edits (by omega)
  obtain ⟨i, -, hi, hnode⟩ := hadded [.add (.identifier "x")] _ _ (List.prefix_refl _)
  exact ⟨hsize, hparents.1, ((hparent 0 (by omega)).1 2).1 hparents.1, by decide, hparents.2,
    i, hi, hnode⟩

end CallTrace
