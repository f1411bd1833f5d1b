import Mathlib
import CallTrace.Tree.Basic

/-!
Nodes and trees seen through their present children.

`Node.map` replaces the children of a node and keeps everything else. `Tree.kids` are the subtrees
right below the root in source order; size, height and every induction on trees go through them, so
that the kinds of nodes are told apart only in the lemmas of this file.
-/
namespace CallTrace

namespace Node

variable {α β : Type}

/-- The node with each child replaced by its image. -/
def map (f : α → β) : Node α → Node β
  | .program statements => .program (statements.map (Option.map f))
  | .block statements => .block (statements.map (Option.map f))
  | .variableStatement kind declarations =>
    .variableStatement kind (declarations.map (Option.map f))
  | .variableDeclaration name initializer => .variableDeclaration (name.map f) (initializer.map f)
  | .identifier text => .identifier text
  | .function form name parameters body isAsync isGenerator =>
    .function form (name.map f) (parameters.map (Option.map f)) (body.map f) isAsync isGenerator
  | .call callee arguments optional => .call (callee.map f) (arguments.map (Option.map f)) optional
  | .member object property computed => .member (object.map f) (property.map f) computed
  | .expressionStatement expression => .expressionStatement (expression.map f)
  | .returnStatement argument => .returnStatement (argument.map f)
  | .literal text => .literal text
  | .other typeName children => .other typeName (children.map (Option.map f))

/-- The children that are there, in source order. -/
def present (n : Node α) : List α := n.children.reduceOption

theorem mem_present {n : Node α} {x : α} : x ∈ n.present ↔ some x ∈ n.children :=
  List.reduceOption_mem_iff

theorem single_map (f : α → β) (o : Option α) : single (o.map f) = (single o).map (Option.map f) := by
  cases o <;> rfl

@[simp] theorem reduceOption_single (o : Option α) : (single o).reduceOption = o.toList := by
  cases o <;> rfl

@[simp] theorem reduceOption_filter_isSome (os : List (Option α)) :
    (os.filter Option.isSome).reduceOption = os.reduceOption := by
  induction os with
  | nil => rfl
  | cons o os ih => cases o <;> simp [ih]

@[simp] theorem children_map (f : α → β) (n : Node α) :
    (n.map f).children = n.children.map (Option.map f) := by
  cases n <;> simp [map, children, single_map, List.filter_map, Function.comp_def]

@[simp] theorem present_map (f : α → β) (n : Node α) : (n.map f).present = n.present.map f := by
  simp [present, List.reduceOption_map]

@[simp] theorem isFunction_map (f : α → β) (n : Node α) : (n.map f).isFunction = n.isFunction := by
  cases n <;> rfl

@[simp] theorem isFunctionExpression_map (f : α → β) (n : Node α) :
    (n.map f).isFunctionExpression = n.isFunctionExpression := by
  cases n with
  | function form => cases form <;> rfl
  | _ => rfl

@[simp] theorem statements?_map (f : α → β) (n : Node α) :
    (n.map f).statements? = n.statements?.map (List.map (Option.map f)) := by
  cases n <;> rfl

@[simp] theorem text?_map (f : α → β) (n : Node α) : (n.map f).text? = n.text? := by
  cases n <;> rfl

@[simp] theorem functionBody?_map (f : α → β) (n : Node α) :
    (n.map f).functionBody? = n.functionBody?.map f := by
  cases n <;> rfl

theorem eq_map_some_reduceOption {os : List (Option α)} (h : none ∉ os) :
    os = os.reduceOption.map some := by
  induction os with
  | nil => rfl
  | cons o os ih =>
    cases o with
    | none => simp at h
    | some x =>
      have hos : none ∉ os := by simpa using h
      simp [← ih hos]

theorem children_eq_map_some {n : Node α} (h : none ∉ n.children) :
    n.children = n.present.map some :=
  eq_map_some_reduceOption h

theorem statements?_eq_some {n : Node α} {statements : List (Option α)}
    (h : n.statements? = some statements) : n.children = statements := by
  cases n <;> simp_all [statements?, children]

end Node

namespace Tree

def span : Tree → Option Span
  | .node span _ => span

def shape : Tree → Node Tree
  | .node _ shape => shape

/-- The subtrees right below the root, in source order. -/
def kids (t : Tree) : List Tree := t.shape.present

theorem sizeOf_lt_of_mem_kids {t c : Tree} (h : c ∈ t.kids) : sizeOf c < sizeOf t := by
  obtain ⟨span, shape⟩ := t
  -- A listed child is smaller than its list, a single one than its option.
  have listed : ∀ os : List (Option Tree), some c ∈ os → sizeOf c < sizeOf os := by
    intro os hc
    have := List.sizeOf_lt_of_mem hc
    simp only [Option.some.sizeOf_spec] at this
    omega
  have lone : ∀ o : Option Tree, o = some c → sizeOf c < sizeOf o := by
    rintro _ rfl
    simp only [Option.some.sizeOf_spec]
    omega
  have hc : some c ∈ shape.children := Node.mem_present.1 h
  have hs : ∀ o : Option Tree, some c ∈ Node.single o ↔ o = some c := by
    intro o
    cases o <;> simp [Node.single, eq_comm]
  cases shape with
  | program ss | block ss | variableStatement _ ss =>
    have := listed ss hc
    simp only [Tree.node.sizeOf_spec, Node.program.sizeOf_spec, Node.block.sizeOf_spec,
      Node.variableStatement.sizeOf_spec]
    omega
  | variableDeclaration x y | member x y _ =>
    simp only [Node.children, List.mem_append, hs] at hc
    simp only [Tree.node.sizeOf_spec, Node.variableDeclaration.sizeOf_spec, Node.member.sizeOf_spec]
    rcases hc with hc | hc <;> have := lone _ hc <;> omega
  | function form name ps body _ _ =>
    simp only [Node.children, List.mem_append, hs] at hc
    simp only [Tree.node.sizeOf_spec, Node.function.sizeOf_spec]
    rcases hc with (hc | hc) | hc
    · have := lone _ hc
      omega
    · have := listed _ hc
      omega
    · have := lone _ hc
      omega
  | call f xs _ =>
    simp only [Node.children, List.mem_append, hs] at hc
    simp only [Tree.node.sizeOf_spec, Node.call.sizeOf_spec]
    rcases hc with hc | hc
    · have := lone _ hc
      omega
    · have := listed _ hc
      omega
  | expressionStatement x | returnStatement x =>
    have := lone x ((hs x).1 hc)
    simp only [Tree.node.sizeOf_spec, Node.expressionStatement.sizeOf_spec,
      Node.returnStatement.sizeOf_spec]
    omega
  | other _ xs =>
    have := listed xs (List.mem_of_mem_filter hc)
    simp only [Tree.node.sizeOf_spec, Node.other.sizeOf_spec]
    omega
  | identifier | literal => simp [Node.children] at hc

theorem induct {P : Tree → Prop} (step : ∀ t, (∀ c ∈ t.kids, P c) → P t) (t : Tree) : P t :=
  step t fun c hc => have := sizeOf_lt_of_mem_kids hc; induct step c
termination_by sizeOf t

variable {β : Type}

/-- Combines the results of the subtrees right below the root, from the leaves up. -/
def fold (f : Tree → List β → β) (t : Tree) : β := f t (t.kids.attach.map fun c => fold f c.1)
termination_by sizeOf t
decreasing_by exact sizeOf_lt_of_mem_kids c.2

theorem fold_eq (f : Tree → List β → β) (t : Tree) : fold f t = f t (t.kids.map (fold f)) := by
  rw [fold, List.attach_map_val]

def size : Tree → Nat := fold fun _ sizes => sizes.sum + 1

/-- The number of nodes on the longest way down from the root. -/
def height : Tree → Nat := fold fun _ heights => heights.foldr max 0 + 1

theorem size_eq (t : Tree) : t.size = (t.kids.map size).sum + 1 := fold_eq _ t

theorem height_eq (t : Tree) : t.height = (t.kids.map height).foldr max 0 + 1 := fold_eq _ t

theorem height_pos (t : Tree) : 0 < t.height := by
  rw [height_eq]
  omega

theorem height_le_succ_iff {t : Tree} {n : Nat} :
    t.height ≤ n + 1 ↔ ∀ c ∈ t.kids, c.height ≤ n := by
  rw [height_eq, Nat.add_le_add_iff_right]
  induction t.kids with
  | nil => simp
  | cons c cs ih => simp [ih]

theorem height_lt_of_mem_kids {t c : Tree} (h : c ∈ t.kids) : c.height < t.height := by
  obtain ⟨n, hn⟩ : ∃ n, t.height = n + 1 := Nat.exists_eq_succ_of_ne_zero t.height_pos.ne'
  have := height_le_succ_iff.1 hn.le c h
  omega

theorem height_le_size (t : Tree) : t.height ≤ t.size := by
  induction t using induct with
  | step t ih =>
    rw [size_eq, height_le_succ_iff]
    intro c hc
    calc c.height ≤ c.size := ih c hc
      _ ≤ (t.kids.map size).sum := List.single_le_sum (by simp) _ (List.mem_map_of_mem hc)

/-- No listed child of the tree or of a tree below is absent. -/
inductive Full : Tree → Prop
  | intro {t : Tree} (here : none ∉ t.shape.children) (below : ∀ c ∈ t.kids, Full c) : Full t

end Tree

end CallTrace
