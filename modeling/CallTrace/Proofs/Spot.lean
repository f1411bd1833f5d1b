import CallTrace.Arena.Walk
import CallTrace.Proofs.Shape

/-!
Trees at their places in an arena.

A spot is a tree together with the number from which on its nodes are numbered. The subtrees of a
tree are numbered one after the other and the root comes last, so that a spot fixes the spots of all
subtrees (`Spot.kids`), the number of its root and the order of all its nodes (`Spot.layout`).
-/
namespace CallTrace

structure Spot where
  base : Nat
  tree : Tree

def Tree.extent (ts : List Tree) : Nat := (ts.map Tree.size).sum

namespace Spot

def spread : Nat → List Tree → List Spot
  | _, [] => []
  | lo, t :: rest => ⟨lo, t⟩ :: spread (lo + t.size) rest

/-- Trees laid one after the other, where an absent one takes no number. -/
def spreadOver : Nat → List (Option Tree) → List (Option Spot)
  | _, [] => []
  | lo, none :: rest => none :: spreadOver lo rest
  | lo, some t :: rest => some ⟨lo, t⟩ :: spreadOver (lo + t.size) rest

theorem spread_append (lo : Nat) (xs ys : List Tree) :
    spread lo (xs ++ ys) = spread lo xs ++ spread (lo + Tree.extent xs) ys := by
  induction xs generalizing lo with
  | nil => simp [spread, Tree.extent]
  | cons t xs ih => simp [spread, Tree.extent, ih, Nat.add_assoc]

theorem spreadOver_append (lo : Nat) (xs ys : List (Option Tree)) :
    spreadOver lo (xs ++ ys) =
      spreadOver lo xs ++ spreadOver (lo + Tree.extent xs.reduceOption) ys := by
  induction xs generalizing lo with
  | nil => simp [spreadOver, Tree.extent]
  | cons o xs ih => cases o <;> simp [spreadOver, Tree.extent, ih, Nat.add_assoc]

@[simp] theorem spreadOver_single (lo : Nat) (o : Option Tree) :
    spreadOver lo (Node.single o) = Node.single (o.map (Spot.mk lo)) := by
  cases o <;> rfl

theorem spreadOver_filter_isSome (lo : Nat) (os : List (Option Tree)) :
    spreadOver lo (os.filter Option.isSome) = (spreadOver lo os).filter Option.isSome := by
  induction os generalizing lo with
  | nil => rfl
  | cons o os ih => cases o <;> simp [spreadOver, ih]

@[simp] theorem reduceOption_spreadOver (lo : Nat) (os : List (Option Tree)) :
    (spreadOver lo os).reduceOption = spread lo os.reduceOption := by
  induction os generalizing lo with
  | nil => rfl
  | cons o os ih => cases o <;> simp [spreadOver, spread, ih]

end Spot

/-- A node of a tree with its subtrees at their spots, numbered from the given number on. -/
def Node.spread (lo : Nat) : Node Tree → Node Spot
  | .program statements => .program (Spot.spreadOver lo statements)
  | .block statements => .block (Spot.spreadOver lo statements)
  | .variableStatement kind declarations =>
    .variableStatement kind (Spot.spreadOver lo declarations)
  | .variableDeclaration name initializer =>
    .variableDeclaration (name.map (Spot.mk lo))
      (initializer.map (Spot.mk (lo + Tree.extent name.toList)))
  | .identifier text => .identifier text
  | .function form name parameters body isAsync isGenerator =>
    let lo' := lo + Tree.extent name.toList
    .function form (name.map (Spot.mk lo)) (Spot.spreadOver lo' parameters)
      (body.map (Spot.mk (lo' + Tree.extent parameters.reduceOption))) isAsync isGenerator
  | .call callee arguments optional =>
    .call (callee.map (Spot.mk lo)) (Spot.spreadOver (lo + Tree.extent callee.toList) arguments)
      optional
  | .member object property computed =>
    .member (object.map (Spot.mk lo)) (property.map (Spot.mk (lo + Tree.extent object.toList)))
      computed
  | .expressionStatement expression => .expressionStatement (expression.map (Spot.mk lo))
  | .returnStatement argument => .returnStatement (argument.map (Spot.mk lo))
  | .literal text => .literal text
  | .other typeName children => .other typeName (Spot.spreadOver lo children)

theorem Node.children_spread (lo : Nat) (n : Node Tree) :
    (n.spread lo).children = Spot.spreadOver lo n.children := by
  cases n <;> simp [Node.spread, Node.children, Spot.spreadOver_append,
    Spot.spreadOver_filter_isSome, Spot.spreadOver, Tree.extent, Nat.add_assoc]

theorem Node.map_tree_spread (lo : Nat) (n : Node Tree) : (n.spread lo).map Spot.tree = n := by
  have listed : ∀ (lo : Nat) (os : List (Option Tree)),
      (Spot.spreadOver lo os).map (Option.map Spot.tree) = os := by
    intro lo os
    induction os generalizing lo with
    | nil => rfl
    | cons o os ih => cases o <;> simp [Spot.spreadOver, ih]
  cases n <;> simp [Node.spread, Node.map, listed, Function.comp_def]

namespace Spot

def shape (s : Spot) : Node Spot := s.tree.shape.spread s.base

def kids (s : Spot) : List Spot := s.shape.present

theorem map_tree_shape (s : Spot) : s.shape.map tree = s.tree.shape := Node.map_tree_spread _ _

theorem kids_eq (s : Spot) : s.kids = spread s.base s.tree.kids := by
  rw [kids, shape, Node.present, Node.children_spread, reduceOption_spreadOver]
  rfl

theorem map_tree_kids (s : Spot) : s.kids.map tree = s.tree.kids := by
  rw [kids, ← Node.present_map, map_tree_shape]
  rfl

theorem tree_mem_kids {s k : Spot} (h : k ∈ s.kids) : k.tree ∈ s.tree.kids := by
  rw [← map_tree_kids]
  exact List.mem_map_of_mem h

theorem height_lt_of_mem_kids {s k : Spot} (h : k ∈ s.kids) : k.tree.height < s.tree.height :=
  Tree.height_lt_of_mem_kids (tree_mem_kids h)

def number (s : Spot) : Nat := s.base + Tree.extent s.tree.kids

theorem size_eq (s : Spot) : s.tree.size = Tree.extent s.tree.kids + 1 := s.tree.size_eq

theorem number_succ (s : Spot) : s.number + 1 = s.base + s.tree.size := by
  rw [size_eq, number]
  omega

def index (s : Spot) : Index := ⟨s.number % 0xffffffff, Nat.mod_lt _ (by decide)⟩

def ref (s : Spot) : Ref := some s.index

def node (s : Spot) : Node Index := s.shape.map index

def span (s : Spot) : Span := s.tree.span.getD ⟨0, 0⟩

theorem induct {P : Spot → Prop} (step : ∀ s, (∀ k ∈ s.kids, P k) → P s) (s : Spot) : P s := by
  obtain ⟨lo, t⟩ := s
  induction t using Tree.induct generalizing lo with
  | step t ih =>
    apply step
    intro k hk
    exact ih k.tree (tree_mem_kids hk) k.base

variable {β : Type}

def fold (f : Spot → List β → β) (s : Spot) : β := f s (s.kids.attach.map fun k => fold f k.1)
termination_by sizeOf s.tree
decreasing_by exact Tree.sizeOf_lt_of_mem_kids (tree_mem_kids k.2)

theorem fold_eq (f : Spot → List β → β) (s : Spot) : fold f s = f s (s.kids.map (fold f)) := by
  rw [fold, List.attach_map_val]

end Spot

/-- A spot and the node from which it is reached. -/
structure Site where
  spot : Spot
  parent : Ref

namespace Site

def visit (x : Site) : Visit := ⟨x.spot.ref, x.parent⟩

def info (x : Site) : Info := ⟨x.parent, x.spot.span⟩

end Site

namespace Spot

/-- All subtrees in the order of their numbers. The root is reached from the given parent. -/
def layout : Spot → Ref → List Site :=
  fold fun s below parent => (below.map fun sites => sites s.ref).flatten ++ [⟨s, parent⟩]

/-- The walk from the root, which is reached from the given parent. A node that is not to be
entered is left out with all that is below. -/
def walk (enters : Ref → Bool) : Spot → Ref → List Visit :=
  fold fun s below parent =>
    if enters s.ref then ⟨s.ref, parent⟩ :: (below.map fun walk => walk s.ref).flatten else []

def visits : Spot → Ref → List Visit := walk fun _ => true

theorem layout_eq (s : Spot) (parent : Ref) :
    s.layout parent = (s.kids.flatMap fun k => k.layout s.ref) ++ [⟨s, parent⟩] := by
  rw [layout, fold_eq, List.map_map]
  rfl

theorem map_spot_layout (s : Spot) (p q : Ref) :
    (s.layout p).map Site.spot = (s.layout q).map Site.spot := by
  rw [layout_eq, layout_eq]
  simp

theorem walk_eq (enters : Ref → Bool) (s : Spot) (parent : Ref) :
    s.walk enters parent =
      if enters s.ref then ⟨s.ref, parent⟩ :: s.kids.flatMap fun k => k.walk enters s.ref
      else [] := by
  rw [walk, fold_eq, List.map_map]
  rfl

theorem visits_eq (s : Spot) (parent : Ref) :
    s.visits parent = ⟨s.ref, parent⟩ :: s.kids.flatMap fun k => k.visits s.ref :=
  s.walk_eq _ parent

/-- The nodes of a spot are numbered in order and without gaps, from the base to the root. -/
theorem map_number_layout (s : Spot) (parent : Ref) :
    (s.layout parent).map (fun x => x.spot.number) = List.range' s.base s.tree.size := by
  induction s using induct generalizing parent with
  | step s ih =>
    have inOrder : ∀ (ts : List Tree) (lo : Nat), (∀ k ∈ spread lo ts,
          (k.layout s.ref).map (fun x => x.spot.number) = List.range' k.base k.tree.size) →
        ((spread lo ts).flatMap fun k => k.layout s.ref).map (fun x => x.spot.number) =
          List.range' lo (Tree.extent ts) := by
      intro ts
      induction ts with
      | nil => simp [spread, Tree.extent]
      | cons t ts ih =>
        intro lo h
        have ht := h ⟨lo, t⟩ (by simp [spread])
        have hts := ih (lo + t.size) fun k hk => h k (List.mem_cons_of_mem _ hk)
        simp only [spread, List.flatMap_cons, List.map_append, ht, hts]
        simp [Tree.extent]
    have hk := inOrder s.tree.kids s.base fun k hk => ih k (by rwa [kids_eq]) s.ref
    rw [layout_eq, List.map_append, kids_eq, hk, size_eq, List.range'_1_concat]
    rfl

theorem length_layout (s : Spot) (parent : Ref) : (s.layout parent).length = s.tree.size := by
  simpa using congrArg List.length (s.map_number_layout parent)

theorem layout_getElem?_of_mem {s : Spot} {parent : Ref} {x : Site} (h : x ∈ s.layout parent) :
    s.base ≤ x.spot.number ∧ (s.layout parent)[x.spot.number - s.base]? = some x := by
  obtain ⟨i, hi, rfl⟩ := List.mem_iff_getElem.1 h
  have hn : (s.layout parent)[i].spot.number = s.base + i := by
    have := congrArg (fun ns => ns[i]?) (s.map_number_layout parent)
    rw [length_layout] at hi
    simpa [hi, List.getElem?_range', length_layout] using this
  rw [hn, Nat.add_sub_cancel_left]
  exact ⟨by omega, List.getElem?_eq_getElem hi⟩

/-- Walking visits every subtree, from the same parents and in another order. -/
theorem visits_perm_layout (s : Spot) (parent : Ref) :
    (s.visits parent).Perm ((s.layout parent).map Site.visit) := by
  induction s using induct generalizing parent with
  | step s ih =>
    have hk : (s.kids.flatMap fun k => k.visits s.ref).Perm
        ((s.kids.flatMap fun k => k.layout s.ref).map Site.visit) := by
      rw [List.map_flatMap]
      exact List.Perm.flatMap_left _ fun k hk => ih k hk s.ref
    rw [visits_eq, layout_eq, List.map_append]
    exact (hk.cons _).trans (List.perm_append_singleton _ _).symm

theorem base_le_of_mem_spread {lo : Nat} {ts : List Tree} {s : Spot} (h : s ∈ spread lo ts) :
    lo ≤ s.base ∧ s.base + s.tree.size ≤ lo + Tree.extent ts := by
  induction ts generalizing lo with
  | nil => simp [spread] at h
  | cons t ts ih =>
    rcases List.mem_cons.1 h with rfl | h
    · simp [Tree.extent]
    · have := ih h
      simp only [Tree.extent, List.map_cons, List.sum_cons] at this ⊢
      omega

theorem base_le_of_mem_kids {s k : Spot} (h : k ∈ s.kids) :
    s.base ≤ k.base ∧ k.base + k.tree.size ≤ s.number := by
  rw [kids_eq] at h
  exact base_le_of_mem_spread h

/-- The way from a root down to a spot, as the list of the spots passed, the last one first. -/
inductive Path (root : Spot) : List Spot → Spot → Prop
  | here : Path root [] root
  | down {above : List Spot} {s k : Spot} (way : Path root above s) (kid : k ∈ s.kids) :
      Path root (s :: above) k

namespace Path

variable {root s k : Spot} {above above' : List Spot}

theorem trans (h : Path root above s) (h' : Path s above' k) : Path root (above' ++ above) k := by
  induction h' with
  | here => exact h
  | down _ kid ih => exact ih.down kid

theorem range (h : Path root above s) :
    root.base ≤ s.base ∧ s.base + s.tree.size ≤ root.base + root.tree.size := by
  induction h with
  | here => omega
  | @down above s k way kid ih =>
    have := base_le_of_mem_kids kid
    have := s.number_succ
    omega

theorem length_add_height_le (h : Path root above s) :
    above.length + s.tree.height ≤ root.tree.height := by
  induction h with
  | here => simp
  | @down above s k way kid ih =>
    have := height_lt_of_mem_kids kid
    simp only [List.length_cons]
    omega

theorem number_lt_of_mem (h : Path root above s) {p : Spot} (hp : p ∈ above) :
    s.number < p.number := by
  induction h with
  | here => simp at hp
  | @down above s k way kid ih =>
    have hk : k.number < s.number := by
      have := base_le_of_mem_kids kid
      have := k.number_succ
      omega
    rcases List.mem_cons.1 hp with rfl | hp
    · exact hk
    · exact hk.trans (ih hp)

/-- The node from which the end of a way is reached; the root is reached from nowhere. -/
def parent (above : List Spot) : Ref := above.head?.map index

theorem mem_layout (h : Path root above s) : ⟨s, parent above⟩ ∈ root.layout none := by
  have self : ∀ (s : Spot) (p : Ref), ⟨s, p⟩ ∈ s.layout p := by
    intro s p
    rw [layout_eq]
    simp
  have below : ∀ x ∈ s.layout (parent above), x ∈ root.layout none := by
    induction h with
    | here => exact fun _ hx => hx
    | @down above s k way kid ih =>
      intro x hx
      apply ih
      rw [layout_eq]
      exact List.mem_append_left _ (List.mem_flatMap.2 ⟨k, kid, hx⟩)
  exact below _ (self s _)

theorem exists_of_mem_layout (h : Path root above s) {x : Site}
    (hx : x ∈ s.layout (parent above)) : ∃ above', Path root above' x.spot ∧ parent above' = x.parent := by
  induction s using induct generalizing above with
  | step s ih =>
    rw [layout_eq, List.mem_append, List.mem_flatMap, List.mem_singleton] at hx
    rcases hx with ⟨k, hk, hx⟩ | rfl
    · exact ih k hk (h.down hk) hx
    · exact ⟨above, h, rfl⟩

end Path

theorem exists_path_of_number {root : Spot} {n : Nat} (h : root.base ≤ n)
    (h' : n < root.base + root.tree.size) : ∃ above s, Path root above s ∧ s.number = n := by
  have hn : n ∈ (root.layout none).map (fun x => x.spot.number) := by
    rw [map_number_layout, List.mem_range'_1]
    exact ⟨h, h'⟩
  obtain ⟨x, hx, rfl⟩ := List.mem_map.1 hn
  obtain ⟨above, way, -⟩ := Path.here.exists_of_mem_layout hx
  exact ⟨above, x.spot, way, rfl⟩

end Spot

end CallTrace
