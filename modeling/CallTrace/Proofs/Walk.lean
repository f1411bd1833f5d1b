import CallTrace.Proofs.Layout

/-!
Walks by recursion.

`Arena.walkWithin` walks an arena without a stack: a node first, then its children in order. It can be
told not to enter certain nodes, and it has no result if it would have to go down further than the
given number of levels. A scan is a fold over this walk, and on an arena that holds a tree the walk
from a node of the tree visits exactly the nodes of the subtree.
-/
namespace CallTrace

section Lists

variable {α β : Type}

theorem mapM_eq_some_cons {f : α → Option β} {x : α} {xs : List α} {zs : List β} :
    (x :: xs).mapM f = some zs ↔ ∃ y ys, f x = some y ∧ xs.mapM f = some ys ∧ zs = y :: ys := by
  rw [List.mapM_cons]
  cases hx : f x with
  | none => simp
  | some y => cases hxs : xs.mapM f <;> simp [eq_comm]

theorem mapM_eq_some_append {f : α → Option β} {xs ys : List α} {xs' ys' : List β}
    (hx : xs.mapM f = some xs') (hy : ys.mapM f = some ys') :
    (xs ++ ys).mapM f = some (xs' ++ ys') := by
  rw [List.mapM_append, hx, hy]
  rfl

theorem mapM_eq_some_map {f : α → Option β} {g : α → β} {xs : List α}
    (h : ∀ x ∈ xs, f x = some (g x)) : xs.mapM f = some (xs.map g) := by
  induction xs with
  | nil => rfl
  | cons x xs ih =>
    have hxs := ih fun y hy => h y (List.mem_cons_of_mem _ hy)
    exact mapM_eq_some_cons.2 ⟨g x, xs.map g, h x List.mem_cons_self, hxs, rfl⟩

end Lists

namespace Arena

/-- The walk from a visit on. A node that is not to be entered is left out with all that is below. -/
def walkWithin (a : Arena) (enters : Ref → Bool) : Nat → Visit → Walked (List Visit)
  | 0, _ => none
  | levels + 1, v =>
    if enters v.node then
      ((a.visitsBelow v.node).mapM (a.walkWithin enters levels)).map fun walks => v :: walks.flatten
    else some []

def fullWalk (a : Arena) : Nat → Visit → Walked (List Visit) := a.walkWithin fun _ => true

theorem fullWalk_succ_eq_some {a : Arena} {levels : Nat} {v : Visit} {visits : List Visit}
    (h : a.fullWalk (levels + 1) v = some visits) :
    ∃ walks, (a.visitsBelow v.node).mapM (a.fullWalk levels) = some walks ∧
      visits = v :: walks.flatten := by
  simp only [fullWalk, walkWithin, if_true, Option.map_eq_some_iff] at h
  obtain ⟨walks, hw, rfl⟩ := h
  exact ⟨walks, hw, rfl⟩

variable {σ β : Type}

/-- What is pending on the stack is folded over in the order of its walks. -/
theorem scanFrom_eq_foldlM {a : Arena} {visit : σ → Visit → Except β σ} {stack : List Pending}
    {walks : List (List Visit)} {s : σ}
    (h : stack.mapM (fun p => a.fullWalk p.levels p.visit) = some walks) :
    a.scanFrom visit stack s = some (walks.flatten.foldlM visit s) := by
  induction stack, s using scanFrom.induct a visit generalizing walks with
  | case1 s =>
    obtain rfl : walks = [] := by simpa using h.symm
    rw [scanFrom]
    rfl
  | case2 v rest s =>
    obtain ⟨w, -, hw, -, -⟩ := mapM_eq_some_cons.1 h
    simp [fullWalk, walkWithin] at hw
  | case3 levels v rest s b hv =>
    obtain ⟨w, ws, hw, -, rfl⟩ := mapM_eq_some_cons.1 h
    obtain ⟨below, -, rfl⟩ := fullWalk_succ_eq_some hw
    rw [scanFrom, hv]
    simp only [List.flatten_cons, List.cons_append, List.foldlM_cons, hv]
    rfl
  | case4 levels v rest s s' hv ih =>
    obtain ⟨w, ws, hw, hws, rfl⟩ := mapM_eq_some_cons.1 h
    obtain ⟨below, hbelow, rfl⟩ := fullWalk_succ_eq_some hw
    have hfirst : ((a.visitsBelow v.node).map (Pending.mk levels)).mapM
        (fun p => a.fullWalk p.levels p.visit) = some below := by
      rw [List.mapM_map]
      exact hbelow
    rw [scanFrom, hv]
    simp only [List.flatten_cons, List.cons_append, List.foldlM_cons, hv]
    rw [ih (mapM_eq_some_append hfirst hws), List.flatten_append]
    rfl

theorem scan_eq_foldlM {a : Arena} {rounds : Nat} {visit : σ → Visit → Except β σ} {s : σ}
    {root : Ref} {n : Node Index} {visits : List Visit} (hroot : a.node? root = some n)
    (h : a.fullWalk (a.levels rounds) ⟨root, none⟩ = some visits) :
    a.scan rounds visit s root = some (visits.foldlM visit s) := by
  have hstart : (Walk.start a root).map (Pending.mk (a.levels rounds)) =
      [⟨a.levels rounds, ⟨root, none⟩⟩] := by
    simp [Walk.start, hroot]
  have hstack : [(⟨a.levels rounds, ⟨root, none⟩⟩ : Pending)].mapM
      (fun p => a.fullWalk p.levels p.visit) = some [visits] :=
    mapM_eq_some_cons.2 ⟨visits, [], h, rfl, rfl⟩
  rw [scan, hstart, scanFrom_eq_foldlM hstack, List.flatten_cons, List.flatten_nil, List.append_nil]

theorem foldlM_push (visits : List Visit) (seen : Array Visit) :
    visits.foldlM (fun (seen : Array Visit) v => (.ok (seen.push v) : Except Empty (Array Visit)))
      seen = .ok (seen ++ visits.toArray) := by
  induction visits generalizing seen with
  | nil => simp [pure, Except.pure]
  | cons v visits ih =>
    rw [List.foldlM_cons]
    exact (ih (seen.push v)).trans (by simp)

theorem preOrder_eq_some {a : Arena} {root : Ref} {n : Node Index} {visits : List Visit}
    (hroot : a.node? root = some n) (h : a.fullWalk (a.levels 0) ⟨root, none⟩ = some visits) :
    a.preOrder root = some visits := by
  rw [preOrder, scan_eq_foldlM hroot h, foldlM_push]
  simp

theorem findVisit_eq_some {a : Arena} {test : Visit → Option β} {root : Ref} {n : Node Index}
    {visits : List Visit} (hroot : a.node? root = some n)
    (h : a.fullWalk (a.levels 0) ⟨root, none⟩ = some visits) :
    a.findVisit test root = some (visits.findSome? test) := by
  rw [findVisit, scan_eq_foldlM hroot h, Option.map_some, Option.some_inj]
  clear h
  induction visits with
  | nil => rfl
  | cons v vs ih =>
    rw [List.foldlM_cons, List.findSome?_cons]
    cases test v with
    | some b => rfl
    | none => exact ih

theorem Holds.full_of_path {a : Arena} {root s : Spot} {above : List Spot} (h : a.Holds root)
    (way : Spot.Path root above s) : s.tree.Full := by
  induction way with
  | here => exact h.full
  | down _ kid ih =>
    cases ih with
    | intro here below => exact below _ (Spot.tree_mem_kids kid)

theorem Holds.children {a : Arena} {root s : Spot} {above : List Spot} (h : a.Holds root)
    (way : Spot.Path root above s) : a.children s.ref = s.kids.map Spot.ref := by
  have hfull : none ∉ s.tree.shape.children := by
    cases h.full_of_path way with
    | intro here below => exact here
  have hshape : none ∉ s.shape.children := by
    rw [← s.map_tree_shape, Node.children_map] at hfull
    intro hn
    exact hfull (List.mem_map.2 ⟨none, hn, rfl⟩)
  have hkids : s.shape.children = s.kids.map some := Node.children_eq_map_some hshape
  simp only [Arena.children, h.node? way, Spot.node, Node.children_map, hkids, List.map_map]
  rfl

theorem Holds.visitsBelow {a : Arena} {root s : Spot} {above : List Spot} (h : a.Holds root)
    (way : Spot.Path root above s) :
    a.visitsBelow s.ref = s.kids.map fun k => ⟨k.ref, s.ref⟩ := by
  rw [Arena.visitsBelow, h.children way, List.map_map]
  rfl

/-- On an arena that holds a tree, a walk from a subtree's root is the walk of the subtree. -/
theorem Holds.walkWithin_eq {a : Arena} {root s : Spot} {above : List Spot} (h : a.Holds root)
    (way : Spot.Path root above s) (enters : Ref → Bool) {levels : Nat}
    (hl : s.tree.height ≤ levels) (parent : Ref) :
    a.walkWithin enters levels ⟨s.ref, parent⟩ = some (s.walk enters parent) := by
  induction levels generalizing above s parent with
  | zero =>
    have := s.tree.height_pos
    omega
  | succ levels ih =>
    have hkids : (a.visitsBelow s.ref).mapM (a.walkWithin enters levels) =
        some (s.kids.map fun k => k.walk enters s.ref) := by
      rw [h.visitsBelow way, List.mapM_map]
      apply mapM_eq_some_map
      intro k hk
      have hk' : k.tree.height ≤ levels := Tree.height_le_succ_iff.1 hl _ (Spot.tree_mem_kids hk)
      exact ih (way.down hk) hk' s.ref
    rw [Arena.walkWithin, Spot.walk_eq]
    simp only [hkids, Option.map_some]
    split <;> rfl

theorem Holds.fullWalk_eq {a : Arena} {root s : Spot} {above : List Spot} (h : a.Holds root)
    (way : Spot.Path root above s) (hs : root.tree.size ≤ a.size) (rounds : Nat) (parent : Ref) :
    a.fullWalk (a.levels rounds) ⟨s.ref, parent⟩ = some (s.visits parent) := by
  apply h.walkWithin_eq way
  have hh := way.length_add_height_le
  have hr := root.tree.height_le_size
  calc s.tree.height ≤ a.size + 1 := by omega
    _ ≤ a.levels rounds := Nat.le_mul_of_pos_right _ (by omega)

theorem Holds.preOrder_eq {a : Arena} {root s : Spot} {above : List Spot} (h : a.Holds root)
    (way : Spot.Path root above s) (hs : root.tree.size ≤ a.size) :
    a.preOrder s.ref = some (s.visits none) :=
  preOrder_eq_some (h.node? way) (h.fullWalk_eq way hs 0 none)

end Arena

end CallTrace
