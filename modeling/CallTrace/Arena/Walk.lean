import CallTrace.Arena.Basic

/-!
Walking an arena in pre-order: a node before its children, the children in source order.

`Walk` is the walk as a process: the visits that are still to come. It never ends on an arena in
which a node is below itself. `scan` runs a fold along the walk. It keeps with each pending visit how
many levels may still be opened below. A walk that ends has no path with a node twice, so that one
level more than there are nodes suffices for it; a path that needs more goes round in a circle.
-/
namespace CallTrace

/-- A step of a walk: a node and the node from which it was reached. -/
structure Visit where
  node : Ref
  parent : Ref
deriving DecidableEq, Repr

/-- The result of what walks an arena; there is none if the walk never ends. -/
abbrev Walked (α : Type) := Option α

def Arena.visitsBelow (a : Arena) (r : Ref) : List Visit := (a.children r).map fun c => ⟨c, r⟩

/-- The pending visits of a walk, the next one first. -/
abbrev Walk := List Visit

namespace Walk

def start (a : Arena) (root : Ref) : Walk :=
  match a.node? root with
  | some _ => [⟨root, none⟩]
  | none => []

def next? (a : Arena) : Walk → Option (Visit × Walk)
  | [] => none
  | v :: rest => some (v, a.visitsBelow v.node ++ rest)

def take (a : Arena) : Nat → Walk → List Visit
  | 0, _ => []
  | _ + 1, [] => []
  | n + 1, v :: rest => v :: take a n (a.visitsBelow v.node ++ rest)

end Walk

namespace Arena

def fanOut (a : Arena) : Nat := (a.nodes.toList.map fun n => n.children.length).foldr max 0

theorem le_foldr_max {n : Nat} {ns : List Nat} (h : n ∈ ns) : n ≤ ns.foldr max 0 := by
  induction ns with
  | nil => simp at h
  | cons m ns ih =>
    rw [List.foldr_cons]
    rcases List.mem_cons.1 h with rfl | h
    · exact Nat.le_max_left _ _
    · exact Nat.le_trans (ih h) (Nat.le_max_right _ _)

theorem children_length_le_fanOut (a : Arena) (r : Ref) : (a.children r).length ≤ a.fanOut := by
  unfold children
  split
  · rename_i n h
    simp only [node?, Option.bind_eq_some_iff] at h
    obtain ⟨i, -, hi⟩ := h
    have hn : n ∈ a.nodes.toList := Array.mem_toList_iff.2 (Array.mem_of_getElem? hi)
    exact le_foldr_max (List.mem_map.2 ⟨n, hn, rfl⟩)
  · simp

/-- A pending visit with the number of levels that may be opened from it on. -/
structure Pending where
  levels : Nat
  visit : Visit

/-- A bound on the visits that are still to come. -/
def weight (a : Arena) : List Pending → Nat
  | [] => 0
  | p :: rest => Nat.pow (a.fanOut + 1) p.levels + weight a rest

theorem weight_append (a : Arena) (xs ys : List Pending) :
    a.weight (xs ++ ys) = a.weight xs + a.weight ys := by
  induction xs with
  | nil => simp [weight]
  | cons x xs ih => simp [weight, ih, Nat.add_assoc]

theorem weight_map_mk (a : Arena) (levels : Nat) (vs : List Visit) :
    a.weight (vs.map (Pending.mk levels)) = vs.length * Nat.pow (a.fanOut + 1) levels := by
  induction vs with
  | nil => simp [weight]
  | cons v vs ih =>
    rw [List.map_cons, weight, ih, List.length_cons, Nat.add_mul, Nat.one_mul, Nat.add_comm]

theorem weight_open_lt (a : Arena) (levels : Nat) (v : Visit) (rest : List Pending) :
    a.weight ((a.visitsBelow v.node).map (Pending.mk levels) ++ rest) <
      a.weight (⟨levels + 1, v⟩ :: rest) := by
  have hc := a.children_length_le_fanOut v.node
  have hp : 0 < Nat.pow (a.fanOut + 1) levels := Nat.pow_pos (by omega)
  have hm : (a.children v.node).length * Nat.pow (a.fanOut + 1) levels ≤
      a.fanOut * Nat.pow (a.fanOut + 1) levels := Nat.mul_le_mul_right _ hc
  have hs : a.weight ((a.visitsBelow v.node).map (Pending.mk levels)) =
      (a.children v.node).length * Nat.pow (a.fanOut + 1) levels := by
    rw [weight_map_mk, visitsBelow, List.length_map]
  have hr : a.weight (⟨levels + 1, v⟩ :: rest) =
      Nat.pow (a.fanOut + 1) levels * (a.fanOut + 1) + a.weight rest := rfl
  rw [weight_append, hs, hr, Nat.mul_add, Nat.mul_comm _ a.fanOut]
  omega

variable {σ β : Type}

def scanFrom (a : Arena) (visit : σ → Visit → Except β σ) :
    List Pending → σ → Walked (Except β σ)
  | [], s => some (.ok s)
  | ⟨0, _⟩ :: _, _ => none
  | ⟨levels + 1, v⟩ :: rest, s =>
    match visit s v with
    | .error b => some (.error b)
    | .ok s => scanFrom a visit ((a.visitsBelow v.node).map (Pending.mk levels) ++ rest) s
termination_by stack => a.weight stack
decreasing_by exact a.weight_open_lt levels v rest

/-- The levels of a walk that goes round the same circle at most the given number of times. -/
def levels (a : Arena) (rounds : Nat) : Nat := (a.size + 1) * (rounds + 1)

/-- A fold over the walk from a root, which may stop early with a result. A walk that goes round the
same circle more often than the given number of times counts as one that never ends. -/
def scan (a : Arena) (rounds : Nat) (visit : σ → Visit → Except β σ) (s : σ) (root : Ref) :
    Walked (Except β σ) :=
  a.scanFrom visit ((Walk.start a root).map (Pending.mk (a.levels rounds))) s

def preOrder (a : Arena) (root : Ref) : Walked (List Visit) :=
  (a.scan 0 (fun (seen : Array Visit) v => (.ok (seen.push v) : Except Empty (Array Visit))) #[]
    root).map
    fun
    | .ok seen => seen.toList
    | .error e => nomatch e

/-- The result for the first visit that has one. What is not found before the walk goes round in a
circle is never found. -/
def findVisit (a : Arena) (test : Visit → Option β) (root : Ref) : Walked (Option β) :=
  (a.scan 0 (fun (_ : Unit) v => match test v with
    | some b => .error b
    | none => .ok ()) () root).map
    fun
    | .error b => some b
    | .ok _ => none

end Arena

end CallTrace
