import CallTrace.Proofs.Circles
import CallTrace.Proofs.Editing

/-!
Walks by plain recursion.

If every child that exists has a smaller number than the node that lists it, one can walk an arena by
recursion, without any limit: `Arena.walkDown` gives a node and then, one after the other, the walks
from its children. A child that does not exist is a leaf, and a child that is listed twice is walked
twice. What is pending in a walk stands for the walks from all pending nodes, and each step of the walk
takes the first visit off them.
-/
namespace CallTrace

namespace Arena

/-- Every child that exists has a smaller number than the node that lists it. -/
def Descending (a : Arena) : Prop :=
  ∀ n c : Index, some c ∈ a.children (some n) → (a.node? (some c)).isSome → c < n

/-- The number of a node counted from one; zero for a node that does not exist. -/
def rank (a : Arena) (r : Ref) : Nat := if (a.node? r).isSome then r.code + 1 else 0

variable {a : Arena}

theorem children_eq_nil {r : Ref} (h : a.node? r = none) : a.children r = [] := by
  rw [children, h]

theorem Descending.rank_lt (h : a.Descending) {r c : Ref} (hc : c ∈ a.children r) :
    a.rank c < a.rank r := by
  have hr : (a.node? r).isSome := by
    rw [Option.isSome_iff_ne_none]
    intro hnone
    simp [children_eq_nil hnone] at hc
  obtain ⟨n, rfl⟩ : ∃ n, r = some n := by
    cases r with
    | none => cases hr
    | some n => exact ⟨n, rfl⟩
  rw [rank, rank, if_pos hr]
  split
  · rename_i hexists
    cases c with
    | none => cases hexists
    | some c =>
      have hlt : c.val < n.val := h n c hc hexists
      exact Nat.succ_lt_succ hlt
  · exact Nat.succ_pos _

/-- The walk from a node that is reached from the given parent: the node, then the walks from its
children in order. -/
def walkDown (a : Arena) (h : a.Descending) (r parent : Ref) : List Visit :=
  ⟨r, parent⟩ :: (a.children r).attach.flatMap fun c => walkDown a h c.1 r
termination_by a.rank r
decreasing_by exact h.rank_lt c.2

theorem walkDown_eq (h : a.Descending) (r parent : Ref) :
    a.walkDown h r parent = ⟨r, parent⟩ :: (a.children r).flatMap fun c => a.walkDown h c r := by
  rw [walkDown, List.flatMap_def, List.flatMap_def, List.attach_map_val (f := fun c => a.walkDown h c r)]

theorem walkDown_eq_singleton (h : a.Descending) {r : Ref} (hr : a.node? r = none) (parent : Ref) :
    a.walkDown h r parent = [⟨r, parent⟩] := by
  rw [walkDown_eq, children_eq_nil hr, List.flatMap_nil]

/-- The walks from all nodes that are pending in a walk. -/
def walksDown (a : Arena) (h : a.Descending) (w : Walk) : List Visit :=
  w.flatMap fun v => a.walkDown h v.node v.parent

/-- A step of a walk takes the first visit and leaves the others. -/
theorem walksDown_cons (h : a.Descending) (v : Visit) (rest : Walk) :
    a.walksDown h (v :: rest) = v :: a.walksDown h (a.visitsBelow v.node ++ rest) := by
  have hbelow : a.walksDown h (a.visitsBelow v.node) =
      (a.children v.node).flatMap fun c => a.walkDown h c v.node := by
    rw [walksDown, visitsBelow, List.flatMap_map]
  have happend : a.walksDown h (a.visitsBelow v.node ++ rest) =
      a.walksDown h (a.visitsBelow v.node) ++ a.walksDown h rest := List.flatMap_append
  rw [happend, hbelow, walksDown, List.flatMap_cons, walkDown_eq]
  rfl

/-- A walk gives the walks from its pending nodes one after the other, and then ends. -/
theorem produces_walksDown (h : a.Descending) (w : Walk) : Walk.Produces a w (a.walksDown h w) := by
  -- Each step gives one of the visits, so there are as many steps as visits.
  induction hvisits : a.walksDown h w generalizing w with
  | nil =>
    cases w with
    | nil => exact .done rfl
    | cons v rest =>
      rw [walksDown_cons] at hvisits
      cases hvisits
  | cons v visits ih =>
    cases w with
    | nil => cases hvisits
    | cons u rest =>
      rw [walksDown_cons] at hvisits
      obtain ⟨rfl, hlater⟩ := List.cons.inj hvisits
      exact Walk.produces_cons (ih _ hlater)

theorem walksDown_start (h : a.Descending) (root : Ref) :
    a.walksDown h (Walk.start a root) =
      if (a.node? root).isSome then a.walkDown h root none else [] := by
  cases hroot : a.node? root with
  | none => simp [walksDown, Walk.start, hroot]
  | some n => simp [walksDown, Walk.start, hroot]

/-- On an arena whose existing children come before the nodes that list them, the walk from any root
ends. It gives nothing for a root that does not exist, and else the visits of the recursive walk: a
node followed by the walks from its children, as often as they are listed, where a child that is absent
or does not exist is a leaf. -/
theorem preOrder_eq_walkDown {a : Arena} (h : a.Descending) (root : Ref) :
    (∃ visits, Walk.Produces a (Walk.start a root) visits ∧ a.preOrder root = some visits ∧
      visits = if (a.node? root).isSome then a.walkDown h root none else []) ∧
    (∀ r parent, a.walkDown h r parent =
      ⟨r, parent⟩ :: (a.children r).flatMap fun c => a.walkDown h c r) ∧
    ∀ r parent, a.node? r = none → a.walkDown h r parent = [⟨r, parent⟩] := by
  have hproduces := produces_walksDown h (Walk.start a root)
  refine ⟨⟨_, hproduces, preOrder_eq_some_iff.2 hproduces, walksDown_start h root⟩, walkDown_eq h, ?_⟩
  intro r parent hr
  exact walkDown_eq_singleton h hr parent

end Arena

/-- `f(f)` twice, where both statements are the same call. The call has two more arguments, an absent one
and one that does not exist. -/
def Sample.sharedCall : Arena :=
  ⟨#[.identifier "f", .call (Ref.ofNat 0) [Ref.ofNat 0, none, Ref.ofNat 9] false,
      .program [Ref.ofNat 1, Ref.ofNat 1]],
    #[⟨Ref.ofNat 1, ⟨0, 1⟩⟩, ⟨Ref.ofNat 2, ⟨0, 4⟩⟩, ⟨none, ⟨0, 5⟩⟩]⟩

theorem Sample.descending_sharedCall : sharedCall.Descending := by
  have hlists : ∀ k < 3, (sharedCall.children (Ref.ofNat k)).all
      (fun c => (sharedCall.node? c).isNone || decide (Ref.code c < k)) = true := by
    decide
  intro n c hc hexists
  have hn : n.val < 3 := Arena.lt_size_of_mem_children hc
  have hall := hlists n.val hn
  rw [Ref.ofNat_eq_some n.isLt, List.all_eq_true] at hall
  have hlt := hall (some c) hc
  rw [← Option.not_isSome, hexists] at hlt
  exact of_decide_eq_true hlt

/-- The call is walked once for each statement, and each time the identifier twice. -/
theorem Arena.preOrder_eq_walkDown_sharedCall :
    Sample.sharedCall.preOrder (some 9) = some [] ∧
    Sample.sharedCall.walkDown Sample.descending_sharedCall (some 9) (some 1) =
      [⟨some 9, some 1⟩] ∧
    ∃ visits, Walk.Produces Sample.sharedCall (Walk.start Sample.sharedCall (some 2)) visits ∧
      visits = Sample.sharedCall.walkDown Sample.descending_sharedCall (some 2) none ∧
      visits.map Visit.node = [some 2, some 1, some 0, some 0, none, some 9, some 1, some 0, some 0,
        none, some 9] := by
  have hnodes : (Sample.sharedCall.preOrder (some 2)).map (List.map Visit.node) =
      some [some 2, some 1, some 0, some 0, none, some 9, some 1, some 0, some 0, none, some 9] := by
    decide +kernel
  have hnode : Sample.sharedCall.node? (some 9) = none := by decide
  obtain ⟨⟨visits, hproduces, hvisits, hwalk⟩, -, hleaf⟩ :=
    preOrder_eq_walkDown Sample.descending_sharedCall (some 2)
  obtain ⟨⟨missing, -, hmissing, hnil⟩, -, -⟩ :=
    preOrder_eq_walkDown Sample.descending_sharedCall (some 9)
  rw [hnode] at hnil
  rw [hnil] at hmissing
  rw [hvisits] at hnodes
  exact ⟨hmissing, hleaf _ _ hnode, visits, hproduces, hwalk, Option.some.inj hnodes⟩

end CallTrace
