import Mathlib
import CallTrace.Arena.Scope

/-!
The way up in any arena.

In an arena that was read from a file the parents may go round in a circle, they may name nodes that do
not exist, and there may be parents without nodes and nodes without parents. The scopes around a node are
collected on the way up all the same, and what is collected is told by the sequence of the parents alone:
the scopes among its first 10000 nodes. A circle is gone round until then, and its scopes are collected
each time.
-/
namespace CallTrace.Arena

variable (a : Arena)

/-- The parent of a node, the parent of that one and so on: at most so many, and none from the first on
that is absent. -/
def ancestors (limit : Nat) (r : Ref) : List Ref :=
  (List.iterate a.parent (a.parent r) limit).takeWhile Option.isSome

theorem parent_none : a.parent none = none := rfl

theorem map_some_upward (limit : Nat) (r : Ref) :
    (a.upward limit r).map some = (List.iterate a.parent r limit).takeWhile Option.isSome := by
  induction limit generalizing r with
  | zero => rfl
  | succ limit ih =>
    cases r with
    | none => rfl
    | some i =>
      rw [upward, List.map_cons, ih, List.iterate, List.takeWhile_cons_of_pos rfl]

theorem map_some_scopeChain (r : Ref) :
    (a.scopeChain r).map some = (a.ancestors maxAncestors r).filter a.opensScope := by
  rw [ancestors, ← map_some_upward, List.filter_map]
  rfl

theorem length_ancestors_le (limit : Nat) (r : Ref) : (a.ancestors limit r).length ≤ limit := by
  have hlength := (List.takeWhile_prefix Option.isSome
    (l := List.iterate a.parent (a.parent r) limit)).length_le
  rwa [List.length_iterate] at hlength

theorem iterate_of_parent_eq_self {r : Ref} (h : a.parent r = r) (n : Nat) :
    List.iterate a.parent r n = List.replicate n r := by
  induction n with
  | zero => rfl
  | succ n ih => rw [List.iterate, h, ih, List.replicate_succ]

variable {a} {hops : Nat} {r : Ref}

/-- Once the sequence of parents has ended, looking at more of it gives no more ancestors. -/
theorem ancestors_eq_of_iterate_eq_none (h : a.parent^[hops] (a.parent r) = none) {limit : Nat}
    (hl : hops ≤ limit) : a.ancestors limit r = a.ancestors hops r := by
  obtain ⟨more, rfl⟩ := Nat.exists_eq_add_of_le hl
  have hend : (List.replicate more (none : Ref)).takeWhile Option.isSome = [] := by
    cases more <;> rfl
  rw [ancestors, List.iterate_add, h, a.iterate_of_parent_eq_self a.parent_none, List.takeWhile_append,
    hend, List.append_nil]
  split
  · rename_i hall
    exact ((List.takeWhile_prefix _).eq_of_length hall).symm
  · rfl

/-- A node that the sequence of parents comes to has only nodes before it. -/
theorem mem_ancestors {k limit : Nat} {i : Index} (hk : a.parent^[k] (a.parent r) = some i)
    (hl : k < limit) : some i ∈ a.ancestors limit r := by
  induction limit generalizing k r with
  | zero => omega
  | succ limit ih =>
    cases hp : a.parent r with
    | none =>
      rw [hp, Function.iterate_fixed a.parent_none] at hk
      cases hk
    | some p =>
      rw [ancestors, List.iterate, hp, List.takeWhile_cons_of_pos rfl, List.mem_cons]
      cases k with
      | zero => exact .inl (hk.symm.trans hp)
      | succ k =>
        rw [hp, Function.iterate_succ_apply] at hk
        exact .inr (ih hk (by omega))

/-- Whatever the parents in an arena are, the scopes around a node are those of the first 10000 ancestors
that open a scope, in this order and as often as they occur there. If the sequence of parents ends within
so many steps, they are the same for all ancestors, and each scope on the way up is one of them. -/
theorem scopeChain_eq_filter_ancestors (a : Arena) (r : Ref) :
    (a.scopeChain r).map some = (a.ancestors 10000 r).filter a.opensScope ∧
    (a.scopeChain r).length ≤ 10000 ∧
    ∀ hops ≤ 10000, a.parent^[hops] (a.parent r) = none →
      (∀ limit, hops ≤ limit →
        (a.scopeChain r).map some = (a.ancestors limit r).filter a.opensScope) ∧
      ∀ k i, a.parent^[k] (a.parent r) = some i → a.opensScope (some i) = true →
        i ∈ a.scopeChain r := by
  have hchain : (a.scopeChain r).map some = (a.ancestors 10000 r).filter a.opensScope :=
    a.map_some_scopeChain r
  have hlength : (a.scopeChain r).length ≤ 10000 :=
    calc (a.scopeChain r).length = ((a.ancestors 10000 r).filter a.opensScope).length := by
          rw [← hchain, List.length_map]
      _ ≤ (a.ancestors 10000 r).length := List.length_filter_le _ _
      _ ≤ 10000 := a.length_ancestors_le 10000 r
  refine ⟨hchain, hlength, fun hops hhops hend => ?_⟩
  have hall : ∀ limit, hops ≤ limit →
      (a.scopeChain r).map some = (a.ancestors limit r).filter a.opensScope := by
    intro limit hlimit
    rw [hchain, ancestors_eq_of_iterate_eq_none hend hhops, ancestors_eq_of_iterate_eq_none hend hlimit]
  refine ⟨hall, fun k i hk hopen => ?_⟩
  have hmem : some i ∈ (a.scopeChain r).map some := by
    rw [hall (max hops (k + 1)) (le_max_left _ _), List.mem_filter]
    exact ⟨mem_ancestors hk (lt_max_of_lt_right (Nat.lt_succ_self k)), hopen⟩
  exact (List.mem_map_of_injective (Option.some_injective _)).1 hmem

end CallTrace.Arena

namespace CallTrace

/-- A program that is its own parent, and one below a node that does not exist. The second is the parent
of a node of which nothing else is known. -/
def Sample.strayParents : Arena :=
  ⟨#[.program [], .program []],
    #[⟨Ref.ofNat 0, ⟨0, 0⟩⟩, ⟨Ref.ofNat 9, ⟨0, 0⟩⟩, ⟨Ref.ofNat 1, ⟨0, 0⟩⟩]⟩

/-- The first program is collected 10000 times. The way up from the third node ends after two steps, and
a larger limit finds no other scope on it. -/
theorem Arena.scopeChain_eq_filter_ancestors_strayParents :
    Sample.strayParents.scopeChain (some 0) = List.replicate 10000 0 ∧
    Sample.strayParents.parent^[2] (Sample.strayParents.parent (some 2)) = none ∧
    (Sample.strayParents.scopeChain (some 2)).map some =
      (Sample.strayParents.ancestors 20000 (some 2)).filter Sample.strayParents.opensScope ∧
    1 ∈ Sample.strayParents.scopeChain (some 2) := by
  obtain ⟨hchain, -, -⟩ := scopeChain_eq_filter_ancestors Sample.strayParents (some 0)
  obtain ⟨-, -, hends⟩ := scopeChain_eq_filter_ancestors Sample.strayParents (some 2)
  have hown : Sample.strayParents.parent (some 0) = some 0 := rfl
  have hend : Sample.strayParents.parent^[2] (Sample.strayParents.parent (some 2)) = none := rfl
  obtain ⟨hall, hscopes⟩ := hends 2 (by decide) hend
  refine ⟨?_, hend, hall 20000 (by decide), hscopes 0 1 rfl (by decide)⟩
  have hopen : Sample.strayParents.opensScope (some 0) = true := by decide
  apply List.map_injective_iff.2 (Option.some_injective Index)
  rw [hchain, ancestors, hown, iterate_of_parent_eq_self _ hown, List.map_replicate,
    List.takeWhile_replicate, if_pos Option.isSome_some, List.filter_replicate_of_pos hopen]

end CallTrace
