import CallTrace.Proofs.Descent
import CallTrace.Trace.Callee

/-!
Building goes on above what is built.

A node that is added lists nodes that are there, so what lies below a node is complete when the node is
added, and no later edit reaches it. Parents are different: a later node that lists an earlier one becomes
its parent. But a walk goes by the children, and the parent that it reports is the node that it came from.
-/
namespace CallTrace

/-- A reference is absent or to a node that exists. -/
def Arena.Covers (a : Arena) : Ref → Prop
  | some i => i.val < a.size
  | none => True

instance (a : Arena) : DecidablePred a.Covers
  | some i => inferInstanceAs (Decidable (i.val < a.size))
  | none => inferInstanceAs (Decidable True)

/-- The children of a node that is added are absent or there already. -/
def Edit.Grounded (a : Arena) : Edit → Prop
  | .add b => ∀ c ∈ b.added.children, a.Covers c
  | .setSpan _ _ => True

instance (a : Arena) : DecidablePred (Edit.Grounded a)
  | .add b => List.decidableBAll a.Covers b.added.children
  | .setSpan _ _ => inferInstanceAs (Decidable True)

namespace Arena

/-- Each of the edits is grounded in the arena that it is made on. -/
def GroundedRun (a : Arena) : List Edit → Prop
  | [] => True
  | e :: edits => e.Grounded a ∧ (e.run a).GroundedRun edits

instance decidableGroundedRun (a : Arena) : DecidablePred a.GroundedRun
  | [] => inferInstanceAs (Decidable True)
  | e :: edits =>
    have := (e.run a).decidableGroundedRun edits
    inferInstanceAs (Decidable (e.Grounded a ∧ (e.run a).GroundedRun edits))

/-- Every child is absent or comes before the node that lists it. -/
def Founded (a : Arena) : Prop := ∀ n c : Index, some c ∈ a.children (some n) → c < n

variable {a b : Arena}

/-! ### What every grounded run preserves -/

theorem founded_empty : empty.Founded := by
  intro n c hc
  exact absurd (lt_size_of_mem_children hc) (Nat.not_lt_zero _)

theorem Founded.run (h : a.Founded) {e : Edit} (he : e.Grounded a) : (e.run a).Founded := by
  intro n c hc
  cases e with
  | add b =>
    rw [Edit.run, Builder.run_eq_add] at hc
    by_cases hn : n.val = a.size
    · rw [children_add hn] at hc
      have hlt : c.val < a.size := he _ hc
      exact Fin.lt_def.2 (by omega)
    · rw [children_add_of_ne hn] at hc
      exact h n c hc
  | setSpan r span =>
    refine h n c ?_
    simpa [Edit.run, children, node?] using hc

theorem Founded.edited (h : a.Founded) {edits : List Edit} (hg : a.GroundedRun edits) :
    (a.edited edits).Founded := by
  induction edits generalizing a with
  | nil => exact h
  | cons e edits ih => exact ih (h.run hg.1) hg.2

theorem Founded.descending (h : a.Founded) : a.Descending := fun n c hc _ => h n c hc

/-- Induction from the children of a node to the node. -/
theorem Founded.induct (h : a.Founded) {P : Ref → Prop}
    (step : ∀ r, (∀ c ∈ a.children r, P c) → P r) (r : Ref) : P r := by
  induction hk : a.rank r using Nat.strong_induction_on generalizing r with
  | h k ih => exact step r fun c hc => ih _ (hk ▸ h.descending.rank_lt hc) c rfl

/-! ### What a walk reads -/

/-- The second arena has all nodes of the first. -/
def Extends (a b : Arena) : Prop := ∀ r, a.Covers r → b.node? r = a.node? r

theorem covers_none : a.Covers none := trivial

theorem covers_of_isSome_node? {r : Ref} (hr : (a.node? r).isSome) : a.Covers r := by
  obtain ⟨n, hn⟩ := Option.isSome_iff_exists.1 hr
  obtain ⟨i, rfl, hi⟩ := exists_index_of_node? hn
  exact hi

theorem extends_edited (a : Arena) (edits : List Edit) : a.Extends (a.edited edits) := by
  intro r hr
  cases r with
  | none => rfl
  | some i => exact node?_edited hr edits

theorem Founded.covers_of_mem_children (h : a.Founded) {r c : Ref} (hc : c ∈ a.children r) :
    a.Covers c := by
  cases c with
  | none => trivial
  | some k =>
    cases r with
    | none => cases hc
    | some n => exact (Fin.lt_def.1 (h n k hc)).trans (lt_size_of_mem_children hc)

theorem Extends.children_eq (h : a.Extends b) {r : Ref} (hr : a.Covers r) :
    b.children r = a.children r := by
  rw [children, h r hr, children]

/-- The nodes of a walk and their parents are absent or exist. -/
theorem Founded.covers_of_mem_walkDown (h : a.Founded) {r parent : Ref} (hr : a.Covers r)
    (hparent : a.Covers parent) {v : Visit} (hv : v ∈ a.walkDown h.descending r parent) :
    a.Covers v.node ∧ a.Covers v.parent := by
  induction r using h.induct generalizing parent with
  | step r ih =>
    rw [walkDown_eq, List.mem_cons, List.mem_flatMap] at hv
    rcases hv with rfl | ⟨c, hc, hv⟩
    · exact ⟨hr, hparent⟩
    · exact ih c hc (h.covers_of_mem_children hc) hr hv

/-- A walk that begins in an arena does not leave it where the arena is extended. -/
theorem Extends.walkDown_eq (h : a.Extends b) (ha : a.Founded) (hb : b.Founded) {r : Ref}
    (hr : a.Covers r) (parent : Ref) :
    b.walkDown hb.descending r parent = a.walkDown ha.descending r parent := by
  induction r using ha.induct generalizing parent with
  | step r ih =>
    rw [Arena.walkDown_eq, Arena.walkDown_eq, h.children_eq hr]
    congr 1
    exact List.flatMap_congr fun c hc => ih c hc (ha.covers_of_mem_children hc) r

theorem Extends.bindsFunction_eq (h : a.Extends b) (ha : a.Founded) (name : String) {v : Visit}
    (hnode : a.Covers v.node) (hparent : a.Covers v.parent) :
    b.bindsFunction name v = a.bindsFunction name v := by
  rw [bindsFunction, bindsFunction, h _ hnode, h _ hparent]
  cases hp : a.node? v.parent with
  | none => rfl
  | some n =>
    cases n with
    | variableDeclaration target initializer =>
      -- The declared name is a child of the declaration.
      have htarget : a.Covers target := by
        cases target with
        | none => trivial
        | some k =>
          have hmem : some k ∈ a.children v.parent := by
            rw [children, hp]
            exact List.mem_cons_self
          exact ha.covers_of_mem_children hmem
      have htext : b.identifierText? target = a.identifierText? target := by
        rw [identifierText?, h target htarget, identifierText?]
      simp only [htext]
    | _ => rfl

/-! ### Walks and searches over a descending arena -/

theorem Descending.preOrder_eq (h : a.Descending) {r : Ref} (hr : (a.node? r).isSome) :
    a.preOrder r = some (a.walkDown h r none) := by
  have hproduces := produces_walksDown h (Walk.start a r)
  rw [walksDown_start, if_pos hr] at hproduces
  exact preOrder_eq_some_iff.2 hproduces

theorem Descending.findVisit_eq {β : Type} (h : a.Descending) {r : Ref} (hr : (a.node? r).isSome)
    (test : Visit → Option β) :
    a.findVisit test r = some ((a.walkDown h r none).findSome? test) := by
  obtain ⟨n, hn⟩ := Option.isSome_iff_exists.1 hr
  have hfree : a.Uncircled r := uncircled_of_produces (produces_walksDown h (Walk.start a r))
  obtain ⟨visits, hvisits⟩ := hfree.exists_fullWalk none
  have hwalk : visits = a.walkDown h r none :=
    Option.some.inj ((preOrder_eq_some hn hvisits).symm.trans (h.preOrder_eq hr))
  rw [findVisit_eq_some hn hvisits, hwalk]

/-- A search gives the same if its test does on the visits of the walk. -/
theorem findSome?_eq_of_forall_mem {α β : Type} {f g : α → Option β} {xs : List α}
    (h : ∀ x ∈ xs, f x = g x) : xs.findSome? f = xs.findSome? g := by
  induction xs with
  | nil => rfl
  | cons x xs ih =>
    rw [List.findSome?_cons, List.findSome?_cons, h x List.mem_cons_self,
      ih fun y hy => h y (List.mem_cons_of_mem x hy)]

theorem Extends.preOrder_eq (h : a.Extends b) (ha : a.Founded) (hb : b.Founded) {r : Ref}
    (hr : (a.node? r).isSome) : b.preOrder r = a.preOrder r := by
  have hcovers := covers_of_isSome_node? hr
  have hr' : (b.node? r).isSome := by rwa [h r hcovers]
  rw [hb.descending.preOrder_eq hr', ha.descending.preOrder_eq hr, h.walkDown_eq ha hb hcovers]

theorem Extends.boundFunction_eq (h : a.Extends b) (ha : a.Founded) (hb : b.Founded) {r : Ref}
    (hr : (a.node? r).isSome) (name : String) :
    b.boundFunction r name = a.boundFunction r name := by
  have hcovers := covers_of_isSome_node? hr
  have hr' : (b.node? r).isSome := by rwa [h r hcovers]
  have hcover {v : Visit} (hv : v ∈ a.walkDown ha.descending r none) :=
    ha.covers_of_mem_walkDown hcovers covers_none hv
  rw [boundFunction, boundFunction, hb.descending.findVisit_eq hr', ha.descending.findVisit_eq hr,
    h.walkDown_eq ha hb hcovers, Option.map_some, Option.map_some]
  have hsearch : (a.walkDown ha.descending r none).findSome?
        (fun v => if b.bindsFunction name v then some v.node else none) =
      (a.walkDown ha.descending r none).findSome?
        (fun v => if a.bindsFunction name v then some v.node else none) :=
    findSome?_eq_of_forall_mem fun v hv => by
      rw [h.bindsFunction_eq ha name (hcover hv).1 (hcover hv).2]
  rw [hsearch]
  cases hfound : (a.walkDown ha.descending r none).findSome?
      (fun v => if a.bindsFunction name v then some v.node else none) with
  | none => rfl
  | some found =>
    obtain ⟨v, hv, htest⟩ := List.exists_of_findSome?_eq_some hfound
    obtain ⟨-, hnode⟩ := Option.ite_none_right_eq_some.1 htest
    obtain rfl := Option.some.inj hnode
    simp only [Option.bind_some, h v.node (hcover hv).1]

/-- What lies below a node is settled when the node is added. Let an arena be built from nothing by edits
whose children are there or absent, and let such edits go on, also ones that list the node again or nodes
below it. From any node of the arena the walk still gives the same visits, and the search for a function
bound to a name the same body; both end. -/
theorem edited_keeps_subtrees {before later : List Edit} (hbefore : empty.GroundedRun before)
    (hlater : (empty.edited before).GroundedRun later) {i : Index}
    (hi : i.val < (empty.edited before).size) (name : String) :
    ∃ visits found,
      (empty.edited before).preOrder (some i) = some visits ∧
      (empty.edited (before ++ later)).preOrder (some i) = some visits ∧
      (empty.edited before).boundFunction (some i) name = some found ∧
      (empty.edited (before ++ later)).boundFunction (some i) name = some found := by
  have hfounded := founded_empty.edited hbefore
  have hext := extends_edited (empty.edited before) later
  have hnode : ((empty.edited before).node? (some i)).isSome :=
    Option.isSome_iff_exists.2 ⟨_, Array.getElem?_eq_getElem hi⟩
  have hsame := hext.preOrder_eq hfounded (hfounded.edited hlater) hnode
  have hsearch := hext.boundFunction_eq hfounded (hfounded.edited hlater) hnode name
  rw [edited_append, hsame, hsearch, boundFunction, hfounded.descending.findVisit_eq hnode,
    hfounded.descending.preOrder_eq hnode]
  exact ⟨_, _, rfl, rfl, rfl, rfl⟩

end Arena

namespace Sample

/-- `var f = function () {}` -/
def boundEdits : List Edit :=
  [.add (.identifier "f"), .add (.block []),
    .add (.function .expression none [] (Ref.ofNat 1)),
    .add (.variableDeclaration (Ref.ofNat 0) (Ref.ofNat 2)),
    .add (.variableStatement .var [Ref.ofNat 3])]

/-- A block that has the statement twice, its declaration and an absent one, and a second function that
is bound to the same name and has the body of the first. -/
def relistingEdits : List Edit :=
  [.add (.block [Ref.ofNat 4, Ref.ofNat 3, none, Ref.ofNat 4]),
    .setSpan (Ref.ofNat 2) ⟨8, 22⟩, .setSpan (Ref.ofNat 9) ⟨0, 1⟩,
    .add (.function .expression (Ref.ofNat 0) [Ref.ofNat 0] (Ref.ofNat 1)),
    .add (.variableDeclaration (Ref.ofNat 0) (Ref.ofNat 6))]

end Sample

/-- The later edits give other parents to the declaration, the name and the body, but what the statement
holds is the same. -/
theorem Arena.edited_keeps_subtrees_relistingEdits :
    (empty.edited Sample.boundEdits).parent (some 3) = some 4 ∧
    (empty.edited (Sample.boundEdits ++ Sample.relistingEdits)).parent (some 3) = some 5 ∧
    ∃ visits, (empty.edited Sample.boundEdits).preOrder (some 4) = some visits ∧
      (empty.edited (Sample.boundEdits ++ Sample.relistingEdits)).preOrder (some 4) = some visits ∧
      visits = [⟨some 4, none⟩, ⟨some 3, some 4⟩, ⟨some 0, some 3⟩, ⟨some 2, some 3⟩,
        ⟨some 1, some 2⟩] ∧
      (empty.edited (Sample.boundEdits ++ Sample.relistingEdits)).boundFunction (some 4) "f" =
        some (some 1) := by
  have hparents : (empty.edited Sample.boundEdits).parent (some 3) = some 4 ∧
      (empty.edited (Sample.boundEdits ++ Sample.relistingEdits)).parent (some 3) = some 5 := by
    decide +kernel
  have hvisits : (empty.edited Sample.boundEdits).preOrder (some 4) =
      some [⟨some 4, none⟩, ⟨some 3, some 4⟩, ⟨some 0, some 3⟩, ⟨some 2, some 3⟩,
        ⟨some 1, some 2⟩] := by
    decide +kernel
  have hbody : (empty.edited Sample.boundEdits).boundFunction (some 4) "f" = some (some 1) := by
    decide +kernel
  have hbefore : empty.GroundedRun Sample.boundEdits := by
    decide +kernel
  have hlater : (empty.edited Sample.boundEdits).GroundedRun Sample.relistingEdits := by
    decide +kernel
  obtain ⟨visits, found, hfirst, hsecond, hfound, hkept⟩ :=
    edited_keeps_subtrees hbefore hlater (i := 4) (by decide) "f"
  rw [hfirst] at hvisits
  rw [hfound] at hbody
  rw [hbody] at hkept
  exact ⟨hparents.1, hparents.2, visits, hfirst, hsecond, Option.some.inj hvisits, hkept⟩

end CallTrace
