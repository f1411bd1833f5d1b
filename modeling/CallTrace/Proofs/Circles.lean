import CallTrace.Arena.Record
import CallTrace.Proofs.Walk

/-!
Walks that end, and walks that do not.

A walk gives its visits one at a time, and on an arena that was read from a file it may go on for ever.
It ends exactly if it comes to no node that is below itself. If it ends, the nodes on the way down to a
visit are all different, so that the limit on the levels of a scan is never reached and
`Arena.preOrder` has the visits of the walk.
-/
namespace CallTrace

open Relation (ReflTransGen TransGen)

/-- The first node has the second one among its children. -/
def Arena.Lists (a : Arena) (r c : Ref) : Prop := c ∈ a.children r

namespace Walk

/-- The walk gives the visits one after the other, and then no more. -/
inductive Produces (a : Arena) : Walk → List Visit → Prop
  | done {w : Walk} (last : next? a w = none) : Produces a w []
  | step {w rest : Walk} {v : Visit} {visits : List Visit} (next : next? a w = some (v, rest))
      (later : Produces a rest visits) : Produces a w (v :: visits)

variable {a : Arena} {w : Walk} {visits : List Visit}

theorem produces_cons {v : Visit} {rest : Walk}
    (h : Produces a (a.visitsBelow v.node ++ rest) visits) :
    Produces a (v :: rest) (v :: visits) :=
  .step rfl h

theorem Produces.unique {visits' : List Visit} (h : Produces a w visits)
    (h' : Produces a w visits') : visits = visits' := by
  induction h generalizing visits' with
  | done last =>
    cases h' with
    | done => rfl
    | step next => exact absurd (last.symm.trans next) (by simp)
  | step next _ ih =>
    cases h' with
    | done last => exact absurd (next.symm.trans last) (by simp)
    | step next' later' =>
      obtain ⟨rfl, rfl⟩ := Prod.mk.inj (Option.some.inj (next.symm.trans next'))
      rw [ih later']

/-- From what is pending in a walk that ends one cannot go down for ever. -/
theorem Produces.acc (h : Produces a w visits) :
    ∀ v ∈ w, Acc (fun c r => a.Lists r c) v.node := by
  induction h with
  | @done w last =>
    cases w with
    | nil => simp
    | cons v rest => cases last
  | @step w rest v visits next later ih =>
    cases w with
    | nil => cases next
    | cons u pending =>
      obtain ⟨rfl, rfl⟩ := Prod.mk.inj (Option.some.inj next)
      intro x hx
      rcases List.mem_cons.1 hx with rfl | hx
      · refine Acc.intro _ fun c hc => ?_
        exact ih ⟨c, x.node⟩ (List.mem_append_left _ (List.mem_map_of_mem hc))
      · exact ih x (List.mem_append_right _ hx)

end Walk

namespace Arena

variable {a : Arena} {root : Ref}

/-- No node that can be reached from the given one is below itself. -/
def Uncircled (a : Arena) (root : Ref) : Prop :=
  ∀ r, ReflTransGen a.Lists root r → ¬ TransGen a.Lists r r

theorem uncircled_of_acc (h : Acc (fun c r => a.Lists r c) root) : a.Uncircled root := by
  induction h with
  | intro x _ ih =>
    intro r hr hcircle
    rcases hr.cases_head with rfl | ⟨c, hc, hr⟩
    · -- A circle through the node itself also goes through one of its children.
      obtain ⟨c, hc, hback⟩ := TransGen.head'_iff.1 hcircle
      exact ih c hc c .refl (.tail' hback hc)
    · exact ih c hc r hr hcircle

/-! ### Without circles the limit on the levels is not reached -/

theorem exists_of_mapM_eq_none {α β : Type} {f : α → Option β} {xs : List α}
    (h : xs.mapM f = none) : ∃ x ∈ xs, f x = none := by
  induction xs with
  | nil => cases h
  | cons x xs ih =>
    cases hx : f x with
    | none => exact ⟨x, List.mem_cons_self, hx⟩
    | some y =>
      have hxs : xs.mapM f = none := by
        cases hxs : xs.mapM f with
        | none => rfl
        | some ys =>
          have hsome := mapM_eq_some_cons.2 ⟨y, ys, hx, hxs, rfl⟩
          exact absurd (h.symm.trans hsome) (by simp)
      obtain ⟨z, hz, hfz⟩ := ih hxs
      exact ⟨z, List.mem_cons_of_mem _ hz, hfz⟩

/-- A walk that runs out of levels does so at the end of a way down of that many steps. -/
theorem exists_way_of_fullWalk_eq_none {levels : Nat} {v : Visit}
    (h : a.fullWalk levels v = none) :
    ∃ way : List Ref, (v.node :: way).IsChain a.Lists ∧ way.length = levels := by
  induction levels generalizing v with
  | zero => exact ⟨[], .singleton _, rfl⟩
  | succ levels ih =>
    have hbelow : (a.visitsBelow v.node).mapM (a.fullWalk levels) = none := by
      simpa [fullWalk, walkWithin] using h
    obtain ⟨u, hu, hwalk⟩ := exists_of_mapM_eq_none hbelow
    obtain ⟨c, hc, rfl⟩ := List.mem_map.1 hu
    obtain ⟨way, hchain, hlength⟩ := ih hwalk
    exact ⟨c :: way, .cons_cons hc hchain, by simp [hlength]⟩

theorem exists_rel_of_mem_dropLast {α : Type} {R : α → α → Prop} {xs : List α} {x : α}
    (h : xs.IsChain R) (hx : x ∈ xs.dropLast) : ∃ y, R x y := by
  induction xs with
  | nil => simp at hx
  | cons y ys ih =>
    cases ys with
    | nil => simp at hx
    | cons z zs =>
      obtain ⟨hyz, hrest⟩ := List.isChain_cons_cons.1 h
      rcases List.mem_cons.1 hx with rfl | hx
      · exact ⟨z, hyz⟩
      · exact ih hrest hx

/-- A node that lists another one has one of the numbers that are taken. -/
theorem mem_map_ofNat_of_lists {r c : Ref} (h : a.Lists r c) :
    r ∈ (List.range a.size).map Ref.ofNat := by
  unfold Lists children at h
  split at h
  · rename_i hn
    obtain ⟨i, rfl, hsize⟩ := exists_index_of_node? hn
    exact List.mem_map.2 ⟨i.val, List.mem_range.2 hsize, Ref.ofNat_eq_some i.isLt⟩
  · simp at h

/-- A way down that has more steps than there are nodes comes to a node twice. -/
theorem not_uncircled_of_way {way : List Ref} (h : (root :: way).IsChain a.Lists)
    (hlong : a.size < way.length) : ¬ a.Uncircled root := by
  have hpairs : (root :: way).Pairwise (TransGen a.Lists) :=
    List.isChain_iff_pairwise.1 (h.imp fun _ _ => .single)
  have htwice : ¬ (root :: way).dropLast.Nodup := by
    intro hnodup
    have hsub : (root :: way).dropLast ⊆ (List.range a.size).map Ref.ofNat := by
      intro r hr
      obtain ⟨c, hc⟩ := exists_rel_of_mem_dropLast h hr
      exact mem_map_ofNat_of_lists hc
    have hlength := (List.subperm_of_subset hnodup hsub).length_le
    simp only [List.length_dropLast, List.length_cons, List.length_map, List.length_range] at hlength
    omega
  rw [List.nodup_iff_sublist] at htwice
  push Not at htwice
  obtain ⟨r, hr⟩ := htwice
  have hsub : [r, r].Sublist (root :: way) := hr.trans (List.dropLast_sublist _)
  have hcircle : TransGen a.Lists r r := by simpa using hpairs.sublist hsub
  have hreach : ReflTransGen a.Lists root r := by
    rcases List.mem_cons.1 (hsub.subset List.mem_cons_self) with rfl | hmem
    · exact .refl
    · exact ((List.pairwise_cons.1 hpairs).1 r hmem).to_reflTransGen
  exact fun hfree => hfree r hreach hcircle

theorem Uncircled.exists_fullWalk (h : a.Uncircled root) (parent : Ref) :
    ∃ visits, a.fullWalk (a.levels 0) ⟨root, parent⟩ = some visits := by
  cases hwalk : a.fullWalk (a.levels 0) ⟨root, parent⟩ with
  | some visits => exact ⟨visits, rfl⟩
  | none =>
    obtain ⟨way, hway, hlength⟩ := exists_way_of_fullWalk_eq_none hwalk
    have hlong : a.size < way.length := by
      rw [hlength, levels]
      omega
    exact absurd h (not_uncircled_of_way hway hlong)

/-! ### The visits of a scan are those of the walk -/

/-- A scan that goes to the end folds over the visits that the walk gives. -/
theorem exists_produces_of_scanFrom {σ β : Type} {visit : σ → Visit → Except β σ}
    {stack : List Pending} {s s' : σ} (h : a.scanFrom visit stack s = some (.ok s')) :
    ∃ visits, Walk.Produces a (stack.map Pending.visit) visits ∧ visits.foldlM visit s = .ok s' := by
  induction stack, s using scanFrom.induct a visit with
  | case1 s =>
    rw [scanFrom] at h
    exact ⟨[], .done rfl, Option.some.inj h⟩
  | case2 v rest s =>
    rw [scanFrom] at h
    cases h
  | case3 levels v rest s b hv =>
    rw [scanFrom, hv] at h
    cases h
  | case4 levels v rest s s'' hv ih =>
    rw [scanFrom, hv] at h
    obtain ⟨visits, hproduces, hfold⟩ := ih h
    have hbelow : ((a.visitsBelow v.node).map (Pending.mk levels)).map Pending.visit =
        a.visitsBelow v.node := by
      rw [List.map_map]
      exact List.map_id _
    rw [List.map_append, hbelow] at hproduces
    refine ⟨v :: visits, Walk.produces_cons hproduces, ?_⟩
    rw [List.foldlM_cons, hv]
    exact hfold

theorem produces_of_preOrder {visits : List Visit} (h : a.preOrder root = some visits) :
    Walk.Produces a (Walk.start a root) visits := by
  obtain ⟨result, hscan, hresult⟩ := Option.map_eq_some_iff.1 h
  cases result with
  | error e => cases e
  | ok seen =>
    obtain ⟨visits', hproduces, hfold⟩ := exists_produces_of_scanFrom hscan
    have hstart : ((Walk.start a root).map (Pending.mk (a.levels 0))).map Pending.visit =
        Walk.start a root := by
      rw [List.map_map]
      exact List.map_id _
    rw [foldlM_push] at hfold
    have hseen := Except.ok.inj hfold
    have hvisits : visits' = visits := by
      rw [← hresult, ← hseen]
      simp
    rwa [hstart, hvisits] at hproduces

theorem not_lists_of_node?_eq_none (h : a.node? root = none) (c : Ref) : ¬ a.Lists root c := by
  simp [Lists, children, h]

theorem uncircled_of_node?_eq_none (h : a.node? root = none) : a.Uncircled root :=
  uncircled_of_acc (.intro root fun c hc => absurd hc (not_lists_of_node?_eq_none h c))

theorem uncircled_of_produces {visits : List Visit}
    (h : Walk.Produces a (Walk.start a root) visits) : a.Uncircled root := by
  cases hroot : a.node? root with
  | none => exact uncircled_of_node?_eq_none hroot
  | some n =>
    have hstart : Walk.start a root = [⟨root, none⟩] := by simp [Walk.start, hroot]
    exact uncircled_of_acc (h.acc ⟨root, none⟩ (by simp [hstart]))

theorem Uncircled.exists_preOrder (h : a.Uncircled root) :
    ∃ visits, a.preOrder root = some visits := by
  cases hroot : a.node? root with
  | none => exact ⟨[], by simp [preOrder, scan, Walk.start, hroot, scanFrom]⟩
  | some n =>
    obtain ⟨visits, hvisits⟩ := h.exists_fullWalk none
    exact ⟨visits, preOrder_eq_some hroot hvisits⟩

theorem Uncircled.isSome_findVisit {β : Type} (h : a.Uncircled root) (test : Visit → Option β) :
    (a.findVisit test root).isSome := by
  cases hroot : a.node? root with
  | none => simp [findVisit, scan, Walk.start, hroot, scanFrom]
  | some n =>
    obtain ⟨visits, hvisits⟩ := h.exists_fullWalk none
    rw [findVisit_eq_some hroot hvisits]
    rfl

theorem preOrder_eq_some_iff {visits : List Visit} :
    a.preOrder root = some visits ↔ Walk.Produces a (Walk.start a root) visits := by
  refine ⟨produces_of_preOrder, fun h => ?_⟩
  obtain ⟨visits', hvisits'⟩ := (uncircled_of_produces h).exists_preOrder
  rw [hvisits', h.unique (produces_of_preOrder hvisits')]

theorem exists_produces_iff_uncircled :
    (∃ visits, Walk.Produces a (Walk.start a root) visits) ↔ a.Uncircled root := by
  constructor
  · rintro ⟨visits, h⟩
    exact uncircled_of_produces h
  · intro h
    obtain ⟨visits, hvisits⟩ := h.exists_preOrder
    exact ⟨visits, produces_of_preOrder hvisits⟩

/-- Whatever an arena lists, the walk from a root ends exactly if no node that it comes to is below
itself, and its visits then are those of `preOrder`. -/
theorem exists_produces_iff_no_circle (a : Arena) (root : Ref) :
    ((∃ visits, Walk.Produces a (Walk.start a root) visits) ↔
      ∀ r, ReflTransGen a.Lists root r → ¬ TransGen a.Lists r r) ∧
    ∀ visits, a.preOrder root = some visits ↔ Walk.Produces a (Walk.start a root) visits := by
  refine ⟨?_, fun visits => preOrder_eq_some_iff⟩
  exact exists_produces_iff_uncircled

end Arena

/-- A program that is its own only statement. -/
def Sample.ownStatement : Arena := ⟨#[.program [Ref.ofNat 0]], #[⟨none, ⟨0, 0⟩⟩]⟩

/-- The stored form is accepted, and the walk from the program never ends. -/
theorem not_produces_ownStatement :
    Arena.load? Sample.ownStatement.save = some Sample.ownStatement ∧
    ¬ ∃ visits, Walk.Produces Sample.ownStatement (Walk.start Sample.ownStatement (some 0)) visits := by
  refine ⟨by decide +kernel, ?_⟩
  rintro ⟨visits, h⟩
  have hlists : Sample.ownStatement.Lists (some 0) (some 0) := by
    change some 0 ∈ Sample.ownStatement.children (some 0)
    decide
  exact Arena.uncircled_of_produces h (some 0) .refl (.single hlists)

end CallTrace
