import CallTrace.Proofs.Attribution
import CallTrace.Trace.Resolve

/-!
The trace agrees with the resolution of single calls.

A trace goes through the statements of one scope after the other, while a single call is found by its
number on a walk of the whole program and resolved in the scope around it. Both give the same function
bodies: what a trace reports right in a scope are the resolutions of the calls that belong to the
scope, in the order of their numbers (`ImportedAs.resolvedIn_eq`).
-/
namespace CallTrace

section Lists

variable {α β : Type}

/-- A part of a list is what a test leaves of the list that holds in the part only. -/
theorem filter_eq_of_sublist {f : α → β} {p : α → Bool} {xs ys : List α} (hsub : xs.Sublist ys)
    (hnodup : (ys.map f).Nodup) (hp : ∀ y ∈ ys, p y = true ↔ f y ∈ xs.map f) : ys.filter p = xs := by
  induction hsub with
  | slnil => rfl
  | @cons xs ys y hsub ih =>
    obtain ⟨hy, hnodup⟩ := List.nodup_cons.1 hnodup
    have hout : ¬ p y = true := fun h => hy ((hsub.map f).subset ((hp y List.mem_cons_self).1 h))
    rw [List.filter_cons_of_neg hout]
    exact ih hnodup fun z hz => hp z (List.mem_cons_of_mem _ hz)
  | @cons_cons xs ys y hsub ih =>
    obtain ⟨hy, hnodup⟩ := List.nodup_cons.1 hnodup
    have hin : p y = true := (hp y List.mem_cons_self).2 List.mem_cons_self
    rw [List.filter_cons_of_pos hin, ih hnodup]
    intro z hz
    rw [hp z (List.mem_cons_of_mem _ hz), List.map_cons, List.mem_cons, or_iff_right]
    rintro he
    exact hy (he ▸ List.mem_map_of_mem hz)

end Lists

namespace Arena

/-- Whether a node is the given one or below it. -/
def liesUnder (a : Arena) (top r : Ref) : Bool := (a.upward a.size r).any fun i => some i == top

/-- Whether a node is reported for a scope if it is a call: it belongs to the scope and is under a
statement of it at an index up to the last that is looked at. -/
def countsFor (a : Arena) (scope r : Ref) : Bool :=
  let body := (a.statements? scope).getD []
  a.innermostScope r == scope &&
    (itemsUpTo (lastLooked body.length) body).any fun statement => a.liesUnder statement r

/-- What single calls of a program are resolved to, by their numbers. -/
def resolvedCalls (a : Arena) (program : Ref) : List Resolution :=
  (List.range a.callNumbers.length).filterMap fun n => (a.resolveCall program n).join

/-- What the calls of a scope are resolved to, by the numbers of the calls. -/
def resolvedIn (a : Arena) (program scope : Ref) : List Callee :=
  ((a.resolvedCalls program).filter fun r => a.countsFor scope r.call).filterMap Resolution.callee

/-- The function body that a call runs, found in the scope around the call. -/
def calleeOf (a : Arena) (call : Ref) : Walked (Option Callee) :=
  functionExpressions a (a.scopeBody call) ((a.node? call).bind Node.callee?)

theorem nthCall_eq {a : Arena} {root : Ref} {n : Node Index} {visits : List Visit}
    (hroot : a.node? root = some n)
    (h : ∀ rounds, a.fullWalk (a.levels rounds) ⟨root, none⟩ = some visits) (i : Nat) :
    a.nthCall root i =
      some (((visits.filter fun w => (a.node? w.node).any Node.isCall)[i]?).map Visit.node) := by
  rw [nthCall, scan_eq_foldlM hroot (h (i + 1)), Option.map_some, Option.some_inj]
  clear h
  induction visits generalizing i with
  | nil => rfl
  | cons w visits ih =>
    rw [List.foldlM_cons]
    by_cases hw : (a.node? w.node).any Node.isCall = true
    · rw [List.filter_cons, if_pos hw, if_pos hw]
      cases i with
      | zero => rfl
      | succ i => exact ih i
    · rw [List.filter_cons, if_neg hw, if_neg hw]
      exact ih i

theorem resolveCall_eq {a : Arena} {program : Ref} {n : Nat} {call : Option Ref}
    (h : a.nthCall program n = some call) (hcallee : ∀ c, (a.calleeOf c).isSome) :
    a.resolveCall program n = some (call.map fun c => ⟨c, (a.calleeOf c).join⟩) := by
  rw [resolveCall, h]
  cases call with
  | none => rfl
  | some c =>
    obtain ⟨callee, hc⟩ := Option.isSome_iff_exists.1 (hcallee c)
    have hfound : functionExpressions a (a.scopeBody c) ((a.node? c).bind Node.callee?) =
        some callee := hc
    simp [hfound, hc]

/-- The calls of a scope are resolved by their callees among the statements of the scope. -/
theorem filterMap_calleeOf_eq {a : Arena} {scope : Ref} {visits : List Visit}
    (h : ∀ w ∈ visits, a.innermostScope w.node = scope) :
    (visits.filter fun w => (a.node? w.node).any Node.isCall).filterMap
        (fun w => (a.calleeOf w.node).join) =
      (visits.filterMap a.calleeAt).filterMap fun callee =>
        (functionExpressions a ((a.statements? scope).getD []) callee).join := by
  rw [List.filterMap_filter, List.filterMap_filterMap]
  apply List.filterMap_congr
  intro w hw
  have hbody : a.scopeBody w.node = (a.statements? scope).getD [] := by rw [scopeBody, h w hw]
  rw [calleeOf, hbody, calleeAt]
  cases a.node? w.node with
  | none => rfl
  | some n => cases n <;> rfl

theorem Holds.upward_eq {a : Arena} {root s : Spot} {above : List Spot} (h : a.Holds root)
    (way : Spot.Path root above s) {n : Nat} (hn : above.length < n) :
    a.upward n s.ref = (s :: above).map Spot.index := by
  induction way generalizing n with
  | here =>
    obtain ⟨n, rfl⟩ : ∃ m, n = m + 1 := Nat.exists_eq_succ_of_ne_zero (by omega)
    have hparent : a.parent root.ref = none := h.parent .here
    rw [Spot.ref, upward, ← Spot.ref, hparent]
    cases n <;> rfl
  | @down above s k way kid ih =>
    obtain ⟨n, rfl⟩ : ∃ m, n = m + 1 := Nat.exists_eq_succ_of_ne_zero (by omega)
    have hparent : a.parent k.ref = s.ref := h.parent (way.down kid)
    rw [Spot.ref, upward, ← Spot.ref, hparent, ih (by simpa using hn)]
    rfl

end Arena

namespace Spot

theorem Path.visits_sublist {root s : Spot} {above : List Spot} (way : Path root above s) :
    (s.visits (parent above)).Sublist (root.visits none) := by
  induction way with
  | here => exact List.Sublist.refl _
  | @down above s k way kid ih =>
    refine List.Sublist.trans ?_ ih
    rw [s.visits_eq]
    have hkid := (List.singleton_sublist.2 kid).flatMap fun k => k.visits s.ref
    rw [List.flatMap_singleton] at hkid
    exact hkid.cons _

/-- The walk from a subtree's root visits the roots of its subtrees. -/
theorem mem_map_visits_iff {s : Spot} {parent r : Ref} :
    r ∈ (s.visits parent).map Visit.node ↔ ∃ above x, Path s above x ∧ x.ref = r := by
  constructor
  · intro h
    obtain ⟨w, hw, rfl⟩ := List.mem_map.1 h
    clear h
    induction s using induct generalizing parent with
    | step s ih =>
      rw [visits_eq, List.mem_cons, List.mem_flatMap] at hw
      rcases hw with rfl | ⟨k, hk, hw⟩
      · exact ⟨[], s, .here, rfl⟩
      · obtain ⟨above, x, way, hx⟩ := ih k hk hw
        exact ⟨_, x, (Path.here.down hk).trans way, hx⟩
  · rintro ⟨above, x, way, rfl⟩
    have hparent : (s.visits parent).map Visit.node = (s.visits none).map Visit.node := by
      rw [visits_eq, visits_eq]
      rfl
    rw [hparent]
    refine (way.visits_sublist.map Visit.node).subset ?_
    rw [visits_eq]
    exact List.mem_cons_self

theorem Path.exists_of_mem_cons {root s p : Spot} {above : List Spot} (way : Path root above s)
    (hp : p ∈ s :: above) : ∃ above', Path p above' s := by
  induction way with
  | here =>
    obtain rfl := List.mem_singleton.1 hp
    exact ⟨[], .here⟩
  | @down above s k way kid ih =>
    rcases List.mem_cons.1 hp with rfl | hp
    · exact ⟨[], .here⟩
    · obtain ⟨above', way'⟩ := ih hp
      exact ⟨_, way'.down kid⟩

end Spot

namespace ImportedAs

variable {v : Json} {a : Arena} {root : Ref} {t : Tree} {above above' : List Spot} {s k x : Spot}

theorem eq_of_ref_eq (h : ImportedAs v a root t) (way : Spot.Path ⟨0, t⟩ above s)
    (way' : Spot.Path ⟨0, t⟩ above' x) (href : s.ref = x.ref) : s = x :=
  way.eq_of_number_eq way' ((h.number_eq way href).trans (h.number_eq way' rfl).symm)

theorem upward_eq (h : ImportedAs v a root t) (way : Spot.Path ⟨0, t⟩ above s) :
    a.upward a.size s.ref = (s :: above).map Spot.index := by
  apply h.holds.upward_eq way
  have hlen := way.length_add_height_le
  have hpos := s.tree.height_pos
  have hle := t.height_le_size
  have hsize := h.size_eq
  simp only at hlen
  omega

theorem liesUnder_iff (h : ImportedAs v a root t) (wayk : Spot.Path ⟨0, t⟩ above' k)
    (way : Spot.Path ⟨0, t⟩ above x) :
    a.liesUnder k.ref x.ref = true ↔ ∃ below, Spot.Path k below x := by
  have hmem : ∀ {above}, Spot.Path ⟨0, t⟩ above x →
      (a.liesUnder k.ref x.ref = true ↔ ∃ p ∈ x :: above, p.ref = k.ref) := by
    intro above way
    rw [Arena.liesUnder, h.upward_eq way]
    simp [Spot.ref]
  constructor
  · intro hunder
    obtain ⟨p, hp, href⟩ := (hmem way).1 hunder
    obtain ⟨above'', wayp⟩ : ∃ above'', Spot.Path ⟨0, t⟩ above'' p := by
      rcases List.mem_cons.1 hp with rfl | hp
      · exact ⟨above, way⟩
      · exact way.exists_of_mem_above hp
    obtain rfl := h.eq_of_ref_eq wayp wayk href
    exact way.exists_of_mem_cons hp
  · rintro ⟨below, way'⟩
    refine (hmem (wayk.trans way')).2 ⟨k, ?_, rfl⟩
    cases way' with
    | here => exact List.mem_cons_self
    | down way' kid =>
      have hk := (way'.down kid).root_mem (by simp)
      exact List.mem_cons_of_mem _ (List.mem_append_left _ hk)

theorem nodup_visits (h : ImportedAs v a root t) :
    ((Spot.visits ⟨0, t⟩ none).map Visit.node).Nodup := by
  have top : Spot.Path ⟨0, t⟩ [] ⟨0, t⟩ := .here
  have hperm := Spot.visits_codes_perm (top.number_lt h.holds.fits) none
  have hcodes := hperm.nodup_iff.2 List.nodup_range'
  rw [← Function.comp_def Ref.code Visit.node, ← List.map_map] at hcodes
  exact hcodes.of_map

/-- The walk of a program visits every call once. -/
theorem length_filter_isCall (h : ImportedAs v a root t) :
    ((Spot.visits ⟨0, t⟩ none).filter fun w => (a.node? w.node).any Node.isCall).length =
      a.callNumbers.length := by
  have top : Spot.Path ⟨0, t⟩ [] ⟨0, t⟩ := .here
  have hperm := Spot.visits_codes_perm (top.number_lt h.holds.fits) none
  have hcalls := (hperm.filter fun i => (a.nodes[i]?).any Node.isCall).length_eq
  rw [List.filter_map, List.length_map] at hcalls
  rw [Arena.callNumbers, List.range_eq_range', h.size_eq, ← hcalls]
  congr 1
  apply List.filter_congr
  intro w hw
  obtain ⟨above, x, -, hx⟩ := Spot.mem_map_visits_iff.1 (List.mem_map_of_mem hw)
  rw [Function.comp_apply, ← hx]
  rfl

/-- The nodes under some statements of a block are visited statement by statement. -/
theorem filter_liesUnder_eq (h : ImportedAs v a root t) (way : Spot.Path ⟨0, t⟩ above s)
    {body : List Spot} (hbody : body.Sublist s.kids) :
    ((Spot.visits ⟨0, t⟩ none).filter fun w => (body.map Spot.ref).any fun k => a.liesUnder k w.node) =
      body.flatMap fun k => k.visits s.ref := by
  have hsub : (body.flatMap fun k => k.visits s.ref).Sublist (Spot.visits ⟨0, t⟩ none) := by
    refine List.Sublist.trans ?_ way.visits_sublist
    rw [s.visits_eq]
    exact (hbody.flatMap _).cons _
  apply filter_eq_of_sublist hsub h.nodup_visits
  intro w hw
  obtain ⟨above', x, wayx, hx⟩ := Spot.mem_map_visits_iff.1 (List.mem_map_of_mem hw)
  rw [List.map_flatMap, List.mem_flatMap, List.any_map, List.any_eq_true]
  refine exists_congr fun k => and_congr_right fun hk => ?_
  have wayk := way.down (hbody.subset hk)
  rw [Spot.mem_map_visits_iff, Function.comp_apply, ← hx, h.liesUnder_iff wayk wayx]
  constructor
  · rintro ⟨below, way'⟩
    exact ⟨below, x, way', rfl⟩
  · rintro ⟨below, x', way', href⟩
    obtain rfl := h.eq_of_ref_eq (wayk.trans way') wayx href
    exact ⟨below, way'⟩

theorem resolveCall_eq (h : ImportedAs v a root t) (n : Nat) :
    a.resolveCall root n =
      some (((Spot.visits ⟨0, t⟩ none).filter fun w => (a.node? w.node).any Node.isCall)[n]?.map
        fun w => ⟨w.node, (a.calleeOf w.node).join⟩) := by
  have hwalk := fun rounds => h.holds.fullWalk_eq .here h.size_eq.ge rounds none
  have hnth := Arena.nthCall_eq (h.holds.node? .here) hwalk n
  have hanswers := Arena.isSome_functionExpressions h.uncircled
  rw [h.root_eq, Arena.resolveCall_eq hnth fun c => hanswers _ _, Option.map_map]
  rfl

theorem resolvedCalls_eq (h : ImportedAs v a root t) :
    a.resolvedCalls root =
      ((Spot.visits ⟨0, t⟩ none).filter fun w => (a.node? w.node).any Node.isCall).map
        fun w => ⟨w.node, (a.calleeOf w.node).join⟩ := by
  simp only [Arena.resolvedCalls, h.resolveCall_eq, Option.join_some, ← h.length_filter_isCall]
  rw [← List.map_filterMap, filterMap_range_getElem?, List.take_length]

theorem getD_statements? (h : ImportedAs v a root t) (way : Spot.Path ⟨0, t⟩ above s)
    (hopen : a.opensScope s.ref = true) : (a.statements? s.ref).getD [] = s.kids.map Spot.ref := by
  rw [h.holds.opensScope_eq way] at hopen
  obtain ⟨body, hb⟩ := Option.isSome_iff_exists.1 (Spot.statements?_isSome_of_opens hopen).1
  rw [h.holds.statements?_eq way, hb]
  rfl

/-- The nodes that count for a scope are those that belong to it, statement by statement. -/
theorem filter_countsFor_eq (h : ImportedAs v a root t) (way : Spot.Path ⟨0, t⟩ above s)
    (hopen : a.opensScope s.ref = true) :
    (Spot.visits ⟨0, t⟩ none).filter (fun w => a.countsFor s.ref w.node) =
      ((s.kids.take (lastLooked s.kids.length + 1)).flatMap fun k => k.visits s.ref).filter
        fun w => a.innermostScope w.node == s.ref := by
  rw [← h.filter_liesUnder_eq way (List.take_sublist _ _), List.filter_filter]
  simp only [Arena.countsFor, h.getD_statements? way hopen, itemsUpTo_eq_take, List.length_map,
    List.map_take]

/-- The calls of a scope are resolved, in the order of their numbers, to the function bodies that are
found among the statements of the scope. -/
theorem resolvedIn_eq (h : ImportedAs v a root t) (way : Spot.Path ⟨0, t⟩ above s)
    (hopen : a.opensScope s.ref = true) :
    a.resolvedIn root s.ref = (Spot.found s.kids).map fun x => ⟨x.2.ref, x.1⟩ := by
  have hscope : ∀ w ∈ (Spot.visits ⟨0, t⟩ none).filter (fun w => a.countsFor s.ref w.node),
      a.innermostScope w.node = s.ref := by
    intro w hw
    exact beq_iff_eq.1 (Bool.and_eq_true_iff.1 (List.mem_filter.1 hw).2).1
  have hresolved : a.resolvedIn root s.ref =
      (((Spot.visits ⟨0, t⟩ none).filter fun w => a.countsFor s.ref w.node).filterMap
        a.calleeAt).filterMap fun callee =>
          (Arena.functionExpressions a (s.kids.map Spot.ref) callee).join := by
    rw [← h.getD_statements? way hopen, ← Arena.filterMap_calleeOf_eq hscope, List.filter_comm,
      Arena.resolvedIn, h.resolvedCalls_eq, List.filter_map, List.filterMap_map]
    rfl
  have hcallees : ((Spot.visits ⟨0, t⟩ none).filter fun w => a.countsFor s.ref w.node).filterMap
        a.calleeAt =
      ((s.kids.take (lastLooked s.kids.length + 1)).flatMap fun k =>
        (k.direct false).filterMap Spot.callee?).map (Option.map Spot.index) := by
    rw [h.filter_countsFor_eq way hopen, List.filter_flatMap, List.filterMap_flatMap,
      List.map_flatMap]
    exact List.flatMap_congr fun k hk =>
      h.filterMap_visits_eq_direct way hopen (List.mem_of_mem_take hk) s.ref
  rw [hresolved, hcallees, List.filterMap_map, Spot.found, Spot.foundAmong, List.map_filterMap]
  apply List.filterMap_congr
  intro callee hc
  obtain ⟨k, hk, hc⟩ := List.mem_flatMap.1 hc
  rw [Function.comp_apply, h.functionExpressions_eq_resolve way hopen (List.mem_of_mem_take hk) hc]
  rfl

end ImportedAs

/-- Every call number of an imported program is decided: it is resolved exactly if the program has so
many calls. The trace exists, and the entries right in the program are the resolutions of the
program's calls, in the order of their numbers; likewise the entries right in an entry at any depth
whose callee is a program or block. -/
theorem defaultTrace_eq_resolvedIn {v : Json} {a : Arena} {root : Ref}
    (h : importProgram v = .ok (a, root)) (hs : a.size ≤ 2 ^ 32 - 1) :
    (∀ n, ∃ found, a.resolveCall root n = some found ∧
      (found = none ↔ a.callNumbers.length ≤ n)) ∧
    ∃ calls, a.defaultTrace root = some calls ∧
      calls.map Call.target = a.resolvedIn root root ∧
      ∀ e, Call.Occurs e calls → (a.statements? e.callee).isSome →
        e.calls.map Call.target = a.resolvedIn root e.callee := by
  obtain ⟨t, imported⟩ := importedAs_of_importProgram h hs
  have hlow : ∀ k ∈ Spot.kids ⟨0, t⟩, k.tree.height ≤ 3 * maxDepth :=
    fun k hk => imported.height_le_of_path (Spot.Path.here.down hk)
  refine ⟨fun n => ⟨_, imported.resolveCall_eq n, ?_⟩, _, imported.defaultTrace_eq, ?_, ?_⟩
  · rw [← imported.length_filter_isCall, Option.map_eq_none_iff, List.getElem?_eq_none_iff]
  · have hroot := imported.resolvedIn_eq .here imported.opensScope_root
    rw [← imported.root_eq] at hroot
    rw [hroot, Spot.map_target_traceOver hlow]
  · intro e he hbody
    obtain ⟨b, m, hcallee, hcalls, hm, k, hk, f, above, way, hf⟩ :=
      Spot.exists_function_of_occurs hlow he
    have wayb := (Spot.Path.here.down hk).trans way
    rw [hcallee, imported.holds.statements?_eq wayb, Option.isSome_map] at hbody
    have hopen := imported.opensScope_of_isFunction wayb hf hbody
    have hkids : b.statements = b.kids := if_pos hbody
    rw [hkids] at hcalls hm
    rw [hcalls, hcallee, imported.resolvedIn_eq wayb hopen, Spot.map_target_traceOver hm]

/-- The program has twelve statements. Its calls have the numbers 0 and 3, and the calls in the body of `f`,
which is node 30 and has eleven, the numbers 1 and 2. The later one of each two is resolved as well, but
stands past the statements that are looked at and counts for no scope. -/
theorem defaultTrace_eq_resolvedIn_longBodies :
    ∃ a root e, importProgram Sample.longBodies = .ok (a, root) ∧ a.callNumbers.length = 4 ∧
      a.resolveCall root 4 = some none ∧ a.resolveCall root 3 ≠ some none ∧
      (a.resolvedCalls root).filterMap Resolution.callee =
        [⟨some 30, some "f"⟩, ⟨some 13, none⟩, ⟨some 26, none⟩, ⟨some 30, some "f"⟩] ∧
      a.defaultTrace root = some [e] ∧ a.resolvedIn root root = [⟨some 30, some "f"⟩] ∧
      e.callee = some 30 ∧ (a.statements? (some 30)).isSome ∧
      a.resolvedIn root (some 30) = [⟨some 13, none⟩] := by
  have himport : (importProgram Sample.longBodies).map (fun p =>
      (p.1.size, p.1.callNumbers.length, (p.1.statements? (some 30)).isSome)) =
      .ok (38, 4, true) := by
    decide +kernel
  have hresolved : (importProgram Sample.longBodies).map (fun p =>
      (p.1.resolvedCalls p.2).filterMap Resolution.callee) =
      .ok [⟨some 30, some "f"⟩, ⟨some 13, none⟩, ⟨some 26, none⟩, ⟨some 30, some "f"⟩] := by
    decide +kernel
  have htrace : (importProgram Sample.longBodies).map (fun p => (p.1.defaultTrace p.2).map
      (List.map fun e => (e.target, e.calls.map Call.target))) =
      .ok (some [(⟨some 30, some "f"⟩, [⟨some 13, none⟩])]) := by
    decide +kernel
  obtain ⟨⟨a, root⟩, h, hp⟩ := exists_ok_of_map himport
  simp only [Prod.mk.injEq] at hp
  obtain ⟨hsize, hnumbers, hbody⟩ := hp
  obtain ⟨hcalls, calls, hdefault, htop, hnested⟩ := defaultTrace_eq_resolvedIn h (by omega)
  rw [h] at htrace hresolved
  have hlist := Except.ok.inj htrace
  simp only [hdefault, Option.map_some, Option.some_inj] at hlist
  obtain ⟨e, rfl, he⟩ := List.map_eq_singleton_iff.1 hlist
  obtain ⟨htarget, hinner⟩ := Prod.mk.inj he
  have hcallee : e.callee = some 30 := congrArg Callee.body htarget
  have hwithin := hnested e (.here List.mem_cons_self) (by rwa [hcallee])
  obtain ⟨found, hfound, hmissing⟩ := hcalls 4
  obtain ⟨found', hfound', hpresent⟩ := hcalls 3
  have hnone : found = none := hmissing.2 (by omega)
  have hsome : found' ≠ none := fun hn => absurd (hpresent.1 hn) (by omega)
  refine ⟨a, root, e, h, hnumbers, hnone ▸ hfound, ?_, Except.ok.inj hresolved, hdefault, ?_, hcallee,
    hbody, ?_⟩
  · rw [hfound']
    exact fun hn => hsome (Option.some.inj hn)
  · rw [← htop, List.map_singleton, htarget]
  · rw [← hcallee, ← hwithin, hinner]

end CallTrace
