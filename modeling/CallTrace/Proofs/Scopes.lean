import CallTrace.Proofs.Circles
import CallTrace.Proofs.Numbering
import CallTrace.Trace.Basic

/-!
The calls that belong to a scope.

A call belongs to the innermost scope around it, which is found by going up. On an arena that holds a
tree this is the same as going down from the statements of the scope without entering another scope
(`calleesBelow_eq`), and so the trace of a body is a recursion that never leaves the body's own scope
except through the callees.
-/
namespace CallTrace

/-- The items at the indices from 0 to `last`, as far as the list has them. -/
def itemsUpTo {α : Type} (last : Nat) (xs : List α) : List α :=
  (List.range (last + 1)).filterMap fun i => xs[i]?

theorem filterMap_range_getElem? {α : Type} (xs : List α) (n : Nat) :
    (List.range n).filterMap (fun i => xs[i]?) = xs.take n := by
  induction n with
  | zero => rfl
  | succ n ih =>
    rw [List.range_succ, List.filterMap_append, ih, List.take_add_one]
    cases hx : xs[n]? <;> simp [hx]

theorem itemsUpTo_eq_take {α : Type} (last : Nat) (xs : List α) :
    itemsUpTo last xs = xs.take (last + 1) :=
  filterMap_range_getElem? xs (last + 1)

namespace Walked

variable {α β γ : Type}

/-- The results for all items, one after the other. -/
def gather (xs : List α) (f : α → Walked (List β)) : Walked (List β) := (xs.mapM f).map List.flatten

theorem gather_cons (x : α) (xs : List α) (f : α → Walked (List β)) :
    gather (x :: xs) f = (f x).bind fun ys => (gather xs f).map (ys ++ ·) := by
  unfold gather
  rw [List.mapM_cons]
  cases f x with
  | none => rfl
  | some ys => cases xs.mapM f <;> rfl

theorem gather_append (xs ys : List α) (f : α → Walked (List β)) :
    gather (xs ++ ys) f = (gather xs f).bind fun us => (gather ys f).map (us ++ ·) := by
  induction xs with
  | nil =>
    have hnil : gather [] f = some [] := rfl
    rw [hnil, List.nil_append]
    cases gather ys f <;> rfl
  | cons x xs ih =>
    rw [List.cons_append, gather_cons, gather_cons, ih]
    cases f x with
    | none => rfl
    | some zs => cases gather xs f <;> cases gather ys f <;> simp

theorem gather_gather (xs : List α) (f : α → Walked (List β)) (g : β → Walked (List γ)) :
    ((gather xs f).bind fun ys => gather ys g) = gather xs fun x => (f x).bind fun ys => gather ys g := by
  induction xs with
  | nil => rfl
  | cons x xs ih =>
    rw [gather_cons, gather_cons, ← ih]
    cases f x with
    | none => rfl
    | some ys =>
      cases gather xs f with
      | none => cases h : gather ys g <;> simp [h]
      | some zs => simp [gather_append]

theorem mapM_eq_gather (xs : List α) (f : α → Walked β) :
    xs.mapM f = gather xs fun x => (f x).map fun y => [y] := by
  induction xs with
  | nil => rfl
  | cons x xs ih =>
    rw [List.mapM_cons, gather_cons, ← ih]
    cases f x with
    | none => rfl
    | some y => cases xs.mapM f <;> rfl

theorem mapM_filterMap_id_eq_gather (xs : List α) (f : α → Walked (Option β)) :
    (xs.mapM f).map (List.filterMap id) = gather xs fun x => (f x).map Option.toList := by
  induction xs with
  | nil => rfl
  | cons x xs ih =>
    rw [List.mapM_cons, gather_cons, ← ih]
    cases f x with
    | none => rfl
    | some o => cases o <;> cases xs.mapM f <;> rfl

theorem gather_congr {xs : List α} {f g : α → Walked (List β)} (h : ∀ x ∈ xs, f x = g x) :
    gather xs f = gather xs g := by
  induction xs with
  | nil => rfl
  | cons x xs ih =>
    have hxs := ih fun y hy => h y (List.mem_cons_of_mem _ hy)
    rw [gather_cons, gather_cons, h x List.mem_cons_self, hxs]

theorem gather_map (h : γ → α) (xs : List γ) (f : α → Walked (List β)) :
    gather (xs.map h) f = gather xs fun x => f (h x) := by
  rw [gather, List.mapM_map]
  rfl

theorem gather_singleton (x : α) (f : α → Walked (List β)) : gather [x] f = f x := by
  rw [gather_cons]
  cases f x <;> simp [gather]

theorem gather_eq_some {xs : List α} {f : α → Walked (List β)} {g : α → List β}
    (h : ∀ x ∈ xs, f x = some (g x)) : gather xs f = some (xs.flatMap g) := by
  rw [gather, mapM_eq_some_map h, Option.map_some, List.flatMap_def]

theorem gather_eq_nil (xs : List α) : gather xs (fun _ => some ([] : List β)) = some [] := by
  induction xs with
  | nil => rfl
  | cons x xs ih => rw [gather_cons, ih]; rfl

theorem isSome_gather {xs : List α} {f : α → Walked (List β)} (h : ∀ x ∈ xs, (f x).isSome) :
    (gather xs f).isSome := by
  induction xs with
  | nil => rfl
  | cons x xs ih =>
    obtain ⟨ys, hys⟩ := Option.isSome_iff_exists.1 (h x List.mem_cons_self)
    rw [gather_cons, hys, Option.bind_some, Option.isSome_map]
    exact ih fun y hy => h y (List.mem_cons_of_mem _ hy)

end Walked

namespace Arena

open Walked

def calleeAt (a : Arena) (v : Visit) : Option Ref :=
  match a.node? v.node with
  | some (.call callee _ _) => some callee
  | _ => none

/-- The walk from a statement that stays out of scopes. -/
def prunedWalk (a : Arena) (statement : Ref) : Walked (List Visit) :=
  a.walkWithin (fun r => !a.opensScope r) (a.levels 0) ⟨statement, none⟩

/-- The entry for a callee, if one was found, with the entries for the statements of its body. -/
def entriesFor (a : Arena) (deeper : List Ref → Walked (List Call)) :
    Option Callee → Walked (List Call)
  | none => some []
  | some callee =>
    match a.statements? callee.body with
    | some body => (deeper body).map fun calls => [.mk callee.name callee.body calls]
    | none => some [.mk callee.name callee.body []]

/-- The entries for a program or block: statement by statement up to the last index that is looked at,
call by call of the pruned walk and extractor by extractor. A block that opens no scope has none. -/
def prunedTrace (a : Arena) (extractors : List Extractor) (deeper : List Ref → Walked (List Call))
    (block : Ref) (body : List Ref) : Walked (List Call) :=
  if a.opensScope block then
    gather (itemsUpTo (lastLooked body.length) body) fun statement => do
      let visits ← a.prunedWalk statement
      gather (visits.filterMap a.calleeAt) fun callee =>
        gather extractors fun (extract : Extractor) => do
          a.entriesFor deeper (← extract a body callee)
  else some []

theorem entriesFor_eq (a : Arena) {deeper : List Ref → Walked (List Call)}
    (h : deeper [] = some []) (found : Option Callee) :
    a.entriesFor deeper found = gather found.toList fun callee =>
      (deeper ((a.statements? callee.body).getD [])).map fun calls =>
        [.mk callee.name callee.body calls] := by
  cases found with
  | none => rfl
  | some callee =>
    simp only [entriesFor, Option.toList_some, gather_cons]
    cases a.statements? callee.body with
    | none => simp [h, gather]
    | some body => cases hb : deeper body <;> simp [hb, gather]

theorem traceBody_nil (a : Arena) (extractors : List Extractor) (depth : Nat) :
    a.traceBody extractors depth [] = some [] := by
  cases depth <;> rfl

/-- The bodies that the calls made directly in some statements of a scope body run. Names are searched
in the scope of the whole body. -/
def callsAmong (a : Arena) (extractors : List Extractor) (looked body : List Ref) :
    Walked (List Callee) :=
  (gather looked a.calleesBelow).bind fun callees => gather callees (a.resolutions extractors body)

theorem callsIn_eq_callsAmong (a : Arena) (extractors : List Extractor) (body : List Ref) :
    a.callsIn extractors body = a.callsAmong extractors (lookedAt body) body := by
  rw [callsIn, callsAmong]
  apply congrArg (Option.bind _)
  funext callees
  cases h : callees.mapM (a.resolutions extractors body) <;> simp [gather, h]

theorem traceBody_succ (a : Arena) (extractors : List Extractor) (depth : Nat) (body : List Ref) :
    a.traceBody extractors (depth + 1) body =
      gather (lookedAt body) fun statement => (a.calleesBelow statement).bind fun callees =>
        gather callees fun callee => gather extractors fun extract =>
          (extract a body callee).bind (a.entriesFor (a.traceBody extractors depth)) := by
  have hres : ∀ callee, (a.resolutions extractors body callee).bind (fun found =>
      gather found fun callee =>
        (a.traceBody extractors depth ((a.statements? callee.body).getD [])).map fun calls =>
          [.mk callee.name callee.body calls]) =
      gather extractors fun extract =>
        (extract a body callee).bind (a.entriesFor (a.traceBody extractors depth)) := by
    intro callee
    rw [resolutions, mapM_filterMap_id_eq_gather, gather_gather]
    apply gather_congr
    intro extract _
    rw [Option.bind_map]
    congr 1
    funext found
    exact (a.entriesFor_eq (a.traceBody_nil extractors depth) found).symm
  have hcalls : a.callsIn extractors body =
      gather (lookedAt body) fun statement => (a.calleesBelow statement).bind fun callees =>
        gather callees (a.resolutions extractors body) := by
    rw [callsIn_eq_callsAmong, callsAmong, gather_gather]
  have hentry : ∀ callee : Callee, (do
      let calls ← a.traceBody extractors depth ((a.statements? callee.body).getD [])
      return Call.mk callee.name callee.body calls) =
      (a.traceBody extractors depth ((a.statements? callee.body).getD [])).map
        (Call.mk callee.name callee.body) := by
    intro callee
    cases a.traceBody extractors depth ((a.statements? callee.body).getD []) <;> rfl
  rw [traceBody, hcalls]
  simp only [hentry, mapM_eq_gather, Option.map_map]
  refine (gather_gather _ _ _).trans (gather_congr fun statement _ => ?_)
  rw [Option.bind_assoc]
  congr 1
  funext callees
  rw [gather_gather]
  exact gather_congr fun callee _ => hres callee

theorem opensScope_eq_false_of_calleeAt {a : Arena} {v : Visit} {callee : Ref}
    (h : a.calleeAt v = some callee) : a.opensScope v.node = false := by
  unfold calleeAt at h
  unfold opensScope
  split at h
  · rename_i hn
    rw [hn]
  · cases h

end Arena

namespace Spot

theorem ref_ne_of_number_lt {s p : Spot} (h : s.number < p.number) (hp : p.number < capacity) :
    s.ref ≠ p.ref := by
  intro he
  have hv : s.index.val = p.index.val := congrArg Fin.val (Option.some.inj he)
  rw [index_val hp, index_val (h.trans hp)] at hv
  omega

end Spot

namespace Spot.Path

def scope (a : Arena) (above : List Spot) : Ref :=
  (above.find? fun p => a.opensScope p.ref).map index

theorem scope_cons (a : Arena) (s : Spot) (above : List Spot) :
    scope a (s :: above) = if a.opensScope s.ref then s.ref else scope a above := by
  unfold scope
  rw [List.find?_cons]
  cases a.opensScope s.ref <;> rfl

theorem opensScope_of_scope {a : Arena} {above : List Spot} {r : Ref} (hr : r.isSome)
    (h : scope a above = r) : a.opensScope r := by
  obtain ⟨i, rfl⟩ := Option.isSome_iff_exists.1 hr
  obtain ⟨p, hp, rfl⟩ := Option.map_eq_some_iff.1 h
  have hopens : a.opensScope p.ref = true := by simpa using List.find?_some hp
  exact hopens

end Spot.Path

namespace Arena.Holds

open Spot.Path (scope scope_cons)

variable {a : Arena} {root s : Spot} {above : List Spot}

theorem parent (h : a.Holds root) (way : Spot.Path root above s) :
    a.parent s.ref = Spot.Path.parent above := by
  rw [Arena.parent, h.info? way]
  rfl

theorem firstScope_eq (h : a.Holds root) (way : Spot.Path root above s) {n : Nat}
    (hn : above.length ≤ n) : a.firstScope n (Spot.Path.parent above) = scope a above := by
  induction way generalizing n with
  | here => cases n <;> rfl
  | @down above s k way kid ih =>
    obtain ⟨n, rfl⟩ : ∃ m, n = m + 1 := Nat.exists_eq_succ_of_ne_zero (by simp at hn; omega)
    have hup : a.firstScope n (a.parent s.ref) = scope a above := by
      rw [h.parent way]
      exact ih (by simpa using hn)
    rw [scope_cons, ← hup]
    rfl

theorem innermostScope_eq (h : a.Holds root) (way : Spot.Path root above s)
    (hh : root.tree.height ≤ maxAncestors) : a.innermostScope s.ref = scope a above := by
  have := way.length_add_height_le
  rw [innermostScope, h.parent way]
  exact h.firstScope_eq way (by omega)

/-- What is below a spot has the same innermost scope as the spot or one within the spot. -/
theorem innermostScope_ne (h : a.Holds root) (way : Spot.Path root above s)
    (hh : root.tree.height ≤ maxAncestors) {p : Spot} (hp : p.number < capacity)
    (hlt : s.number < p.number) (hscope : scope a above ≠ p.ref) {parent : Ref} {v : Visit}
    (hv : v ∈ s.visits parent) : a.innermostScope v.node ≠ p.ref := by
  induction s using Spot.induct generalizing above parent with
  | step s ih =>
    rw [Spot.visits_eq, List.mem_cons, List.mem_flatMap] at hv
    rcases hv with rfl | ⟨k, hk, hv⟩
    · rwa [h.innermostScope_eq way hh]
    · have hkn : k.number < s.number := (way.down hk).number_lt_of_mem List.mem_cons_self
      refine ih k hk (way.down hk) (hkn.trans hlt) ?_ hv
      rw [scope_cons]
      split
      · exact Spot.ref_ne_of_number_lt hlt hp
      · exact hscope

/-- Below a spot whose innermost scope is the given one, the calls that belong to this scope are the
ones that are met without entering another scope. -/
theorem filterMap_visits_eq (h : a.Holds root) (way : Spot.Path root above s)
    (hh : root.tree.height ≤ maxAncestors) {p : Spot} (hp : p.number < capacity)
    (hlt : s.number < p.number) (hscope : scope a above = p.ref) (parent : Ref) :
    ((s.visits parent).filter fun v => a.innermostScope v.node == p.ref).filterMap a.calleeAt =
      (s.walk (fun r => !a.opensScope r) parent).filterMap a.calleeAt := by
  induction s using Spot.induct generalizing above parent with
  | step s ih =>
    have hkids : ∀ k ∈ s.kids, k.number < s.number := fun k hk =>
      (way.down hk).number_lt_of_mem List.mem_cons_self
    have hin : (a.innermostScope s.ref == p.ref) = true := by
      rw [h.innermostScope_eq way hh, hscope, beq_self_eq_true]
    rw [Spot.visits_eq, Spot.walk_eq, List.filter_cons, if_pos hin]
    cases hs : a.opensScope s.ref with
    | true =>
      -- A scope is no call, and all that is below it belongs to it or to a scope further in.
      have hnil : ((s.kids.flatMap fun k => k.visits s.ref).filter
          fun v => a.innermostScope v.node == p.ref) = [] := by
        rw [List.filter_eq_nil_iff]
        intro v hv
        obtain ⟨k, hk, hv⟩ := List.mem_flatMap.1 hv
        have hne : scope a (s :: above) ≠ p.ref := by
          rw [scope_cons, if_pos hs]
          exact Spot.ref_ne_of_number_lt hlt hp
        simpa using h.innermostScope_ne (way.down hk) hh hp ((hkids k hk).trans hlt) hne hv
      have hcall : a.calleeAt ⟨s.ref, parent⟩ = none := by
        cases hc : a.calleeAt ⟨s.ref, parent⟩ with
        | none => rfl
        | some callee => exact absurd hs (by simp [opensScope_eq_false_of_calleeAt hc])
      simp [hnil, hcall]
    | false =>
      have hbelow : ((s.kids.flatMap fun k => k.visits s.ref).filter
          fun v => a.innermostScope v.node == p.ref).filterMap a.calleeAt =
          (s.kids.flatMap fun k => k.walk (fun r => !a.opensScope r) s.ref).filterMap
            a.calleeAt := by
        rw [List.filter_flatMap, List.filterMap_flatMap, List.filterMap_flatMap]
        apply List.flatMap_congr
        intro k hk
        refine ih k hk (way.down hk) ((hkids k hk).trans hlt) ?_ s.ref
        rw [scope_cons, hs]
        exact hscope
      simp only [Bool.not_false, if_true, List.filterMap_cons, hbelow]

end Arena.Holds

theorem Arena.calleesBelow_eq_filter (a : Arena) (statement : Ref) :
    a.calleesBelow statement = (a.preOrder statement).map fun visits =>
      (visits.filter fun v => a.liesIn (a.parent statement) v.node).filterMap a.calleeAt := by
  rw [calleesBelow]
  apply congrArg (Option.map · _)
  funext visits
  rw [List.filterMap_filter]
  apply List.filterMap_congr
  intro v _
  unfold calleeAt
  cases a.node? v.node with
  | none => simp
  | some n => cases n <;> simp

/-- A trace exists if all walks end and the extractors answer. -/
theorem Arena.isSome_traceBody {a : Arena} (free : ∀ r, a.Uncircled r) {extractors : List Extractor}
    (he : ∀ extract ∈ extractors, ∀ body callee, (extract a body callee).isSome) (depth : Nat)
    (body : List Ref) : (a.traceBody extractors depth body).isSome := by
  induction depth generalizing body with
  | zero => rfl
  | succ depth ih =>
    rw [traceBody_succ]
    apply Walked.isSome_gather
    intro statement _
    obtain ⟨visits, hvisits⟩ := (free statement).exists_preOrder
    rw [calleesBelow_eq_filter, hvisits]
    apply Walked.isSome_gather
    intro callee _
    apply Walked.isSome_gather
    intro extract hx
    obtain ⟨found, hfound⟩ := Option.isSome_iff_exists.1 (he extract hx body callee)
    rw [hfound, Option.bind_some]
    cases found with
    | none => rfl
    | some found =>
      simp only [entriesFor]
      cases a.statements? found.body with
      | none => rfl
      | some inner =>
        rw [Option.isSome_map]
        exact ih inner

theorem Arena.isSome_functionExpressions {a : Arena} (free : ∀ r, a.Uncircled r) (body : List Ref)
    (callee : Ref) : (functionExpressions a body callee).isSome := by
  unfold functionExpressions
  split
  · unfold resolveName
    split
    · rfl
    · rw [Option.isSome_map, boundFunction, Option.isSome_map]
      exact (free _).isSome_findVisit _
  · rfl
  · rfl

namespace ImportedAs

variable {v : Json} {a : Arena} {root : Ref} {t : Tree}

theorem height_le (h : ImportedAs v a root t) : t.height ≤ Arena.maxAncestors :=
  h.reads.height_le.trans (by decide)

theorem exists_of_node? (h : ImportedAs v a root t) {r : Ref} {n : Node Index}
    (hn : a.node? r = some n) : ∃ above s, Spot.Path ⟨0, t⟩ above s ∧ s.ref = r := by
  obtain ⟨i, rfl, hsize⟩ := Arena.exists_index_of_node? hn
  obtain ⟨above, s, way, -, hs⟩ := h.exists_path hsize
  exact ⟨above, s, way, hs⟩

theorem exists_of_statements? (h : ImportedAs v a root t) {block : Ref} {body : List Ref}
    (hb : a.statements? block = some body) :
    ∃ above s, Spot.Path ⟨0, t⟩ above s ∧ s.ref = block ∧ body = s.kids.map Spot.ref := by
  obtain ⟨n, hn, hbody⟩ := Option.bind_eq_some_iff.1 hb
  obtain ⟨above, s, way, hs⟩ := h.exists_of_node? hn
  refine ⟨above, s, way, hs, ?_⟩
  rw [← h.holds.children way, hs, Arena.children, hn]
  exact (Node.statements?_eq_some hbody).symm

theorem prunedWalk_eq (h : ImportedAs v a root t) {above : List Spot} {s : Spot}
    (way : Spot.Path ⟨0, t⟩ above s) :
    a.prunedWalk s.ref = some (s.walk (fun r => !a.opensScope r) none) := by
  apply h.holds.walkWithin_eq way
  have hh := way.length_add_height_le
  have hle := t.height_le_size
  have hsize := h.size_eq
  simp only [Arena.levels] at hh ⊢
  omega

/-- The calls below a statement that belong to its parent are the ones that a walk from the statement
meets without entering a scope, provided the parent opens a scope; else there are none. -/
theorem calleesBelow_eq (h : ImportedAs v a root t) {above : List Spot} {s k : Spot}
    (way : Spot.Path ⟨0, t⟩ above s) (hk : k ∈ s.kids) :
    a.calleesBelow k.ref =
      if a.opensScope s.ref then (a.prunedWalk k.ref).map (List.filterMap a.calleeAt)
      else some [] := by
  have hparent : a.parent k.ref = s.ref := h.holds.parent (way.down hk)
  have hfits : s.number < capacity := way.number_lt h.holds.fits
  have hlt : k.number < s.number := (way.down hk).number_lt_of_mem List.mem_cons_self
  rw [Arena.calleesBelow_eq_filter, h.preOrder_eq (way.down hk), hparent]
  cases hs : a.opensScope s.ref with
  | true =>
    have hscope : Spot.Path.scope a (s :: above) = s.ref := by
      rw [Spot.Path.scope_cons, if_pos hs]
    have hcalls := h.holds.filterMap_visits_eq (way.down hk) h.height_le hfits hlt hscope none
    rw [if_pos rfl, h.prunedWalk_eq (way.down hk), Option.map_some, Option.map_some, ← hcalls]
    rfl
  | false =>
    rw [if_neg (by simp), Option.map_some, Option.some_inj, List.filterMap_eq_nil_iff]
    intro w hw
    obtain ⟨hw, hin⟩ := List.mem_filter.1 hw
    have hne : Spot.Path.scope a (s :: above) ≠ s.ref := by
      intro he
      exact absurd (Spot.Path.opensScope_of_scope rfl he) (by simp [hs])
    have hout := h.holds.innermostScope_ne (way.down hk) h.height_le hfits hlt hne hw
    simp [Arena.liesIn, hout] at hin

theorem uncircled (h : ImportedAs v a root t) (r : Ref) : a.Uncircled r := by
  cases hr : a.node? r with
  | none => exact Arena.uncircled_of_node?_eq_none hr
  | some n =>
    obtain ⟨above, s, way, rfl⟩ := h.exists_of_node? hr
    exact Arena.uncircled_of_produces (Arena.produces_of_preOrder (h.preOrder_eq way))

end ImportedAs

/-- The trace of the statements of a program or block, at any number of calls from the program on, has
an entry for each extractor that knows the callee of a call, for each call that a walk from a
statement meets without entering a scope, for each statement up to the last index that is looked at, in
this order. There are none in a block that opens no scope. The trace exists if the extractors answer. -/
theorem traceBody_eq_prunedTrace {v : Json} {a : Arena} {root : Ref}
    (h : importProgram v = .ok (a, root)) (hs : a.size ≤ 2 ^ 32 - 1) (extractors : List Extractor)
    {block : Ref} {body : List Ref} (hb : a.statements? block = some body) {d : Nat}
    (hd : d < maxDepth) :
    a.traceBody extractors (maxDepth - d) body =
      a.prunedTrace extractors (a.traceBody extractors (maxDepth - (d + 1))) block body ∧
    ((∀ extract ∈ extractors, ∀ body callee, (extract a body callee).isSome) →
      (a.traceBody extractors (maxDepth - d) body).isSome) := by
  obtain ⟨t, imported⟩ := importedAs_of_importProgram h hs
  refine ⟨?_, fun he => Arena.isSome_traceBody imported.uncircled he _ body⟩
  obtain ⟨above, s, way, rfl, rfl⟩ := imported.exists_of_statements? hb
  obtain ⟨n, hn, hn'⟩ : ∃ n, maxDepth - d = n + 1 ∧ maxDepth - (d + 1) = n :=
    ⟨maxDepth - (d + 1), by omega, rfl⟩
  have hbelow : ∀ statement ∈ Arena.lookedAt (s.kids.map Spot.ref), a.calleesBelow statement =
      if a.opensScope s.ref then (a.prunedWalk statement).map (List.filterMap a.calleeAt)
      else some [] := by
    intro statement hst
    obtain ⟨k, hk, rfl⟩ := List.mem_map.1 (List.mem_of_mem_take hst)
    exact imported.calleesBelow_eq way hk
  rw [hn, hn', Arena.traceBody_succ, Arena.prunedTrace, itemsUpTo_eq_take, ← Arena.lookedAt]
  cases hopen : a.opensScope s.ref with
  | true =>
    rw [if_pos rfl]
    apply Walked.gather_congr
    intro statement hst
    rw [hbelow statement hst, hopen, if_pos rfl, Option.bind_map]
    rfl
  | false =>
    rw [if_neg (by simp)]
    refine (Walked.gather_congr fun statement hst => ?_).trans
      (Walked.gather_eq_nil (Arena.lookedAt (s.kids.map Spot.ref)))
    rw [hbelow statement hst, hopen]
    rfl

/-- Of the twelve statements of the program, the first is a call of `f` and the last, which is not looked
at, is another. The body of `f` is node 30, and the second of the two calls in it is cut off as well. -/
theorem traceBody_eq_prunedTrace_longBodies :
    ∃ a root body calls, importProgram Sample.longBodies = .ok (a, root) ∧
      a.statements? (some 37) = some body ∧ body.length = 12 ∧
      a.traceBody [Arena.functionExpressions] (maxDepth - 0) body = some calls ∧
      a.prunedTrace [Arena.functionExpressions]
        (a.traceBody [Arena.functionExpressions] (maxDepth - 1)) (some 37) body = some calls ∧
      Call.flattenList 0 calls = [(0, some "f", some 30), (1, none, some 13)] := by
  have himport : (importProgram Sample.longBodies).map
      (fun p => (p.1.size, (p.1.statements? (some 37)).map List.length)) = .ok (38, some 12) := by
    decide +kernel
  have htrace : (importProgram Sample.longBodies).map (fun p =>
      (p.1.traceBody [Arena.functionExpressions] maxDepth
        ((p.1.statements? (some 37)).getD [])).map (Call.flattenList 0)) =
      .ok (some [(0, some "f", some 30), (1, none, some 13)]) := by
    decide +kernel
  obtain ⟨⟨a, root⟩, h, hp⟩ := exists_ok_of_map himport
  obtain ⟨hsize, hlength⟩ := Prod.mk.inj hp
  simp only at hsize hlength
  obtain ⟨body, hbody, hlength⟩ := Option.map_eq_some_iff.1 hlength
  rw [h] at htrace
  obtain ⟨calls, hcalls, hflat⟩ := Option.map_eq_some_iff.1 (Except.ok.inj htrace)
  rw [hbody, Option.getD_some] at hcalls
  obtain ⟨heq, -⟩ := traceBody_eq_prunedTrace h (by omega) [Arena.functionExpressions] hbody
    (by decide : 0 < maxDepth)
  exact ⟨a, root, body, calls, h, hbody, hlength, hcalls, heq.symm.trans hcalls, hflat⟩

end CallTrace
