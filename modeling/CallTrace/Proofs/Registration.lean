import CallTrace.Proofs.Attribution

/-!
More extractors find more.

An extractor that is registered beside others adds entries to a trace, among the entries that were there
and inside of them, and takes none away. It cannot change what the others find, since each extractor
answers for itself; so what one level loses by leaving out extractors are whole entries, and every entry
that is left has lost such entries among those nested in it (`Arena.survives_traceBody`).
-/
namespace CallTrace

/-- The first entries remain of the second when some of these are deleted, each with all that is nested in
it, and likewise some of those that are nested at any depth in the others. -/
inductive Call.Remains : List Call → List Call → Prop
  | nil : Remains [] []
  | deleted {c : Call} {calls all : List Call} (rest : Remains calls all) : Remains calls (c :: all)
  | kept {name : Option String} {callee : Ref} {inner inner' calls all : List Call}
      (nested : Remains inner inner') (rest : Remains calls all) :
      Remains (.mk name callee inner :: calls) (.mk name callee inner' :: all)

namespace Call.Remains

theorem nil_left (all : List Call) : Remains [] all := by
  induction all with
  | nil => exact .nil
  | cons c all ih => exact .deleted ih

theorem append {calls calls' all all' : List Call} (h : Remains calls all)
    (h' : Remains calls' all') : Remains (calls ++ calls') (all ++ all') := by
  induction h with
  | nil => exact h'
  | deleted _ ih => exact .deleted ih
  | kept nested _ _ ih => exact .kept nested ih

end Call.Remains

namespace Walked

/-- Where the second has a result, so has the first, and it is what remains of the second's. -/
def Survives (x y : Walked (List Call)) : Prop :=
  ∀ all, y = some all → ∃ calls, x = some calls ∧ Call.Remains calls all

theorem Survives.bind {α : Type} {f g : α → Walked (List Call)} (h : ∀ y, Survives (f y) (g y))
    (x : Walked α) : Survives (x.bind f) (x.bind g) := by
  intro all hall
  obtain ⟨y, rfl, hy⟩ := Option.bind_eq_some_iff.1 hall
  exact h y all hy

/-- Leaving out items leaves out what they contribute. -/
theorem Survives.gather {α : Type} {f g : α → Walked (List Call)} {xs ys : List α}
    (hsub : xs.Sublist ys) (h : ∀ x, Survives (f x) (g x)) :
    Survives (gather xs f) (gather ys g) := by
  induction hsub with
  | slnil =>
    intro all hall
    obtain rfl : all = [] := (Option.some.inj hall).symm
    exact ⟨[], rfl, .nil⟩
  | @cons xs ys y _ ih =>
    intro all hall
    rw [gather_cons] at hall
    obtain ⟨first, -, hall⟩ := Option.bind_eq_some_iff.1 hall
    obtain ⟨more, hmore, rfl⟩ := Option.map_eq_some_iff.1 hall
    obtain ⟨calls, hcalls, hremains⟩ := ih more hmore
    exact ⟨calls, hcalls, (Call.Remains.nil_left first).append hremains⟩
  | @cons_cons xs ys y _ ih =>
    intro all hall
    rw [gather_cons] at hall
    obtain ⟨first, hfirst, hall⟩ := Option.bind_eq_some_iff.1 hall
    obtain ⟨more, hmore, rfl⟩ := Option.map_eq_some_iff.1 hall
    obtain ⟨calls, hcalls, hremains⟩ := h y first hfirst
    obtain ⟨calls', hcalls', hremains'⟩ := ih more hmore
    refine ⟨calls ++ calls', ?_, hremains.append hremains'⟩
    rw [gather_cons, hcalls, hcalls']
    rfl

end Walked

namespace Arena

open Walked (Survives)

variable {a : Arena}

theorem survives_entriesFor {deeper deeper' : List Ref → Walked (List Call)}
    (h : ∀ body, Survives (deeper body) (deeper' body)) (found : Option Callee) :
    Survives (a.entriesFor deeper found) (a.entriesFor deeper' found) := by
  intro all hall
  cases found with
  | none => exact ⟨[], rfl, Call.Remains.nil_left all⟩
  | some callee =>
    simp only [entriesFor] at hall ⊢
    cases hbody : a.statements? callee.body with
    | none =>
      rw [hbody] at hall
      obtain rfl := Option.some.inj hall
      exact ⟨_, rfl, .kept .nil .nil⟩
    | some body =>
      rw [hbody] at hall
      obtain ⟨inner', hinner', rfl⟩ := Option.map_eq_some_iff.1 hall
      obtain ⟨inner, hinner, hremains⟩ := h body inner' hinner'
      exact ⟨[.mk callee.name callee.body inner], by simp [hinner], .kept hremains .nil⟩

/-- A trace with some of the extractors is what remains of the trace with all of them. -/
theorem survives_traceBody {extractors extractors' : List Extractor}
    (hsub : extractors.Sublist extractors') (depth : Nat) (body : List Ref) :
    Survives (a.traceBody extractors depth body) (a.traceBody extractors' depth body) := by
  induction depth generalizing body with
  | zero =>
    intro all hall
    exact ⟨[], rfl, Call.Remains.nil_left all⟩
  | succ depth ih =>
    rw [traceBody_succ, traceBody_succ]
    refine .gather (.refl _) fun statement => .bind (fun callees => ?_) _
    refine .gather (.refl _) fun callee => .gather hsub fun extract => ?_
    exact .bind (survives_entriesFor ih) _

/-- Registering one more extractor keeps what was reported: on an arena all of whose walks end, if there is
a trace with the extractor, the trace without it exists and remains when some of the entries are deleted
from that one, at any depth and each with all that is nested in it. There is a trace with the extractor
if all extractors answer. -/
theorem trace_remains_of_append {a : Arena}
    (walks : ∀ r, ∃ visits, Walk.Produces a (Walk.start a r) visits) (extractors : List Extractor)
    (extra : Extractor) (root : Ref) :
    (∀ all, a.trace (extractors ++ [extra]) root = some all →
      ∃ calls, a.trace extractors root = some calls ∧ Call.Remains calls all) ∧
    ((∀ extract ∈ extractors ++ [extra], ∀ body callee, (extract a body callee).isSome) →
      ∃ all, a.trace (extractors ++ [extra]) root = some all) := by
  have free : ∀ r, a.Uncircled r := fun r => exists_produces_iff_uncircled.1 (walks r)
  refine ⟨survives_traceBody (List.sublist_append_left _ _) maxDepth _, fun answers => ?_⟩
  exact Option.isSome_iff_exists.1 (isSome_traceBody free answers maxDepth _)

end Arena

/-- `g(); var f = function () { g(); (function () {})(); }; f();` -/
def Sample.unboundCalls : Json :=
  node "Program" [("body", .array
    [callStatement (identifier "g"),
      binding "f" (function .null [callStatement (identifier "g"), callStatement (function .null [])]),
      callStatement (identifier "f")])]

/-- Nothing is known of `g` until an extractor takes it for node 7. Its entries then come before the call
of `f` and before what was nested there. -/
theorem Arena.trace_remains_of_append_unboundCalls :
    ∃ a root calls all, importProgram Sample.unboundCalls = .ok (a, root) ∧
      a.trace [functionExpressions] root = some calls ∧
      a.trace ([functionExpressions] ++ [.named "g" (some 7)]) root = some all ∧
      Call.flattenList 0 calls = [(0, some "f", some 11), (1, none, some 7)] ∧
      Call.flattenList 0 all = [(0, some "g", some 7), (0, some "f", some 11), (1, some "g", some 7),
        (1, none, some 7)] ∧
      Call.Remains calls all := by
  have himport : (importProgram Sample.unboundCalls).map (fun p => p.1.size) = .ok 19 := by
    decide +kernel
  have htrace : (importProgram Sample.unboundCalls).map (fun p =>
      (p.1.trace [functionExpressions] p.2).map (Call.flattenList 0)) =
      .ok (some [(0, some "f", some 11), (1, none, some 7)]) := by
    decide +kernel
  have hmore : (importProgram Sample.unboundCalls).map (fun p =>
      (p.1.trace ([functionExpressions] ++ [.named "g" (some 7)]) p.2).map (Call.flattenList 0)) =
      .ok (some [(0, some "g", some 7), (0, some "f", some 11), (1, some "g", some 7),
        (1, none, some 7)]) := by
    decide +kernel
  obtain ⟨⟨a, root⟩, h, hsize⟩ := exists_ok_of_map himport
  simp only at hsize
  rw [h] at htrace hmore
  obtain ⟨t, imported⟩ := importedAs_of_importProgram h (by omega)
  have hanswers : ∀ extract ∈ [functionExpressions] ++ [.named "g" (some 7)], ∀ body callee,
      (extract a body callee).isSome := by
    intro extract hx body callee
    simp only [List.singleton_append, List.mem_cons, List.not_mem_nil, or_false] at hx
    rcases hx with rfl | rfl
    · exact isSome_functionExpressions imported.uncircled body callee
    · rfl
  have hwalks : ∀ r, ∃ visits, Walk.Produces a (Walk.start a r) visits :=
    fun r => exists_produces_iff_uncircled.2 (imported.uncircled r)
  obtain ⟨hkeeps, hexists⟩ :=
    trace_remains_of_append hwalks [functionExpressions] (.named "g" (some 7)) root
  obtain ⟨all, hall⟩ := hexists hanswers
  obtain ⟨calls, hcalls, hremains⟩ := hkeeps all hall
  have hpart := Except.ok.inj htrace
  have hfull := Except.ok.inj hmore
  simp only [hcalls] at hpart
  simp only [hall] at hfull
  exact ⟨a, root, calls, all, h, hcalls, hall, Option.some.inj hpart, Option.some.inj hfull, hremains⟩

end CallTrace
