import CallTrace.Proofs.Depth

/-!
Which calls are put down to the scope around a function.

A call belongs to the innermost scope around it, and a function opens a scope only by a body that is a
block. So a call in the body block of a function never belongs to a scope around the function, but a
call elsewhere in the function may: one in a parameter, or in the body of an arrow that is an
expression.
-/
namespace CallTrace

namespace Arena

/-- Whether a node is a block that is the body of a function. -/
def isFunctionBody (a : Arena) (r : Ref) : Bool :=
  (a.node? r).any Node.isBlock && (a.node? (a.parent r)).any Node.isFunction

theorem opensScope_of_isFunctionBody {a : Arena} {r : Ref} (h : a.isFunctionBody r = true) :
    a.opensScope r = true := by
  obtain ⟨hblock, hparent⟩ := Bool.and_eq_true_iff.1 h
  obtain ⟨n, hn, hblock⟩ := (Option.any_eq_true _ _).1 hblock
  unfold opensScope
  rw [hn, hparent]
  cases n <;> simp_all [Node.isBlock]

/-- The numbers of the calls in an arena. -/
def callNumbers (a : Arena) : List Nat :=
  (List.range a.size).filter fun i => (a.nodes[i]?).any Node.isCall

theorem exists_mem_callNumbers {a : Arena} {c : Ref} (h : (a.node? c).any Node.isCall = true) :
    ∃ i : Index, c = some i ∧ i.val ∈ a.callNumbers := by
  obtain ⟨n, hn, hcall⟩ := (Option.any_eq_true _ _).1 h
  obtain ⟨i, rfl, hsize⟩ := exists_index_of_node? hn
  exact ⟨i, rfl, List.mem_filter.2 ⟨List.mem_range.2 hsize, h⟩⟩

theorem isCall_of_calleeAt {a : Arena} {w : Visit} {callee : Ref} (h : a.calleeAt w = some callee) :
    (a.node? w.node).any Node.isCall = true := by
  unfold calleeAt at h
  split at h
  · rename_i hn
    rw [hn]
    rfl
  · cases h

end Arena

namespace Spot.Path

variable {root s p : Spot} {above : List Spot}

theorem exists_of_mem_above (way : Path root above s) (hp : p ∈ above) :
    ∃ above', Path root above' p := by
  induction way with
  | here => simp at hp
  | @down above s k way kid ih =>
    rcases List.mem_cons.1 hp with rfl | hp
    · exact ⟨above, way⟩
    · exact ih hp

theorem root_mem (way : Path root above s) (h : above ≠ []) : root ∈ above := by
  induction way with
  | here => exact absurd rfl h
  | @down above s k way kid ih =>
    cases way with
    | here => exact List.mem_cons_self
    | down => exact List.mem_cons_of_mem _ (ih (by simp))

/-- The innermost scope around a spot is at or below each scope above the spot. -/
theorem exists_scope_eq {a : Arena} (way : Path root above s) (hp : p ∈ above)
    (hopen : a.opensScope p.ref = true) : ∃ q : Spot, scope a above = q.ref ∧ q.number ≤ p.number := by
  induction way with
  | here => simp at hp
  | @down above s k way kid ih =>
    rw [scope_cons]
    split
    · refine ⟨s, rfl, ?_⟩
      rcases List.mem_cons.1 hp with rfl | hp
      · exact le_rfl
      · exact (way.number_lt_of_mem hp).le
    · rename_i hs
      rcases List.mem_cons.1 hp with rfl | hp
      · exact absurd hopen hs
      · exact ih hp

end Spot.Path

namespace ImportedAs

variable {v : Json} {a : Arena} {root : Ref} {t : Tree}

/-- What is in a scope does not belong to a scope around it. -/
theorem innermostScope_ne_of_above (h : ImportedAs v a root t) {above : List Spot} {s : Spot}
    (way : Spot.Path ⟨0, t⟩ above s) {inner outer : Ref} (hinner : a.Above inner s.ref)
    (hopen : a.opensScope inner = true) (houter : a.Above outer inner) :
    a.innermostScope s.ref ≠ outer := by
  obtain ⟨p, hp, rfl⟩ := (h.holds.above_iff way).1 hinner
  obtain ⟨above', way'⟩ := way.exists_of_mem_above hp
  obtain ⟨o, ho, rfl⟩ := (h.holds.above_iff way').1 houter
  obtain ⟨above'', way''⟩ := way'.exists_of_mem_above ho
  obtain ⟨q, hq, hle⟩ := way.exists_scope_eq hp hopen
  rw [h.holds.innermostScope_eq way h.height_le, hq]
  exact Spot.ref_ne_of_number_lt (hle.trans_lt (way'.number_lt_of_mem ho))
    (way''.number_lt h.holds.fits)

/-- The program is above the body of every function. -/
theorem above_of_isFunctionBody (h : ImportedAs v a root t) {b : Ref}
    (hb : a.isFunctionBody b = true) : a.Above root b := by
  obtain ⟨hblock, hparent⟩ := Bool.and_eq_true_iff.1 hb
  obtain ⟨n, hn, -⟩ := (Option.any_eq_true _ _).1 hblock
  obtain ⟨above, s, way, rfl⟩ := h.exists_of_node? hn
  have hne : above ≠ [] := by
    rintro rfl
    rw [h.holds.parent way] at hparent
    cases hparent
  exact (h.holds.above_iff way).2 ⟨_, way.root_mem hne, h.root_eq.symm⟩

/-- The trace is empty if no call belongs to the program itself. -/
theorem defaultTrace_eq_nil (h : ImportedAs v a root t)
    (hcalls : ∀ c, (a.node? c).any Node.isCall = true → a.innermostScope c ≠ root) :
    a.defaultTrace root = some [] := by
  have hdirect : ∀ k ∈ Spot.kids ⟨0, t⟩, (k.direct false).filterMap Spot.callee? = [] := by
    intro k hk
    have hbelow := h.filterMap_visits_eq_direct .here h.opensScope_root hk none
    rw [← h.root_eq] at hbelow
    have hnone : ((k.visits none).filter fun w => a.innermostScope w.node == root).filterMap
        a.calleeAt = [] := by
      rw [List.filterMap_eq_nil_iff]
      intro w hw
      obtain ⟨-, hin⟩ := List.mem_filter.1 hw
      cases hcallee : a.calleeAt w with
      | none => rfl
      | some callee =>
        have hne := hcalls w.node (Arena.isCall_of_calleeAt hcallee)
        simp [hne] at hin
    exact List.map_eq_nil_iff.1 (hbelow.symm.trans hnone)
  have hfound : Spot.found (Spot.kids ⟨0, t⟩) = [] := by
    have hcallees : ((Spot.kids ⟨0, t⟩).take (lastLooked (Spot.kids ⟨0, t⟩).length + 1)).flatMap
        (fun k => (k.direct false).filterMap Spot.callee?) = [] :=
      List.flatMap_eq_nil_iff.2 fun k hk => hdirect k (List.mem_of_mem_take hk)
    rw [Spot.found, Spot.foundAmong, hcallees]
    rfl
  rw [h.defaultTrace_eq, maxDepth, Spot.traceOver, hfound]
  rfl

end ImportedAs

/-- A call in the body block of a function does not belong to a scope around the function. If all
calls of an imported program are in such blocks, its trace is empty. -/
theorem defaultTrace_eq_nil_of_isFunctionBody {v : Json} {a : Arena} {root : Ref}
    (h : importProgram v = .ok (a, root)) (hs : a.size ≤ 2 ^ 32 - 1) :
    (∀ c b scope, (a.node? c).any Node.isCall = true → a.Above b c → a.isFunctionBody b = true →
      a.Above scope b → a.innermostScope c ≠ scope) ∧
    ((∀ c, (a.node? c).any Node.isCall = true → ∃ b, a.Above b c ∧ a.isFunctionBody b = true) →
      a.defaultTrace root = some []) := by
  obtain ⟨t, imported⟩ := importedAs_of_importProgram h hs
  have hscope : ∀ c b scope, (a.node? c).any Node.isCall = true → a.Above b c →
      a.isFunctionBody b = true → a.Above scope b → a.innermostScope c ≠ scope := by
    intro c b scope hcall hb hbody hscope
    obtain ⟨n, hn, -⟩ := (Option.any_eq_true _ _).1 hcall
    obtain ⟨above, s, way, rfl⟩ := imported.exists_of_node? hn
    exact imported.innermostScope_ne_of_above way hb (Arena.opensScope_of_isFunctionBody hbody) hscope
  refine ⟨hscope, fun hcalls => imported.defaultTrace_eq_nil fun c hc => ?_⟩
  obtain ⟨b, hb, hbody⟩ := hcalls c hc
  exact hscope c b root hc hb hbody (imported.above_of_isFunctionBody hbody)

namespace Sample

/-- `var f = function () {}; var g = function () { f(); };` -/
def callInBlock : Json :=
  node "Program" [("body", .array
    [binding "f" (function .null []), binding "g" (function .null [callStatement (identifier "f")])])]

/-- `var f = function () {}; var g = () => f();` -/
def callInArrow : Json :=
  node "Program" [("body", .array
    [binding "f" (function .null []), binding "g" (node "ArrowFunctionExpression"
      [("params", .array []), ("body", call (identifier "f"))])])]

end Sample

/-- The only call is node 7, in the body of `g`, which is node 9. -/
theorem defaultTrace_eq_nil_of_isFunctionBody_block :
    ∃ a root, importProgram Sample.callInBlock = .ok (a, root) ∧
      (a.node? (some 7)).any Node.isCall = true ∧ a.Above (some 9) (some 7) ∧
      a.isFunctionBody (some 9) = true ∧ a.Above root (some 9) ∧
      a.innermostScope (some 7) ≠ root ∧ a.defaultTrace root = some [] := by
  have himport : (importProgram Sample.callInBlock).map (fun p =>
      (p.1.size, p.2, p.1.callNumbers, p.1.isFunctionBody (some 9))) =
      .ok (14, some 13, [7], true) := by
    decide +kernel
  have hup : (importProgram Sample.callInBlock).map (fun p =>
      [p.1.parent (some 7), p.1.parent (some 8), p.1.parent (some 9), p.1.parent (some 10),
        p.1.parent (some 11), p.1.parent (some 12)]) =
      .ok [some 8, some 9, some 10, some 11, some 12, some 13] := by
    decide +kernel
  have hcall : (importProgram Sample.callInBlock).map (fun p =>
      (p.1.node? (some 7)).any Node.isCall) = .ok true := by
    decide +kernel
  obtain ⟨⟨a, root⟩, h, hp⟩ := exists_ok_of_map himport
  simp only [Prod.mk.injEq] at hp
  obtain ⟨hsize, rfl, hcalls, hbody⟩ := hp
  rw [h] at hup hcall
  obtain ⟨h7, h8, h9, h10, h11, h12⟩ := by simpa using Except.ok.inj hup
  have hcall := Except.ok.inj hcall
  have hbelow : a.Above (some 9) (some 7) := .further h7 (.parent h8)
  have htop : a.Above (some 13) (some 9) := .further h9 (.further h10 (.further h11 (.parent h12)))
  obtain ⟨hscope, hempty⟩ := defaultTrace_eq_nil_of_isFunctionBody h (by omega)
  refine ⟨a, some 13, h, hcall, hbelow, hbody, htop, hscope _ _ _ hcall hbelow hbody htop,
    hempty fun c hc => ⟨some 9, ?_, hbody⟩⟩
  obtain ⟨i, rfl, hi⟩ := Arena.exists_mem_callNumbers hc
  rw [hcalls, List.mem_singleton] at hi
  obtain rfl : i = 7 := Fin.ext hi
  exact hbelow

/-- The only call is node 7, the body of the arrow, which is node 8, and it is put down to the
program. -/
theorem defaultTrace_eq_singleton_arrow :
    ∃ a root e, importProgram Sample.callInArrow = .ok (a, root) ∧
      (∀ c, (a.node? c).any Node.isCall = true →
        ∃ f, a.Above f c ∧ (a.node? f).any Node.isFunction = true) ∧
      a.defaultTrace root = some [e] ∧ e.name = some "f" ∧ e.callee = some 1 := by
  have himport : (importProgram Sample.callInArrow).map (fun p =>
      (p.1.callNumbers, p.1.parent (some 7), (p.1.node? (some 8)).any Node.isFunction)) =
      .ok ([7], some 8, true) := by
    decide +kernel
  have htrace : (importProgram Sample.callInArrow).map (fun p =>
      (p.1.defaultTrace p.2).map (List.map fun e => (e.name, e.callee))) =
      .ok (some [(some "f", some 1)]) := by
    decide +kernel
  obtain ⟨⟨a, root⟩, h, hp⟩ := exists_ok_of_map himport
  simp only [Prod.mk.injEq] at hp
  obtain ⟨hcalls, hparent, harrow⟩ := hp
  rw [h] at htrace
  obtain ⟨calls, htrace, hlist⟩ := Option.map_eq_some_iff.1 (Except.ok.inj htrace)
  obtain ⟨e, rfl, he⟩ := List.map_eq_singleton_iff.1 hlist
  obtain ⟨hname, hcallee⟩ := Prod.mk.inj he
  refine ⟨a, root, e, h, fun c hc => ⟨some 8, ?_, harrow⟩, htrace, hname, hcallee⟩
  obtain ⟨i, rfl, hi⟩ := Arena.exists_mem_callNumbers hc
  rw [hcalls, List.mem_singleton] at hi
  obtain rfl : i = 7 := Fin.ext hi
  exact .parent hparent

end CallTrace
