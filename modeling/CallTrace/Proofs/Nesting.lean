import CallTrace.Proofs.Depth

/-!
Traces of arbitrary arenas.

An extractor may answer any body, also one that the call itself stands in, and then the calls lead round
and round. Nothing but the limit on the depth ends such a trace: each entry takes one step of it, so
that no more entries are nested in each other than the limit allows. Provided that the walks and the
extractors end, there is a trace.
-/
namespace CallTrace

theorem exists_of_mem_mapM {α β : Type} {f : α → Option β} {xs : List α} {ys : List β} {y : β}
    (h : xs.mapM f = some ys) (hy : y ∈ ys) : ∃ x ∈ xs, f x = some y := by
  induction xs generalizing ys with
  | nil =>
    obtain rfl : ys = [] := by simpa using h.symm
    simp at hy
  | cons x xs ih =>
    obtain ⟨z, zs, hz, hzs, rfl⟩ := mapM_eq_some_cons.1 h
    rcases List.mem_cons.1 hy with rfl | hy
    · exact ⟨x, List.mem_cons_self, hz⟩
    · obtain ⟨x', hx', hfx'⟩ := ih hzs hy
      exact ⟨x', List.mem_cons_of_mem _ hx', hfx'⟩

namespace Arena

variable {a : Arena} {extractors : List Extractor}

/-- What is nested in an entry is the trace of its callee's statements, one call less deep. -/
theorem traceBody_of_mem {depth : Nat} {body : List Ref} {calls : List Call} {e : Call}
    (h : a.traceBody extractors (depth + 1) body = some calls) (he : e ∈ calls) :
    a.traceBody extractors depth ((a.statements? e.callee).getD []) = some e.calls := by
  obtain ⟨found, -, hentries⟩ := Option.bind_eq_some_iff.1 h
  obtain ⟨callee, -, hentry⟩ := exists_of_mem_mapM hentries he
  obtain ⟨nested, hnested, hmk⟩ := Option.bind_eq_some_iff.1 hentry
  obtain rfl := Option.some.inj hmk
  exact hnested

theorem length_le_of_chain {depth : Nat} {body : List Ref} {calls chain : List Call}
    (h : a.traceBody extractors depth body = some calls) (hc : Call.Chain calls chain) :
    chain.length ≤ depth := by
  induction depth generalizing body calls chain with
  | zero =>
    obtain rfl : calls = [] := by simpa [traceBody] using h.symm
    cases hc with
    | nil => exact le_rfl
    | cons mem => simp at mem
  | succ depth ih =>
    cases hc with
    | nil => exact Nat.zero_le _
    | cons mem rest =>
      have hrest := ih (traceBody_of_mem h mem) rest
      rw [List.length_cons]
      omega

/-- On an arena all of whose walks end, analysis with any extractors that answer has a result for any
root, and no more than 256 of its entries are nested in each other. The default extractor answers
there. -/
theorem exists_trace_of_walks_end {a : Arena}
    (walks : ∀ r, ∃ visits, Walk.Produces a (Walk.start a r) visits) {extractors : List Extractor}
    (answers : ∀ extract ∈ extractors, ∀ body callee, (extract a body callee).isSome) (root : Ref) :
    (∃ calls, a.trace extractors root = some calls ∧
      ∀ chain, Call.Chain calls chain → chain.length ≤ 256) ∧
    ∀ body callee, (functionExpressions a body callee).isSome := by
  have free : ∀ r, a.Uncircled r := by
    intro r
    obtain ⟨visits, h⟩ := walks r
    exact uncircled_of_produces h
  have htrace := isSome_traceBody free answers maxDepth ((a.statements? root).getD [])
  obtain ⟨calls, hcalls⟩ := Option.isSome_iff_exists.1 htrace
  exact ⟨⟨calls, hcalls, fun chain => length_le_of_chain hcalls⟩, isSome_functionExpressions free⟩

end Arena

namespace Sample

/-- `f(f)` with one more argument, which does not exist. The call lists the identifier twice, and the
parents of the call and of the program are each other. -/
def circlingParents : Arena :=
  ⟨#[.identifier "f", .call (Ref.ofNat 0) [Ref.ofNat 0, Ref.ofNat 9] false, .program [Ref.ofNat 1]],
    #[⟨Ref.ofNat 1, ⟨0, 1⟩⟩, ⟨Ref.ofNat 2, ⟨0, 4⟩⟩, ⟨Ref.ofNat 1, ⟨0, 5⟩⟩]⟩

/-- Takes `f` for the whole program. -/
def programItself : Extractor := .named "f" (Ref.ofNat 2)

theorem circlingParents_walks (r : Ref) :
    ∃ visits, Walk.Produces circlingParents (Walk.start circlingParents r) visits := by
  cases hr : circlingParents.node? r with
  | none => exact ⟨[], .done (by simp [Walk.start, hr, Walk.next?])⟩
  | some n =>
    have hwalks : ∀ k < 3, (circlingParents.preOrder (Ref.ofNat k)).isSome := by decide +kernel
    obtain ⟨i, rfl, hsize⟩ := Arena.exists_index_of_node? hr
    have hwalk := hwalks i.val hsize
    rw [Ref.ofNat_eq_some i.isLt] at hwalk
    obtain ⟨visits, hvisits⟩ := Option.isSome_iff_exists.1 hwalk
    exact ⟨visits, Arena.produces_of_preOrder hvisits⟩

/-- Each step of the depth nests one entry more. -/
theorem exists_chain_programItself (depth : Nat) :
    ∃ calls chain, circlingParents.traceBody [programItself] depth [some 1] = some calls ∧
      Call.Chain calls chain ∧ chain.length = depth := by
  induction depth with
  | zero => exact ⟨[], [], rfl, .nil, rfl⟩
  | succ depth ih =>
    obtain ⟨calls, chain, hcalls, hchain, hlength⟩ := ih
    have hfound : circlingParents.callsIn [programItself] [some 1] =
        some [⟨some 2, some "f"⟩] := by decide +kernel
    refine ⟨[.mk (some "f") (some 2) calls], .mk (some "f") (some 2) calls :: chain, ?_,
      .cons List.mem_cons_self hchain, by simp [hlength]⟩
    have hbody : (circlingParents.statements? (some 2)).getD [] = [some 1] := rfl
    simp [Arena.traceBody, hfound, hbody, hcalls]

end Sample

/-- The parents of nodes 1 and 2 go round in a circle, and so do the calls: the limit is reached. -/
theorem Arena.exists_trace_of_walks_end_circlingParents :
    Sample.circlingParents.parent (some 1) = some 2 ∧
    Sample.circlingParents.parent (some 2) = some 1 ∧
    ∃ calls chain, Sample.circlingParents.trace [Sample.programItself] (some 2) = some calls ∧
      Call.Chain calls chain ∧ chain.length = 256 ∧
      ∀ chain, Call.Chain calls chain → chain.length ≤ 256 := by
  have hanswers : ∀ extract ∈ [Sample.programItself], ∀ body callee,
      (extract Sample.circlingParents body callee).isSome := by
    intro extract hx body callee
    obtain rfl := List.mem_singleton.1 hx
    rfl
  obtain ⟨⟨calls, htrace, hlimit⟩, -⟩ :=
    exists_trace_of_walks_end Sample.circlingParents_walks hanswers (some 2)
  obtain ⟨calls', chain, hcalls', hchain, hlength⟩ := Sample.exists_chain_programItself maxDepth
  obtain rfl : calls' = calls := Option.some.inj (hcalls'.symm.trans htrace)
  exact ⟨rfl, rfl, calls', chain, htrace, hchain, hlength, hlimit⟩

end CallTrace
