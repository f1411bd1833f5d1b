import CallTrace.Proofs.Locality

/-!
How deep a trace goes.

A call leads to the body of a function that lies below the scope of the call, at least three levels
further down. A document has a limited number of levels, and so the limit on the depth of a trace is
never reached: the trace is the only one that has the entries for all calls, which `Arena.Traced` says
without any limit.
-/
namespace CallTrace

/-- A node is strictly above another: it is met on the way up from it. -/
inductive Arena.Above (a : Arena) : Ref → Ref → Prop
  | parent {p : Index} {r : Ref} (up : a.parent r = some p) : Above a (some p) r
  | further {p : Index} {top r : Ref} (up : a.parent r = some p) (rest : Above a top (some p)) :
      Above a top r

/-- On an arena that holds a tree, the nodes above a subtree's root are those on the way to it. -/
theorem Arena.Holds.above_iff {a : Arena} {root s : Spot} {above : List Spot} (h : a.Holds root)
    (way : Spot.Path root above s) {top : Ref} :
    a.Above top s.ref ↔ ∃ p ∈ above, p.ref = top := by
  induction way with
  | here =>
    have hnone : a.parent root.ref = none := h.parent .here
    constructor
    · intro habove
      cases habove with
      | parent up | further up => simp [hnone] at up
    · simp
  | @down above s k way kid ih =>
    have hparent : a.parent k.ref = some s.index := h.parent (way.down kid)
    constructor
    · intro habove
      cases habove with
      | parent up =>
        exact ⟨s, List.mem_cons_self, hparent.symm.trans up⟩
      | further up rest =>
        obtain rfl := Option.some.inj (hparent.symm.trans up)
        obtain ⟨p, hp, htop⟩ := ih.1 rest
        exact ⟨p, List.mem_cons_of_mem _ hp, htop⟩
    · rintro ⟨p, hp, rfl⟩
      rcases List.mem_cons.1 hp with rfl | hp
      · exact .parent hparent
      · exact .further hparent (ih.2 ⟨p, hp, rfl⟩)

/-- Entries each of which is nested right in the one before; the first is one of the given list. -/
inductive Call.Chain : List Call → List Call → Prop
  | nil {calls : List Call} : Chain calls []
  | cons {calls chain : List Call} {e : Call} (mem : e ∈ calls) (rest : Chain e.calls chain) :
      Chain calls (e :: chain)

/-- The function body that an entry stands for. -/
def Call.target (e : Call) : Callee := ⟨e.callee, e.name⟩

/-- Entries are those for a scope body, however deep the calls go, where the given function tells which
bodies the calls of a scope body run: there is an entry for each of them, and what is nested in an entry
are the entries for the body that it stands for. -/
inductive Arena.TracedBy (a : Arena) (direct : List Ref → Walked (List Callee)) :
    List Ref → List Call → Prop
  | intro {body : List Ref} {calls : List Call} (found : direct body = some (calls.map Call.target))
      (nested : ∀ e ∈ calls, TracedBy a direct ((a.statements? e.callee).getD []) e.calls) :
      TracedBy a direct body calls

/-- Entries are those for all calls that the extractors find, however deep the calls go. -/
def Arena.Traced (a : Arena) (extractors : List Extractor) : List Ref → List Call → Prop :=
  a.TracedBy (a.callsIn extractors)

theorem Call.eq_of_map_target_eq {calls calls' : List Call}
    (h : calls.map target = calls'.map target)
    (hcalls : ∀ e ∈ calls, ∀ e' ∈ calls', e.callee = e'.callee → e.calls = e'.calls) :
    calls = calls' := by
  induction calls generalizing calls' with
  | nil => exact (List.map_eq_nil_iff.1 h.symm).symm
  | cons e rest ih =>
    obtain ⟨e', rest', rfl, he, hrest⟩ := List.map_eq_cons_iff.1 h.symm
    obtain ⟨hcallee, hname⟩ := Callee.mk.inj he.symm
    have hnested := hcalls e List.mem_cons_self e' List.mem_cons_self hcallee
    have heq : e = e' := by
      cases e
      cases e'
      cases hcallee
      cases hname
      cases hnested
      rfl
    rw [heq, ih hrest.symm fun c hc c' hc' =>
      hcalls c (List.mem_cons_of_mem _ hc) c' (List.mem_cons_of_mem _ hc')]

/-- There is at most one list of entries for a body. -/
theorem Arena.TracedBy.unique {a : Arena} {direct : List Ref → Walked (List Callee)}
    {body : List Ref} {calls calls' : List Call} (h : a.TracedBy direct body calls)
    (h' : a.TracedBy direct body calls') : calls = calls' := by
  induction h generalizing calls' with
  | intro found _ ih =>
    cases h' with
    | intro found' nested' =>
      refine Call.eq_of_map_target_eq (Option.some.inj (found.symm.trans found')) ?_
      intro e he e' he' hcallee
      have hnested := nested' e' he'
      rw [← hcallee] at hnested
      exact ih e he hnested

namespace Spot

theorem map_target_traceOver {depth : Nat} {body : List Spot}
    (hb : ∀ k ∈ body, k.tree.height ≤ 3 * depth) :
    (traceOver depth body).map Call.target = (found body).map fun x => ⟨x.2.ref, x.1⟩ := by
  cases depth with
  | zero =>
    rw [eq_nil_of_height_le_zero hb]
    rfl
  | succ depth =>
    rw [traceOver, List.map_map]
    rfl

theorem three_le_of_mem_found {body : List Spot} {h : Nat} (hb : ∀ k ∈ body, k.tree.height ≤ h)
    {x : Option String × Spot} (hx : x ∈ found body) : 3 ≤ h := by
  obtain ⟨k, hk, f, above, way, -, hne⟩ := exists_path_of_mem_found hx
  have hlen := way.length_add_height_le
  have hpos : 0 < above.length := List.length_pos_of_ne_nil hne
  have hbody := x.2.tree.height_pos
  have hle := hb k hk
  simp only [List.length_cons] at hlen
  omega

/-- Each entry of a chain takes three levels of the statements. -/
theorem three_mul_length_le {depth h : Nat} {body : List Spot} (hb : ∀ k ∈ body, k.tree.height ≤ h)
    {chain : List Call} (hc : Call.Chain (traceOver depth body) chain) : 3 * chain.length ≤ h := by
  induction chain generalizing depth h body with
  | nil => simp
  | cons e chain ih =>
    cases hc with
    | cons mem rest =>
      cases depth with
      | zero => simp [traceOver] at mem
      | succ depth =>
        obtain ⟨x, hx, rfl⟩ := List.mem_map.1 mem
        have hthree := three_le_of_mem_found hb hx
        have hrest : 3 * chain.length ≤ h - 3 := by
          refine ih (fun k hk => ?_) rest
          have := height_of_mem_found hb hx k hk
          omega
        rw [List.length_cons]
        omega

end Spot

namespace ImportedAs

open Spot (found traceOver)

variable {v : Json} {a : Arena} {root : Ref} {t : Tree} {above : List Spot} {s : Spot}

/-- The entries for the body of a scope, as deep as its statements allow, are all there are. -/
theorem traced (h : ImportedAs v a root t) {depth : Nat} (way : Spot.Path ⟨0, t⟩ above s)
    (hopen : a.opensScope s.ref = true) (hd : ∀ k ∈ s.kids, k.tree.height ≤ 3 * depth) :
    a.Traced [Arena.functionExpressions] (s.kids.map Spot.ref) (traceOver depth s.kids) := by
  induction depth generalizing above s with
  | zero =>
    rw [Spot.eq_nil_of_height_le_zero hd]
    exact .intro rfl (by simp [traceOver])
  | succ depth ih =>
    refine .intro ?_ fun e he => ?_
    · rw [h.callsIn_eq way hopen, Spot.map_target_traceOver hd]
    · obtain ⟨x, hx, rfl⟩ := List.mem_map.1 he
      obtain ⟨above', way', hscope⟩ := h.exists_path_of_mem_found way hx
      have hlow := Spot.height_of_mem_found hd hx
      change a.Traced _ ((a.statements? x.2.ref).getD []) (traceOver depth x.2.statements)
      rw [h.holds.statements?_eq way']
      cases hb : x.2.shape.statements? with
      | none =>
        have hnil : x.2.statements = [] := if_neg (by simp [hb])
        rw [hnil, Spot.traceOver_nil]
        exact .intro rfl (by simp)
      | some body =>
        have hkids : x.2.statements = x.2.kids := if_pos (by simp [hb])
        rw [hkids] at hlow ⊢
        refine ih way' (hscope (by simp [hb])) fun k hk => ?_
        have := hlow k hk
        omega

/-- What a call in a body leads to is strictly below the node of the body, and so has a smaller
number. -/
theorem above_of_mem_traceOver (h : ImportedAs v a root t) (way : Spot.Path ⟨0, t⟩ above s)
    {depth : Nat} (hd : ∀ k ∈ s.statements, k.tree.height ≤ 3 * depth) {e : Call}
    (he : e ∈ traceOver depth s.statements) :
    a.Above s.ref e.callee ∧ Ref.code e.callee < Ref.code s.ref := by
  obtain ⟨b, m, hcallee, -, -, k, hk, f, above', way', -⟩ :=
    Spot.exists_function_of_occurs hd (.here he)
  have wayb := (way.down (Spot.mem_kids_of_mem_statements hk)).trans way'
  have hmem : s ∈ f :: above' ++ s :: above := by simp
  have hlt := wayb.number_lt_of_mem hmem
  rw [hcallee]
  refine ⟨(h.holds.above_iff wayb).2 ⟨s, hmem, rfl⟩, ?_⟩
  change b.index.val < s.index.val
  rwa [Spot.index_val (wayb.number_lt h.holds.fits), Spot.index_val (way.number_lt h.holds.fits)]

end ImportedAs

/-- The trace of an imported program exists. What its entries call is strictly below the program, and
what nested entries call is strictly below the callee around them, with a smaller number. No chain of
nested entries has more than 166 of them, and the trace is the one without a limit on its depth. -/
theorem defaultTrace_without_limit {v : Json} {a : Arena} {root : Ref}
    (h : importProgram v = .ok (a, root)) (hs : a.size ≤ 2 ^ 32 - 1) :
    ∃ calls, a.defaultTrace root = some calls ∧
      (∀ e ∈ calls, a.Above root e.callee) ∧
      (∀ e c, Call.Occurs e calls → c ∈ e.calls →
        a.Above e.callee c.callee ∧ Ref.code c.callee < Ref.code e.callee) ∧
      (∀ chain, Call.Chain calls chain → chain.length ≤ 166) ∧
      ∀ all, a.Traced [Arena.functionExpressions] ((a.statements? root).getD []) all ↔ all = calls := by
  obtain ⟨t, imported⟩ := importedAs_of_importProgram h hs
  have hlow : ∀ k ∈ Spot.kids ⟨0, t⟩, k.tree.height ≤ 3 * maxDepth :=
    fun k hk => imported.height_le_of_path (Spot.Path.here.down hk)
  refine ⟨_, imported.defaultTrace_eq, ?_, ?_, ?_, ?_⟩
  · intro e he
    rw [← imported.statements_root] at hlow he
    rw [imported.root_eq]
    exact (imported.above_of_mem_traceOver .here hlow he).1
  · intro e c he hc
    obtain ⟨b, m, hcallee, hcalls, hm, k, hk, f, above, way, -⟩ :=
      Spot.exists_function_of_occurs hlow he
    rw [hcalls] at hc
    rw [hcallee]
    exact imported.above_of_mem_traceOver ((Spot.Path.here.down hk).trans way) hm hc
  · intro chain hchain
    have hkids : ∀ k ∈ Spot.kids ⟨0, t⟩, k.tree.height ≤ maxLevels - 1 := by
      intro k hk
      have hk : k.tree.height < t.height := Spot.height_lt_of_mem_kids hk
      have ht := imported.reads.height_le
      omega
    have hle := Spot.three_mul_length_le hkids hchain
    simp only [maxLevels] at hle
    omega
  · intro all
    have htraced := imported.traced .here imported.opensScope_root hlow
    rw [imported.statements?_root]
    exact ⟨fun hall => hall.unique htraced, fun heq => heq ▸ htraced⟩

/-- The body of `f`, which is node 6, is below the program, and the body of `g`, which it calls, is
node 2. -/
theorem defaultTrace_without_limit_nestedCalls :
    ∃ a root e c, importProgram Sample.nestedCalls = .ok (a, root) ∧
      a.defaultTrace root = some [e] ∧ e.calls = [c] ∧ e.callee = some 6 ∧ c.callee = some 2 ∧
      a.Above root (some 6) ∧ a.Above (some 6) (some 2) ∧
      Call.Chain [e] [e, c] ∧ [e, c].length ≤ 166 ∧
      a.Traced [Arena.functionExpressions] ((a.statements? root).getD []) [e] := by
  have himport : (importProgram Sample.nestedCalls).map (fun p => p.1.size) = .ok 14 := by
    decide +kernel
  have htrace : (importProgram Sample.nestedCalls).map (fun p => (p.1.defaultTrace p.2).map
      (List.map fun e => (e.callee, e.calls.map Call.callee))) =
      .ok (some [(some 6, [some 2])]) := by
    decide +kernel
  obtain ⟨⟨a, root⟩, h, hsize⟩ := exists_ok_of_map himport
  simp only at hsize
  obtain ⟨calls, hcalls, htop, hnested, hlength, hunlimited⟩ :=
    defaultTrace_without_limit h (by omega)
  rw [h] at htrace
  have hlist := Except.ok.inj htrace
  simp only [hcalls, Option.map_some, Option.some_inj] at hlist
  obtain ⟨e, rfl, he⟩ := List.map_eq_singleton_iff.1 hlist
  obtain ⟨hcallee, hinner⟩ := Prod.mk.inj he
  obtain ⟨c, hc, hcc⟩ := List.map_eq_singleton_iff.1 hinner
  have hmem : c ∈ e.calls := by simp [hc]
  have hchain : Call.Chain [e] [e, c] := .cons List.mem_cons_self (.cons hmem .nil)
  have hroot := htop e List.mem_cons_self
  have hbelow := (hnested e c (.here List.mem_cons_self) hmem).1
  rw [hcallee] at hroot hbelow
  rw [hcc] at hbelow
  exact ⟨a, root, e, c, h, hcalls, hc, hcallee, hcc, hroot, hbelow, hchain, hlength _ hchain,
    (hunlimited [e]).2 rfl⟩

end CallTrace
