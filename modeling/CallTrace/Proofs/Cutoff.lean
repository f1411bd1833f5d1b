import CallTrace.Proofs.Attribution
import CallTrace.Proofs.Limit

/-!
What the limit on the statements of a body leaves out.

Of a long body only the first statements are looked at, while a name is still searched in all of them. So
the calls that are found are the first ones of those that the whole body makes, and the same is true of
each function body that they run. The trace is the beginning, at every level, of the trace without limits
(`Arena.exists_traceBody_firstOf`), and all of it if no body is long.
-/
namespace CallTrace

/-- The entries are the first ones of a list, and what is nested in each of them are the first ones of
what is nested there in the list. -/
inductive Call.FirstOf : List Call → List Call → Prop
  | nil {all : List Call} : FirstOf [] all
  | cons {name : Option String} {callee : Ref} {calls calls' rest rest' : List Call}
      (nested : FirstOf calls calls') (others : FirstOf rest rest') :
      FirstOf (.mk name callee calls :: rest) (.mk name callee calls' :: rest')

/-- The first entries of a list with less nested in them. -/
theorem Call.firstOf_map_take {f : Call → List Call} {all : List Call}
    (h : ∀ e ∈ all, FirstOf (f e) e.calls) (n : Nat) :
    FirstOf ((all.take n).map fun e => .mk e.name e.callee (f e)) all := by
  induction all generalizing n with
  | nil =>
    rw [List.take_nil]
    exact .nil
  | cons e rest ih =>
    cases n with
    | zero => exact .nil
    | succ n =>
      have hnested := h e List.mem_cons_self
      have hothers := ih (fun e he => h e (List.mem_cons_of_mem _ he)) n
      cases e
      exact .cons hnested hothers

theorem Walked.exists_gather_of_prefix {α β : Type} {f : α → Walked (List β)} {xs ys : List α}
    {all : List β} (hpre : xs <+: ys) (h : gather ys f = some all) :
    ∃ first, gather xs f = some first ∧ first <+: all := by
  obtain ⟨more, rfl⟩ := hpre
  rw [gather_append] at h
  obtain ⟨first, hfirst, h⟩ := Option.bind_eq_some_iff.1 h
  obtain ⟨last, -, rfl⟩ := Option.map_eq_some_iff.1 h
  exact ⟨first, hfirst, List.prefix_append first last⟩

namespace Arena

/-- The bodies that the calls made directly in a scope body run, whatever its length. -/
def allCallsIn (a : Arena) (extractors : List Extractor) (body : List Ref) : Walked (List Callee) :=
  a.callsAmong extractors body body

variable {a : Arena} {extractors : List Extractor} {body : List Ref} {all : List Call}

/-- The calls of a body that are found are the first ones of all its calls. -/
theorem exists_callsIn_of_allCallsIn {found : List Callee}
    (h : a.allCallsIn extractors body = some found) :
    ∃ first, a.callsIn extractors body = some first ∧ first <+: found := by
  obtain ⟨callees, hcallees, hfound⟩ := Option.bind_eq_some_iff.1 h
  obtain ⟨seen, hseen, hpre⟩ :=
    Walked.exists_gather_of_prefix (List.take_prefix (lastLooked body.length + 1) body) hcallees
  obtain ⟨first, hfirst, hpre⟩ := Walked.exists_gather_of_prefix hpre hfound
  refine ⟨first, ?_, hpre⟩
  rw [callsIn_eq_callsAmong, callsAmong, lookedAt, hseen]
  exact hfirst

/-- Where there is a trace without limits, a trace of any depth is its beginning at every level. -/
theorem exists_traceBody_firstOf (h : a.TracedBy (a.allCallsIn extractors) body all) (depth : Nat) :
    ∃ calls, a.traceBody extractors depth body = some calls ∧ Call.FirstOf calls all := by
  induction depth generalizing body all with
  | zero => exact ⟨[], rfl, .nil⟩
  | succ depth ih =>
    cases h with
    | intro found nested =>
      obtain ⟨first, hfirst, hpre⟩ := exists_callsIn_of_allCallsIn found
      choose! inner hinner using fun e (he : e ∈ all) => ih (nested e he)
      obtain ⟨n, rfl⟩ : ∃ n, first = (all.take n).map Call.target := by
        refine ⟨first.length, ?_⟩
        rw [List.map_take]
        exact List.prefix_iff_eq_take.1 hpre
      refine ⟨_, ?_, Call.firstOf_map_take (fun e he => (hinner e he).2) n⟩
      rw [traceBody, hfirst, Option.bind_eq_bind, Option.bind_some, List.mapM_map]
      apply mapM_eq_some_map
      intro e he
      have hentry := (hinner e (List.mem_of_mem_take he)).1
      simp [Call.target, hentry]

/-- A body of up to ten statements is looked at as a whole. -/
theorem lookedAt_eq_self (h : body.length ≤ 10) : lookedAt body = body := by
  rw [lookedAt, lastLooked_of_short h]
  apply List.take_of_length_le
  omega

theorem traced_of_short (short : ∀ block body, a.statements? block = some body → body.length ≤ 10)
    (hbody : body.length ≤ 10) (h : a.TracedBy (a.allCallsIn extractors) body all) :
    a.Traced extractors body all := by
  induction h with
  | intro found _ ih =>
    refine .intro ?_ fun e he => ih e he ?_
    · rw [callsIn_eq_callsAmong, lookedAt_eq_self hbody]
      exact found
    · cases hinner : a.statements? e.callee with
      | none => simp
      | some inner => exact short _ _ hinner

end Arena

namespace ImportedAs

variable {v : Json} {a : Arena} {root : Ref} {t : Tree} {above : List Spot} {s : Spot}

/-- The body of a scope has a trace without limits: each call leads further down the tree. -/
theorem exists_tracedBy_allCallsIn (h : ImportedAs v a root t) (way : Spot.Path ⟨0, t⟩ above s)
    (hopen : a.opensScope s.ref = true) :
    ∃ all, a.TracedBy (a.allCallsIn [Arena.functionExpressions]) (s.kids.map Spot.ref) all := by
  induction hn : s.tree.height using Nat.strong_induction_on generalizing above s with
  | _ n ih =>
    subst hn
    have hnested : ∀ x ∈ Spot.foundAmong s.kids s.kids, ∃ inner,
        a.TracedBy (a.allCallsIn [Arena.functionExpressions])
          ((a.statements? x.2.ref).getD []) inner := by
      intro x hx
      obtain ⟨above', way', hscope⟩ := h.exists_path_of_mem_foundAmong way (fun _ hk => hk) hx
      rw [h.holds.statements?_eq way']
      cases hb : x.2.shape.statements? with
      | none => exact ⟨[], .intro rfl (by simp)⟩
      | some body =>
        have hlow : x.2.tree.height < s.tree.height := by
          obtain ⟨k, hk, f, between, way, -⟩ :=
            Spot.exists_path_of_mem_foundAmong (fun _ hk => hk) hx
          have hkid := Spot.height_lt_of_mem_kids hk
          have hlength := way.length_add_height_le
          omega
        exact ih _ hlow way' (hscope (by simp [hb])) rfl
    choose! inner hinner using hnested
    refine ⟨(Spot.foundAmong s.kids s.kids).map fun x => .mk x.1 x.2.ref (inner x), .intro ?_ ?_⟩
    · rw [Arena.allCallsIn, h.callsAmong_eq way hopen fun _ hk => hk, List.map_map]
      rfl
    · intro e he
      obtain ⟨x, hx, rfl⟩ := List.mem_map.1 he
      exact hinner x hx

end ImportedAs

/-- An imported program has one trace for which all statements of every body are looked at and which may
go to any depth. The trace exists and is the beginning of this one at every level: it has the first
entries, with the same names and callees, and in each of them again the first ones of what is nested
there. It is the same if every program and block has at most ten statements. -/
theorem defaultTrace_firstOf_all {v : Json} {a : Arena} {root : Ref}
    (h : importProgram v = .ok (a, root)) (hs : a.size ≤ 2 ^ 32 - 1) :
    ∃ calls all, a.defaultTrace root = some calls ∧
      (∀ entries, a.TracedBy (a.allCallsIn [Arena.functionExpressions])
        ((a.statements? root).getD []) entries ↔ entries = all) ∧
      Call.FirstOf calls all ∧
      ((∀ block body, a.statements? block = some body → body.length ≤ 10) → calls = all) := by
  obtain ⟨t, imported⟩ := importedAs_of_importProgram h hs
  have hbody : (a.statements? root).getD [] = (Spot.kids ⟨0, t⟩).map Spot.ref := by
    rw [imported.statements?_root, Option.getD_some]
  obtain ⟨all, hall⟩ := imported.exists_tracedBy_allCallsIn .here imported.opensScope_root
  rw [← hbody] at hall
  obtain ⟨calls, hcalls, hfirst⟩ := Arena.exists_traceBody_firstOf hall maxDepth
  refine ⟨calls, all, hcalls, fun entries => ?_, hfirst, fun short => ?_⟩
  · exact ⟨fun hentries => hentries.unique hall, fun heq => heq ▸ hall⟩
  · have hlow : ∀ k ∈ Spot.kids ⟨0, t⟩, k.tree.height ≤ 3 * maxDepth :=
      fun k hk => imported.height_le_of_path (Spot.Path.here.down hk)
    have htraced := imported.traced .here imported.opensScope_root hlow
    rw [← hbody] at htraced
    have hshort := Arena.traced_of_short short (short root _ (by simp [imported.statements?_root])) hall
    rw [hshort.unique htraced]
    exact Option.some.inj (hcalls.symm.trans imported.defaultTrace_eq)

/-- The name `f` is found past the statements that are looked at. The second call of `f` and the second
call in its body, which is node 30, are cut off. -/
theorem defaultTrace_firstOf_all_longBodies :
    ∃ a root calls all, importProgram Sample.longBodies = .ok (a, root) ∧
      a.defaultTrace root = some calls ∧
      calls.map (fun e => (e.target, e.calls.map Call.target)) =
        [(⟨some 30, some "f"⟩, [⟨some 13, none⟩])] ∧
      a.TracedBy (a.allCallsIn [Arena.functionExpressions]) ((a.statements? root).getD []) all ∧
      all.map Call.target = [⟨some 30, some "f"⟩, ⟨some 30, some "f"⟩] ∧
      (∀ e ∈ all, e.calls.map Call.target = [⟨some 13, none⟩, ⟨some 26, none⟩]) ∧
      Call.FirstOf calls all := by
  have himport : (importProgram Sample.longBodies).map (fun p =>
      (p.1.size, p.1.allCallsIn [Arena.functionExpressions] ((p.1.statements? p.2).getD []),
        p.1.allCallsIn [Arena.functionExpressions] ((p.1.statements? (some 30)).getD []))) =
      .ok (38, some [⟨some 30, some "f"⟩, ⟨some 30, some "f"⟩],
        some [⟨some 13, none⟩, ⟨some 26, none⟩]) := by
    decide +kernel
  have htrace : (importProgram Sample.longBodies).map (fun p => (p.1.defaultTrace p.2).map
      (List.map fun e => (e.target, e.calls.map Call.target))) =
      .ok (some [(⟨some 30, some "f"⟩, [⟨some 13, none⟩])]) := by
    decide +kernel
  obtain ⟨⟨a, root⟩, h, hp⟩ := exists_ok_of_map himport
  simp only [Prod.mk.injEq] at hp
  obtain ⟨hsize, htop, hinner⟩ := hp
  obtain ⟨calls, all, hcalls, hall, hfirst, -⟩ := defaultTrace_firstOf_all h (by omega)
  rw [h] at htrace
  have hlist := Except.ok.inj htrace
  simp only [hcalls, Option.map_some, Option.some_inj] at hlist
  have htraced := (hall all).2 rfl
  refine ⟨a, root, calls, all, h, hcalls, hlist, htraced, ?_, ?_, hfirst⟩
  · cases htraced with
    | intro found nested => exact Option.some.inj (found.symm.trans htop)
  · cases htraced with
    | intro found nested =>
      intro e he
      have htarget : e.target = ⟨some 30, some "f"⟩ := by
        have hmem := List.mem_map_of_mem (f := Call.target) he
        rw [← Option.some.inj (htop.symm.trans found)] at hmem
        simpa using hmem
      have hcallee : e.callee = some 30 := congrArg Callee.body htarget
      cases hnested : nested e he with
      | intro found' _ =>
        rw [hcallee] at found'
        exact Option.some.inj (found'.symm.trans hinner)

end CallTrace
