import CallTrace.Command.Run
import CallTrace.Proofs.Callees
import CallTrace.Proofs.Documents
import CallTrace.Proofs.ReadBack

/-!
What is reported of a file.

A report has the entries of the trace with two members more, the offsets of the body that runs. They are
looked up in the arena when the report is written. Since the body is a node that was imported from the
`body` of a function expression, they are the offsets that this object gives, at every depth of the report.
-/
namespace CallTrace

namespace Json

mutual

/-- The value without the members that have one of the keys, at any depth. -/
def without (keys : List String) : Json → Json
  | .array items => .array (withoutIn keys items)
  | .object members => .object (membersWithout keys members)
  | v => v

def withoutIn (keys : List String) : List Json → List Json
  | [] => []
  | v :: rest => without keys v :: withoutIn keys rest

def membersWithout (keys : List String) : List (String × Json) → List (String × Json)
  | [] => []
  | (key, v) :: rest =>
    if key ∈ keys then membersWithout keys rest
    else (key, without keys v) :: membersWithout keys rest

end

/-- An entry of a report, at any depth. -/
inductive Reported (e : Json) : List Json → Prop
  | here {entries : List Json} (mem : e ∈ entries) : Reported e entries
  | within {entries inner : List Json} {entry : Json} (mem : entry ∈ entries)
      (nested : entry.get? "stack_trace" = some (.array inner)) (below : Reported e inner) :
      Reported e entries

/-- A value has what an entry of a trace has: the name or null, the number of the callee and, in their
order, values for the entries below it. -/
inductive Shows : Json → Call → Prop
  | entry {name : Option String} {b : Index} {calls : List Call} {entries : List Json}
      (nested : List.Forall₂ Shows entries calls) :
      Shows (.object [("name", name.elim .null .string), ("callee", .int b.val),
        ("stack_trace", .array entries)]) (.mk name (some b) calls)

end Json

theorem entriesJson_eq_map (a : Arena) (calls : List Call) :
    entriesJson a calls = calls.map (entryJson a) := by
  induction calls with
  | nil => rw [entriesJson, List.map_nil]
  | cons c calls ih => rw [entriesJson, ih, List.map_cons]

theorem withoutIn_eq_map (keys : List String) (items : List Json) :
    Json.withoutIn keys items = items.map (Json.without keys) := by
  induction items with
  | nil => rw [Json.withoutIn, List.map_nil]
  | cons v items ih => rw [Json.withoutIn, ih, List.map_cons]

theorem get?_entryJson (a : Arena) (c : Call) :
    (entryJson a c).get? "callee" = some (.int (Ref.code c.callee)) ∧
    (entryJson a c).get? "pos" = some (.int ((a.span? c.callee).getD ⟨0, 0⟩).pos.toNat) ∧
    (entryJson a c).get? "end" = some (.int ((a.span? c.callee).getD ⟨0, 0⟩).stop.toNat) ∧
    (entryJson a c).get? "stack_trace" = some (.array (entriesJson a c.calls)) := by
  obtain ⟨name, callee, calls⟩ := c
  simp [entryJson, Json.get?, Json.lookup, Call.callee, Call.calls, Ref.toJson, wordJson]

theorem without_entryJson (a : Arena) (name : Option String) (b : Index) (calls : List Call) :
    (entryJson a (.mk name (some b) calls)).without ["pos", "end"] =
      .object [("name", name.elim .null .string), ("callee", .int b.val),
        ("stack_trace", .array ((entriesJson a calls).map (Json.without ["pos", "end"])))] := by
  cases name <;>
    simp [entryJson, Json.without, Json.membersWithout, withoutIn_eq_map, Record.optionalText,
      Ref.toJson, Ref.code]

theorem Call.Occurs.cons {c c' : Call} {calls : List Call} (h : Call.Occurs c calls) :
    Call.Occurs c (c' :: calls) := by
  cases h with
  | here mem => exact .here (List.mem_cons_of_mem _ mem)
  | within mem below => exact .within (List.mem_cons_of_mem _ mem) below

/-- Without the offsets the entries of a report are those of the trace, if each of them runs a body. -/
theorem shows_entriesJson (a : Arena) :
    ∀ calls : List Call, (∀ c, Call.Occurs c calls → c.callee.isSome) →
      List.Forall₂ Json.Shows ((entriesJson a calls).map (Json.without ["pos", "end"])) calls
  | [], _ => .nil
  | .mk name none calls :: rest, h => by
    have hcallee := h _ (.here List.mem_cons_self)
    cases hcallee
  | .mk name (some b) calls :: rest, h => by
    have hcalls := shows_entriesJson a calls fun c hc => h c (.within List.mem_cons_self hc)
    have hrest := shows_entriesJson a rest fun c hc => h c hc.cons
    rw [entriesJson, List.map_cons, without_entryJson]
    exact .cons (.entry hcalls) hrest

/-- The entries of a report are those of the trace, at every depth. -/
theorem exists_occurs_of_reported {a : Arena} {calls : List Call} {e : Json}
    (h : Json.Reported e (entriesJson a calls)) : ∃ c, Call.Occurs c calls ∧ e = entryJson a c := by
  generalize hentries : entriesJson a calls = entries at h
  induction h generalizing calls with
  | here mem =>
    rw [← hentries, entriesJson_eq_map] at mem
    obtain ⟨c, hc, rfl⟩ := List.mem_map.1 mem
    exact ⟨c, .here hc, rfl⟩
  | @within entries inner entry mem nested _ ih =>
    rw [← hentries, entriesJson_eq_map] at mem
    obtain ⟨c, hc, rfl⟩ := List.mem_map.1 mem
    obtain ⟨-, -, -, hcalls⟩ := get?_entryJson a c
    have hinner : entriesJson a c.calls = inner :=
      Json.array.inj (Option.some.inj (hcalls.symm.trans nested))
    obtain ⟨c', hbelow, rfl⟩ := ih hinner
    exact ⟨c', .within hc hbelow, rfl⟩

namespace Arena

variable {a : Arena}

theorem exists_of_mem_callsIn {body : List Ref} {found : List Callee} {c : Callee}
    (h : a.callsIn [functionExpressions] body = some found) (hc : c ∈ found) :
    ∃ callee, functionExpressions a body callee = some (some c) := by
  obtain ⟨callees, -, h⟩ := Option.bind_eq_some_iff.1 h
  obtain ⟨lists, hlists, h⟩ := Option.bind_eq_some_iff.1 h
  obtain rfl := Option.some.inj h
  obtain ⟨list, hlist, hc⟩ := List.mem_flatten.1 hc
  obtain ⟨callee, -, hresolutions⟩ := exists_of_mem_mapM hlists hlist
  obtain ⟨answers, hanswers, rfl⟩ := Option.map_eq_some_iff.1 hresolutions
  obtain ⟨answer, hanswer, rfl⟩ := List.mem_filterMap.1 hc
  obtain ⟨extract, hextract, hfound⟩ := exists_of_mem_mapM hanswers hanswer
  obtain rfl := List.mem_singleton.1 hextract
  exact ⟨callee, hfound⟩

/-- Whatever occurs in a trace runs the body of a function expression. -/
theorem exists_expressionBody_of_occurs (free : ∀ r, a.Uncircled r) {depth : Nat} {body : List Ref}
    {calls : List Call} {e : Call} (h : a.traceBody [functionExpressions] depth body = some calls)
    (he : e.Occurs calls) : ∃ f b, e.callee = some b ∧ a.ExpressionBody f b := by
  induction he generalizing depth body with
  | @here calls mem =>
    cases depth with
    | zero =>
      obtain rfl := Option.some.inj h
      cases mem
    | succ depth =>
      obtain ⟨found, hfound, hentries⟩ := Option.bind_eq_some_iff.1 h
      obtain ⟨c, hc, hentry⟩ := exists_of_mem_mapM hentries mem
      obtain ⟨nested, -, hmk⟩ := Option.bind_eq_some_iff.1 hentry
      obtain rfl := Option.some.inj hmk
      obtain ⟨callee, hcallee⟩ := exists_of_mem_callsIn hfound hc
      exact exists_of_functionExpressions free hcallee
  | @within calls c mem _ ih =>
    cases depth with
    | zero =>
      obtain rfl := Option.some.inj h
      cases mem
    | succ depth => exact ih (traceBody_of_mem h mem)

end Arena

/-- The span of an imported node is the one of the object that it was imported from. -/
theorem ImportedAs.span?_eq {v : Json} {a : Arena} {root : Ref} {t : Tree} (h : ImportedAs v a root t)
    {r : Ref} {members : Tree.Members} (ho : Origin v a root r (.object members)) :
    a.span? r = some (Json.spanOf members) := by
  obtain ⟨above, s, way, rfl, hreads⟩ := h.exists_of_origin ho
  obtain ⟨l, members', type, -, hm, -, hspan, -⟩ := hreads.object
  cases hm
  rw [Arena.span?, h.holds.info? way, Json.spanOf_eq, ← hspan]
  rfl

theorem answer_analyze {files : Files} {path text : String} {v : Json} {a : Arena} {root : Ref}
    {calls : List Call} (hfile : files path = .ok text) (hparse : Json.parse text = .ok v)
    (h : importProgram v = .ok (a, root)) (htrace : a.defaultTrace root = some calls) :
    Command.answer files (.analyze [path]) = .ok (.array [.object
      [("file", .string path), ("stack_trace", .array (entriesJson a calls))]]) := by
  have hload : loadProgram files path = .ok ⟨a, root⟩ := by
    simp only [loadProgram, hfile, importText, hparse, h]
  simp [Command.answer, hload, reportJson, Loaded.trace, htrace]

/-- The report of a file that can be imported has the default trace, with two members more in each entry:
without `pos` and `end` it is the trace. Every entry of it, at any depth, names a node that was imported
from the body of a function expression, and `pos` and `end` are the offsets that the object of this body
gives. -/
theorem analyze_reports_body_spans {files : Files} {path text : String} {v : Json} {a : Arena}
    {root : Ref} (hfile : files path = .ok text) (hparse : Json.parse text = .ok v)
    (h : importProgram v = .ok (a, root)) (hs : a.size ≤ 2 ^ 32 - 1) :
    ∃ calls entries, a.defaultTrace root = some calls ∧
      Command.answer files (.analyze [path]) =
        .ok (.array [.object [("file", .string path), ("stack_trace", .array entries)]]) ∧
      List.Forall₂ Json.Shows (entries.map (Json.without ["pos", "end"])) calls ∧
      ∀ e, Json.Reported e entries → ∃ b : Index,
        e.get? "callee" = some (.int b.val) ∧ (∃ members, BodyOrigin v a root b members) ∧
        ∀ members, Origin v a root (some b) (.object members) →
          e.get? "pos" = some (.int (Json.spanOf members).pos.toNat) ∧
          e.get? "end" = some (.int (Json.spanOf members).stop.toNat) := by
  obtain ⟨t, imported⟩ := importedAs_of_importProgram h hs
  have htrace := imported.defaultTrace_eq
  refine ⟨_, _, htrace, answer_analyze hfile hparse h htrace, ?_, ?_⟩
  · refine shows_entriesJson a _ fun c hoccurs => ?_
    obtain ⟨f, b, hb, -⟩ := Arena.exists_expressionBody_of_occurs imported.uncircled htrace hoccurs
    rw [hb]
    rfl
  · intro e he
    obtain ⟨c, hoccurs, rfl⟩ := exists_occurs_of_reported he
    obtain ⟨f, b, hb, hbody⟩ :=
      Arena.exists_expressionBody_of_occurs imported.uncircled htrace hoccurs
    obtain ⟨hcallee, hpos, hend, -⟩ := get?_entryJson a c
    rw [hb] at hcallee hpos hend
    refine ⟨b, hcallee, imported.exists_bodyOrigin hbody, fun members horigin => ?_⟩
    rw [imported.span?_eq horigin] at hpos hend
    exact ⟨hpos, hend⟩

namespace Sample

def spannedFunction (name : Json) (pos stop : Int) (body : Json) : Json :=
  node "FunctionExpression" [("id", name), ("start", .int pos), ("end", .int stop), ("body", body)]

/-- `(function () { (function g() {})(); })()`, with offsets at both functions, a range at the outer body
and half of the offsets at the inner one. -/
def spannedCalls : Json :=
  node "Program" [("start", .int 0), ("end", .int 40), ("body", .array
    [callStatement (spannedFunction .null 1 37 (node "BlockStatement"
      [("range", .array [.int 13, .int 37]), ("body", .array
        [callStatement (spannedFunction (identifier "g") 16 31
          (node "BlockStatement" [("start", .int 29), ("body", .array [])]))])]))])]

def spannedFile : Files := fun _ => .ok spannedCalls.compress

theorem parse_spannedCalls : Json.parse spannedCalls.compress = .ok spannedCalls := by
  have hint : ∀ n : Int, 0 ≤ n → n ≤ 40 → (Json.int n).Exact :=
    fun n hlow hhigh => .int (by omega) (by omega)
  have hexact : spannedCalls.Exact := by
    simp [spannedCalls, spannedFunction, callStatement, call, identifier, node, hint]
  rw [Json.parse, Json.read_compress Json.document hexact]
  rfl

/-- What is reported of it: the outer body has the offsets of its range, the inner one none. -/
def spannedEntry : Json :=
  .object [("name", .null), ("callee", .int 5), ("pos", .int 13), ("end", .int 37),
    ("stack_trace", .array [.object [("name", .string "g"), ("callee", .int 1), ("pos", .int 0),
      ("end", .int 0), ("stack_trace", .array [])]])]

end Sample

theorem Call.flattenList_eq_nil {depth : Nat} {calls : List Call} (h : flattenList depth calls = []) :
    calls = [] := by
  rcases calls with _ | ⟨⟨name, callee, calls⟩, rest⟩
  · rfl
  · simp [flattenList, flatten] at h

/-- The outer entry has the range of its body, which is node 5, and not the offsets of the function. -/
theorem analyze_reports_body_spans_spannedCalls :
    ∃ a root members, importProgram Sample.spannedCalls = .ok (a, root) ∧
      Command.answer Sample.spannedFile (.analyze ["f.json"]) = .ok (.array [.object
        [("file", .string "f.json"), ("stack_trace", .array [Sample.spannedEntry])]]) ∧
      BodyOrigin Sample.spannedCalls a root 5 members ∧
      (Json.spanOf members).pos.toNat = 13 ∧ (Json.spanOf members).stop.toNat = 37 := by
  have himport : (importProgram Sample.spannedCalls).map (fun p =>
      (p.1.size, p.1.span? (some 5), p.1.span? (some 1))) =
      .ok (10, some ⟨13, 37⟩, some ⟨0, 0⟩) := by
    decide +kernel
  have hcallees : (importProgram Sample.spannedCalls).map (fun p => (p.1.defaultTrace p.2).map
      (List.map fun c => (c.callee, c.calls.map Call.callee))) = .ok (some [(some 5, [some 1])]) := by
    decide +kernel
  have hflat : (importProgram Sample.spannedCalls).map (fun p =>
      (p.1.defaultTrace p.2).map (Call.flattenList 0)) =
      .ok (some [(0, none, some 5), (1, some "g", some 1)]) := by
    decide +kernel
  obtain ⟨⟨a, root⟩, h, hp⟩ := exists_ok_of_map himport
  simp only [Prod.mk.injEq] at hp
  obtain ⟨hsize, houter, hinner⟩ := hp
  have hfile : Sample.spannedFile "f.json" = .ok Sample.spannedCalls.compress := rfl
  obtain ⟨calls, entries, hdefault, hanswer, -, hentries⟩ :=
    analyze_reports_body_spans hfile Sample.parse_spannedCalls h (by omega)
  rw [h] at hcallees hflat
  replace hcallees := Except.ok.inj hcallees
  replace hflat := Except.ok.inj hflat
  simp only [hdefault, Option.map_some, Option.some_inj] at hcallees hflat
  obtain ⟨⟨name, callee, calls⟩, rfl, hc⟩ := List.map_eq_singleton_iff.1 hcallees
  obtain ⟨rfl, hcalls⟩ := Prod.mk.inj hc
  obtain ⟨⟨name', callee', calls'⟩, rfl, rfl⟩ := List.map_eq_singleton_iff.1 hcalls
  obtain ⟨rfl, rfl, hleaf⟩ : name = none ∧ name' = some "g" ∧ Call.flattenList 2 calls' = [] := by
    simpa [Call.flattenList, Call.flatten] using hflat
  obtain rfl : calls' = [] := Call.flattenList_eq_nil hleaf
  have hjson : entriesJson a [.mk none (some 5) [.mk (some "g") (some 1) []]] =
      [Sample.spannedEntry] := by
    simp only [entriesJson, entryJson, houter, hinner]
    rfl
  have hreport := answer_analyze hfile Sample.parse_spannedCalls h hdefault
  rw [hjson] at hreport
  have hentry : [Sample.spannedEntry] = entries := by
    simpa using hreport.symm.trans hanswer
  obtain ⟨b, hb, ⟨members, hbody⟩, hspan⟩ :=
    hentries Sample.spannedEntry (.here (hentry ▸ List.mem_singleton_self _))
  obtain ⟨hpos, hend⟩ := hspan members hbody.1
  have hb5 : (5 : Int) = b.val := Json.int.inj (Option.some.inj hb)
  have hpos13 : (13 : Int) = (Json.spanOf members).pos.toNat := Json.int.inj (Option.some.inj hpos)
  have hend37 : (37 : Int) = (Json.spanOf members).stop.toNat := Json.int.inj (Option.some.inj hend)
  obtain rfl : b = 5 := Fin.ext (by omega)
  exact ⟨a, root, members, h, hreport, hbody, by omega, by omega⟩

end CallTrace
