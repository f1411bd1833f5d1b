import CallTrace.Import
import CallTrace.Proofs.Storage

/-!
Documents as text.

A document that is given as text is read to its end before anything is imported. The text of an object
is over at its closing brace: after it, blanks change nothing, and any other character makes the text
malformed, whatever the object holds. Since the keys of an object are distinct (`Json.Keyed`), the value
that is read is the one that was printed.
-/
namespace CallTrace

namespace Json

/-- The keys of each object in the value are distinct. -/
inductive Keyed : Json → Prop
  | null : Keyed .null
  | bool (b : Bool) : Keyed (.bool b)
  | int (n : Int) : Keyed (.int n)
  | float (negative : Bool) (magnitude : Binary64) : Keyed (.float negative magnitude)
  | string (s : String) : Keyed (.string s)
  | array {items : List Json} (all : ∀ v ∈ items, Keyed v) : Keyed (.array items)
  | object {members : List (String × Json)} (distinct : (members.map Prod.fst).Nodup)
      (all : ∀ m ∈ members, Keyed m.2) : Keyed (.object members)

/-! ### The value that is read -/

theorem put_eq_append {members : List (String × Json)} {m : String × Json}
    (h : m.1 ∉ members.map Prod.fst) : put members m = members ++ [m] := by
  have hnew : members.any (fun x => x.1 = m.1) = false := by
    rw [List.any_eq_false]
    intro x hx heq
    exact h (of_decide_eq_true heq ▸ List.mem_map_of_mem hx)
  rw [put, hnew]
  rfl

theorem foldl_put_eq_append {before members : List (String × Json)}
    (h : ((before ++ members).map Prod.fst).Nodup) : members.foldl put before = before ++ members := by
  induction members generalizing before with
  | nil => simp
  | cons m members ih =>
    have hm : m.1 ∉ before.map Prod.fst := by
      rw [List.map_append, List.map_cons] at h
      exact fun hmem => (List.disjoint_of_nodup_append h) hmem List.mem_cons_self
    rw [List.foldl_cons, put_eq_append hm, ih (by simpa using h), List.append_assoc]
    rfl

theorem lastWins_eq_self {members : List (String × Json)} (h : (members.map Prod.fst).Nodup) :
    lastWins members = members :=
  @foldl_put_eq_append [] members h

theorem Keyed.value_document {v : Json} (h : Keyed v) : document.value v = v := by
  induction h with
  | null | bool | int | float | string => rfl
  | @array items _ ih =>
    have hitems : items.map document.value = items := (List.map_congr_left ih).trans (List.map_id _)
    rw [Reading.value_array, hitems]
    rfl
  | @object members distinct _ ih =>
    have hnamed : named (members.map fun m => (some m.1, document.value m.2)) = members := by
      have hmember : ∀ m ∈ members, (m.1, document.value m.2) = m := fun m hm => by rw [ih m hm]
      rw [named, List.filterMap_map]
      exact (List.filterMap_congr fun m hm => congrArg some (hmember m hm)).trans List.filterMap_some
    rw [Reading.value_object]
    change Json.object (lastWins (named _)) = _
    rw [hnamed, lastWins_eq_self distinct]

/-! ### What follows an object -/

variable {α : Type}

theorem run_done (r : Reading α) (v : α) (cs : List Char) :
    run r ⟨.done v, []⟩ cs = if cs.all isBlank then some ⟨.done v, []⟩ else none := by
  induction cs with
  | nil => rfl
  | cons c cs ih =>
    cases hc : isBlank c with
    | true =>
      have hstep : step r ⟨.done v, []⟩ c = some ⟨.done v, []⟩ := by simp [step, follow, hc]
      rw [run, hstep, List.all_cons, hc, Bool.true_and]
      exact ih
    | false =>
      have hstep : step r ⟨.done v, []⟩ c = none := by simp [step, follow, hc]
      rw [run, hstep, List.all_cons, hc, Bool.false_and]
      rfl

/-- The text of an object is read as the object if only blanks follow, and is malformed otherwise. -/
theorem read_object_append (r : Reading α) {members : List (String × Json)}
    (h : Exact (.object members)) (text : String) :
    read r ((Json.object members).compress ++ text) =
      if text.toList.all isBlank then .ok (r.value (.object members)) else .error .malformed := by
  have hempty : Reaches r "" .start := rfl
  have hmembers : ∀ m ∈ members, ReadsBack r m.2 := fun m hm => (exact_object_iff.1 h m hm).readsBack
  have hrun : run r .start (Json.object members).compress.toList =
      some ⟨.done (r.value (.object members)), []⟩ := hempty.writeObject hmembers State.awaits_start
  rw [read, String.toList_append, run_append, hrun, Option.bind_some, run_done]
  cases text.toList.all isBlank <;> rfl

end Json

/-- The text of an object whose numbers are integers of 64 bits and whose keys are distinct, followed by
blanks, is imported as the object itself, with the same arena or the same error. With any other character
behind it the text is no JSON, also if the object could not be imported. -/
theorem importText_compress_append {members : List (String × Json)}
    (exact : (Json.object members).Exact) (keyed : (Json.object members).Keyed) (text : String) :
    ((∀ c ∈ text.toList, c ∈ [' ', '\t', '\r', '\n']) →
      importText ((Json.object members).compress ++ text) = importProgram (.object members)) ∧
    ((∃ c ∈ text.toList, c ∉ [' ', '\t', '\r', '\n']) →
      importText ((Json.object members).compress ++ text) = .error (.notJson .malformed)) := by
  have hblank : ∀ c, Json.isBlank c = true ↔ c ∈ [' ', '\t', '\r', '\n'] := by
    intro c
    simp [Json.isBlank, or_assoc]
  have hread := Json.read_object_append Json.document exact text
  rw [keyed.value_document] at hread
  constructor
  · intro hall
    have hblanks : text.toList.all Json.isBlank = true :=
      List.all_eq_true.2 fun c hc => (hblank c).2 (hall c hc)
    rw [hblanks, if_pos rfl] at hread
    rw [importText, Json.parse, hread]
  · rintro ⟨c, hc, hother⟩
    have hblanks : ¬ text.toList.all Json.isBlank = true := fun hall =>
      hother ((hblank c).1 (List.all_eq_true.1 hall c hc))
    rw [if_neg hblanks] at hread
    rw [importText, Json.parse, hread]

/-- A program whose only statement is a number, which no program may have. -/
def Sample.numberStatement : List (String × Json) :=
  [("type", .string "Program"), ("body", .array [.int 7])]

/-- With a line break behind it the document is refused for its statement, with a letter behind it for
its text. -/
theorem importText_compress_append_numberStatement :
    importText ((Json.object Sample.numberStatement).compress ++ " \n") =
      .error (.unexpectedValue "body" .node) ∧
    importText ((Json.object Sample.numberStatement).compress ++ " \nx") =
      .error (.notJson .malformed) := by
  have himport : importProgram (.object Sample.numberStatement) =
      .error (.unexpectedValue "body" .node) := by
    decide +kernel
  have hseven : Json.Exact (.int 7) := .int (by decide) (by decide)
  have hexact : (Json.object Sample.numberStatement).Exact := by
    simp [Sample.numberStatement, hseven]
  have hkeyed : (Json.object Sample.numberStatement).Keyed := by
    refine .object (by decide) ?_
    simp [Sample.numberStatement, Json.Keyed.string, Json.Keyed.array, Json.Keyed.int]
  have hblanks : ∀ c ∈ " \n".toList, c ∈ [' ', '\t', '\r', '\n'] := by
    change ∀ c ∈ [' ', '\n'], c ∈ [' ', '\t', '\r', '\n']
    simp
  obtain ⟨hblank, -⟩ := importText_compress_append hexact hkeyed " \n"
  obtain ⟨-, hother⟩ := importText_compress_append hexact hkeyed " \nx"
  exact ⟨(hblank hblanks).trans himport, hother ⟨'x', by decide, by decide⟩⟩

end CallTrace
