import CallTrace.Proofs.Layout
import CallTrace.Proofs.Printing
import CallTrace.Trace.Record

/-!
Stored records.

A record is stored as compact text. Its text is read as the cell of the same shape (`Cell.ofJson`), so what
remains is that decoding the cell undoes the encoding, field by field and kind by kind. References and
offsets are 32-bit words, and no record holds a float.
-/
namespace CallTrace

namespace Json

attribute [simp] Exact.null Exact.bool Exact.string

@[simp] theorem exact_array_iff {items : List Json} : Exact (.array items) ↔ ∀ v ∈ items, Exact v :=
  ⟨fun h => by cases h with | array all => exact all, .array⟩

@[simp] theorem exact_object_iff {members : List (String × Json)} :
    Exact (.object members) ↔ ∀ m ∈ members, Exact m.2 :=
  ⟨fun h => by cases h with | object all => exact all, .object⟩

end Json

namespace Cell

/-- The cell that the text of a value is read as. -/
def ofJson (v : Json) : Cell := reading.value v

@[simp] theorem ofJson_null : ofJson .null = .scalar .null := rfl

@[simp] theorem ofJson_bool (b : Bool) : ofJson (.bool b) = .scalar (.bool b) := rfl

@[simp] theorem ofJson_int (n : Int) : ofJson (.int n) = .scalar (.int n) := rfl

@[simp] theorem ofJson_string (s : String) : ofJson (.string s) = .scalar (.string s) := rfl

theorem ofJson_array (items : List Json) : ofJson (.array items) = .list (items.map ofJson) :=
  reading.value_array items

theorem ofJson_object (members : List (String × Json)) :
    ofJson (.object members) = .record (members.map fun m => (m.1, ofJson m.2)) := by
  have hnamed : Json.named (members.map fun m => (some m.1, ofJson m.2)) =
      members.map fun m => (m.1, ofJson m.2) := by
    simp [Json.named, List.filterMap_map]
  calc ofJson (.object members)
      = ofMembers (members.map fun m => (some m.1, ofJson m.2)) := reading.value_object members
    _ = .record (members.map fun m => (m.1, ofJson m.2)) := by simp [ofMembers, hnamed]

theorem find?_key {members : List (String × Cell)} (hnodup : (members.map Prod.fst).Nodup)
    {m : String × Cell} (hm : m ∈ members) : members.find? (fun x => x.1 = m.1) = some m := by
  induction members with
  | nil => cases hm
  | cons x members ih =>
    rw [List.map_cons, List.nodup_cons] at hnodup
    rcases List.mem_cons.1 hm with rfl | hm
    · simp
    · have hne : x.1 ≠ m.1 := fun h => hnodup.1 (h ▸ List.mem_map_of_mem hm)
      simp [hne, ih hnodup.2 hm]

/-- All fields of a record whose names differ are found, each once. -/
theorem fields?_record {members : List (String × Cell)} (hnodup : (members.map Prod.fst).Nodup) :
    (Cell.record members).fields? (members.map Prod.fst) = some (members.map fun m => some m.2) := by
  have honce : (members.map Prod.fst).all
      (fun name => decide ((members.filter fun m => m.1 = name).length ≤ 1)) = true := by
    simp only [List.all_eq_true, decide_eq_true_eq]
    intro name _
    have hcount := List.nodup_iff_count_le_one.1 hnodup name
    rwa [List.count, List.countP_map, List.countP_eq_length_filter] at hcount
  have hfound : (members.map Prod.fst).map (fun name => (members.find? fun m => m.1 = name).map (·.2)) =
      members.map fun m => some m.2 := by
    rw [List.map_map]
    refine List.map_congr_left fun m hm => ?_
    simp [find?_key hnodup hm]
  rw [fields?, if_pos honce, hfound]

@[simp] theorem fields?_ofJson {members : List (String × Json)} {names : List String}
    (hnames : members.map Prod.fst = names) (hnodup : names.Nodup) :
    (ofJson (.object members)).fields? names = some (members.map fun m => some (ofJson m.2)) := by
  have hkeys : (members.map fun m => (m.1, ofJson m.2)).map Prod.fst = names := by
    rw [List.map_map]
    exact hnames
  have hfields := fields?_record (hkeys ▸ hnodup)
  rwa [hkeys, List.map_map, ← ofJson_object] at hfields

theorem list?_ofJson {α : Type} {encode : α → Json} {item? : Cell → Option α}
    (h : ∀ x, item? (ofJson (encode x)) = some x) (xs : List α) :
    (ofJson (.array (xs.map encode))).list? item? = some xs := by
  have hitem : (fun x => item? (ofJson (encode x))) = some := funext h
  rw [ofJson_array, list?, List.map_map, List.mapM_map]
  simp only [Function.comp_def, hitem]
  exact (List.mapM_pure (f := id)).trans (by simp)

/-- The cells of encoded values, taken as closed. Evaluating the decoder on the cell of a word compares
numbers up to `2 ^ 32` one by one. -/
theorem exists_cell {α : Type} {encode : α → Json} {decode? : Cell → Option α}
    (h : ∀ x, decode? (ofJson (encode x)) = some x) :
    ∃ cell : α → Cell, (∀ x, ofJson (encode x) = cell x) ∧ ∀ x, decode? (cell x) = some x :=
  ⟨_, fun _ => rfl, h⟩

end Cell

theorem Record.parse?_compress {α : Type} {decode? : Cell → Option α} {v : Json} {x : α}
    (hv : v.Exact) (h : decode? (Cell.ofJson v) = some x) : parse? decode? v.compress = some x := by
  rw [parse?, Json.read_compress Cell.reading hv]
  exact h

/-! ### Words, references and tags -/

theorem exact_of_word {n : Nat} (h : n < 0x100000000) : Json.Exact (.int n) :=
  .int (by omega) (by omega)

theorem word?_of_word {n : Nat} (h : n < 0x100000000) :
    (Cell.ofJson (.int n)).word? = some (UInt32.ofNat n) := by
  have hlt : (n : Int) < 0x100000000 := by exact_mod_cast h
  simp [Cell.word?, Json.word?, hlt]

@[simp] theorem exact_wordJson (w : UInt32) : (wordJson w).Exact := exact_of_word w.toNat_lt

theorem word?_wordJson (w : UInt32) : (Cell.ofJson (wordJson w)).word? = some w := by
  rw [wordJson, word?_of_word w.toNat_lt, UInt32.ofNat_toNat]

namespace Ref

theorem code_lt (r : Ref) : code r < 0x100000000 := by
  cases r with
  | none => decide
  | some i =>
    have := i.isLt
    simp only [code]
    omega

theorem ofNat_code (r : Ref) : ofNat (code r) = r := by
  cases r with
  | none => rfl
  | some i => exact ofNat_eq_some i.isLt

@[simp] theorem exact_toJson (r : Ref) : (Ref.toJson r).Exact := exact_of_word (code_lt r)

theorem ofCell?_toJson (r : Ref) : Ref.ofCell? (Cell.ofJson (Ref.toJson r)) = some r := by
  have hword : (UInt32.ofNat (code r)).toNat = code r := UInt32.toNat_ofNat_of_lt' (code_lt r)
  rw [Ref.ofCell?, Ref.toJson, word?_of_word (code_lt r), Option.map_some, ofWord, hword, ofNat_code]

@[simp] theorem exact_listToJson (rs : List Ref) : (Ref.listToJson rs).Exact := by
  simp [Ref.listToJson]

@[simp] theorem listOfCell?_listToJson (rs : List Ref) :
    Ref.listOfCell? (Cell.ofJson (Ref.listToJson rs)) = some rs :=
  Cell.list?_ofJson ofCell?_toJson rs

end Ref

@[simp] theorem VariableKind.exact_toJson (kind : VariableKind) : kind.toJson.Exact := by
  simp [VariableKind.toJson]

@[simp] theorem variableKind?_toJson (kept : Bool) (kind : VariableKind) :
    Node.variableKind? kept (Cell.ofJson kind.toJson) = some kind := by
  cases kind <;> rfl

/-! ### Nodes -/

namespace Node

theorem exact_toJson (n : Node Index) : n.toJson.Exact := by
  have hdata : n.data.Exact := by cases n <;> simp [data]
  simp [toJson, hdata]

/-- The data of every kind is read back under the kind's tag. -/
theorem ofData?_data (kept : Bool) (n : Node Index) :
    ofData? kept n.tag (Cell.ofJson n.data) = some n := by
  obtain ⟨cell, hcell, hread⟩ := Cell.exists_cell Ref.ofCell?_toJson
  cases n with
  | function form name parameters body isAsync isGenerator =>
    cases form <;>
      simp [tag, FunctionForm.tag, data, ofData?, functionOfData?, Cell.bool?, hcell, hread]
  | _ => simp [tag, data, ofData?, soleField?, Cell.bool?, Cell.string?, Json.string?, hcell, hread]

theorem ofCell?_toJson (outer : Nat) (n : Node Index) :
    ofCell? outer (Cell.ofJson n.toJson) = some n := by
  have hcell : Cell.ofJson n.toJson =
      .record [("kind", .scalar (.string n.tag)), ("data", Cell.ofJson n.data)] := by
    simp [toJson, Cell.ofJson_object]
  have hfields : (Cell.ofJson n.toJson).fields? ["kind", "data"] =
      some [some (.scalar (.string n.tag)), some (Cell.ofJson n.data)] := by
    simp [toJson]
  rw [hcell] at hfields ⊢
  -- The kind stands first, so the data is not kept.
  simp [ofCell?, hfields, keepsData, Cell.tag?, ofData?_data]

end Node

/-! ### Arenas and callees -/

theorem Info.exact_toJson (info : Info) : info.toJson.Exact := by
  simp [Info.toJson]

theorem Info.ofCell?_toJson (info : Info) : Info.ofCell? (Cell.ofJson info.toJson) = some info := by
  obtain ⟨parent, pos, stop⟩ := info
  obtain ⟨cell, hcell, hread⟩ := Cell.exists_cell Ref.ofCell?_toJson
  obtain ⟨wordCell, hwordCell, hword⟩ := Cell.exists_cell word?_wordJson
  simp [Info.ofCell?, Info.toJson, hcell, hread, hwordCell, hword]

namespace Arena

theorem exact_toJson (a : Arena) : a.toJson.Exact := by
  simp [toJson, Node.exact_toJson, Info.exact_toJson]

theorem ofCell?_toJson (a : Arena) : ofCell? (Cell.ofJson a.toJson) = some a := by
  have hnodes := Cell.list?_ofJson (Node.ofCell?_toJson 2) a.nodes.toList
  have hinfos := Cell.list?_ofJson Info.ofCell?_toJson a.infos.toList
  simp [ofCell?, toJson, hnodes, hinfos]

end Arena

theorem Callee.exact_toJson (c : Callee) : c.toJson.Exact := by
  obtain ⟨body, name⟩ := c
  cases name <;> simp [Callee.toJson, Record.optionalText]

theorem Callee.ofCell?_toJson (c : Callee) : Callee.ofCell? (Cell.ofJson c.toJson) = some c := by
  obtain ⟨body, name⟩ := c
  obtain ⟨cell, hcell, hread⟩ := Cell.exists_cell Ref.ofCell?_toJson
  cases name <;> simp [Callee.ofCell?, Callee.toJson, Record.optionalText, Cell.optionalText?,
    Cell.string?, Json.string?, hcell, hread]

/-- Whatever an arena, a node or a callee refers to and whatever texts stand in it, its compact text is
read as itself. -/
theorem records_readBack :
    (∀ a : Arena, Arena.load? a.save = some a) ∧
    (∀ n : Node Index, Record.parse? (Node.ofCell? 0) n.toJson.compress = some n) ∧
    (∀ c : Callee, Record.parse? Callee.ofCell? c.toJson.compress = some c) :=
  ⟨fun a => Record.parse?_compress a.exact_toJson a.ofCell?_toJson,
    fun n => Record.parse?_compress n.exact_toJson (n.ofCell?_toJson 0),
    fun c => Record.parse?_compress c.exact_toJson c.ofCell?_toJson⟩

end CallTrace
