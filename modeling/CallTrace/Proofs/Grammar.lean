import CallTrace.Proofs.ReadBack

/-!
Which documents can be imported, and what is said of the others.

`Json.WellFormed` is the grammar of node objects. `Json.violations` lists everything that breaks it, in
the order in which a walk down the fields comes across it. A program is imported if nothing breaks the
grammar, and else the error is the first of the list (`programTree_meets`).
-/
namespace CallTrace

section Results

variable {ε α β : Type}

/-- A result goes with a list of violations: it is there if there are none, and else the error is the
first one. -/
def Meets (x : Except ε α) (violations : List ε) : Prop :=
  match x with
  | .ok _ => violations = []
  | .error e => violations.head? = some e

@[simp] theorem meets_ok {a : α} {es : List ε} : Meets (.ok a) es ↔ es = [] := Iff.rfl

@[simp] theorem meets_error {e : ε} {es : List ε} :
    Meets (.error e : Except ε α) es ↔ es.head? = some e := Iff.rfl

theorem Meets.bind {x : Except ε α} {f : α → Except ε β} {es es' : List ε} (h : Meets x es)
    (h' : ∀ a, Meets (f a) es') : Meets (x >>= f) (es ++ es') := by
  cases x with
  | ok a =>
    obtain rfl : es = [] := h
    exact h' a
  | error e =>
    have hhead : es.head? = some e := h
    change (es ++ es').head? = some e
    rw [List.head?_append, hhead]
    rfl

theorem Meets.map {x : Except ε α} {es : List ε} (h : Meets x es) (f : α → β) :
    Meets (x >>= fun a => pure (f a)) es := by
  have hbind : Meets (x >>= fun a => pure (f a)) (es ++ []) := h.bind fun a => rfl
  rwa [List.append_nil] at hbind

theorem Meets.mapM {f : α → Except ε β} {g : α → List ε} {xs : List α}
    (h : ∀ x ∈ xs, Meets (f x) (g x)) : Meets (xs.mapM f) (xs.flatMap g) := by
  induction xs with
  | nil => exact rfl
  | cons x xs ih =>
    have hxs := ih fun y hy => h y (List.mem_cons_of_mem _ hy)
    rw [List.mapM_cons, List.flatMap_cons]
    exact (h x List.mem_cons_self).bind fun y => hxs.map (y :: ·)

theorem Meets.exists_ok_iff {x : Except ε α} {es : List ε} (h : Meets x es) :
    (∃ a, x = .ok a) ↔ es = [] := by
  cases x with
  | ok a => exact ⟨fun _ => h, fun _ => ⟨a, rfl⟩⟩
  | error e =>
    have hhead : es.head? = some e := h
    constructor
    · rintro ⟨a, ha⟩
      cases ha
    · rintro rfl
      cases hhead

theorem Meets.error_iff {x : Except ε α} {es : List ε} (h : Meets x es) (e : ε) :
    x = .error e ↔ es.head? = some e := by
  cases x with
  | ok a =>
    obtain rfl : es = [] := h
    simp
  | error e' =>
    have hhead : es.head? = some e' := h
    simp [hhead]

end Results

namespace Json

open CallTrace.Tree (ChildField childFields typedKinds)

/-- The type of a node object; other values have none. -/
def type? (v : Json) : Option String := (v.get? "type").bind string?

@[simp] theorem type?_null : null.type? = none := rfl

@[simp] theorem type?_array (items : List Json) : (array items).type? = none := rfl

theorem type?_object (members : List (String × Json)) :
    (object members).type? = Tree.typeName? members := rfl

/-- The words that introduce a declaration. -/
def keywords : List String := ["var", "let", "const", "using", "await using"]

/-- A value stands in a node object of a type where a node is expected, and is not null. In an object
of no particular type, only node objects count. -/
inductive HasChild (type : String) (members : List (String × Json)) : Json → Prop
  | one {key : String} {v : Json} (field : ChildField.one key ∈ childFields type)
      (value : lookup key members = some v) (there : v ≠ .null) : HasChild type members v
  | item {key : String} {items : List Json} {v : Json}
      (field : ChildField.many key ∈ childFields type)
      (list : lookup key members = some (.array items)) (mem : v ∈ items) (there : v ≠ .null) :
      HasChild type members v
  | held {key : String} {v : Json} (generic : type ∉ typedKinds) (member : (key, v) ∈ members)
      (counts : key ∉ metadata) (node : v.type?.isSome) : HasChild type members v
  | heldItem {key : String} {items : List Json} {v : Json} (generic : type ∉ typedKinds)
      (member : (key, .array items) ∈ members) (counts : key ∉ metadata) (mem : v ∈ items)
      (node : v.type?.isSome) : HasChild type members v

/-- The fields of a node object of a type hold what they should, children apart. -/
structure Proper (type : String) (members : List (String × Json)) : Prop where
  kind : type = "VariableDeclaration" →
    ∀ word, lookup "kind" members = some (.string word) → word ∈ keywords
  name : type = "Identifier" → ∃ text, lookup "name" members = some (.string text)
  list : ∀ key v, ChildField.many key ∈ childFields type → lookup key members = some v →
    v = .null ∨ ∃ items, v = .array items

/-- The grammar of node objects. A program stands at depth one and the children of a node one level
below it, however they are held. -/
inductive WellFormed : Nat → Json → Prop
  | node {depth : Nat} {members : List (String × Json)} {type : String}
      (typed : lookup "type" members = some (.string type)) (shallow : depth ≤ 500)
      (proper : Proper type members)
      (children : ∀ v, HasChild type members v → WellFormed (depth + 1) v) :
      WellFormed depth (.object members)

/-- What one comes across in a node object: something that breaks the grammar, or a value where a node
is expected. -/
inductive Finding where
  | fault (e : ImportError)
  | place (field : String) (v : Json)

namespace Finding

/-- The violations of a finding, given those of a value in a field. -/
def violations (below : String → Json → List ImportError) : Finding → List ImportError
  | .fault e => [e]
  | .place field v => below field v

end Finding

variable (type : String) (members : List (String × Json))

/-- What is wrong with the fields of a node object that hold no nodes. -/
def ownFindings : List Finding :=
  match type with
  | "VariableDeclaration" =>
    match lookup "kind" members with
    | some (.string word) => if word ∈ keywords then [] else [.fault (.unknownVariableKind word)]
    | _ => []
  | "Identifier" =>
    match lookup "name" members with
    | some (.string _) => []
    | _ => [.fault (.unexpectedValue "name" .string)]
  | _ => []

def fieldFindings : ChildField → List Finding
  | .one key => (lookup key members).toList.map (.place key)
  | .many key =>
    match lookup key members with
    | none | some .null => []
    | some (.array items) => items.map (.place key)
    | some _ => [.fault (.unexpectedValue key .nodes)]

def heldFindings (m : String × Json) : List Finding :=
  if m.1 ∈ metadata then []
  else match m.2 with
    | .array items => (items.filter fun v => v.type?.isSome).map (.place m.1)
    | v => if v.type?.isSome then [.place m.1 v] else []

/-- What one comes across in a node object of a type, in the order of the fields. -/
def findings : List Finding :=
  ownFindings type members ++
    if type ∈ typedKinds then (childFields type).flatMap (fieldFindings members)
    else members.flatMap heldFindings

variable {type members}

theorem sizeOf_lt_of_mem {key : String} {v : Json} (h : (key, v) ∈ members) :
    sizeOf v < sizeOf members := by
  have := List.sizeOf_lt_of_mem h
  simp only [Prod.mk.sizeOf_spec] at this
  omega

theorem mem_of_lookup {key : String} {v : Json} (h : lookup key members = some v) :
    (key, v) ∈ members := by
  obtain ⟨⟨key', v'⟩, hfind, rfl⟩ := Option.map_eq_some_iff.1 h
  obtain rfl : key' = key := by simpa using List.find?_some hfind
  exact List.mem_of_find?_eq_some hfind

theorem fault_notMem_ownFindings :
    (∀ e, .fault e ∉ ownFindings type members) ↔
      (type = "VariableDeclaration" →
        ∀ word, lookup "kind" members = some (.string word) → word ∈ keywords) ∧
      (type = "Identifier" → ∃ text, lookup "name" members = some (.string text)) := by
  unfold ownFindings
  split
  · split
    · split <;> simp_all
    · simp_all
  · split <;> simp_all
  · simp_all

theorem fault_notMem_many {key : String} :
    (∀ e, .fault e ∉ fieldFindings members (.many key)) ↔
      ∀ v, lookup key members = some v → v = .null ∨ ∃ items, v = .array items := by
  simp only [fieldFindings]
  split <;> simp_all

theorem childFields_eq_nil (h : type ∉ typedKinds) : childFields type = [] := by
  simp only [typedKinds, List.mem_cons, List.not_mem_nil, or_false, not_or] at h
  unfold childFields
  split <;> simp_all

/-- Apart from its children, a node object is as it should be if one comes across no fault in it. -/
theorem fault_notMem_findings :
    (∀ e, .fault e ∉ findings type members) ↔ Proper type members := by
  have hfields : (∀ e, .fault e ∉ if type ∈ typedKinds then
        (childFields type).flatMap (fieldFindings members) else members.flatMap heldFindings) ↔
      ∀ key v, ChildField.many key ∈ childFields type → lookup key members = some v →
        v = .null ∨ ∃ items, v = .array items := by
    split
    · constructor
      · intro h key v hkey
        refine fault_notMem_many.1 (fun e he => h e ?_) v
        exact List.mem_flatMap.2 ⟨_, hkey, he⟩
      · intro h e he
        obtain ⟨field, hfield, he⟩ := List.mem_flatMap.1 he
        cases field with
        | one key => simp [fieldFindings] at he
        | many key => exact fault_notMem_many.2 (fun v => h key v hfield) e he
    · rename_i hgeneric
      simp only [childFields_eq_nil hgeneric, List.not_mem_nil, false_implies, implies_true,
        iff_true]
      intro e he
      obtain ⟨m, -, he⟩ := List.mem_flatMap.1 he
      unfold heldFindings at he
      split at he
      · simp at he
      · split at he
        · simp at he
        · split at he <;> simp at he
  simp only [findings, List.mem_append, not_or, forall_and, fault_notMem_ownFindings, hfields]
  constructor
  · rintro ⟨⟨hkind, hname⟩, hlist⟩
    exact ⟨hkind, hname, hlist⟩
  · intro h
    exact ⟨⟨h.kind, h.name⟩, h.list⟩

theorem place_mem_fieldFindings {field : ChildField} {key : String} {v : Json} :
    .place key v ∈ fieldFindings members field ↔
      (field = .one key ∧ lookup key members = some v) ∨
      (field = .many key ∧ ∃ items, lookup key members = some (.array items) ∧ v ∈ items) := by
  cases field with
  | one key' =>
    simp only [fieldFindings, List.mem_map, Option.mem_toList, Finding.place.injEq,
      ChildField.one.injEq, reduceCtorEq, false_and, or_false]
    aesop
  | many key' =>
    simp only [fieldFindings, ChildField.many.injEq, reduceCtorEq, false_and, false_or]
    split <;> aesop

theorem place_mem_heldFindings {m : String × Json} {key : String} {v : Json} :
    .place key v ∈ heldFindings m ↔ m.1 = key ∧ key ∉ metadata ∧ v.type?.isSome ∧
      (m.2 = v ∨ ∃ items, m.2 = .array items ∧ v ∈ items) := by
  unfold heldFindings
  split
  · aesop
  · split <;> aesop

/-- The children of a node object are the values that one comes across in it where a node is expected,
nulls apart. -/
theorem hasChild_iff {v : Json} :
    HasChild type members v ↔ v ≠ .null ∧ ∃ key, .place key v ∈ findings type members := by
  have hown : ∀ key, .place key v ∉ ownFindings type members := by
    intro key
    unfold ownFindings
    split
    · split
      · split <;> simp
      · simp
    · split <;> simp
    · simp
  simp only [findings, List.mem_append, hown, false_or]
  constructor
  · intro h
    have typed : ∀ {field}, field ∈ childFields type → type ∈ typedKinds := by
      intro field hf
      by_contra hgeneric
      simp [childFields_eq_nil hgeneric] at hf
    have nonnull : v.type?.isSome → v ≠ .null := by
      rintro hv rfl
      simp at hv
    cases h with
    | @one key v field value there =>
      refine ⟨there, key, ?_⟩
      rw [if_pos (typed field)]
      exact List.mem_flatMap.2 ⟨_, field, place_mem_fieldFindings.2 (.inl ⟨rfl, value⟩)⟩
    | @item key items v field list mem there =>
      refine ⟨there, key, ?_⟩
      rw [if_pos (typed field)]
      exact List.mem_flatMap.2
        ⟨_, field, place_mem_fieldFindings.2 (.inr ⟨rfl, items, list, mem⟩)⟩
    | @held key v generic member counts node =>
      refine ⟨nonnull node, key, ?_⟩
      rw [if_neg generic]
      exact List.mem_flatMap.2 ⟨_, member, place_mem_heldFindings.2 ⟨rfl, counts, node, .inl rfl⟩⟩
    | @heldItem key items v generic member counts mem node =>
      refine ⟨nonnull node, key, ?_⟩
      rw [if_neg generic]
      exact List.mem_flatMap.2
        ⟨_, member, place_mem_heldFindings.2 ⟨rfl, counts, node, .inr ⟨items, rfl, mem⟩⟩⟩
  · rintro ⟨there, key, h⟩
    split at h
    · obtain ⟨field, hfield, h⟩ := List.mem_flatMap.1 h
      rcases place_mem_fieldFindings.1 h with ⟨rfl, value⟩ | ⟨rfl, items, list, mem⟩
      · exact .one hfield value there
      · exact .item hfield list mem there
    · rename_i generic
      obtain ⟨⟨key', w⟩, member, h⟩ := List.mem_flatMap.1 h
      obtain ⟨rfl, counts, node, rfl | ⟨items, rfl, mem⟩⟩ := place_mem_heldFindings.1 h
      · exact .held generic member counts node
      · exact .heldItem generic member counts mem node

theorem HasChild.sizeOf_lt {v : Json} (h : HasChild type members v) :
    sizeOf v < sizeOf members := by
  have item : ∀ {key items}, (key, array items) ∈ members → v ∈ items →
      sizeOf v < sizeOf members := by
    intro key items hmem hv
    have harray := sizeOf_lt_of_mem hmem
    have hitem := List.sizeOf_lt_of_mem hv
    simp only [array.sizeOf_spec] at harray
    omega
  cases h with
  | one field value there => exact sizeOf_lt_of_mem (mem_of_lookup value)
  | item field list mem there => exact item (mem_of_lookup list) mem
  | held generic member counts node => exact sizeOf_lt_of_mem member
  | heldItem generic member counts mem node => exact item member mem

theorem sizeOf_lt_of_place {key : String} {v : Json} (h : .place key v ∈ findings type members) :
    sizeOf v < sizeOf (object members) := by
  rw [object.sizeOf_spec]
  by_cases hv : v = .null
  · subst hv
    have : 0 < sizeOf members := by cases members <;> simp
    rw [null.sizeOf_spec]
    omega
  · have := (hasChild_iff.2 ⟨hv, key, h⟩).sizeOf_lt
    omega

/-- What breaks the grammar in a value that stands in a field where a node is expected, at a depth, in
the order in which a walk comes across it. A node is checked before its fields: it is an object, it has
a type, it is not too deep. -/
def violations (depth : Nat) (field : String) (v : Json) : List ImportError :=
  match v with
  | .null => []
  | .object members =>
    match Tree.typeName? members with
    | none => [.missingType field]
    | some type =>
      (if 500 < depth then [.tooDeep] else []) ++
        (findings type members).attach.flatMap fun
          | ⟨.fault e, _⟩ => [e]
          | ⟨.place key w, _⟩ => violations (depth + 1) key w
  | _ => [.unexpectedValue field .node]
termination_by sizeOf v
decreasing_by exact sizeOf_lt_of_place (by assumption)

theorem violations_object (depth : Nat) (field : String) (members : List (String × Json)) :
    violations depth field (.object members) =
      match Tree.typeName? members with
      | none => [.missingType field]
      | some type =>
        (if 500 < depth then [.tooDeep] else []) ++
          (findings type members).flatMap (Finding.violations (violations (depth + 1))) := by
  rw [violations]
  split
  · rfl
  · congr 1
    conv_rhs => rw [← List.attach_map_subtype_val (findings _ members), List.flatMap_map]
    congr 1
    funext x
    obtain ⟨_ | _, _⟩ := x <;> rfl

theorem Finding.violations_eq_nil_iff {below : String → Json → List ImportError}
    {xs : List Finding} :
    xs.flatMap (Finding.violations below) = [] ↔
      (∀ e, .fault e ∉ xs) ∧ ∀ key v, .place key v ∈ xs → below key v = [] := by
  rw [List.flatMap_eq_nil_iff]
  constructor
  · intro h
    refine ⟨fun e he => ?_, fun key v hv => h _ hv⟩
    simpa [Finding.violations] using h _ he
  · rintro ⟨hfault, hplace⟩ x hx
    cases x with
    | fault e => exact absurd hx (hfault e)
    | place key v => exact hplace key v hx

theorem typeName?_eq_some_iff :
    Tree.typeName? members = some type ↔ lookup "type" members = some (.string type) := by
  unfold Tree.typeName?
  cases lookup "type" members with
  | none => simp
  | some v => cases v <;> simp [string?]

theorem WellFormed.type?_isSome {depth : Nat} {v : Json} (h : WellFormed depth v) :
    v.type?.isSome := by
  cases h with
  | node typed => simp [type?_object, typeName?_eq_some_iff.2 typed]

theorem wellFormed_object_iff {depth : Nat} (h : Tree.typeName? members = some type) :
    WellFormed depth (.object members) ↔ depth ≤ 500 ∧ Proper type members ∧
      ∀ v, HasChild type members v → WellFormed (depth + 1) v := by
  constructor
  · rintro ⟨typed, shallow, proper, children⟩
    obtain rfl := Option.some.inj (h.symm.trans (typeName?_eq_some_iff.2 typed))
    exact ⟨shallow, proper, children⟩
  · rintro ⟨shallow, proper, children⟩
    exact .node (typeName?_eq_some_iff.1 h) shallow proper children

/-- Nothing breaks the grammar in a null or a well-formed node, and something does in all else. -/
theorem violations_eq_nil_iff (depth : Nat) (field : String) (v : Json) :
    violations depth field v = [] ↔ v = .null ∨ WellFormed depth v := by
  induction hn : sizeOf v using Nat.strong_induction_on generalizing depth field v with
  | _ n ih =>
    subst hn
    have untyped : v.type? = none → ¬ WellFormed depth v := by
      intro hv h
      simpa [hv] using h.type?_isSome
    cases v with
    | null => simp [violations]
    | object members =>
      rw [violations_object]
      cases htype : Tree.typeName? members with
      | none => simpa using untyped htype
      | some type =>
        have hbelow : (∀ key w, .place key w ∈ findings type members →
            violations (depth + 1) key w = []) ↔
            ∀ w, HasChild type members w → WellFormed (depth + 1) w := by
          constructor
          · intro h w hw
            obtain ⟨hnull, key, hplace⟩ := hasChild_iff.1 hw
            have hsize := sizeOf_lt_of_place hplace
            exact ((ih _ hsize _ key w rfl).1 (h key w hplace)).resolve_left hnull
          · intro h key w hplace
            have hsize := sizeOf_lt_of_place hplace
            rw [ih _ hsize _ key w rfl, or_iff_not_imp_left]
            exact fun hnull => h w (hasChild_iff.2 ⟨hnull, key, hplace⟩)
        have hdepth : (if 500 < depth then [ImportError.tooDeep] else []) = [] ↔
            depth ≤ 500 := by
          split <;> simp <;> omega
        simp only [List.append_eq_nil_iff, Finding.violations_eq_nil_iff, fault_notMem_findings,
          hbelow, hdepth, wellFormed_object_iff htype, reduceCtorEq, false_or]
    | _ => simpa [violations] using untyped rfl

end Json

namespace Tree

open Json (Finding findings fieldFindings heldFindings ownFindings)

/-- A reader for children tells the first violation. -/
structure Reports (child : ChildReader) (below : String → Json → List ImportError) : Prop where
  meets : ∀ field v, Meets (child field v) (below field v)
  null : ∀ field, below field .null = []

variable {child : ChildReader} {below : String → Json → List ImportError} (members : Members)

namespace Reports

theorem readField (h : Reports child below) (key : String) :
    Meets (readField child members key)
      ((fieldFindings members (.one key)).flatMap (Finding.violations below)) := by
  unfold Tree.readField
  simp only [fieldFindings]
  cases Json.lookup key members with
  | none => simp
  | some v => simpa [Finding.violations] using h.meets key v

theorem readList (h : Reports child below) (key : String) :
    Meets (readList child members key)
      ((fieldFindings members (.many key)).flatMap (Finding.violations below)) := by
  unfold Tree.readList
  simp only [fieldFindings]
  cases Json.lookup key members with
  | none => simp
  | some v =>
    cases v with
    | null => simp
    | array items =>
      -- The reader passes over nulls, and nothing is wrong with them.
      have hitems : (items.map (Finding.place key)).flatMap (Finding.violations below) =
          (items.filter fun v => !v.isNull).flatMap (below key) := by
        rw [List.flatMap_map, flatMap_filter_eq]
        · rfl
        · intro v hv
          obtain rfl := Json.eq_null_of_isNull (by simpa using hv)
          exact h.null key
      rw [hitems]
      exact .mapM fun v _ => h.meets key v
    | _ => simp [Finding.violations]

theorem flatMap_heldFindings {key : String} (hkey : key ∉ Json.metadata) (v : Json) :
    (heldFindings (key, v)).flatMap (Finding.violations below) =
      (heldNodes (key, v)).flatMap fun m => below m.1 m.2 := by
  have hnode : isNodeObject = fun v => v.type?.isSome := by
    funext v
    cases v <;> rfl
  simp only [heldFindings, if_neg hkey]
  cases v with
  | array items => simp [heldNodes, hnode, List.flatMap_map, Finding.violations]
  | object members =>
    by_cases htype : (Json.object members).type?.isSome
    · simp [heldNodes, hnode, htype, Finding.violations]
    · simp [heldNodes, hnode, htype]
  | _ => simp [heldNodes, hnode, Json.type?, Json.get?]

theorem readHeld (h : Reports child below) :
    Meets (readHeld child members)
      ((members.flatMap heldFindings).flatMap (Finding.violations below)) := by
  have hheld : (members.flatMap heldFindings).flatMap (Finding.violations below) =
      ((members.filter fun m => !skipped.contains m.1).flatMap heldNodes).flatMap
        fun m => below m.1 m.2 := by
    have hskipped : skipped = Json.metadata := rfl
    have hnone : ∀ m : String × Json, (!skipped.contains m.1) = false →
        (heldFindings m).flatMap (Finding.violations below) = [] := by
      intro m hm
      simp only [hskipped, List.contains_eq_mem, Bool.not_eq_false', decide_eq_true_eq] at hm
      simp [heldFindings, hm]
    rw [List.flatMap_assoc, List.flatMap_assoc, ← flatMap_filter_eq hnone]
    apply List.flatMap_congr
    intro m hm
    have hkey : (!skipped.contains m.1) = true := (List.mem_filter.1 hm).2
    simp only [hskipped, List.contains_eq_mem, Bool.not_eq_true', decide_eq_false_iff_not] at hkey
    exact flatMap_heldFindings hkey m.2
  rw [hheld]
  exact .mapM fun m _ => h.meets m.1 m.2

theorem ofKeyword?_isSome_iff (word : String) :
    (VariableKind.ofKeyword? word).isSome ↔ word ∈ Json.keywords := by
  unfold VariableKind.ofKeyword?
  split_ifs <;> simp_all [Json.keywords]

theorem readKind : Meets (readKind members)
    ((ownFindings "VariableDeclaration" members).flatMap (Finding.violations below)) := by
  unfold Tree.readKind
  simp only [ownFindings]
  cases Json.lookup "kind" members with
  | none => simp [VariableKind.ofKeyword?]
  | some v =>
    cases v with
    | string word =>
      simp only [Option.bind_some, Json.string?, Option.getD_some]
      cases hword : VariableKind.ofKeyword? word with
      | none =>
        have hnot : word ∉ Json.keywords := by
          rw [← ofKeyword?_isSome_iff, hword]
          simp
        simp [hnot, Finding.violations]
      | some kind =>
        have hmem : word ∈ Json.keywords := by
          rw [← ofKeyword?_isSome_iff, hword]
          rfl
        simp [hmem]
    | _ => simp [Json.string?, VariableKind.ofKeyword?]

theorem flatMap_findings {type : String} (h : type ∈ typedKinds) :
    (findings type members).flatMap (Finding.violations below) =
      (ownFindings type members).flatMap (Finding.violations below) ++
        (childFields type).flatMap fun field =>
          (fieldFindings members field).flatMap (Finding.violations below) := by
  rw [findings, if_pos h, List.flatMap_append, List.flatMap_assoc]

theorem readFunction (h : Reports child below) (form : FunctionForm) :
    Meets (readFunction child members form)
      ((findings (functionType form) members).flatMap (Finding.violations below)) := by
  have hfindings : (findings (functionType form) members).flatMap (Finding.violations below) =
      (fieldFindings members (.one "id")).flatMap (Finding.violations below) ++
        ((fieldFindings members (.many "params")).flatMap (Finding.violations below) ++
          (fieldFindings members (.one "body")).flatMap (Finding.violations below)) := by
    rw [flatMap_findings members (by cases form <;> decide)]
    cases form <;> simp [ownFindings, functionType, childFields]
  rw [hfindings]
  exact (h.readField members "id").bind fun _ => (h.readList members "params").bind fun _ =>
    (h.readField members "body").map _

/-- A reader for node objects tells the first violation in them if the reader for children does. -/
theorem readNode (h : Reports child below) (type : String) :
    Meets (readNode child type members)
      ((findings type members).flatMap (Finding.violations below)) := by
  unfold Tree.readNode
  split
  · rw [flatMap_findings members (by decide)]
    simpa [ownFindings, childFields] using (h.readList members "body").map Node.program
  · rw [flatMap_findings members (by decide)]
    simpa [ownFindings, childFields] using (h.readList members "body").map Node.block
  · rw [flatMap_findings members (by decide)]
    simpa [ownFindings, childFields] using (h.readList members "body").map Node.block
  · rw [flatMap_findings members (by decide)]
    simpa [childFields] using (readKind members).bind fun kind =>
      (h.readList members "declarations").map (Node.variableStatement kind)
  · rw [flatMap_findings members (by decide)]
    simpa [ownFindings, childFields] using (h.readField members "id").bind fun name =>
      (h.readField members "init").map (Node.variableDeclaration name)
  · rw [flatMap_findings members (by decide)]
    simp only [ownFindings]
    cases Json.lookup "name" members with
    | none => exact rfl
    | some v => cases v <;> exact rfl
  · exact h.readFunction members .declaration
  · exact h.readFunction members .expression
  · exact h.readFunction members .arrow
  · rw [flatMap_findings members (by decide)]
    simpa [ownFindings, childFields] using (h.readField members "callee").bind fun callee =>
      (h.readList members "arguments").map fun arguments =>
        Node.call callee arguments (flag members "optional")
  · rw [flatMap_findings members (by decide)]
    simpa [ownFindings, childFields] using (h.readField members "object").bind fun object =>
      (h.readField members "property").map fun property =>
        Node.member object property (flag members "computed")
  · rw [flatMap_findings members (by decide)]
    simpa [ownFindings, childFields] using
      (h.readField members "expression").map Node.expressionStatement
  · rw [flatMap_findings members (by decide)]
    simpa [ownFindings, childFields] using (h.readField members "argument").map Node.returnStatement
  · rw [flatMap_findings members (by decide)]
    exact rfl
  · have hgeneric : type ∉ typedKinds := by
      simp only [typedKinds, List.mem_cons, List.not_mem_nil, or_false, not_or]
      refine ⟨?_, ?_, ?_, ?_, ?_, ?_, ?_, ?_, ?_, ?_, ?_, ?_, ?_, ?_⟩ <;> assumption
    have hown : ownFindings type members = [] := by
      unfold ownFindings
      split
      · contradiction
      · contradiction
      · rfl
    rw [findings, if_neg hgeneric, hown, List.nil_append]
    exact (h.readHeld members).map (Node.other type)

end Reports

/-- Reading tells the first violation. The levels that are left and the depth add up to one more than
the 500 levels that a document may have. -/
theorem reports_read {levels depth : Nat} (hl : levels + depth = 501) :
    Reports (read levels) (Json.violations depth) := by
  have hnull : ∀ field, Json.violations depth field .null = [] := by
    intro field
    rw [Json.violations]
  refine ⟨?_, hnull⟩
  induction levels generalizing depth with
  | zero =>
    intro field v
    have hdeep : 500 < depth := by omega
    cases v with
    | object members =>
      rw [Json.violations_object]
      cases htype : typeName? members with
      | none => simp [read, readChild, htype]
      | some type => simp [read, readChild, htype, hdeep]
    | _ => simp [read, readChild, Json.violations]
  | succ levels ih =>
    intro field v
    have hshallow : ¬ 500 < depth := by omega
    have hbelow : Reports (read levels) (Json.violations (depth + 1)) :=
      ⟨ih (by omega) fun field => by rw [Json.violations], fun field => by rw [Json.violations]⟩
    cases v with
    | object members =>
      rw [Json.violations_object]
      cases htype : typeName? members with
      | none => simp [read, readChild, htype]
      | some type =>
        simp only [read, readChild, htype, if_neg hshallow, List.nil_append]
        exact (hbelow.readNode members type).map _
    | _ => simp [read, readChild, Json.violations]

end Tree

/-- Everything that is wrong with a document. If it is no program, this is all there is to say. -/
def documentViolations (v : Json) : List ImportError :=
  if v.type? = some "Program" then v.violations 1 "program"
  else [.rootNotProgram (rootFound v)]

theorem programTree_meets (v : Json) : Meets (programTree v) (documentViolations v) := by
  have hroot : (v.type? = some "Program") ↔ isProgram v = true := by
    cases v with
    | object members => simp [isProgram, Json.type?_object]
    | _ => simp [isProgram, Json.type?, Json.get?]
  have hreports : Tree.Reports (Tree.read maxLevels) (Json.violations 1) := Tree.reports_read rfl
  have hread := hreports.meets "program" v
  unfold programTree documentViolations
  by_cases hp : isProgram v = true
  · rw [if_pos hp, if_pos (hroot.2 hp)]
    cases hr : Tree.read maxLevels "program" v with
    | error e =>
      rw [hr] at hread
      exact hread
    | ok o =>
      rw [hr] at hread
      cases o with
      | some t => exact hread
      | none =>
        obtain rfl : v = .null := Tree.readChild_eq_ok_none.1 hr
        simp [isProgram] at hp
  · rw [if_neg hp, if_neg (mt hroot.1 hp)]
    exact rfl

theorem documentViolations_eq_nil_iff (v : Json) :
    documentViolations v = [] ↔ v.type? = some "Program" ∧ v.WellFormed 1 := by
  unfold documentViolations
  split
  · rename_i htype
    have hnull : v ≠ .null := by
      rintro rfl
      simp at htype
    simp [Json.violations_eq_nil_iff, htype, hnull]
  · rename_i htype
    simp [htype]

/-- A document can be imported exactly if it is a program and well-formed. Else the error is the first
violation, where a document that is no program is wrong as such. -/
theorem importProgram_iff_wellFormed (v : Json) :
    ((∃ a root, importProgram v = .ok (a, root)) ↔
      v.type? = some "Program" ∧ v.WellFormed 1) ∧
    ∀ e, importProgram v = .error e ↔ (documentViolations v).head? = some e := by
  have hmeets : Meets (importProgram v) (documentViolations v) := by
    have htree := programTree_meets v
    unfold importProgram
    cases ht : programTree v <;> rw [ht] at htree <;> exact htree
  refine ⟨?_, hmeets.error_iff⟩
  rw [← documentViolations_eq_nil_iff, ← hmeets.exists_ok_iff]
  simp only [Prod.exists]

end CallTrace
