import CallTrace.Proofs.Reading
import CallTrace.Proofs.Walk

/-!
The numbers of the nodes of an imported program.

The program is the last node and every subtree takes up the numbers right below its root, so that a
walk from a node visits exactly a range of numbers that ends in the node's own.
-/
namespace CallTrace

theorem exists_ok_of_map {ε α β : Type} {x : Except ε α} {f : α → β} {b : β}
    (h : x.map f = .ok b) : ∃ a, x = .ok a ∧ f a = b := by
  cases x with
  | error e => cases h
  | ok a => exact ⟨a, rfl, by simpa [Except.map] using h⟩

/-- A document was read as a tree, and the arena holds this tree and nothing else. -/
structure ImportedAs (v : Json) (a : Arena) (root : Ref) (t : Tree) : Prop where
  program : isProgram v = true
  reads : Tree.Reads maxLevels v t
  root_eq : root = Spot.ref ⟨0, t⟩
  size_eq : a.size = t.size
  level : a.infos.size = a.nodes.size
  holds : a.Holds ⟨0, t⟩

theorem programTree_eq_ok {v : Json} {t : Tree} (h : programTree v = .ok t) :
    isProgram v = true ∧ Tree.read maxLevels "program" v = .ok (some t) := by
  unfold programTree at h
  split at h
  · rename_i hp
    split at h
    · cases h
      exact ⟨hp, by assumption⟩
    · cases h
    · cases h
  · cases h

theorem importedAs_of_programTree {v : Json} {t : Tree} (h : programTree v = .ok t)
    (hs : t.size ≤ capacity) : ImportedAs v t.toArena.1 t.toArena.2 t := by
  obtain ⟨hp, ht⟩ := programTree_eq_ok h
  have hr : Tree.Reads maxLevels v t := ⟨_, ht⟩
  refine ⟨hp, hr, ?_, t.size_toArena, ?_, Tree.holds_toArena hr.full hs⟩
  · rw [Tree.toArena_eq hs]
  · rw [Tree.toArena_eq hs]
    simp [Arena.lay, Arena.empty]

theorem importedAs_of_importProgram {v : Json} {a : Arena} {root : Ref}
    (h : importProgram v = .ok (a, root)) (hs : a.size ≤ 2 ^ 32 - 1) :
    ∃ t, ImportedAs v a root t := by
  obtain ⟨t, ht, hta⟩ := exists_ok_of_map h
  have hsize : t.size ≤ capacity := by
    rw [← t.size_toArena, hta, capacity]
    omega
  have himported := importedAs_of_programTree ht hsize
  rw [hta] at himported
  exact ⟨t, himported⟩

namespace ImportedAs

variable {v : Json} {a : Arena} {root : Ref} {t : Tree}

theorem exists_path (h : ImportedAs v a root t) {n : Index} (hn : n.val < a.size) :
    ∃ above s, Spot.Path ⟨0, t⟩ above s ∧ s.number = n.val ∧ s.ref = some n := by
  have ht : n.val < 0 + t.size := by
    rw [Nat.zero_add, ← h.size_eq]
    exact hn
  obtain ⟨above, s, way, hs⟩ := @Spot.exists_path_of_number ⟨0, t⟩ _ (Nat.zero_le _) ht
  refine ⟨above, s, way, hs, ?_⟩
  rw [Spot.ref, Option.some_inj]
  exact Fin.ext ((Spot.index_val (way.number_lt h.holds.fits)).trans hs)

theorem preOrder_eq (h : ImportedAs v a root t) {above : List Spot} {s : Spot}
    (way : Spot.Path ⟨0, t⟩ above s) : a.preOrder s.ref = some (s.visits none) :=
  h.holds.preOrder_eq way h.size_eq.ge

end ImportedAs

namespace Spot

theorem length_visits (s : Spot) (parent : Ref) : (s.visits parent).length = s.tree.size := by
  rw [(s.visits_perm_layout parent).length_eq, List.length_map, length_layout]

theorem visits_codes_perm {s : Spot} (h : s.number < capacity) (parent : Ref) :
    ((s.visits parent).map fun w => Ref.code w.node).Perm (List.range' s.base s.tree.size) := by
  have hcode : (s.layout parent).map (fun x => Ref.code x.visit.node) =
      (s.layout parent).map fun x => x.spot.number := by
    apply List.map_congr_left
    intro x hx
    have hn : x.spot.number ∈ List.range' s.base s.tree.size := by
      rw [← s.map_number_layout parent]
      exact List.mem_map_of_mem hx
    have hsucc := s.number_succ
    rw [List.mem_range'_1] at hn
    exact index_val (by omega)
  have hperm := (s.visits_perm_layout parent).map fun w => Ref.code w.node
  rw [List.map_map] at hperm
  rw [← s.map_number_layout parent, ← hcode]
  exact hperm

theorem code_lt_of_visit {s : Spot} (h : s.number < capacity) {parent : Ref} {w : Visit}
    (hw : w ∈ (s.visits parent).tail) : Ref.code w.node < s.number := by
  rw [visits_eq, List.tail_cons, List.mem_flatMap] at hw
  obtain ⟨k, hk, hw⟩ := hw
  have hrange := base_le_of_mem_kids hk
  have hsucc := k.number_succ
  have hcode := (visits_codes_perm (by omega) s.ref).mem_iff.1
    (List.mem_map_of_mem (f := fun w : Visit => Ref.code w.node) hw)
  rw [List.mem_range'_1] at hcode
  omega

end Spot

theorem Arena.Holds.parent_of_visit {a : Arena} {root s : Spot} {above : List Spot}
    (h : a.Holds root) (way : Spot.Path root above s) {w : Visit}
    (hw : w ∈ (s.visits none).tail) : w.parent = a.parent w.node := by
  rw [Spot.visits_eq, List.tail_cons, List.mem_flatMap] at hw
  obtain ⟨k, hk, hw⟩ := hw
  obtain ⟨x, hx, rfl⟩ := List.mem_map.1 ((k.visits_perm_layout s.ref).mem_iff.1 hw)
  obtain ⟨above', way', hparent⟩ := (way.down hk).exists_of_mem_layout hx
  have hinfo := h.info? way'
  rw [hparent] at hinfo
  simp [Arena.parent, Site.visit, hinfo]

/-- An imported program's nodes and their information go together, the program is the last node and
has no parent, and a walk from any node visits exactly a range of numbers that ends in the node's
own, each once and from its parent. -/
theorem importProgram_numbering {v : Json} {a : Arena} {root : Ref}
    (h : importProgram v = .ok (a, root)) (hs : a.size ≤ 2 ^ 32 - 1) :
    a.infos.size = a.nodes.size ∧
    (∃ last : Index, root = some last ∧ last.val + 1 = a.size) ∧
    a.parent root = none ∧
    (∀ n : Index, n.val < a.size → ∃ visits, a.preOrder (some n) = some visits ∧
      visits.head? = some ⟨some n, none⟩ ∧
      visits.length ≤ n.val + 1 ∧
      (visits.map fun w => Ref.code w.node).Perm
        (List.range' (n.val + 1 - visits.length) visits.length) ∧
      ∀ w ∈ visits.tail, w.parent = a.parent w.node ∧ Ref.code w.node < n.val) ∧
    ∃ visits, a.preOrder root = some visits ∧
      (visits.map fun w => Ref.code w.node).Perm (List.range a.size) := by
  obtain ⟨t, imported⟩ := importedAs_of_importProgram h hs
  have hfits := imported.holds.fits
  have top : Spot.Path ⟨0, t⟩ [] ⟨0, t⟩ := .here
  have hlast := Spot.index_val (top.number_lt hfits)
  have hsucc := Spot.number_succ ⟨0, t⟩
  have hsize := imported.size_eq
  obtain rfl := imported.root_eq
  refine ⟨imported.level, ⟨_, rfl, ?_⟩, ?_, ?_, _, imported.preOrder_eq top, ?_⟩
  · simp only at hsucc
    omega
  · simp [Arena.parent, imported.holds.info? top, Spot.Path.parent]
  · intro n hn
    obtain ⟨above, s, way, hnum, href⟩ := imported.exists_path hn
    have hsn := s.number_succ
    have hperm := s.visits_codes_perm (way.number_lt hfits) none
    rw [← href]
    refine ⟨_, imported.preOrder_eq way, ?_, ?_, ?_, ?_⟩
    · rw [s.visits_eq]
      rfl
    · rw [s.length_visits]
      omega
    · rw [s.length_visits]
      have hbase : n.val + 1 - s.tree.size = s.base := by omega
      rw [hbase]
      exact hperm
    · intro w hw
      rw [← hnum]
      exact ⟨imported.holds.parent_of_visit way hw, Spot.code_lt_of_visit (way.number_lt hfits) hw⟩
  · rw [hsize, List.range_eq_range']
    exact Spot.visits_codes_perm (top.number_lt hfits) none

namespace Sample

def node (type : String) (fields : List (String × Json)) : Json :=
  .object (("type", .string type) :: fields)

def identifier (name : String) : Json := node "Identifier" [("name", .string name)]

def call (callee : Json) : Json :=
  node "CallExpression" [("callee", callee), ("arguments", .array [])]

def callStatement (callee : Json) : Json :=
  node "ExpressionStatement" [("expression", call callee)]

def function (name : Json) (body : List Json) : Json :=
  node "FunctionExpression" [("id", name), ("params", .array []),
    ("body", node "BlockStatement" [("body", .array body)])]

def binding (name : String) (value : Json) : Json :=
  node "VariableDeclaration" [("kind", .string "var"), ("declarations", .array
    [node "VariableDeclarator" [("id", identifier name), ("init", value)]])]

/-- `var f = function () { (function g() {})(); }; f();` -/
def nestedCalls : Json :=
  node "Program" [("body", .array
    [binding "f" (function .null [callStatement (function (identifier "g") [])]),
      callStatement (identifier "f")])]

/-- A call, nine empty statements and some more statements. -/
def callThenEmpty (callee : Json) (more : List Json) : List Json :=
  callStatement callee :: List.replicate 9 (node "EmptyStatement" []) ++ more

/-- `f(); ;;;;;;;;; var f = function () { (function () {})(); ;;;;;;;;; (function () {})(); }; f();` -/
def longBodies : Json :=
  node "Program" [("body", .array (callThenEmpty (identifier "f")
    [binding "f" (function .null
        (callThenEmpty (function .null []) [callStatement (function .null [])])),
      callStatement (identifier "f")]))]

end Sample

/-- The outer function's body is node 6, and what is below it has the numbers from 1 on. -/
theorem importProgram_numbering_nestedCalls :
    ∃ a root, importProgram Sample.nestedCalls = .ok (a, root) ∧ a.size = 14 ∧ root = some 13 ∧
      ∃ visits, a.preOrder (some 6) = some visits ∧
        (visits.map fun w => Ref.code w.node).Perm
          (List.range' (6 + 1 - visits.length) visits.length) := by
  have himport : (importProgram Sample.nestedCalls).map (fun p => (p.1.size, p.2)) =
      .ok (14, some 13) := by
    decide +kernel
  obtain ⟨⟨a, root⟩, h, hp⟩ := exists_ok_of_map himport
  obtain ⟨hsize, hroot⟩ := Prod.mk.inj hp
  simp only at hsize hroot
  obtain ⟨-, -, -, hwalks, -⟩ := importProgram_numbering h (by omega)
  obtain ⟨visits, hvisits, -, -, hperm, -⟩ := hwalks 6 (by rw [hsize]; decide)
  exact ⟨a, root, h, hsize, hroot, visits, hvisits, hperm⟩

end CallTrace
