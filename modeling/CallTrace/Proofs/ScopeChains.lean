import CallTrace.Proofs.Agreement

/-!
The scopes around a node.

The scopes around a node are found by going up from parent to parent. On an imported program a node is
above another exactly if a walk comes down from it to the other (`ImportedAs.above_iff_comesTo`). So the
scopes around a node are those from which a walk comes to it, in the order of their numbers, and the
outermost of them is the program. A document has too few levels for the limit on the way up to be met.
-/
namespace CallTrace

namespace Arena

/-- The numbers of all nodes, in order. -/
def indices (a : Arena) : List Index := (List.range a.size).filterMap Ref.ofNat

/-- Whether the walk from a node comes to another one. -/
def comesTo (a : Arena) (top r : Ref) : Bool :=
  (a.preOrder top).any fun visits => visits.any fun w => w.node == r

/-- The scopes other than the node itself from which a walk comes to a node, in the order of their
numbers. -/
def scopesOver (a : Arena) (i : Index) : List Index :=
  a.indices.filter fun s => decide (s ≠ i) && a.opensScope (some s) && a.comesTo (some s) (some i)

theorem val_of_ofNat_eq_some {n : Nat} {i : Index} (hn : n < capacity) (h : Ref.ofNat n = some i) :
    i.val = n := by
  rw [Ref.ofNat_eq_some hn] at h
  exact congrArg Fin.val (Option.some.inj h).symm

theorem mem_indices {a : Arena} (hs : a.size ≤ capacity) {i : Index} :
    i ∈ a.indices ↔ i.val < a.size := by
  rw [indices, List.mem_filterMap]
  constructor
  · rintro ⟨n, hn, hi⟩
    rw [List.mem_range] at hn
    rwa [val_of_ofNat_eq_some (hn.trans_le hs) hi]
  · intro hi
    exact ⟨i.val, List.mem_range.2 hi, Ref.ofNat_eq_some i.isLt⟩

theorem pairwise_indices {a : Arena} (hs : a.size ≤ capacity) : a.indices.Pairwise (· < ·) := by
  rw [indices, List.pairwise_filterMap]
  refine List.pairwise_lt_range.imp_of_mem fun hm hn hlt i hi j hj => ?_
  rw [List.mem_range] at hm hn
  rw [Fin.lt_def, val_of_ofNat_eq_some (hm.trans_le hs) hi, val_of_ofNat_eq_some (hn.trans_le hs) hj]
  exact hlt

theorem exists_node?_of_opensScope {a : Arena} {r : Ref} (h : a.opensScope r = true) :
    ∃ n, a.node? r = some n := by
  cases hr : a.node? r with
  | none => simp [opensScope, hr] at h
  | some n => exact ⟨n, rfl⟩

/-- The way up from the end of a way goes through what is above it, if it may be so long. -/
theorem Holds.upward_parent_eq {a : Arena} {root s : Spot} {above : List Spot} (h : a.Holds root)
    (way : Spot.Path root above s) {n : Nat} (hn : above.length ≤ n) :
    a.upward n (a.parent s.ref) = above.map Spot.index := by
  have hself : a.upward (n + 1) s.ref = (s :: above).map Spot.index :=
    h.upward_eq way (Nat.lt_succ_of_le hn)
  exact (List.cons.inj hself).2

end Arena

namespace Spot.Path

variable {root s : Spot} {above : List Spot}

theorem pairwise_number_lt (way : Path root above s) :
    above.Pairwise fun p q => p.number < q.number := by
  induction way with
  | here => exact .nil
  | down way _ ih => exact .cons (fun p hp => way.number_lt_of_mem hp) ih

/-- The last one that is met on the way up is the root. -/
theorem exists_eq_append_root (way : Path root above s) (h : above ≠ []) :
    ∃ between, above = between ++ [root] := by
  induction way with
  | here => exact absurd rfl h
  | @down above s k way kid ih =>
    cases way with
    | here => exact ⟨[], rfl⟩
    | down way kid =>
      obtain ⟨between, hbetween⟩ := ih (by simp)
      exact ⟨s :: between, by rw [hbetween]; rfl⟩

end Spot.Path

namespace ImportedAs

variable {v : Json} {a : Arena} {root : Ref} {t : Tree} {above : List Spot} {s : Spot}

theorem length_above_lt (h : ImportedAs v a root t) (way : Spot.Path ⟨0, t⟩ above s) :
    above.length < Arena.maxAncestors := by
  have hlen := way.length_add_height_le
  have hpos := s.tree.height_pos
  have hle := h.height_le
  simp only at hlen
  omega

theorem scopeChain_eq (h : ImportedAs v a root t) (way : Spot.Path ⟨0, t⟩ above s) :
    a.scopeChain s.ref = (above.filter fun p => a.opensScope p.ref).map Spot.index := by
  rw [Arena.scopeChain, h.holds.upward_parent_eq way (h.length_above_lt way).le, List.filter_map]
  rfl

theorem pairwise_scopeChain (h : ImportedAs v a root t) (way : Spot.Path ⟨0, t⟩ above s) :
    (a.scopeChain s.ref).Pairwise (· < ·) := by
  rw [h.scopeChain_eq way, List.pairwise_map]
  refine (way.pairwise_number_lt.filter _).imp_of_mem fun hp hq hlt => ?_
  obtain ⟨_, wayp⟩ := way.exists_of_mem_above (List.mem_of_mem_filter hp)
  obtain ⟨_, wayq⟩ := way.exists_of_mem_above (List.mem_of_mem_filter hq)
  rw [Fin.lt_def, Spot.index_val (wayp.number_lt h.holds.fits),
    Spot.index_val (wayq.number_lt h.holds.fits)]
  exact hlt

theorem comesTo_iff (h : ImportedAs v a root t) (way : Spot.Path ⟨0, t⟩ above s) {r : Ref} :
    a.comesTo s.ref r = true ↔ ∃ below x, Spot.Path s below x ∧ x.ref = r := by
  rw [← @Spot.mem_map_visits_iff s none, Arena.comesTo, h.preOrder_eq way, Option.any_some,
    List.any_eq_true, List.mem_map]
  simp only [beq_iff_eq]

/-- What is above a node is what a walk comes down from to it, the node itself apart. -/
theorem above_iff_comesTo (h : ImportedAs v a root t) {above' : List Spot} {p : Spot}
    (wayp : Spot.Path ⟨0, t⟩ above' p) (way : Spot.Path ⟨0, t⟩ above s) :
    a.Above p.ref s.ref ↔ p.ref ≠ s.ref ∧ a.comesTo p.ref s.ref = true := by
  constructor
  · intro habove
    obtain ⟨q, hq, href⟩ := (h.holds.above_iff way).1 habove
    obtain ⟨_, wayq⟩ := way.exists_of_mem_above hq
    obtain rfl := h.eq_of_ref_eq wayq wayp href
    obtain ⟨below, way'⟩ := way.exists_of_mem_cons (List.mem_cons_of_mem _ hq)
    have hne : s.ref ≠ q.ref :=
      Spot.ref_ne_of_number_lt (way.number_lt_of_mem hq) (wayp.number_lt h.holds.fits)
    exact ⟨hne.symm, (h.comesTo_iff wayp).2 ⟨below, s, way', rfl⟩⟩
  · rintro ⟨hne, hcomes⟩
    obtain ⟨below, x, way', hx⟩ := (h.comesTo_iff wayp).1 hcomes
    obtain rfl := h.eq_of_ref_eq (wayp.trans way') way hx
    have hbelow : below ≠ [] := by
      rintro rfl
      cases way'
      exact hne rfl
    have hmem : p ∈ below ++ above' := List.mem_append_left _ (way'.root_mem hbelow)
    exact (h.holds.above_iff (wayp.trans way')).2 ⟨p, hmem, rfl⟩

theorem mem_scopeChain_iff (h : ImportedAs v a root t) (way : Spot.Path ⟨0, t⟩ above s) {i : Index} :
    i ∈ a.scopeChain s.ref ↔ a.Above (some i) s.ref ∧ a.opensScope (some i) = true := by
  rw [h.scopeChain_eq way, List.mem_map, h.holds.above_iff way]
  constructor
  · rintro ⟨p, hp, rfl⟩
    obtain ⟨hp, hopen⟩ := List.mem_filter.1 hp
    exact ⟨⟨p, hp, rfl⟩, hopen⟩
  · rintro ⟨⟨p, hp, href⟩, hopen⟩
    rw [← href] at hopen
    exact ⟨p, List.mem_filter.2 ⟨hp, hopen⟩, Option.some.inj href⟩

theorem scopeChain_eq_scopesOver (h : ImportedAs v a root t) (way : Spot.Path ⟨0, t⟩ above s) :
    a.scopeChain s.ref = a.scopesOver s.index := by
  have hcapacity : a.size ≤ capacity := by
    have hfits := h.holds.fits
    rw [h.size_eq]
    simpa using hfits
  refine (h.pairwise_scopeChain way).eq_of_mem_iff ((Arena.pairwise_indices hcapacity).filter _) ?_
  intro i
  rw [h.mem_scopeChain_iff way, Arena.scopesOver, List.mem_filter, Arena.mem_indices hcapacity]
  by_cases hopen : a.opensScope (some i) = true
  · obtain ⟨n, hn⟩ := Arena.exists_node?_of_opensScope hopen
    have hsize := Arena.lt_size_of_node? hn
    obtain ⟨above', p, wayp, hp⟩ := h.exists_of_node? hn
    rw [← hp, h.above_iff_comesTo wayp way]
    obtain rfl := Option.some.inj hp
    simp [Spot.ref, hopen, hsize]
  · simp [hopen]

/-- The outermost scope around a node below the program is the program. -/
theorem getLast?_scopeChain (h : ImportedAs v a root t) (way : Spot.Path ⟨0, t⟩ above s)
    (hne : above ≠ []) : (a.scopeChain s.ref).getLast? = root := by
  obtain ⟨between, rfl⟩ := way.exists_eq_append_root hne
  have hroot : [(⟨0, t⟩ : Spot)].filter (fun p => a.opensScope p.ref) = [⟨0, t⟩] :=
    List.filter_cons_of_pos h.opensScope_root
  rw [h.scopeChain_eq way, List.filter_append, hroot, List.map_append, List.map_singleton,
    List.getLast?_concat, h.root_eq]
  rfl

end ImportedAs

/-- The scopes around a node of an imported program are the scopes other than the node itself from which
a walk comes to it, in the order of their numbers. For every node but the program there are some, and
the last of them is the program. The limit on the way up is not met and leaves nothing out. -/
theorem scopeChain_of_importProgram {v : Json} {a : Arena} {root : Ref}
    (h : importProgram v = .ok (a, root)) (hs : a.size ≤ 2 ^ 32 - 1) {i : Index}
    (hi : i.val < a.size) :
    a.scopeChain (some i) = a.scopesOver i ∧
    (some i ≠ root →
      a.scopeChain (some i) ≠ [] ∧ (a.scopeChain (some i)).getLast? = root) ∧
    (a.upward Arena.maxAncestors (a.parent (some i))).length < Arena.maxAncestors ∧
    ∀ limit, Arena.maxAncestors ≤ limit →
      a.upward limit (a.parent (some i)) = a.upward Arena.maxAncestors (a.parent (some i)) := by
  obtain ⟨t, imported⟩ := importedAs_of_importProgram h hs
  obtain ⟨above, s, way, -, hs⟩ := imported.exists_path hi
  obtain rfl := Option.some.inj hs
  have hlength := imported.length_above_lt way
  have hup : ∀ limit, Arena.maxAncestors ≤ limit →
      a.upward limit (a.parent s.ref) = above.map Spot.index :=
    fun limit hlimit => imported.holds.upward_parent_eq way (hlength.le.trans hlimit)
  refine ⟨imported.scopeChain_eq_scopesOver way, fun hroot => ?_, ?_, fun limit hlimit => ?_⟩
  · have hne : above ≠ [] := by
      rintro rfl
      cases way
      exact hroot imported.root_eq.symm
    have hlast := imported.getLast?_scopeChain way hne
    refine ⟨fun hnil => ?_, hlast⟩
    rw [Spot.ref] at hlast
    rw [hnil, imported.root_eq] at hlast
    cases hlast
  · change (a.upward Arena.maxAncestors (a.parent s.ref)).length < Arena.maxAncestors
    rwa [hup _ le_rfl, List.length_map]
  · exact (hup limit hlimit).trans (hup _ le_rfl).symm

/-- The name `g` of the inner function is node 1. It is in the body of `f`, which is node 6, and in the
program, and not in its own function's body. -/
theorem scopeChain_of_importProgram_nestedCalls :
    ∃ a root, importProgram Sample.nestedCalls = .ok (a, root) ∧ a.size = 14 ∧
      a.scopeChain (some 1) = [6, 13] ∧ a.scopesOver 1 = [6, 13] ∧
      (a.scopeChain (some 1)).getLast? = root ∧
      a.upward 20000 (a.parent (some 1)) = a.upward Arena.maxAncestors (a.parent (some 1)) := by
  have himport : (importProgram Sample.nestedCalls).map
      (fun p => (p.1.size, p.1.scopeChain (some 1), p.2)) = .ok (14, [6, 13], some 13) := by
    decide +kernel
  obtain ⟨⟨a, root⟩, h, hp⟩ := exists_ok_of_map himport
  simp only [Prod.mk.injEq] at hp
  obtain ⟨hsize, hchain, rfl⟩ := hp
  obtain ⟨hover, hlast, -, hlimit⟩ :=
    @scopeChain_of_importProgram _ _ _ h (by omega) 1 (by rw [hsize]; decide)
  exact ⟨a, _, h, hsize, hchain, hover.symm.trans hchain, (hlast (by decide)).2,
    hlimit 20000 (by decide)⟩

end CallTrace
