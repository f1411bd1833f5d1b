import CallTrace.Proofs.Spot

/-!
What building a tree adds to an arena.

Building appends the tree's nodes in the order of the layout and touches nothing else: the parent of
a subtree's root is written when the node above it is added, inside the part that the tree itself
has appended. So the arena of a tree holds each subtree at its spot, with the link to the node above
and the source span (`Arena.Holds`). This is true as long as every node has a reference of its own.
-/
namespace CallTrace

/-- How many nodes have a reference of their own. -/
def capacity : Nat := 0xffffffff

theorem Ref.ofNat_eq_some {n : Nat} (h : n < capacity) : Ref.ofNat n = some ⟨n, h⟩ := by
  have hl : n < 0xffffffff := h
  have hm : n % 0x100000000 = n := Nat.mod_eq_of_lt (by omega)
  unfold Ref.ofNat
  rw [dif_pos (by omega)]
  congr 2

theorem Arena.lt_size_of_node? {a : Arena} {i : Index} {n : Node Index}
    (h : a.node? (some i) = some n) : i.val < a.size := by
  obtain ⟨hsize, -⟩ := Array.getElem?_eq_some_iff.1 (show a.nodes[i.val]? = some n from h)
  exact hsize

/-- A node that exists has one of the numbers that are taken. -/
theorem Arena.exists_index_of_node? {a : Arena} {r : Ref} {n : Node Index} (h : a.node? r = some n) :
    ∃ i : Index, r = some i ∧ i.val < a.size := by
  obtain ⟨i, rfl, -⟩ := Option.bind_eq_some_iff.1 h
  exact ⟨i, rfl, lt_size_of_node? h⟩

namespace Spot

theorem index_val {s : Spot} (h : s.number < capacity) : s.index.val = s.number :=
  Nat.mod_eq_of_lt h

theorem ofNat_number {s : Spot} (h : s.number < capacity) : Ref.ofNat s.number = s.ref := by
  rw [Ref.ofNat_eq_some h, ref, Option.some_inj]
  exact Fin.ext (index_val h).symm

end Spot

namespace Arena

/-- The arena with trees added at its end, their roots reached from the given parent. -/
def lay (a : Arena) (parent : Ref) (spots : List Spot) : Arena :=
  let sites := spots.flatMap fun s => s.layout parent
  ⟨a.nodes ++ (sites.map fun x => x.spot.node).toArray, a.infos ++ (sites.map Site.info).toArray⟩

/-- There are references left for the trees, and the two tables go together. -/
structure Room (a : Arena) (ts : List Tree) : Prop where
  level : a.infos.size = a.nodes.size
  fits : a.size + Tree.extent ts ≤ capacity

@[simp] theorem lay_nil (a : Arena) (parent : Ref) : a.lay parent [] = a := by
  simp [lay]

theorem lay_append (a : Arena) (parent : Ref) (xs ys : List Spot) :
    (a.lay parent xs).lay parent ys = a.lay parent (xs ++ ys) := by
  simp [lay]

theorem length_flatMap_layout_spread (lo : Nat) (ts : List Tree) (parent : Ref) :
    ((Spot.spread lo ts).flatMap fun s => s.layout parent).length = Tree.extent ts := by
  induction ts generalizing lo with
  | nil => simp [Spot.spread, Tree.extent]
  | cons t ts ih => simp [Spot.spread, Tree.extent, ih, Spot.length_layout]

theorem size_lay_spread (a : Arena) (parent : Ref) (lo : Nat) (ts : List Tree) :
    (a.lay parent (Spot.spread lo ts)).size = a.size + Tree.extent ts := by
  simp [lay, size, ← length_flatMap_layout_spread lo ts parent]

theorem Room.of_append {a : Arena} {xs ys : List Tree} (h : a.Room (xs ++ ys)) :
    a.Room xs ∧ (a.lay none (Spot.spread a.size xs)).Room ys := by
  have hf := h.fits
  simp only [Tree.extent, List.map_append, List.sum_append] at hf
  refine ⟨⟨h.level, ?_⟩, ⟨?_, ?_⟩⟩
  · simp only [Tree.extent]
    omega
  · simp [lay, h.level]
  · rw [size_lay_spread]
    simp only [Tree.extent]
    omega

theorem foldl_adopt_reduceOption (r : Ref) (os : List Ref) (infos : Array Info) :
    os.foldl (adopt r) infos = (os.reduceOption.map some).foldl (adopt r) infos := by
  induction os generalizing infos with
  | nil => rfl
  | cons o os ih =>
    cases o with
    | none => simpa [adopt] using ih infos
    | some i => simpa using ih (adopt r infos (some i))

theorem modify_append_singleton (before after : Array Info) (info : Info) (f : Info → Info) :
    (before ++ #[info] ++ after).modify before.size f = before ++ #[f info] ++ after := by
  have listed : ∀ xs ys : List Info,
      (xs ++ info :: ys).modify xs.length f = xs ++ f info :: ys := by
    intro xs ys
    induction xs with
    | nil => simp
    | cons x xs ih => simp [ih]
  apply Array.toList_inj.1
  simpa using listed before.toList after.toList

theorem modify_push_size (infos : Array Info) (info : Info) (f : Info → Info) :
    (infos.push info).modify infos.size f = infos.push (f info) := by
  simpa using modify_append_singleton infos #[] info f

/-- Making a node the parent of trees that were just added changes the links of their roots, and
nothing else. -/
theorem foldl_adopt_spread (r : Ref) (ts : List Tree) (infos : Array Info)
    (h : infos.size + Tree.extent ts ≤ capacity) :
    ((Spot.spread infos.size ts).map Spot.ref).foldl (adopt r)
        (infos ++ (((Spot.spread infos.size ts).flatMap fun s => s.layout none).map
          Site.info).toArray) =
      infos ++ (((Spot.spread infos.size ts).flatMap fun s => s.layout r).map
        Site.info).toArray := by
  induction ts generalizing infos with
  | nil => simp [Spot.spread]
  | cons t ts ih =>
    let s : Spot := ⟨infos.size, t⟩
    let inner : List Info := (s.kids.flatMap fun k => k.layout s.ref).map Site.info
    have hs (p : Ref) : (s.layout p).map Site.info = inner ++ [⟨p, s.span⟩] := by
      rw [Spot.layout_eq]
      simp [inner, Site.info]
    have hinner : inner.length = Tree.extent t.kids := by
      rw [← length_flatMap_layout_spread s.base t.kids s.ref, ← s.kids_eq]
      simp [inner]
    have hsize : t.size = Tree.extent t.kids + 1 := s.size_eq
    have hext : Tree.extent (t :: ts) = t.size + Tree.extent ts := by simp [Tree.extent]
    have hn : s.index.val = (infos ++ inner.toArray).size := by
      have hnum : s.number = infos.size + Tree.extent t.kids := rfl
      rw [Spot.index_val (by omega), hnum]
      simp [hinner]
    -- The root of the first tree stands right after its subtrees; then come the other trees.
    have hfirst (rest : Array Info) : adopt r (infos ++ (inner.toArray ++ #[⟨none, s.span⟩] ++ rest))
        s.ref = infos ++ inner.toArray ++ #[⟨r, s.span⟩] ++ rest := by
      have := modify_append_singleton (infos ++ inner.toArray) rest ⟨none, s.span⟩
        fun info => { info with parent := r }
      rw [← hn] at this
      simpa [adopt, Spot.ref] using this
    have hlo : (infos ++ inner.toArray ++ #[(⟨r, s.span⟩ : Info)]).size = infos.size + t.size := by
      simp [hinner, hsize]
    have hrest := ih (infos ++ inner.toArray ++ #[⟨r, s.span⟩]) (by omega)
    rw [hlo] at hrest
    have hsplit (p : Ref) : ((Spot.spread infos.size (t :: ts)).flatMap
        fun s => s.layout p).map Site.info = inner ++ [⟨p, s.span⟩] ++
          ((Spot.spread (infos.size + t.size) ts).flatMap fun s => s.layout p).map Site.info := by
      simp only [Spot.spread, List.flatMap_cons, List.map_append]
      rw [hs p]
    rw [hsplit none, hsplit r, Spot.spread, List.map_cons, List.foldl_cons]
    have hgoal := hfirst (((Spot.spread (infos.size + t.size) ts).flatMap
      fun s => s.layout none).map Site.info).toArray
    simp only [← List.append_toArray] at hgoal hrest ⊢
    rw [hgoal, hrest]
    simp

theorem nodes_lay_singleton (a : Arena) (p q : Ref) (s : Spot) :
    (a.lay p [s]).nodes = (a.lay q s.kids).nodes.push s.node := by
  have hspots : (s.kids.flatMap fun k => k.layout s.ref).map Site.spot =
      (s.kids.flatMap fun k => k.layout q).map Site.spot := by
    rw [List.map_flatMap, List.map_flatMap]
    congr 1
    funext k
    exact k.map_spot_layout _ _
  have hlay : (s.layout p).map (Spot.node ∘ Site.spot) =
      (s.kids.flatMap fun k => k.layout q).map (Spot.node ∘ Site.spot) ++ [s.node] := by
    rw [Spot.layout_eq, List.map_append, ← List.map_map, hspots, List.map_map]
    rfl
  have hnode : (fun x : Site => x.spot.node) = Spot.node ∘ Site.spot := rfl
  apply Array.toList_inj.1
  simp [lay, hnode, hlay]

theorem infos_lay_singleton (a : Arena) (p : Ref) (s : Spot) :
    (a.lay p [s]).infos =
      (a.infos ++ ((s.kids.flatMap fun k => k.layout s.ref).map Site.info).toArray).push
        ⟨p, s.span⟩ := by
  apply Array.toList_inj.1
  simp [lay, s.layout_eq p, Site.info]

theorem add_lay {s : Spot} {a : Arena} (hb : s.base = a.size) (room : a.Room [s.tree]) :
    (a.lay none s.kids).add s.node = (s.ref, ⟨(a.lay none [s]).nodes,
      (a.infos ++ ((s.kids.flatMap fun k => k.layout s.ref).map Site.info).toArray).push
        .fresh⟩) := by
  have hfits : a.size + s.tree.size ≤ capacity := by simpa [Tree.extent] using room.fits
  have hsize := s.size_eq
  have hnodes : (a.lay none s.kids).nodes.size = s.number := by
    rw [Spot.number, hb, ← size_lay_spread a none s.base s.tree.kids, ← s.kids_eq, size]
  have hbase : a.infos.size = s.base := by
    rw [room.level, hb, size]
  have hadopt := foldl_adopt_spread s.ref s.tree.kids a.infos (by omega)
  rw [hbase, ← s.kids_eq] at hadopt
  have hinfos : s.node.children.foldl (adopt s.ref) (a.lay none s.kids).infos =
      a.infos ++ ((s.kids.flatMap fun k => k.layout s.ref).map Site.info).toArray := by
    rw [foldl_adopt_reduceOption, Spot.node, Node.children_map, List.reduceOption_map, List.map_map]
    exact hadopt
  have href : Ref.ofNat (a.lay none s.kids).nodes.size = s.ref := by
    rw [hnodes, Spot.ofNat_number]
    unfold Spot.number
    omega
  simp only [add, href, hinfos, nodes_lay_singleton a none none s]

end Arena

namespace Tree

/-- Building the tree adds it at the end of the arena, and its root is the last node. -/
def Builds (t : Tree) : Prop :=
  ∀ a : Arena, a.Room [t] → build t a = (Spot.ref ⟨a.size, t⟩, a.lay none [⟨a.size, t⟩])

theorem buildChild_eq {o : Option Tree} (ho : ∀ t ∈ o.toList, Builds t) {a : Arena}
    (room : a.Room o.toList) :
    buildChild o a =
      ((o.map (Spot.mk a.size)).map Spot.index, a.lay none (Spot.spread a.size o.toList)) := by
  cases o with
  | none =>
    rw [buildChild, Option.toList_none, Spot.spread, Arena.lay_nil]
    rfl
  | some t =>
    rw [buildChild, ho t (by simp) a room]
    rfl

theorem buildList_eq {ts : List (Option Tree)} (hts : ∀ t ∈ ts.reduceOption, Builds t)
    {a : Arena} (room : a.Room ts.reduceOption) (done : List Ref) :
    buildList done ts a =
      (done.reverse ++ (Spot.spreadOver a.size ts).map (Option.map Spot.index),
        a.lay none (Spot.spread a.size ts.reduceOption)) := by
  induction ts generalizing a done with
  | nil =>
    rw [buildList]
    simp [Spot.spreadOver, Spot.spread, pure, StateT.pure]
  | cons o ts ih =>
    have hr : (o :: ts).reduceOption = o.toList ++ ts.reduceOption := by cases o <;> simp
    rw [hr] at hts room ⊢
    obtain ⟨first, others⟩ := room.of_append
    have h₁ := buildChild_eq (fun t ht => hts t (List.mem_append_left _ ht)) first
    have h₂ := ih (fun t ht => hts t (List.mem_append_right _ ht)) others
      ((o.map (Spot.mk a.size)).map Spot.index :: done)
    have step : buildList done (o :: ts) a =
        buildList ((buildChild o a).1 :: done) ts (buildChild o a).2 := by
      rw [buildList]
      rfl
    rw [step, h₁, h₂, Arena.lay_append, Spot.spread_append, Arena.size_lay_spread]
    cases o <;> simp [Spot.spreadOver, Tree.extent]

theorem buildNode_eq {shape : Node Tree} (h : ∀ t ∈ shape.present, Builds t) {a : Arena}
    (room : a.Room shape.present) :
    buildNode shape a =
      ((shape.spread a.size).map Spot.index, a.lay none (Spot.spread a.size shape.present)) := by
  cases shape with
  | program ts | block ts | variableStatement _ ts =>
    simp only [Node.present, Node.children] at h room ⊢
    have ht := buildList_eq h room []
    rw [buildNode]
    simp only [bind, StateT.bind, ht]
    rfl
  | variableDeclaration x y | member x y _ =>
    have hp : x.toList ++ y.toList = (Node.single x ++ Node.single y).reduceOption := by
      simp [List.reduceOption_append]
    simp only [Node.present, Node.children, ← hp] at h room ⊢
    obtain ⟨first, second⟩ := room.of_append
    have h₁ := buildChild_eq (fun t ht => h t (List.mem_append_left _ ht)) first
    have h₂ := buildChild_eq (fun t ht => h t (List.mem_append_right _ ht)) second
    rw [buildNode]
    simp only [bind, StateT.bind, h₁, h₂, Arena.lay_append, Arena.size_lay_spread,
      Spot.spread_append]
    rfl
  | function form name ps body _ _ =>
    have hp : name.toList ++ (ps.reduceOption ++ body.toList) =
        (Node.single name ++ ps ++ Node.single body).reduceOption := by
      simp [List.reduceOption_append]
    simp only [Node.present, Node.children, ← hp] at h room ⊢
    obtain ⟨first, others⟩ := room.of_append
    obtain ⟨second, third⟩ := others.of_append
    simp only [List.mem_append] at h
    have h₁ := buildChild_eq (fun t ht => h t (.inl ht)) first
    have h₂ := buildList_eq (fun t ht => h t (.inr (.inl ht))) second []
    have h₃ := buildChild_eq (fun t ht => h t (.inr (.inr ht))) third
    rw [buildNode]
    simp only [bind, StateT.bind, h₁, h₂, h₃]
    simp only [Arena.size_lay_spread]
    simp only [Arena.lay_append, Spot.spread_append, List.append_assoc]
    rfl
  | call f xs _ =>
    have hp : f.toList ++ xs.reduceOption = (Node.single f ++ xs).reduceOption := by
      simp [List.reduceOption_append]
    simp only [Node.present, Node.children, ← hp] at h room ⊢
    obtain ⟨first, second⟩ := room.of_append
    have h₁ := buildChild_eq (fun t ht => h t (List.mem_append_left _ ht)) first
    have h₂ := buildList_eq (fun t ht => h t (List.mem_append_right _ ht)) second []
    rw [buildNode]
    simp only [bind, StateT.bind, h₁, h₂, Arena.lay_append, Arena.size_lay_spread,
      Spot.spread_append]
    rfl
  | expressionStatement x | returnStatement x =>
    simp only [Node.present, Node.children, Node.reduceOption_single] at h room ⊢
    have hx := buildChild_eq h room
    rw [buildNode]
    simp only [bind, StateT.bind, hx]
    rfl
  | other _ ts =>
    simp only [Node.present, Node.children, Node.reduceOption_filter_isSome] at h room ⊢
    have ht := buildList_eq h room []
    rw [buildNode]
    simp only [bind, StateT.bind, ht]
    rfl
  | identifier | literal =>
    rw [buildNode]
    simp [Node.present, Node.children, Spot.spread, Node.spread, Node.map, pure, StateT.pure]

theorem place_lay {s : Spot} {a : Arena} (hb : s.base = a.size) (room : a.Room [s.tree]) :
    place s.tree.span s.node (a.lay none s.kids) = (s.ref, a.lay none [s]) := by
  have hadd := Arena.add_lay hb room
  have hlay : a.lay none [s] = ⟨(a.lay none [s]).nodes, (a.lay none [s]).infos⟩ := rfl
  rw [hlay, Arena.infos_lay_singleton]
  unfold place
  rw [hadd]
  cases hspan : s.tree.span with
  | none => simp [Spot.span, hspan, Info.fresh]
  | some span =>
    have hn : s.index.val =
        (a.infos ++ ((s.kids.flatMap fun k => k.layout s.ref).map Site.info).toArray).size := by
      have hfits : a.size + s.tree.size ≤ capacity := by simpa [extent] using room.fits
      have hsize := s.size_eq
      have hlen := Arena.length_flatMap_layout_spread s.base s.tree.kids s.ref
      rw [← s.kids_eq] at hlen
      rw [Spot.index_val (by unfold Spot.number; omega), Spot.number, hb, Arena.size, ← room.level]
      simp [hlen]
    change (s.ref, (⟨_, (Array.push _ Info.fresh).modify s.index.val _⟩ : Arena)) = _
    rw [hn, Arena.modify_push_size]
    simp [Spot.span, hspan, Info.fresh]

theorem builds (t : Tree) : Builds t := by
  induction t using induct with
  | step t ih =>
    obtain ⟨span, shape⟩ := t
    intro a room
    have hroom : a.Room shape.present := by
      refine ⟨room.level, ?_⟩
      have hf := room.fits
      have hs : (Tree.node span shape).size = extent shape.present + 1 := size_eq _
      simp only [extent, List.map_cons, List.map_nil, List.sum_cons, List.sum_nil, hs] at hf ⊢
      omega
    have step : build (.node span shape) a =
        place span (buildNode shape a).1 (buildNode shape a).2 := by
      rw [build]
      rfl
    have hshape : buildNode shape a = _ := buildNode_eq ih hroom
    have hplace := @place_lay ⟨a.size, .node span shape⟩ a rfl room
    rw [Spot.kids_eq] at hplace
    rw [step, hshape]
    exact hplace

theorem size_buildChild {o : Option Tree}
    (ho : ∀ t ∈ o.toList, ∀ a, (build t a).2.size = a.size + t.size) (a : Arena) :
    (buildChild o a).2.size = a.size + extent o.toList := by
  cases o with
  | none =>
    rw [buildChild]
    rfl
  | some t =>
    rw [buildChild, ho t (by simp) a]
    simp [extent]

theorem size_buildList {ts : List (Option Tree)}
    (hts : ∀ t ∈ ts.reduceOption, ∀ a, (build t a).2.size = a.size + t.size) (done : List Ref)
    (a : Arena) : (buildList done ts a).2.size = a.size + extent ts.reduceOption := by
  induction ts generalizing done a with
  | nil =>
    rw [buildList]
    rfl
  | cons o ts ih =>
    have hr : (o :: ts).reduceOption = o.toList ++ ts.reduceOption := by cases o <;> simp
    rw [hr] at hts ⊢
    have h₁ := size_buildChild (fun t ht => hts t (List.mem_append_left _ ht)) a
    have h₂ := ih (fun t ht => hts t (List.mem_append_right _ ht)) ((buildChild o a).1 :: done)
      (buildChild o a).2
    have step : buildList done (o :: ts) a =
        buildList ((buildChild o a).1 :: done) ts (buildChild o a).2 := by
      rw [buildList]
      rfl
    rw [step, h₂, h₁]
    simp [extent, Nat.add_assoc]

theorem size_buildNode {shape : Node Tree}
    (h : ∀ t ∈ shape.present, ∀ a, (build t a).2.size = a.size + t.size) (a : Arena) :
    (buildNode shape a).2.size = a.size + extent shape.present := by
  cases shape with
  | program ts | block ts | variableStatement _ ts =>
    rw [buildNode]
    exact size_buildList h [] a
  | variableDeclaration x y | member x y _ =>
    simp only [Node.present, Node.children, List.reduceOption_append, Node.reduceOption_single,
      List.mem_append, extent, List.map_append, List.sum_append] at h ⊢
    have h₁ := size_buildChild (fun t ht => h t (.inl ht)) a
    have h₂ := size_buildChild (fun t ht => h t (.inr ht)) (buildChild x a).2
    rw [buildNode, ← Nat.add_assoc]
    exact h₂.trans (congrArg (· + _) h₁)
  | function form name ps body _ _ =>
    simp only [Node.present, Node.children, List.reduceOption_append, Node.reduceOption_single,
      List.mem_append, extent, List.map_append, List.sum_append] at h ⊢
    have h₁ := size_buildChild (fun t ht => h t (.inl (.inl ht))) a
    have h₂ := size_buildList (fun t ht => h t (.inl (.inr ht))) [] (buildChild name a).2
    have h₃ := size_buildChild (fun t ht => h t (.inr ht)) (buildList [] ps (buildChild name a).2).2
    rw [buildNode, ← Nat.add_assoc, ← Nat.add_assoc]
    exact h₃.trans (congrArg (· + _) (h₂.trans (congrArg (· + _) h₁)))
  | call f xs _ =>
    simp only [Node.present, Node.children, List.reduceOption_append, Node.reduceOption_single,
      List.mem_append, extent, List.map_append, List.sum_append] at h ⊢
    have h₁ := size_buildChild (fun t ht => h t (.inl ht)) a
    have h₂ := size_buildList (fun t ht => h t (.inr ht)) [] (buildChild f a).2
    rw [buildNode, ← Nat.add_assoc]
    exact h₂.trans (congrArg (· + _) h₁)
  | expressionStatement x | returnStatement x =>
    simp only [Node.present, Node.children, Node.reduceOption_single] at h ⊢
    rw [buildNode]
    exact size_buildChild h a
  | other _ ts =>
    simp only [Node.present, Node.children, Node.reduceOption_filter_isSome] at h ⊢
    rw [buildNode]
    exact size_buildList h [] a
  | identifier | literal =>
    rw [buildNode]
    rfl

/-- Building adds as many nodes as the tree has, also where references run out. -/
theorem size_build (t : Tree) (a : Arena) : (build t a).2.size = a.size + t.size := by
  induction t using induct generalizing a with
  | step t ih =>
    obtain ⟨span, shape⟩ := t
    have hplace : ∀ (n : Node Index) (a : Arena), (place span n a).2.size = a.size + 1 := by
      intro n a
      unfold place Arena.add Arena.setSpan
      cases span with
      | none => simp [Arena.size]
      | some span => cases h : Ref.ofNat a.nodes.size <;> simp [Arena.size]
    have step : build (.node span shape) a =
        place span (buildNode shape a).1 (buildNode shape a).2 := by
      rw [build]
      rfl
    have hnode : (buildNode shape a).2.size = _ := size_buildNode ih a
    rw [step, hplace, hnode, Nat.add_assoc, size_eq]
    rfl

theorem size_toArena (t : Tree) : t.toArena.1.size = t.size := by
  have hbuild : t.toArena.1 = (build t .empty).2 := rfl
  rw [hbuild, size_build]
  simp [Arena.size, Arena.empty]

theorem toArena_eq {t : Tree} (h : t.size ≤ capacity) :
    t.toArena = (Arena.empty.lay none [⟨0, t⟩], Spot.ref ⟨0, t⟩) := by
  have hroom : Arena.empty.Room [t] := ⟨rfl, by simpa [extent, Arena.size, Arena.empty] using h⟩
  have hbuild : build t .empty = (Spot.ref ⟨0, t⟩, Arena.empty.lay none [⟨0, t⟩]) :=
    t.builds .empty hroom
  unfold toArena
  rw [hbuild]

end Tree

/-- The arena holds a tree at its spot: every subtree is stored under its number, with the link to
the node above and its span. The tree lists no absent child. -/
structure Arena.Holds (a : Arena) (root : Spot) : Prop where
  fits : root.base + root.tree.size ≤ capacity
  full : root.tree.Full
  node? : ∀ {above s}, Spot.Path root above s → a.node? s.ref = some s.node
  info? : ∀ {above s}, Spot.Path root above s →
    a.info? s.ref = some ⟨Spot.Path.parent above, s.span⟩

theorem Spot.Path.number_lt {root s : Spot} {above : List Spot} (way : Path root above s)
    (fits : root.base + root.tree.size ≤ capacity) : s.number < capacity := by
  have := way.range
  have := s.number_succ
  omega

/-- The arena of a tree holds the tree. -/
theorem Tree.holds_toArena {t : Tree} (full : t.Full) (fits : t.size ≤ capacity) :
    t.toArena.1.Holds ⟨0, t⟩ := by
  have stored : ∀ {above : List Spot} {s : Spot}, Spot.Path ⟨0, t⟩ above s →
      ((⟨0, t⟩ : Spot).layout none)[s.index.val]? = some ⟨s, Spot.Path.parent above⟩ := by
    intro above s way
    rw [Spot.index_val (way.number_lt (by simpa using fits))]
    simpa using (Spot.layout_getElem?_of_mem way.mem_layout).2
  rw [toArena_eq fits]
  refine ⟨by simpa using fits, full, fun way => ?_, fun way => ?_⟩
  · simp [Arena.node?, Spot.ref, Arena.lay, Arena.empty, stored way]
  · simp [Arena.info?, Spot.ref, Arena.lay, Arena.empty, stored way, Site.info]

end CallTrace
