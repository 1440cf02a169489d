import MarkupTemplate.Proofs.Steps

/-!
# What the axes denote

The axes as relations between nodes, which do not say how to find a node, and the axes of a node of
the tree.

* `Node.ChildOf`, `Node.HasParent` — what a tree is made of. An element is the parent of its
  attributes, but they are not its children.
* `Axis.Relates` — the relation that an axis stands for.
* `Scope.Exact` — what lies on an axis is what the axis denotes, each node once and in order.
* `Scope.Partition` — axes that divide the nodes of the tree among them.
* `Scope.Holds.mem_axis`, `Scope.Holds.pairwise_axis` — what lies on an axis, and in which order.
* `treeAxis_exact` — the axes of a node of the tree are exact.
-/

namespace MarkupTemplate.XPath

variable {s : Scope} {p q : Place} {n m : Node}

/-! ## Relations -/

/-- A node of a tree is a child of another one. -/
inductive Node.ChildOf : Node → Node → Prop
  | tree (p : Place) (i : Nat) : ChildOf (.tree (p.child i)) (.tree p)

/-- A node has a parent, the node that it is a child of, or the element that it is an attribute
of. -/
inductive Node.HasParent : Node → Node → Prop
  | child {n m : Node} : n.ChildOf m → HasParent n m
  | owner (p : Place) (i : Nat) : HasParent (.attribute p i) (.tree p)

/-- A node of the tree, and no attribute. -/
def Node.IsTree (n : Node) : Prop :=
  ∃ p, n = .tree p

/-- The relation that an axis stands for, from a context node to the nodes on the axis. -/
def Axis.Relates (n m : Node) : Axis → Prop
  | .child => m.ChildOf n
  | .descendant => Relation.TransGen Node.ChildOf m n
  | .descendantOrSelf => Relation.ReflTransGen Node.ChildOf m n
  | .attribute => ∃ p i, n = .tree p ∧ m = .attribute p i
  | .parent => n.HasParent m
  | .ancestor => Relation.TransGen Node.HasParent n m
  | .ancestorOrSelf => Relation.ReflTransGen Node.HasParent n m
  | .self => m = n
  | .followingSibling => (∃ r, n.ChildOf r ∧ m.ChildOf r) ∧ n.Before m
  | .precedingSibling => (∃ r, n.ChildOf r ∧ m.ChildOf r) ∧ m.Before n
  | .following => m.IsTree ∧ n.Before m ∧ ¬ Relation.TransGen Node.ChildOf m n
  | .preceding => m.IsTree ∧ m.Before n ∧ ¬ Relation.TransGen Node.HasParent n m

/-- The order of the nodes on an axis: document order, or the reverse of it. -/
def Axis.Orders (a : Axis) (n m : Node) : Prop :=
  if a.isReverse then m.Before n else n.Before m

/-- What lies on an axis from a node is what the axis denotes, each node once and in order. -/
structure Scope.Exact (s : Scope) (a : Axis) (n : Node) : Prop where
  once : (s.axis a n).Nodup
  mem_iff : ∀ m, m ∈ s.axis a n ↔ m ∈ s.documentOrder ∧ a.Relates n m
  ordered : (s.axis a n).Pairwise a.Orders

/-- As they are seen from a node, the axes divide all nodes of the tree among them. -/
structure Scope.Partition (s : Scope) (axes : List Axis) (n : Node) : Prop where
  once : (axes.flatMap fun a => s.axis a n).Nodup
  mem_iff : ∀ m, m ∈ (axes.flatMap fun a => s.axis a n) ↔ m ∈ s.documentOrder ∧ m.IsTree

/-- Nodes that are in order are there once. -/
theorem Scope.Exact.of_ordered {a : Axis}
    (hmem : ∀ m, m ∈ s.axis a n ↔ m ∈ s.documentOrder ∧ a.Relates n m)
    (hordered : (s.axis a n).Pairwise a.Orders) : s.Exact a n := by
  refine ⟨hordered.imp fun {x y} hxy => ?_, hmem, hordered⟩
  rintro rfl
  rw [Axis.Orders, ite_self] at hxy
  exact hxy.irrefl

/-! ## Paths -/

/-- A path comes before those that go on from it, and before those that part from it to the
right. -/
theorem Path.lt_iff : ∀ {path path' : Path}, path < path' ↔
    (∃ r, r ≠ [] ∧ path' = path ++ r) ∨
      ∃ c i j r t, i < j ∧ path = c ++ i :: r ∧ path' = c ++ j :: t
  | [], [] => by simp
  | [], i :: path' => by simp
  | i :: path, [] => by simp
  | i :: path, j :: path' => by
    rw [List.cons_lt_cons_iff, Path.lt_iff]
    constructor
    · rintro (hij | ⟨rfl, ⟨r, hr, rfl⟩ | ⟨c, k, l, r, t, hkl, rfl, rfl⟩⟩)
      · exact .inr ⟨[], i, j, path, path', hij, rfl, rfl⟩
      · exact .inl ⟨r, hr, rfl⟩
      · exact .inr ⟨i :: c, k, l, r, t, hkl, rfl, rfl⟩
    · rintro (⟨r, hr, heq⟩ | ⟨c, k, l, r, t, hkl, hpath, hpath'⟩)
      · obtain ⟨rfl, rfl⟩ := List.cons.inj heq
        exact .inr ⟨rfl, .inl ⟨r, hr, rfl⟩⟩
      · cases c with
        | nil =>
          obtain ⟨rfl, rfl⟩ := List.cons.inj hpath
          obtain ⟨rfl, rfl⟩ := List.cons.inj hpath'
          exact .inl hkl
        | cons h c =>
          obtain ⟨rfl, rfl⟩ := List.cons.inj hpath
          obtain ⟨rfl, rfl⟩ := List.cons.inj hpath'
          exact .inr ⟨rfl, .inr ⟨c, k, l, r, t, hkl, rfl, rfl⟩⟩

theorem Node.before_tree : Node.Before (.tree p) (.tree q) ↔ p.path < q.path := by
  simp [Node.Before, Node.place, Node.slot]

/-! ## Relations as paths -/

theorem Node.childOf_iff : n.ChildOf m ↔ ∃ p i, n = .tree (p.child i) ∧ m = .tree p := by
  constructor
  · rintro ⟨p, i⟩
    exact ⟨p, i, rfl, rfl⟩
  · rintro ⟨p, i, rfl, rfl⟩
    exact .tree p i

/-- The descendants of a node are those whose paths go on from its path. -/
theorem Node.descends_iff : Relation.TransGen Node.ChildOf m (.tree p) ↔
    ∃ r, r ≠ [] ∧ m = .tree ⟨p.astray, p.path ++ r⟩ := by
  constructor
  · intro h
    induction h using Relation.TransGen.head_induction_on with
    | single hchild =>
      obtain ⟨_, i⟩ := hchild
      exact ⟨[i], List.cons_ne_nil i [], rfl⟩
    | head hchild _ ih =>
      obtain ⟨r, -, rfl⟩ := ih
      obtain ⟨_, i⟩ := hchild
      exact ⟨r ++ [i], by simp, by simp [Place.child]⟩
  · rintro ⟨r, hr, rfl⟩
    induction r using List.reverseRecOn with
    | nil => exact absurd rfl hr
    | append_singleton r i ih =>
      have hchild : Node.ChildOf (.tree ⟨p.astray, p.path ++ (r ++ [i])⟩)
          (.tree ⟨p.astray, p.path ++ r⟩) :=
        Node.childOf_iff.2 ⟨_, i, by simp [Place.child], rfl⟩
      by_cases hempty : r = []
      · subst hempty
        rw [List.append_nil] at hchild
        exact .single hchild
      · exact .head hchild (ih hempty)

/-- Upwards from a node of the tree there are only parents of children. -/
theorem Node.transGen_hasParent_tree : Relation.TransGen Node.HasParent (.tree p) m ↔
    Relation.TransGen Node.ChildOf (.tree p) m := by
  constructor
  · intro h
    induction h with
    | single hparent =>
      cases hparent with
      | child hchild => exact .single hchild
    | tail _ hparent ih =>
      cases hparent with
      | child hchild => exact .tail ih hchild
      | owner q i =>
        obtain ⟨x, -, hx⟩ := Relation.TransGen.tail'_iff.1 ih
        cases hx
  · exact Relation.TransGen.mono (fun _ _ => Node.HasParent.child) _ _

/-- The ancestors of a node of the tree. -/
theorem Node.ancestor_iff : Relation.TransGen Node.HasParent (.tree p) m ↔
    ∃ q ∈ p.ancestors, m = .tree q := by
  rw [Node.transGen_hasParent_tree]
  constructor
  · intro h
    obtain ⟨x, -, hx⟩ := Relation.TransGen.tail'_iff.1 h
    obtain ⟨q, i⟩ := hx
    obtain ⟨r, hr, heq⟩ := Node.descends_iff.1 h
    cases heq
    exact ⟨q, Place.mem_ancestors.2 ⟨r, hr, rfl, rfl⟩, rfl⟩
  · rintro ⟨q, hq, rfl⟩
    obtain ⟨r, hr, hpath, hastray⟩ := Place.mem_ancestors.1 hq
    refine Node.descends_iff.2 ⟨r, hr, ?_⟩
    obtain ⟨a, path⟩ := p
    cases hpath
    cases hastray
    rfl

/-! ## Places on the axes -/

/-- Siblings are children of the same node. -/
theorem Place.precedes_iff :
    p.Precedes q ↔ ∃ u i j, i < j ∧ p = Place.child u i ∧ q = Place.child u j := by
  constructor
  · rintro ⟨a, path, i, j, hij, rfl, rfl⟩
    exact ⟨⟨a, path⟩, i, j, hij, rfl, rfl⟩
  · rintro ⟨u, i, j, hij, rfl, rfl⟩
    exact ⟨u.astray, u.path, i, j, hij, rfl, rfl⟩

/-- Places in the document are told apart by their paths. -/
theorem Scope.Holds.eq_of_path (hp : s.Holds p) (hq : s.Holds q) (h : q.path = p.path) : q = p := by
  obtain ⟨a, path⟩ := p
  obtain ⟨b, path'⟩ := q
  obtain rfl : b = a := hq.1.trans hp.1.symm
  exact congrArg _ h

/-- At the head of what is at and below a node is the node itself. -/
theorem Scope.Holds.preorder_eq (hp : s.Holds p) :
    s.preorder p = p :: (s.preorder p).drop 1 := by
  obtain ⟨-, ht⟩ := hp
  obtain ⟨⟨label, children⟩, ht⟩ := Option.isSome_iff_exists.1 ht
  simp [Scope.preorder, ht, Tree.paths]

/-- Below a node are the places whose paths go on from its path. -/
theorem Scope.Holds.mem_below (hp : s.Holds p) : q ∈ (s.preorder p).drop 1 ↔
    s.Holds q ∧ ∃ r, r ≠ [] ∧ q = ⟨p.astray, p.path ++ r⟩ := by
  have hsorted := s.pairwise_preorder p
  have hmem : q ∈ s.preorder p ↔ q = p ∨ q ∈ (s.preorder p).drop 1 := by
    conv_lhs => rw [hp.preorder_eq]
    exact List.mem_cons
  rw [hp.preorder_eq, List.pairwise_cons] at hsorted
  constructor
  · intro hq
    have hbelow := hmem.2 (.inr hq)
    obtain ⟨r, hr, hsome⟩ := Scope.mem_preorder.1 hbelow
    refine ⟨hp.below hbelow, r, ?_, hr⟩
    rintro rfl
    have hlt := hsorted.1 q hq
    rw [hr, List.append_nil] at hlt
    exact List.lt_irrefl _ hlt
  · rintro ⟨hq, r, hr, rfl⟩
    refine (hmem.1 (Scope.mem_preorder.2 ⟨r, rfl, hq.2⟩)).resolve_left fun heq => ?_
    have hlength := congrArg (List.length ∘ Place.path) heq
    have hpos := List.length_pos_iff.2 hr
    simp only [Function.comp, List.length_append] at hlength
    omega

/-- What follows a node comes after it and is not below it. -/
theorem Scope.Holds.mem_following (hp : s.Holds p) : q ∈ s.following p ↔
    s.Holds q ∧ p.path < q.path ∧ ¬ ∃ r, r ≠ [] ∧ q = ⟨p.astray, p.path ++ r⟩ := by
  constructor
  · intro hq
    have hself : p ∈ s.preorder p := Scope.mem_preorder.2 ⟨[], by simp, hp.2⟩
    refine ⟨hp.following hq, Scope.below_before_following hself hq, ?_⟩
    rintro ⟨r, -, hr⟩
    have hbelow : q ∈ s.preorder p := Scope.mem_preorder.2 ⟨r, hr, (hp.following hq).2⟩
    exact List.lt_irrefl _ (Scope.below_before_following hbelow hq)
  · rintro ⟨hq, hlt, hbelow⟩
    obtain ⟨a, path⟩ := p
    obtain ⟨b, path'⟩ := q
    obtain rfl : a = b := hp.1.trans hq.1.symm
    rcases Path.lt_iff.1 hlt with ⟨r, hr, heq⟩ | ⟨c, i, j, r, t, hij, hpath, hpath'⟩
    · exact absurd ⟨r, hr, congrArg _ heq⟩ hbelow
    · simp only at hpath hpath'
      subst hpath hpath'
      -- The paths part below the node at `c`, so the place follows the one at `c ++ [i]`.
      have hup : (⟨a, c ++ [i]⟩ : Place) ∈ (⟨a, c ++ i :: r⟩ : Place) ::
          (⟨a, c ++ i :: r⟩ : Place).ancestors := by
        cases r with
        | nil => exact List.mem_cons_self
        | cons k r =>
          exact List.mem_cons_of_mem _
            (Place.mem_ancestors.2 ⟨k :: r, List.cons_ne_nil k r, by simp, rfl⟩)
      exact List.mem_flatMap.2 ⟨_, hup,
        Scope.mem_flatMap_laterSiblings.2 ⟨c, i, j, t, rfl, hij, rfl, hq.2⟩⟩

/-- In an ascending list, what is left of a place is what comes before it. -/
theorem mem_takeWhile_ne {ps : List Place} (h : ps.Pairwise fun x y => x.path < y.path)
    (hp : p ∈ ps) : q ∈ ps.takeWhile (fun x => x != p) ↔ q ∈ ps ∧ q.path < p.path := by
  obtain ⟨before, after, rfl⟩ := List.append_of_mem hp
  obtain ⟨-, hafter, hbefore⟩ := List.pairwise_append.1 h
  have hlt : ∀ x ∈ before, x.path < p.path := fun x hx => hbefore x hx p List.mem_cons_self
  have htake : (before ++ p :: after).takeWhile (fun x => x != p) = before := by
    rw [List.takeWhile_append_of_pos fun x hx => ?_, List.takeWhile_cons_of_neg (by simp),
      List.append_nil]
    rw [bne_iff_ne]
    rintro rfl
    exact List.lt_irrefl _ (hlt x hx)
  rw [htake]
  constructor
  · exact fun hq => ⟨List.mem_append_left _ hq, hlt q hq⟩
  · rintro ⟨hq, hqp⟩
    rcases List.mem_append.1 hq with hq | hq
    · exact hq
    · rcases List.mem_cons.1 hq with rfl | hq
      · exact absurd hqp (List.lt_irrefl _)
      · exact absurd (List.lt_trans hqp ((List.pairwise_cons.1 hafter).1 q hq)) (List.lt_irrefl _)

/-- What precedes a node comes before it and is not above it. -/
theorem Scope.Holds.mem_preceding (hp : s.Holds p) :
    q ∈ s.preceding p ↔ s.Holds q ∧ q.path < p.path ∧ q ∉ p.ancestors := by
  have hmem : p ∈ s.preorder .root := Scope.mem_preorder_root.2 hp
  rw [Scope.preceding, List.mem_reverse, List.mem_filter,
    mem_takeWhile_ne (s.pairwise_preorder .root) hmem, Scope.mem_preorder_root]
  simp [Scope.Holds, and_assoc]

/-- What precedes a node is listed backwards. -/
theorem Scope.pairwise_preceding (s : Scope) (p : Place) :
    (s.preceding p).Pairwise fun x y => y.path < x.path := by
  rw [Scope.preceding, List.pairwise_reverse]
  exact ((s.pairwise_preorder .root).sublist (List.takeWhile_sublist _)).sublist
    List.filter_sublist

/-- The earlier siblings of a node are listed backwards. -/
theorem Place.pairwise_earlierSiblings (p : Place) :
    p.earlierSiblings.Pairwise fun x y => y.path < x.path := by
  rw [Place.earlierSiblings]
  split
  · rw [List.pairwise_map, List.pairwise_reverse]
    exact List.pairwise_lt_range.imp fun h =>
      List.append_left_lt (List.cons_lt_cons_iff.2 (.inl h))
  · exact .nil

/-- On the way up each node comes before the one that it was reached from. -/
theorem Place.pairwise_upwards (p : Place) :
    (p :: p.ancestors).Pairwise fun x y => y.path < x.path :=
  p.pairwise_ancestors.imp fun ⟨t, ht, heq⟩ => Path.lt_iff.2 (.inl ⟨t, ht, heq⟩)

/-! ## Relations of the nodes of a tree -/

theorem Node.childOf_tree : Node.ChildOf (.tree q) (.tree p) ↔ ∃ i, q = p.child i := by
  rw [Node.childOf_iff]
  constructor
  · rintro ⟨u, i, hq, hp⟩
    cases hp
    exact ⟨i, Node.tree.inj hq⟩
  · rintro ⟨i, rfl⟩
    exact ⟨p, i, rfl, rfl⟩

theorem Node.hasParent_tree : Node.HasParent (.tree p) m ↔ Node.ChildOf (.tree p) m := by
  constructor
  · intro h
    cases h with
    | child hchild => exact hchild
  · exact .child

theorem Place.parent?_eq_some : p.parent? = some q ↔ ∃ i, p = q.child i := by
  obtain ⟨a, full⟩ := p
  rcases List.eq_nil_or_concat full with rfl | ⟨path, i, rfl⟩
  · simp [Place.parent?, Place.child]
  · have hne : (path ++ [i]).isEmpty = false := by simp
    simp only [Place.parent?, List.concat_eq_append, hne, Bool.false_eq_true, if_false,
      List.dropLast_concat, Option.some.injEq]
    constructor
    · rintro rfl
      exact ⟨i, rfl⟩
    · rintro ⟨j, hj⟩
      obtain ⟨rfl, hpath⟩ := Place.mk.inj hj
      obtain ⟨rfl, -⟩ := List.append_inj' hpath rfl
      rfl

theorem Node.ChildOf.isTree (h : n.ChildOf m) : n.IsTree := by
  obtain ⟨p, i⟩ := h
  exact ⟨_, rfl⟩

theorem Node.isTree_of_descends (h : Relation.TransGen Node.ChildOf n m) : n.IsTree := by
  obtain ⟨_, hchild, -⟩ := Relation.TransGen.head'_iff.1 h
  exact hchild.isTree

theorem Node.HasParent.isTree (h : n.HasParent m) : m.IsTree := by
  cases h with
  | child hchild =>
    obtain ⟨p, i⟩ := hchild
    exact ⟨p, rfl⟩
  | owner p i => exact ⟨p, rfl⟩

theorem Node.isTree_of_ancestor (h : Relation.TransGen Node.HasParent n m) : m.IsTree := by
  obtain ⟨_, -, hparent⟩ := Relation.TransGen.tail'_iff.1 h
  exact hparent.isTree

/-- From a node of the tree only the attribute axis leads to attributes. -/
theorem Axis.Relates.isTree {a : Axis} (h : a.Relates (.tree p) m) (ha : a ≠ .attribute) :
    m.IsTree := by
  cases a with
  | child => exact Node.ChildOf.isTree h
  | descendant => exact Node.isTree_of_descends h
  | descendantOrSelf =>
    rcases Relation.reflTransGen_iff_eq_or_transGen.1 h with heq | h
    · exact ⟨p, heq.symm⟩
    · exact Node.isTree_of_descends h
  | «attribute» => exact absurd rfl ha
  | parent => exact Node.HasParent.isTree h
  | ancestor => exact Node.isTree_of_ancestor h
  | ancestorOrSelf =>
    rcases Relation.reflTransGen_iff_eq_or_transGen.1 h with heq | h
    · exact ⟨p, heq⟩
    · exact Node.isTree_of_ancestor h
  | self => exact ⟨p, h⟩
  | followingSibling | precedingSibling =>
    obtain ⟨⟨_, -, hchild⟩, -⟩ := h
    exact hchild.isTree
  | following | preceding => exact h.1

/-- What lies on an axis without attributes is seen from the places. -/
theorem mem_axis_of_places {a : Axis} {ps : List Place} (haxis : s.axis a n = ps.map .tree)
    (htree : ∀ m, a.Relates n m → m.IsTree)
    (h : ∀ q, q ∈ ps ↔ s.Holds q ∧ a.Relates n (.tree q)) :
    m ∈ s.axis a n ↔ m ∈ s.documentOrder ∧ a.Relates n m := by
  rw [haxis, List.mem_map]
  constructor
  · rintro ⟨q, hq, rfl⟩
    exact ⟨Scope.holds_tree.2 ((h q).1 hq).1, ((h q).1 hq).2⟩
  · rintro ⟨hm, hrelates⟩
    obtain ⟨q, rfl⟩ := htree m hrelates
    exact ⟨q, (h q).2 ⟨Scope.holds_tree.1 hm, hrelates⟩, rfl⟩

theorem Node.siblings_iff :
    (∃ r, Node.ChildOf (.tree p) r ∧ Node.ChildOf (.tree q) r) ↔
      ∃ u i j, p = Place.child u i ∧ q = Place.child u j := by
  constructor
  · rintro ⟨r, hp, hq⟩
    obtain ⟨u, i, heq, rfl⟩ := Node.childOf_iff.1 hp
    obtain ⟨j, rfl⟩ := Node.childOf_tree.1 hq
    exact ⟨u, i, j, Node.tree.inj heq, rfl⟩
  · rintro ⟨u, i, j, rfl, rfl⟩
    exact ⟨.tree u, .tree u i, .tree u j⟩

/-- Children are in the order of their indices. -/
theorem Place.child_lt_child {u : Place} {i j : Nat} :
    (u.child i).path < (u.child j).path ↔ i < j := by
  have hlt {i j : Nat} (hij : i < j) : (u.child i).path < (u.child j).path :=
    List.append_left_lt (List.cons_lt_cons_iff.2 (.inl hij))
  refine ⟨fun h => ?_, hlt⟩
  rcases lt_trichotomy i j with hij | rfl | hji
  · exact hij
  · exact absurd h (List.lt_irrefl _)
  · exact absurd (List.lt_trans h (hlt hji)) (List.lt_irrefl _)

/-! ## Places in relation to one another -/

theorem Scope.Holds.or_and_iff (hp : s.Holds p) {r : Prop} :
    q = p ∨ s.Holds q ∧ r ↔ s.Holds q ∧ (q = p ∨ r) := by
  constructor
  · rintro (rfl | hq)
    · exact ⟨hp, .inl rfl⟩
    · exact ⟨hq.1, .inr hq.2⟩
  · rintro ⟨hq, heq | h⟩
    · exact .inl heq
    · exact .inr ⟨hq, h⟩

theorem Scope.Holds.mem_children_iff (hp : s.Holds p) : q ∈ s.children p ↔
    s.Holds q ∧ Node.ChildOf (.tree q) (.tree p) := by
  rw [Node.childOf_tree]
  constructor
  · intro hq
    obtain ⟨i, rfl, -⟩ := Scope.mem_children.1 hq
    exact ⟨hp.child hq, i, rfl⟩
  · rintro ⟨hq, i, rfl⟩
    exact Scope.mem_children.2 ⟨i, rfl, hq.2⟩

theorem Scope.Holds.mem_below_iff (hp : s.Holds p) : q ∈ (s.preorder p).drop 1 ↔
    s.Holds q ∧ Relation.TransGen Node.ChildOf (.tree q) (.tree p) := by
  rw [hp.mem_below, Node.descends_iff]
  simp only [Node.tree.injEq]

theorem Scope.Holds.mem_preorder_iff (hp : s.Holds p) : q ∈ s.preorder p ↔
    s.Holds q ∧ Relation.ReflTransGen Node.ChildOf (.tree q) (.tree p) := by
  rw [hp.preorder_eq, List.mem_cons, hp.mem_below_iff, hp.or_and_iff,
    Relation.reflTransGen_iff_eq_or_transGen, Node.tree.injEq, eq_comm]

theorem Scope.Holds.mem_parent_iff (hp : s.Holds p) : q ∈ p.parent?.toList ↔
    s.Holds q ∧ Node.HasParent (.tree p) (.tree q) := by
  rw [Node.hasParent_tree, Node.childOf_tree, Option.mem_toList, Place.parent?_eq_some]
  constructor
  · rintro ⟨i, rfl⟩
    exact ⟨hp.parent, i, rfl⟩
  · exact And.right

theorem Scope.Holds.mem_ancestors_iff (hp : s.Holds p) : q ∈ p.ancestors ↔
    s.Holds q ∧ Relation.TransGen Node.HasParent (.tree p) (.tree q) := by
  rw [Node.ancestor_iff]
  constructor
  · exact fun hq => ⟨hp.ancestor hq, q, hq, rfl⟩
  · rintro ⟨-, u, hu, heq⟩
    exact Node.tree.inj heq ▸ hu

theorem Scope.Holds.mem_upwards_iff (hp : s.Holds p) : q ∈ p :: p.ancestors ↔
    s.Holds q ∧ Relation.ReflTransGen Node.HasParent (.tree p) (.tree q) := by
  rw [List.mem_cons, hp.mem_ancestors_iff, hp.or_and_iff,
    Relation.reflTransGen_iff_eq_or_transGen, Node.tree.injEq]

/-- Of two siblings the one with the smaller index is first. -/
theorem Place.precedes_iff_before : p.Precedes q ↔
    (∃ r, Node.ChildOf (.tree p) r ∧ Node.ChildOf (.tree q) r) ∧
      Node.Before (.tree p) (.tree q) := by
  rw [Place.precedes_iff, Node.siblings_iff, Node.before_tree]
  constructor
  · rintro ⟨u, i, j, hij, rfl, rfl⟩
    exact ⟨⟨u, i, j, rfl, rfl⟩, Place.child_lt_child.2 hij⟩
  · rintro ⟨⟨u, i, j, rfl, rfl⟩, hlt⟩
    exact ⟨u, i, j, Place.child_lt_child.1 hlt, rfl, rfl⟩

theorem Scope.Holds.mem_laterSiblings_iff (hp : s.Holds p) : q ∈ s.laterSiblings p ↔
    s.Holds q ∧ Axis.Relates (.tree p) (.tree q) .followingSibling := by
  rw [Axis.Relates, ← Place.precedes_iff_before]
  constructor
  · exact fun hq => ⟨hp.laterSibling hq, (Scope.mem_laterSiblings_iff.1 hq).1⟩
  · exact fun hq => Scope.mem_laterSiblings_iff.2 ⟨hq.2, hq.1.2⟩

theorem Scope.Holds.mem_earlierSiblings_iff (hp : s.Holds p) : q ∈ p.earlierSiblings ↔
    s.Holds q ∧ Axis.Relates (.tree p) (.tree q) .precedingSibling := by
  have hsiblings : (∃ r, Node.ChildOf (.tree p) r ∧ Node.ChildOf (.tree q) r) ↔
      ∃ r, Node.ChildOf (.tree q) r ∧ Node.ChildOf (.tree p) r :=
    exists_congr fun _ => and_comm
  rw [Axis.Relates, hsiblings, ← Place.precedes_iff_before, Place.mem_earlierSiblings_iff]
  constructor
  · exact fun hq => ⟨hp.earlierSibling (Place.mem_earlierSiblings_iff.2 hq), hq⟩
  · exact And.right

theorem Scope.Holds.mem_following_iff (hp : s.Holds p) : q ∈ s.following p ↔
    s.Holds q ∧ Axis.Relates (.tree p) (.tree q) .following := by
  rw [Axis.Relates, Node.before_tree, Node.descends_iff, hp.mem_following]
  simp only [Node.tree.injEq]
  exact ⟨fun h => ⟨h.1, ⟨q, rfl⟩, h.2⟩, fun h => ⟨h.1, h.2.2⟩⟩

theorem Scope.Holds.mem_preceding_iff (hp : s.Holds p) : q ∈ s.preceding p ↔
    s.Holds q ∧ Axis.Relates (.tree p) (.tree q) .preceding := by
  rw [Axis.Relates, Node.before_tree, hp.mem_preceding, Node.ancestor_iff]
  simp only [Node.tree.injEq, exists_eq_right']
  exact ⟨fun h => ⟨h.1, ⟨q, rfl⟩, h.2⟩, fun h => ⟨h.1, h.2.2⟩⟩

/-! ## The axes of a node of the tree -/

/-- **On an axis from a node of the tree lies what the axis denotes.** -/
theorem Scope.Holds.mem_axis (hp : s.Holds p) (a : Axis) (m : Node) :
    m ∈ s.axis a (.tree p) ↔ m ∈ s.documentOrder ∧ a.Relates (.tree p) m := by
  have places {a : Axis} {ps : List Place} (haxis : s.axis a (.tree p) = ps.map .tree)
      (ha : a ≠ .attribute) (h : ∀ q, q ∈ ps ↔ s.Holds q ∧ a.Relates (.tree p) (.tree q)) :
      m ∈ s.axis a (.tree p) ↔ m ∈ s.documentOrder ∧ a.Relates (.tree p) m :=
    mem_axis_of_places haxis (fun _ h => h.isTree ha) h
  cases a with
  | child => exact places rfl (by decide) fun _ => hp.mem_children_iff
  | descendant => exact places rfl (by decide) fun _ => hp.mem_below_iff
  | descendantOrSelf => exact places rfl (by decide) fun _ => hp.mem_preorder_iff
  | parent => exact places rfl (by decide) fun _ => hp.mem_parent_iff
  | ancestor => exact places rfl (by decide) fun _ => hp.mem_ancestors_iff
  | ancestorOrSelf => exact places rfl (by decide) fun _ => hp.mem_upwards_iff
  | followingSibling => exact places rfl (by decide) fun _ => hp.mem_laterSiblings_iff
  | precedingSibling => exact places rfl (by decide) fun _ => hp.mem_earlierSiblings_iff
  | following => exact places rfl (by decide) fun _ => hp.mem_following_iff
  | preceding => exact places rfl (by decide) fun _ => hp.mem_preceding_iff
  | self =>
    simp only [Scope.axis, Scope.treeAxis, List.mem_singleton, Axis.Relates]
    constructor
    · rintro rfl
      exact ⟨Scope.holds_tree.2 hp, rfl⟩
    · exact And.right
  | «attribute» =>
    simp only [Scope.axis, Scope.treeAxis, List.mem_map, List.mem_range, Axis.Relates]
    constructor
    · rintro ⟨i, hi, rfl⟩
      exact ⟨Scope.mem_documentOrder_attribute.2 ⟨Scope.holds_tree.2 hp, hi⟩, p, i, rfl, rfl⟩
    · rintro ⟨hm, u, i, heq, rfl⟩
      cases heq
      exact ⟨i, (Scope.mem_documentOrder_attribute.1 hm).2, rfl⟩

/-- Places that descend are in the order of a reverse axis. -/
theorem pairwise_orders_of_reverse {a : Axis} {ps : List Place} (ha : a.isReverse = true)
    (h : ps.Pairwise fun x y => y.path < x.path) : (ps.map Node.tree).Pairwise a.Orders := by
  rw [List.pairwise_map]
  refine h.imp fun hxy => ?_
  rw [Axis.Orders, if_pos ha, Node.before_tree]
  exact hxy

/-- What lies on a forward axis is in document order. -/
theorem pairwise_axis_of_forward {a : Axis} (ha : a.isReverse = false)
    (hn : n ∈ s.documentOrder) : (s.axis a n).Pairwise a.Orders := by
  refine (sublist_documentOrder_iff.1 (axis_sublist ha hn)).1.imp fun hxy => ?_
  rw [Axis.Orders, if_neg (by simp [ha])]
  exact hxy

/-- What lies on an axis from a node of the tree is in the order of the axis. -/
theorem Scope.Holds.pairwise_axis (hp : s.Holds p) (a : Axis) :
    (s.axis a (.tree p)).Pairwise a.Orders := by
  cases ha : a.isReverse with
  | false => exact pairwise_axis_of_forward ha (Scope.holds_tree.2 hp)
  | true =>
    cases a with
    | ancestor => exact pairwise_orders_of_reverse ha (List.pairwise_cons.1 p.pairwise_upwards).2
    | ancestorOrSelf => exact pairwise_orders_of_reverse ha p.pairwise_upwards
    | precedingSibling => exact pairwise_orders_of_reverse ha p.pairwise_earlierSiblings
    | preceding => exact pairwise_orders_of_reverse ha (s.pairwise_preceding p)
    | child | descendant | descendantOrSelf | «attribute» | parent | self | followingSibling
      | following => cases ha

/-! ## The whole tree -/

/-- Places whose paths differ are different. -/
theorem nodup_of_path_ne {ps : List Place} (h : ps.Pairwise fun x y => x.path ≠ y.path) : ps.Nodup :=
  h.imp fun hne heq => hne (congrArg Place.path heq)

/-- What is above a node, below it, before and after it, and the node itself. -/
def Scope.parts (s : Scope) (p : Place) : List (List Place) :=
  [p.ancestors, (s.preorder p).drop 1, s.preceding p, s.following p, [p]]

/-- No node is in two parts. -/
theorem Scope.Holds.nodup_parts (hp : s.Holds p) : (s.parts p).flatten.Nodup := by
  have hup := List.pairwise_cons.1 p.pairwise_upwards
  have hdown := s.pairwise_preorder p
  rw [hp.preorder_eq, List.pairwise_cons] at hdown
  have hbefore : ∀ q ∈ s.preceding p, q.path < p.path := fun q hq => (hp.mem_preceding.1 hq).2.1
  have hafter : ∀ q ∈ s.following p, p.path < q.path := fun q hq => (hp.mem_following.1 hq).2.1
  have sides {q : Place} (hlt : q.path < p.path) (hgt : p.path < q.path) : False :=
    List.lt_irrefl _ (List.lt_trans hlt hgt)
  have itself {q : Place} (hq : q.path < p.path ∨ p.path < q.path) (heq : q ∈ [p]) : False := by
    obtain rfl := List.mem_singleton.1 heq
    exact hq.elim (List.lt_irrefl _) (List.lt_irrefl _)
  refine List.nodup_flatten.2 ⟨?_, ?_⟩
  · simp only [Scope.parts, List.forall_mem_cons]
    refine ⟨nodup_of_path_ne (hup.2.imp fun hlt => (ne_of_lt hlt).symm),
      nodup_of_path_ne (hdown.2.imp fun hlt => ne_of_lt hlt),
      nodup_of_path_ne ((s.pairwise_preceding p).imp fun hlt => (ne_of_lt hlt).symm),
      nodup_of_path_ne ((s.pairwise_following p).imp fun hlt => ne_of_lt hlt), List.nodup_singleton p,
      nofun⟩
  · simp only [Scope.parts, List.pairwise_cons, List.forall_mem_cons]
    refine ⟨⟨fun q hq hq' => sides (hup.1 q hq) (hdown.1 q hq'),
        fun q hq hq' => (hp.mem_preceding.1 hq').2.2 hq,
        fun q hq hq' => sides (hup.1 q hq) (hafter q hq'),
        fun q hq => itself (.inl (hup.1 q hq)), nofun⟩,
      ⟨fun q hq hq' => sides (hbefore q hq') (hdown.1 q hq),
        fun q hq hq' => (hp.mem_following.1 hq').2.2 (hp.mem_below.1 hq).2,
        fun q hq => itself (.inr (hdown.1 q hq)), nofun⟩,
      ⟨fun q hq hq' => sides (hbefore q hq) (hafter q hq'),
        fun q hq => itself (.inl (hbefore q hq)), nofun⟩,
      ⟨fun q hq => itself (.inr (hafter q hq)), nofun⟩, nofun, .nil⟩

/-- Every node is in a part. -/
theorem Scope.Holds.mem_parts (hp : s.Holds p) : q ∈ (s.parts p).flatten ↔ s.Holds q := by
  simp only [Scope.parts, List.flatten_cons, List.flatten_nil, List.append_nil, List.mem_append,
    List.mem_singleton, hp.mem_preceding, hp.mem_following, hp.mem_below]
  constructor
  · rintro (hq | hq | hq | hq | rfl)
    · exact hp.ancestor hq
    · exact hq.1
    · exact hq.1
    · exact hq.1
    · exact hp
  · intro hq
    rcases lt_trichotomy q.path p.path with hlt | heq | hgt
    · by_cases habove : q ∈ p.ancestors
      · exact .inl habove
      · exact .inr (.inr (.inl ⟨hq, hlt, habove⟩))
    · exact .inr (.inr (.inr (.inr (hp.eq_of_path hq heq))))
    · by_cases hbelow : ∃ r, r ≠ [] ∧ q = ⟨p.astray, p.path ++ r⟩
      · exact .inr (.inl ⟨hq, hbelow⟩)
      · exact .inr (.inr (.inr (.inl ⟨hq, hgt, hbelow⟩)))

/-- Axes that list the parts of the tree divide its nodes among them. -/
theorem Scope.Holds.partition (hp : s.Holds p) {axes : List Axis} {ps : List Place}
    (haxes : (axes.flatMap fun a => s.axis a n) = ps.map .tree)
    (hperm : ps.Perm (s.parts p).flatten) : s.Partition axes n := by
  refine ⟨?_, fun m => ?_⟩ <;> rw [haxes]
  · exact (hperm.nodup_iff.2 hp.nodup_parts).map fun _ _ => Node.tree.inj
  · rw [List.mem_map]
    constructor
    · rintro ⟨q, hq, rfl⟩
      exact ⟨Scope.holds_tree.2 (hp.mem_parts.1 (hperm.mem_iff.1 hq)), q, rfl⟩
    · rintro ⟨hm, q, rfl⟩
      exact ⟨q, hperm.mem_iff.2 (hp.mem_parts.2 (Scope.holds_tree.1 hm)), rfl⟩

/-- **The axes of a node of the tree.** From every node of a document, each axis lists what it
denotes, each node once, forward axes in document order and reverse axes against it. Ancestors,
descendants, what precedes, what follows and the node itself are all nodes of the tree, each
once. -/
theorem treeAxis_exact (hp : s.Holds p) :
    (∀ a, s.Exact a (.tree p)) ∧
      s.Partition [.ancestor, .descendant, .preceding, .following, .self] (.tree p) := by
  refine ⟨fun a => .of_ordered (hp.mem_axis a) (hp.pairwise_axis a), hp.partition ?_ (.refl _)⟩
  simp [Scope.parts, Scope.axis, Scope.treeAxis]

/-- From the first item the second one follows, and the text in it is below it. -/
theorem treeAxis_exact_firstItem :
    twoItems.Holds ⟨false, [0, 0]⟩ ∧ twoItems.Exact .following (.tree ⟨false, [0, 0]⟩) ∧
      twoItems.axis .following (.tree ⟨false, [0, 0]⟩) = [.tree ⟨false, [0, 1]⟩] ∧
      twoItems.Partition [.ancestor, .descendant, .preceding, .following, .self]
        (.tree ⟨false, [0, 0]⟩) ∧
      ([Axis.ancestor, .descendant, .preceding, .following, .self].flatMap
        fun a => twoItems.axis a (.tree ⟨false, [0, 0]⟩)) =
        [.tree ⟨false, [0]⟩, .tree .root, .tree ⟨false, [0, 0, 0]⟩, .tree ⟨false, [0, 1]⟩,
          .tree ⟨false, [0, 0]⟩] := by
  have hp : twoItems.Holds ⟨false, [0, 0]⟩ := ⟨rfl, by decide⟩
  exact ⟨hp, (treeAxis_exact hp).1 .following, by decide, (treeAxis_exact hp).2, by decide⟩

end MarkupTemplate.XPath
