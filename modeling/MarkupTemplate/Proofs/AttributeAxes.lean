import MarkupTemplate.Proofs.Kinship

/-!
# The axes of an attribute

An attribute has a parent and ancestors, stands between its owner and what is below the owner, and
has nothing below or beside it. It is on the axes that contain the node itself, but the axis of
descendants and itself is left empty.

* `Node.ancestor_attribute_iff`, `Node.before_tree_attribute` — the relations of an attribute.
* `Scope.Holds.mem_axis_attribute`, `Scope.pairwise_attributeAxis` — what lies on the other
  axes, and in which order.
* `evaluate_below_attributes` — a path that goes on below attributes comes to nothing.
* `attributeAxis_exact` — all axes of an attribute.
-/

namespace MarkupTemplate.XPath

variable {s : Scope} {p q : Place} {i : Nat} {n m : Node} {f : Focus} {ns ms : List Node}

/-! ## Relations -/

theorem Node.not_childOf_attribute : ¬ n.ChildOf (.attribute p i) :=
  nofun

theorem Node.not_attribute_childOf : ¬ Node.ChildOf (.attribute p i) n :=
  nofun

theorem Node.attribute_hasParent : Node.HasParent (.attribute p i) m ↔ m = .tree p := by
  constructor
  · intro h
    cases h with
    | child hchild => exact absurd hchild Node.not_attribute_childOf
    | owner => rfl
  · rintro rfl
    exact .owner p i

/-- Nothing is below an attribute. -/
theorem Node.not_descends_attribute : ¬ Relation.TransGen Node.ChildOf m (.attribute p i) := by
  intro h
  obtain ⟨x, -, hx⟩ := Relation.TransGen.tail'_iff.1 h
  exact Node.not_childOf_attribute hx

/-- Above an attribute are its owner and what is above that. -/
theorem Node.ancestor_attribute_iff :
    Relation.TransGen Node.HasParent (.attribute p i) m ↔ ∃ q ∈ p :: p.ancestors, m = .tree q := by
  rw [Relation.TransGen.head'_iff]
  simp only [Node.attribute_hasParent, exists_eq_left, List.exists_mem_cons_iff,
    Relation.reflTransGen_iff_eq_or_transGen, Node.ancestor_iff]

theorem Node.before_attribute_tree : Node.Before (.attribute p i) (.tree q) ↔ p.path < q.path := by
  simp [Node.Before, Node.place, Node.slot]

theorem Node.before_tree_attribute :
    Node.Before (.tree q) (.attribute p i) ↔ q.path < p.path ∨ q.path = p.path := by
  simp [Node.Before, Node.place, Node.slot]

/-! ## Places on the axes -/

/-- What is below a node and what follows it is all that comes after it. -/
theorem Scope.Holds.mem_after (hp : s.Holds p) :
    q ∈ (s.preorder p).drop 1 ++ s.following p ↔ s.Holds q ∧ p.path < q.path := by
  rw [List.mem_append, hp.mem_below, hp.mem_following]
  constructor
  · rintro (⟨hq, r, hr, rfl⟩ | ⟨hq, hlt, -⟩)
    · exact ⟨hq, Path.lt_iff.2 (.inl ⟨r, hr, rfl⟩)⟩
    · exact ⟨hq, hlt⟩
  · rintro ⟨hq, hlt⟩
    by_cases hbelow : ∃ r, r ≠ [] ∧ q = ⟨p.astray, p.path ++ r⟩
    · exact .inl ⟨hq, hbelow⟩
    · exact .inr ⟨hq, hlt, hbelow⟩

/-- What precedes a node is all that comes before it, or is the node, and is not on the way up. -/
theorem Scope.Holds.mem_before (hp : s.Holds p) : q ∈ s.preceding p ↔
    s.Holds q ∧ (q.path < p.path ∨ q.path = p.path) ∧ q ∉ p :: p.ancestors := by
  rw [hp.mem_preceding, List.mem_cons, not_or]
  constructor
  · rintro ⟨hq, hlt, habove⟩
    exact ⟨hq, .inl hlt, fun heq => List.lt_irrefl _ (heq ▸ hlt), habove⟩
  · rintro ⟨hq, hlt | heq, hne, habove⟩
    · exact ⟨hq, hlt, habove⟩
    · exact absurd (hp.eq_of_path hq heq) hne

/-! ## The axes -/

/-- **On every other axis from an attribute lies what the axis denotes.** -/
theorem Scope.Holds.mem_axis_attribute (hp : s.Holds p)
    (hn : .attribute p i ∈ s.documentOrder) {a : Axis} (ha : a ≠ .descendantOrSelf) (m : Node) :
    m ∈ s.axis a (.attribute p i) ↔ m ∈ s.documentOrder ∧ a.Relates (.attribute p i) m := by
  have hup : ∀ m, (∃ q ∈ p :: p.ancestors, m = .tree q) → m ∈ s.documentOrder := by
    rintro m ⟨q, hq, rfl⟩
    rcases List.mem_cons.1 hq with rfl | hq
    · exact Scope.holds_tree.2 hp
    · exact Scope.holds_tree.2 (hp.ancestor hq)
  have hmap : m ∈ (p :: p.ancestors).map Node.tree ↔ ∃ q ∈ p :: p.ancestors, m = .tree q := by
    rw [List.mem_map]
    exact exists_congr fun q => and_congr_right fun _ => eq_comm
  cases a with
  | child => exact iff_of_false List.not_mem_nil fun h => Node.not_childOf_attribute h.2
  | descendant => exact iff_of_false List.not_mem_nil fun h => Node.not_descends_attribute h.2
  | descendantOrSelf => exact absurd rfl ha
  | «attribute» =>
    refine iff_of_false List.not_mem_nil ?_
    rintro ⟨-, _, _, heq, -⟩
    cases heq
  | parent =>
    rw [Axis.Relates, Node.attribute_hasParent]
    refine List.mem_singleton.trans ⟨?_, And.right⟩
    rintro rfl
    exact ⟨Scope.holds_tree.2 hp, rfl⟩
  | ancestor =>
    rw [Axis.Relates, Node.ancestor_attribute_iff]
    exact hmap.trans ⟨fun h => ⟨hup m h, h⟩, And.right⟩
  | ancestorOrSelf =>
    rw [Axis.Relates, Relation.reflTransGen_iff_eq_or_transGen, Node.ancestor_attribute_iff]
    refine List.mem_cons.trans ((or_congr_right hmap).trans ⟨?_, And.right⟩)
    rintro (rfl | h)
    · exact ⟨hn, .inl rfl⟩
    · exact ⟨hup m h, .inr h⟩
  | self =>
    refine List.mem_singleton.trans ⟨?_, And.right⟩
    rintro rfl
    exact ⟨hn, rfl⟩
  | followingSibling | precedingSibling =>
    refine iff_of_false List.not_mem_nil ?_
    rintro ⟨-, ⟨_, hchild, -⟩, -⟩
    exact Node.not_attribute_childOf hchild
  | following =>
    refine mem_axis_of_places (List.map_append.symm) (fun _ h => h.1) fun q => ?_
    rw [hp.mem_after, Axis.Relates, Node.before_attribute_tree]
    constructor
    · rintro ⟨hq, hlt⟩
      exact ⟨hq, ⟨q, rfl⟩, hlt, Node.not_descends_attribute⟩
    · rintro ⟨hq, -, hlt, -⟩
      exact ⟨hq, hlt⟩
  | preceding =>
    refine mem_axis_of_places rfl (fun _ h => h.1) fun q => ?_
    rw [hp.mem_before, Axis.Relates, Node.before_tree_attribute,
      Node.ancestor_attribute_iff]
    simp only [Node.tree.injEq, exists_eq_right']
    exact ⟨fun h => ⟨h.1, ⟨q, rfl⟩, h.2⟩, fun h => ⟨h.1, h.2.2⟩⟩

/-- What lies on an axis from an attribute is in the order of the axis. -/
theorem Scope.pairwise_attributeAxis (hn : .attribute p i ∈ s.documentOrder) (a : Axis) :
    (s.axis a (.attribute p i)).Pairwise a.Orders := by
  cases ha : a.isReverse with
  | false => exact pairwise_axis_of_forward ha hn
  | true =>
    cases a with
    | ancestor => exact pairwise_orders_of_reverse ha p.pairwise_upwards
    | ancestorOrSelf =>
      refine List.pairwise_cons.2 ⟨fun m hm => ?_, pairwise_orders_of_reverse ha p.pairwise_upwards⟩
      obtain ⟨q, hq, rfl⟩ : ∃ q ∈ p :: p.ancestors, Node.tree q = m := List.mem_map.1 hm
      rw [Axis.Orders, if_pos ha, Node.before_tree_attribute]
      rcases List.mem_cons.1 hq with rfl | hq
      · exact .inr rfl
      · exact .inl ((List.pairwise_cons.1 p.pairwise_upwards).1 q hq)
    | precedingSibling => exact .nil
    | preceding => exact pairwise_orders_of_reverse ha (s.pairwise_preceding p)
    | child | descendant | descendantOrSelf | «attribute» | parent | self | followingSibling
      | following => cases ha

/-- Ancestors, what precedes and what follows an attribute are the parts of the tree that its owner
divides it into, the owner taken as an ancestor. -/
theorem Scope.perm_parts (s : Scope) (p : Place) :
    ((p :: p.ancestors) ++ (s.preceding p ++ ((s.preorder p).drop 1 ++ s.following p))).Perm
      (s.parts p).flatten := by
  refine List.perm_iff_count.2 fun q => ?_
  simp only [Scope.parts, List.flatten_cons, List.flatten_nil, List.count_append, List.count_cons,
    List.count_nil]
  omega

/-! ## Paths that go on from attributes -/

theorem narrow_nil : ∀ es : List Expr, narrow f [] es = .ok []
  | [] => rfl
  | _ :: es => narrow_nil es

theorem gather_eq_nil {found : Node → Except Fault (List Node)} : ∀ {ns : List Node},
    (∀ n ∈ ns, found n = .ok []) → gather found ns = .ok []
  | [], _ => rfl
  | n :: ns, h => by
    rw [gather, h n List.mem_cons_self, ok_bind,
      gather_eq_nil fun m hm => h m (List.mem_cons_of_mem n hm)]
    rfl

/-- A step that finds nothing from any node leads to no nodes. -/
theorem stepFrom_eq_nil {a : Axis} (h : ∀ n ∈ ns, f.scope.axis a n = []) (test : NodeTest)
    (predicates : List Expr) : stepFrom f ns (.mk a test predicates) = .ok [] := by
  have hfound : gather (stepAt f a test predicates) ns = .ok [] :=
    gather_eq_nil fun n hn => by
      rw [stepAt, h n hn, List.filter_nil, narrow_nil]
  rw [stepFrom_eq, hfound]
  simp [Except.map, inOrder, distinct]

/-- From no nodes steps lead to none. -/
theorem walk_nil : ∀ steps : List Step, walk f [] steps = .ok []
  | [] => rfl
  | .mk _ test predicates :: steps => by
    rw [walk, stepFrom_eq_nil (by simp) test predicates, ok_bind]
    exact walk_nil steps

/-- An attribute step leads to attributes. -/
theorem exists_of_mem_attributeStep {test : NodeTest} {predicates : List Expr}
    (h : stepFrom f ns (.mk .attribute test predicates) = .ok ms) (hm : m ∈ ms) :
    ∃ q j, m = .attribute q j := by
  rw [stepFrom_eq] at h
  cases hfound : gather (stepAt f .attribute test predicates) ns with
  | error e => simp [hfound, Except.map] at h
  | ok found =>
    rw [hfound, Except.map, Except.ok.injEq] at h
    have hmem : m ∈ found := by
      subst h
      split at hm
      · exact mem_inOrder.1 hm
      · exact hm
    obtain ⟨n, -, l, hl, hml⟩ := exists_of_mem_gather hfound hmem
    have haxis := (stepAt_sublist hl).subset hml
    cases n with
    | tree p =>
      obtain ⟨j, -, rfl⟩ := List.mem_map.1 haxis
      exact ⟨p, j, rfl⟩
    | «attribute» p j => exact absurd haxis List.not_mem_nil

/-- **A path that goes on below attributes, or at them, comes to nothing.** -/
theorem evaluate_below_attributes (f : Focus) (start : Start) (steps later : List Step)
    (test test' : NodeTest) (predicates predicates' : List Expr) :
    evaluate f (.path start (steps ++ .mk .attribute test predicates ::
        .mk .descendantOrSelf test' predicates' :: later)) =
      (evaluate f (.path start (steps ++ [.mk .attribute test predicates]))).map
        fun _ => .nodes [] := by
  have hwalk (ns : List Node) :
      walk f ns (steps ++ .mk .attribute test predicates ::
        .mk .descendantOrSelf test' predicates' :: later) =
      (walk f ns (steps ++ [.mk .attribute test predicates])).map fun _ => [] := by
    rw [walk_append, walk_append]
    cases walk f ns steps with
    | error e => rfl
    | ok reached =>
      rw [ok_bind, ok_bind, walk, walk]
      cases hstep : stepFrom f reached (.mk .attribute test predicates) with
      | error e => rfl
      | ok ms =>
        have hempty : ∀ m ∈ ms, f.scope.axis .descendantOrSelf m = [] := by
          intro m hm
          obtain ⟨q, j, rfl⟩ := exists_of_mem_attributeStep hstep hm
          rfl
        rw [ok_bind, ok_bind, walk, walk, stepFrom_eq_nil hempty, ok_bind, walk_nil]
        rfl
  rw [evaluate, evaluate]
  cases evaluateStart f start with
  | error e => rfl
  | ok ns =>
    rw [ok_bind, ok_bind, hwalk]
    cases walk f ns (steps ++ [.mk .attribute test predicates]) <;> rfl

/-! ## All axes -/

/-- **The axes of an attribute.** From every attribute of a document each axis but one lists what it
denotes, each node once and in the order of the axis. Its owner is its parent and nearest ancestor;
it has no children, no attributes and no siblings; and its ancestors, what precedes and what follows
are all nodes of the tree, what is below the owner following. The axis of descendants and itself
lists nothing, not even the attribute. So whatever attributes a path ends at, going on with `//.`
comes to nothing. -/
theorem attributeAxis_exact (hn : .attribute p i ∈ s.documentOrder) :
    (∀ a, a ≠ .descendantOrSelf → s.Exact a (.attribute p i)) ∧
      s.axis .descendantOrSelf (.attribute p i) = [] ∧
      s.axis .self (.attribute p i) = [.attribute p i] ∧
      s.axis .parent (.attribute p i) = [.tree p] ∧
      s.axis .ancestor (.attribute p i) = .tree p :: s.axis .ancestor (.tree p) ∧
      s.axis .ancestorOrSelf (.attribute p i) =
        .attribute p i :: s.axis .ancestor (.attribute p i) ∧
      (∀ a ∈ [Axis.child, .descendant, .attribute, .followingSibling, .precedingSibling],
        s.axis a (.attribute p i) = []) ∧
      s.Partition [.ancestor, .preceding, .following] (.attribute p i) ∧
      s.axis .descendant (.tree p) ⊆ s.axis .following (.attribute p i) ∧
      ∀ (f : Focus) (start : Start) (steps : List Step) (test : NodeTest)
        (predicates : List Expr),
        evaluate f (.path start (steps ++ [.mk .attribute test predicates,
            .mk .descendantOrSelf .node [], .mk .self .node []])) =
          (evaluate f (.path start (steps ++ [.mk .attribute test predicates]))).map
            fun _ => .nodes [] := by
  have hp : s.Holds p := Scope.holds_tree.1 (Scope.mem_documentOrder_attribute.1 hn).1
  refine ⟨fun a ha => .of_ordered (hp.mem_axis_attribute hn ha) (Scope.pairwise_attributeAxis hn a),
    rfl, rfl, rfl, rfl, rfl, ?_, hp.partition ?_ (s.perm_parts p),
    List.subset_append_left _ _, fun f start steps test predicates =>
      evaluate_below_attributes f start steps _ test .node predicates []⟩
  · simp [Scope.axis, Scope.attributeAxis]
  · simp [Scope.axis, Scope.attributeAxis]

/-- The attribute of the first item of `twoItems`: the text in the item and the second item follow
it. -/
theorem attributeAxis_exact_firstItem :
    .attribute ⟨false, [0, 0]⟩ 0 ∈ twoItems.documentOrder ∧
      twoItems.Exact .following (.attribute ⟨false, [0, 0]⟩ 0) ∧
      twoItems.axis .following (.attribute ⟨false, [0, 0]⟩ 0) =
        [.tree ⟨false, [0, 0, 0]⟩, .tree ⟨false, [0, 1]⟩] ∧
      twoItems.Partition [.ancestor, .preceding, .following] (.attribute ⟨false, [0, 0]⟩ 0) := by
  have hn : .attribute ⟨false, [0, 0]⟩ 0 ∈ twoItems.documentOrder := by decide
  obtain ⟨hexact, -, -, -, -, -, -, hpartition, -, -⟩ := attributeAxis_exact hn
  exact ⟨hn, hexact .following nofun, by decide, hpartition⟩

/-- An attribute is a descendant or itself, but is not listed; and `//@*//.` selects nothing where
`//@*` selects it. -/
theorem attribute_missing_itself :
    .attribute ⟨false, [0, 0]⟩ 0 ∈ twoItems.documentOrder ∧
      Axis.Relates (.attribute ⟨false, [0, 0]⟩ 0) (.attribute ⟨false, [0, 0]⟩ 0)
        .descendantOrSelf ∧
      .attribute ⟨false, [0, 0]⟩ 0 ∉
        twoItems.axis .descendantOrSelf (.attribute ⟨false, [0, 0]⟩ 0) ∧
      (∃ e, Expr.read "//@*" = .ok e ∧
        e.value twoItems .root = .ok (.nodes [.attribute ⟨false, [0, 0]⟩ 0])) ∧
      ∃ e, Expr.read "//@*//." = .ok e ∧ e.value twoItems .root = .ok (.nodes []) :=
  ⟨by decide, .refl, by decide, ⟨_, rfl, by cbv⟩, _, rfl, by cbv⟩

end MarkupTemplate.XPath
