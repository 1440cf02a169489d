import MarkupTemplate.Proofs.DocumentOrder

/-!
# The axes of a document

What lies on an axis from a node of the document, and in which order.

* `Scope.Holds` — a place of the document with a node at it; `Scope.holds_tree` ties it to
  `Scope.documentOrder`.
* `mem_children`, `mem_preorder`, `mem_laterSiblings`, `mem_following` — the places on the axes that
  go forward.
* `axis_subset` — no axis leaves the document.
* `axis_sublist` — a forward axis is in document order as it is.
-/

namespace MarkupTemplate.XPath

variable {s : Scope} {p q : Place}

/-- A place in the document that has a node at it. -/
def Scope.Holds (s : Scope) (p : Place) : Prop :=
  p.astray = false ∧ (s.at? p).isSome

theorem Scope.holds_tree : .tree p ∈ s.documentOrder ↔ s.Holds p :=
  Scope.mem_documentOrder_tree

theorem Scope.holds_root (s : Scope) : s.Holds .root :=
  ⟨rfl, rfl⟩

/-! ## Going down -/

/-- The tree at a place below another. -/
theorem Scope.at?_below (s : Scope) (a : Bool) (path rest : Path) :
    s.at? ⟨a, path ++ rest⟩ = (s.at? ⟨a, path⟩).bind (Tree.at? rest) := by
  cases a with
  | false => simp [Scope.at?, Tree.at?_append]
  | true =>
    cases hs : s.stray with
    | none => simp [Scope.at?, hs]
    | some t => simp [Scope.at?, hs, Tree.at?_append]

/-- The tree at a child is a child of the tree. -/
theorem Scope.at?_child (s : Scope) (p : Place) (i : Nat) :
    s.at? (p.child i) = (s.at? p).bind fun t => t.children[i]? := by
  rw [Place.child, Scope.at?_below]
  congr 1
  funext t
  rw [Tree.at?_cons]
  cases t.children[i]? <;> rfl

/-- A node has a child for each index below the number of its children. -/
theorem Scope.lt_childCount_iff {i : Nat} :
    i < s.childCount p ↔ (s.at? (p.child i)).isSome := by
  rw [Scope.at?_child, Scope.childCount]
  cases s.at? p with
  | none => simp
  | some t => simp

theorem Scope.mem_children :
    q ∈ s.children p ↔ ∃ i, q = p.child i ∧ (s.at? q).isSome := by
  simp only [Scope.children, List.mem_map, List.mem_range, Scope.lt_childCount_iff]
  constructor
  · rintro ⟨i, hi, rfl⟩
    exact ⟨i, rfl, hi⟩
  · rintro ⟨i, rfl, hi⟩
    exact ⟨i, hi, rfl⟩

/-- Below and at a node are the places whose paths begin with its path. -/
theorem Scope.mem_preorder :
    q ∈ s.preorder p ↔ ∃ r, q = ⟨p.astray, p.path ++ r⟩ ∧ (s.at? q).isSome := by
  have hat (r : Path) : s.at? ⟨p.astray, p.path ++ r⟩ = (s.at? p).bind (Tree.at? r) :=
    s.at?_below p.astray p.path r
  rw [Scope.preorder]
  cases ht : s.at? p with
  | none =>
    simp only [List.not_mem_nil, false_iff]
    rintro ⟨r, rfl, hr⟩
    simp [hat, ht] at hr
  | some t =>
    simp only [List.mem_map, Tree.mem_paths_iff]
    constructor
    · rintro ⟨r, hr, rfl⟩
      exact ⟨r, rfl, by simpa [hat, ht] using hr⟩
    · rintro ⟨r, rfl, hr⟩
      exact ⟨r, by simpa [hat, ht] using hr, rfl⟩

/-! ## Going sideways -/

/-- The siblings after a node are those with a greater index. -/
theorem Scope.mem_laterSiblings {a : Bool} {path : Path} {i : Nat} :
    q ∈ s.laterSiblings ⟨a, path ++ [i]⟩ ↔
      ∃ j, i < j ∧ q = ⟨a, path ++ [j]⟩ ∧ (s.at? q).isSome := by
  simp only [Scope.laterSiblings, List.getLast?_concat, List.dropLast_concat, Scope.children,
    ← List.map_drop]
  constructor
  · intro h
    obtain ⟨j, hj, rfl⟩ := List.mem_map.1 h
    obtain ⟨k, hk, rfl⟩ := List.mem_drop_iff_getElem.1 hj
    simp only [List.length_range] at hk
    refine ⟨i + 1 + k, by omega, ?_, ?_⟩
    · simp [Place.child]
    · rw [List.getElem_range]
      exact Scope.lt_childCount_iff.1 (by omega)
  · rintro ⟨j, hij, rfl, hj⟩
    have hlt : j < s.childCount ⟨a, path⟩ := Scope.lt_childCount_iff.2 hj
    refine List.mem_map.2 ⟨j, List.mem_drop_iff_getElem.2 ⟨j - (i + 1), ?_, ?_⟩, rfl⟩
    · simp only [List.length_range]
      omega
    · rw [List.getElem_range]
      omega

/-- The root has no siblings. -/
theorem Scope.laterSiblings_root (s : Scope) (a : Bool) : s.laterSiblings ⟨a, []⟩ = [] :=
  rfl

/-- What is at and below the later siblings of a node parts from its path with a greater index. -/
theorem Scope.mem_flatMap_laterSiblings {x : Place} :
    x ∈ (s.laterSiblings q).flatMap s.preorder ↔
      ∃ path i j r, q.path = path ++ [i] ∧ i < j ∧ x = ⟨q.astray, path ++ j :: r⟩ ∧
        (s.at? x).isSome := by
  obtain ⟨a, full⟩ := q
  rcases List.eq_nil_or_concat full with rfl | ⟨path, i, rfl⟩
  · simp [Scope.laterSiblings_root]
  · simp only [List.concat_eq_append, List.mem_flatMap, Scope.mem_laterSiblings, Scope.mem_preorder]
    constructor
    · rintro ⟨y, ⟨j, hij, rfl, -⟩, r, rfl, hx⟩
      exact ⟨path, i, j, r, rfl, hij, by simp, hx⟩
    · rintro ⟨path', i', j, r, hpath, hij, rfl, hx⟩
      obtain ⟨rfl, rfl⟩ : path = path' ∧ i = i' := by simpa using hpath
      have he : path ++ j :: r = path ++ [j] ++ r := by simp
      rw [he, Scope.at?_below] at hx
      refine ⟨⟨a, path ++ [j]⟩, ⟨j, hij, rfl, ?_⟩, r, by simp, ?_⟩
      · cases hy : s.at? ⟨a, path ++ [j]⟩ with
        | none => simp [hy] at hx
        | some t => rfl
      · rw [he, Scope.at?_below]
        exact hx

/-- The ancestors of a place have shorter paths that its path begins with. -/
theorem Place.mem_ancestors : q ∈ p.ancestors ↔
    ∃ r, r ≠ [] ∧ p.path = q.path ++ r ∧ q.astray = p.astray := by
  simp only [Place.ancestors, List.mem_map, List.mem_reverse, List.mem_range]
  constructor
  · rintro ⟨n, hn, rfl⟩
    exact ⟨p.path.drop n, by simpa using hn, by simp, rfl⟩
  · obtain ⟨a, path⟩ := q
    rintro ⟨r, hr, hpath, rfl⟩
    refine ⟨path.length, ?_, by simp [hpath]⟩
    have : 0 < r.length := List.length_pos_iff.2 hr
    simp [hpath, this]

/-- Places on the way up to the root get shorter. -/
theorem Place.pairwise_ancestors (p : Place) :
    (p :: p.ancestors).Pairwise fun q r => ∃ t, t ≠ [] ∧ q.path = r.path ++ t := by
  rw [List.pairwise_cons]
  constructor
  · intro q hq
    obtain ⟨r, hr, hpath, -⟩ := Place.mem_ancestors.1 hq
    exact ⟨r, hr, hpath⟩
  · rw [Place.ancestors, List.pairwise_map, List.pairwise_reverse]
    refine List.pairwise_lt_range.imp_of_mem fun {m n} hm hn hmn => ?_
    rw [List.mem_range] at hm hn
    refine ⟨(p.path.take n).drop m, ?_, ?_⟩
    · rw [← List.length_pos_iff]
      simp only [List.length_drop, List.length_take]
      omega
    · have := List.take_append_drop m (p.path.take n)
      rwa [List.take_take, Nat.min_eq_left (by omega), eq_comm] at this

/-- Everything after a node that is not below it is in order. -/
theorem Scope.pairwise_following (s : Scope) (p : Place) :
    (s.following p).Pairwise fun x y => x.path < y.path := by
  rw [Scope.following, List.pairwise_flatMap]
  refine ⟨fun q _ => ?_, p.pairwise_ancestors.imp fun {q r} hqr x hx y hy => ?_⟩
  · obtain ⟨a, full⟩ := q
    rcases List.eq_nil_or_concat full with rfl | ⟨path, i, rfl⟩
    · simp [Scope.laterSiblings_root]
    · rw [List.pairwise_flatMap]
      refine ⟨fun x _ => s.pairwise_preorder x, ?_⟩
      simp only [List.concat_eq_append, Scope.laterSiblings, List.getLast?_concat,
        List.dropLast_concat, Scope.children, ← List.map_drop]
      rw [List.pairwise_map]
      refine (List.pairwise_lt_range.sublist (List.drop_sublist _ _)).imp
        fun {j k} hjk x hx y hy => ?_
      obtain ⟨r, rfl, -⟩ := Scope.mem_preorder.1 hx
      obtain ⟨t, rfl, -⟩ := Scope.mem_preorder.1 hy
      simp only [Place.child, List.append_assoc]
      exact List.append_left_lt (List.cons_lt_cons_iff.2 (.inl hjk))
  · -- `x` parts from `q` below `r`, and so stays on the path to `r`; `y` leaves it to the right
    obtain ⟨u, hu, hq⟩ := hqr
    obtain ⟨path, i, j, t, hpath, -, rfl, -⟩ := Scope.mem_flatMap_laterSiblings.1 hx
    obtain ⟨path', i', j', t', hpath', hij', rfl, -⟩ := Scope.mem_flatMap_laterSiblings.1 hy
    have hpre : path = path' ++ i' :: u.dropLast := by
      have := congrArg List.dropLast (hpath.symm.trans hq)
      rw [List.dropLast_concat, hpath', List.append_assoc, List.dropLast_append_of_ne_nil (by simp)]
        at this
      rw [this, List.singleton_append, List.dropLast_cons_of_ne_nil hu]
    rw [hpre, List.append_assoc]
    exact List.append_left_lt (List.cons_lt_cons_iff.2 (.inl hij'))

/-! ## No axis leaves the document -/

theorem Scope.Holds.parent {a : Bool} {path r : Path} (h : s.Holds ⟨a, path ++ r⟩) :
    s.Holds ⟨a, path⟩ := by
  refine ⟨h.1, ?_⟩
  have := h.2
  rw [Scope.at?_below] at this
  cases hp : s.at? ⟨a, path⟩ with
  | none => simp [hp] at this
  | some t => rfl

theorem Scope.Holds.ancestor (h : s.Holds p) (hq : q ∈ p.ancestors) : s.Holds q := by
  obtain ⟨r, -, hpath, ha⟩ := Place.mem_ancestors.1 hq
  obtain ⟨a, path⟩ := p
  obtain ⟨b, path'⟩ := q
  simp only at hpath ha
  subst hpath ha
  exact h.parent

theorem Scope.Holds.earlierSibling (h : s.Holds p) (hq : q ∈ p.earlierSiblings) : s.Holds q := by
  obtain ⟨a, full⟩ := p
  rcases List.eq_nil_or_concat full with rfl | ⟨path, i, rfl⟩
  · simp [Place.earlierSiblings] at hq
  · simp only [Place.earlierSiblings, List.concat_eq_append, List.getLast?_concat,
      List.dropLast_concat, List.mem_map, List.mem_reverse, List.mem_range] at hq
    obtain ⟨j, hj, rfl⟩ := hq
    have hi : i < s.childCount ⟨a, path⟩ :=
      Scope.lt_childCount_iff.2 (by simpa [Place.child] using h.2)
    exact ⟨h.1, Scope.lt_childCount_iff.1 (Nat.lt_trans hj hi)⟩

theorem Scope.Holds.below (h : s.Holds p) (hq : q ∈ s.preorder p) : s.Holds q := by
  obtain ⟨r, rfl, hr⟩ := Scope.mem_preorder.1 hq
  exact ⟨h.1, hr⟩

theorem Scope.Holds.child (h : s.Holds p) (hq : q ∈ s.children p) : s.Holds q := by
  obtain ⟨i, rfl, hi⟩ := Scope.mem_children.1 hq
  exact ⟨h.1, hi⟩

theorem Scope.Holds.laterSibling (h : s.Holds p) (hq : q ∈ s.laterSiblings p) : s.Holds q := by
  obtain ⟨a, full⟩ := p
  rcases List.eq_nil_or_concat full with rfl | ⟨path, i, rfl⟩
  · simp [Scope.laterSiblings_root] at hq
  · rw [List.concat_eq_append, Scope.mem_laterSiblings] at hq
    obtain ⟨j, -, rfl, hj⟩ := hq
    exact ⟨h.1, hj⟩

theorem Scope.Holds.following (h : s.Holds p) (hq : q ∈ s.following p) : s.Holds q := by
  obtain ⟨r, hr, hq⟩ := List.mem_flatMap.1 hq
  have hr : s.Holds r := by
    rcases List.mem_cons.1 hr with rfl | hr
    · exact h
    · exact h.ancestor hr
  obtain ⟨_, _, _, _, _, _, rfl, hx⟩ := Scope.mem_flatMap_laterSiblings.1 hq
  exact ⟨hr.1, hx⟩

theorem Scope.Holds.preceding (hq : q ∈ s.preceding p) : s.Holds q := by
  simp only [Scope.preceding, List.mem_reverse, List.mem_filter] at hq
  exact Scope.mem_preorder_root.1 (List.takeWhile_subset _ hq.1)

/-- **No axis leaves the document.** -/
theorem axis_subset {n m : Node} (a : Axis) (hn : n ∈ s.documentOrder) (hm : m ∈ s.axis a n) :
    m ∈ s.documentOrder := by
  have tree {ps : List Place} (h : ∀ q ∈ ps, s.Holds q) (hm : m ∈ ps.map .tree) :
      m ∈ s.documentOrder := by
    obtain ⟨q, hq, rfl⟩ := List.mem_map.1 hm
    exact Scope.holds_tree.2 (h q hq)
  rcases n with p | ⟨p, i⟩
  · have hp : s.Holds p := Scope.holds_tree.1 hn
    have up : ∀ q ∈ p :: p.ancestors, s.Holds q := by
      rintro q (_ | ⟨_, hq⟩)
      · exact hp
      · exact hp.ancestor hq
    cases a with
    | child => exact tree (fun _ => hp.child) hm
    | descendant => exact tree (fun _ hq => hp.below (List.mem_of_mem_drop hq)) hm
    | descendantOrSelf => exact tree (fun _ => hp.below) hm
    | «attribute» =>
      obtain ⟨i, hi, rfl⟩ := List.mem_map.1 hm
      exact Scope.mem_documentOrder_attribute.2 ⟨hn, List.mem_range.1 hi⟩
    | parent =>
      refine tree (fun q hq => ?_) hm
      rw [Place.parent?] at hq
      split at hq
      · simp at hq
      · rename_i hne
        obtain rfl : q = ⟨p.astray, p.path.dropLast⟩ := by simpa [eq_comm] using hq
        refine Scope.Holds.parent (r := [p.path.getLast (by simpa using hne)]) ?_
        rw [List.dropLast_concat_getLast]
        exact hp
    | ancestor => exact tree (fun _ => hp.ancestor) hm
    | ancestorOrSelf => exact tree up hm
    | self => exact (List.mem_singleton.1 hm) ▸ hn
    | followingSibling => exact tree (fun _ => hp.laterSibling) hm
    | precedingSibling => exact tree (fun _ => hp.earlierSibling) hm
    | following => exact tree (fun _ => hp.following) hm
    | preceding => exact tree (fun _ => Scope.Holds.preceding) hm
  · have howner := (Scope.mem_documentOrder_attribute.1 hn).1
    have hp : s.Holds p := Scope.holds_tree.1 howner
    have up : m ∈ (.tree p : Node) :: p.ancestors.map .tree → m ∈ s.documentOrder := by
      rintro (_ | ⟨_, hm⟩)
      · exact howner
      · exact tree (fun _ => hp.ancestor) hm
    cases a with
    | self => exact (List.mem_singleton.1 hm) ▸ hn
    | parent => exact (List.mem_singleton.1 hm) ▸ howner
    | ancestor => exact up hm
    | ancestorOrSelf =>
      rcases List.mem_cons.1 hm with rfl | hm
      · exact hn
      · exact up hm
    | following =>
      rcases List.mem_append.1 hm with hm | hm
      · exact tree (fun _ hq => hp.below (List.mem_of_mem_drop hq)) hm
      · exact tree (fun _ => hp.following) hm
    | preceding => exact tree (fun _ => Scope.Holds.preceding) hm
    | child | descendant | descendantOrSelf | «attribute» | followingSibling | precedingSibling =>
      simp [Scope.axis, Scope.attributeAxis] at hm

/-! ## Forward axes are in order -/

theorem pairwise_map_tree {ps : List Place} (h : ps.Pairwise fun x y => x.path < y.path) :
    (ps.map Node.tree).Pairwise Node.Before := by
  rw [List.pairwise_map]
  exact h.imp fun h => .inl h

theorem Scope.pairwise_children (s : Scope) (p : Place) :
    (s.children p).Pairwise fun x y => x.path < y.path := by
  rw [Scope.children, List.pairwise_map]
  exact List.pairwise_lt_range.imp fun h =>
    List.append_left_lt (List.cons_lt_cons_iff.2 (.inl h))

theorem Scope.pairwise_laterSiblings (s : Scope) (p : Place) :
    (s.laterSiblings p).Pairwise fun x y => x.path < y.path := by
  rw [Scope.laterSiblings]
  split
  · exact (s.pairwise_children _).sublist (List.drop_sublist _ _)
  · exact .nil

/-- What follows a node comes after all that is below it. -/
theorem Scope.below_before_following (hq : q ∈ s.preorder p) {r : Place}
    (hr : r ∈ s.following p) : q.path < r.path := by
  obtain ⟨t, rfl, -⟩ := Scope.mem_preorder.1 hq
  obtain ⟨u, hu, hr⟩ := List.mem_flatMap.1 hr
  obtain ⟨path, i, j, v, hpath, hij, rfl, -⟩ := Scope.mem_flatMap_laterSiblings.1 hr
  have hup : ∃ w, p.path = u.path ++ w := by
    rcases List.mem_cons.1 hu with rfl | hu
    · exact ⟨[], by simp⟩
    · obtain ⟨w, -, hw, -⟩ := Place.mem_ancestors.1 hu
      exact ⟨w, hw⟩
  obtain ⟨w, hw⟩ := hup
  simp only [hw, hpath, List.append_assoc]
  exact List.append_left_lt (List.cons_lt_cons_iff.2 (.inl hij))

/-- **From a single node of the document a forward axis is in document order as it is.** -/
theorem axis_sublist {n : Node} {a : Axis} (ha : a.isReverse = false)
    (hn : n ∈ s.documentOrder) : (s.axis a n).Sublist s.documentOrder := by
  refine sublist_documentOrder_iff.2 ⟨?_, fun m hm => axis_subset a hn hm⟩
  rcases n with p | ⟨p, i⟩
  · cases a with
    | child => exact pairwise_map_tree (s.pairwise_children p)
    | descendant =>
      exact pairwise_map_tree ((s.pairwise_preorder p).sublist (List.drop_sublist _ _))
    | descendantOrSelf => exact pairwise_map_tree (s.pairwise_preorder p)
    | «attribute» => exact (List.pairwise_cons.1 (s.pairwise_ownNodes p)).2
    | parent =>
      simp only [Scope.axis, Scope.treeAxis, Place.parent?]
      split <;> simp
    | self => exact List.pairwise_singleton _ _
    | followingSibling => exact pairwise_map_tree (s.pairwise_laterSiblings p)
    | following => exact pairwise_map_tree (s.pairwise_following p)
    | ancestor | ancestorOrSelf | precedingSibling | preceding => simp [Axis.isReverse] at ha
  · cases a with
    | self | parent => exact List.pairwise_singleton _ _
    | following =>
      simp only [Scope.axis, Scope.attributeAxis, ← List.map_append]
      refine pairwise_map_tree (List.pairwise_append.2 ⟨?_, s.pairwise_following p, ?_⟩)
      · exact (s.pairwise_preorder p).sublist (List.drop_sublist _ _)
      · exact fun q hq r hr => Scope.below_before_following (List.mem_of_mem_drop hq) hr
    | child | descendant | descendantOrSelf | «attribute» | followingSibling => exact .nil
    | ancestor | ancestorOrSelf | precedingSibling | preceding => simp [Axis.isReverse] at ha

end MarkupTemplate.XPath
