import MarkupTemplate.Html.Construction.State

/-!
# Links between nodes

Children name their parent and parents list their children. While a tree is made, both are changed
in several places, and both have to say the same.

* `Construction.Linked` — they do: no node is listed twice, and each only by its parent.
* `Construction.Linked.detached`, `Construction.Linked.attached` — kept when a node is taken from
  its parent, and when a node without one is put among the children of another.
* `Construction.Linked.extended`, `Construction.Linked.relabel` — kept when a node is made, and when
  what it holds is changed.
-/

namespace MarkupTemplate.Html

/-- What is known of the nodes of a construction. -/
structure Known where
  /-- How many nodes come first and keep apart. -/
  first : Nat
  /-- Nodes that are none of these. -/
  others : Nat → Prop

/-- The same is known, and that some more nodes are none of the first ones. -/
def Known.also (k : Known) (more : Nat → Prop) : Known :=
  { k with others := fun n => k.others n ∨ more n }

variable {k : Known} {s t : Construction} {n m p c : Nat}

namespace Construction

/-- The number of a node that is none of the first ones. -/
def IsInner (first : Nat) (s : Construction) (n : Nat) : Prop :=
  first ≤ n ∧ n < s.nodes.size

/-- The document node comes first. -/
def Rooted (s : Construction) : Prop :=
  (s.nodes[documentNode]?).map BuildNode.data = some .document

/-- Each node is among the children of its parent alone, and there only once. The first nodes hang on
one another in order, if they do so at all. Of the open elements, the head and the nodes known to be
others only the outermost element may be one of them. -/
structure Linked (k : Known) (s : Construction) : Prop where
  rooted : s.Rooted
  size : k.first ≤ s.nodes.size
  inner : ∀ n, k.others n → s.IsInner k.first n
  parent : ∀ p c, c ∈ s.childrenOf p → s.parentOf c = some p
  distinct : ∀ p, (s.childrenOf p).toList.Nodup
  first : ∀ n p, n < k.first → s.parentOf n = some p → p < n
  stack : ∀ n ∈ s.stack.dropLast, s.IsInner k.first n
  head : ∀ n, s.head = some n → s.IsInner k.first n

theorem lt_of_parentOf (h : s.parentOf c = some p) : c < s.nodes.size := by
  refine Nat.lt_of_not_le fun hle => ?_
  rw [parentOf, Array.getElem?_eq_none hle] at h
  cases h

theorem lt_of_mem_childrenOf (h : c ∈ s.childrenOf p) : p < s.nodes.size := by
  refine Nat.lt_of_not_le fun hle => ?_
  rw [childrenOf, Array.getElem?_eq_none hle] at h
  exact Array.not_mem_empty c h

/-- A change that leaves the nodes alone. -/
theorem Linked.update (h : s.Linked k) (nodes : t.nodes = s.nodes)
    (stack : ∀ n ∈ t.stack.dropLast, n ∈ s.stack.dropLast ∨ k.others n)
    (head : ∀ n, t.head = some n → s.head = some n ∨ k.others n) : t.Linked k := by
  have parents : t.parentOf = s.parentOf := by
    funext n
    rw [parentOf, parentOf, nodes]
  have children : t.childrenOf = s.childrenOf := by
    funext n
    rw [childrenOf, childrenOf, nodes]
  have inner : t.IsInner k.first = s.IsInner k.first := by
    funext n
    rw [IsInner, IsInner, nodes]
  constructor
  case rooted => rw [Rooted, nodes]; exact h.rooted
  case size => rw [nodes]; exact h.size
  case inner => rw [inner]; exact h.inner
  case parent => rw [parents, children]; exact h.parent
  case distinct => rw [children]; exact h.distinct
  case first => rw [parents]; exact h.first
  case stack =>
    rw [inner]
    exact fun n hn => (stack n hn).elim (h.stack n) (h.inner n)
  case head =>
    rw [inner]
    exact fun n hn => (head n hn).elim (h.head n) (h.inner n)

/-- More nodes are known. -/
theorem Linked.learn (h : s.Linked k) {more : Nat → Prop}
    (inner : ∀ n, more n → s.IsInner k.first n) : s.Linked (k.also more) :=
  { h with inner := fun m hm => hm.elim (h.inner m) (inner m) }

/-- Nodes need not be known any longer. -/
theorem Linked.forget {more : Nat → Prop} (h : s.Linked (k.also more)) : s.Linked k :=
  { h with inner := fun n hn => h.inner n (.inl hn) }

theorem Linked.forget_middle {more others : Nat → Prop}
    (h : s.Linked ((k.also more).also others)) : s.Linked (k.also others) :=
  h.forget.forget.learn fun n hn => h.inner n (.inr hn)

/-- A node that is known is known once more. -/
theorem Linked.remember (h : s.Linked k) (hn : k.others n) : s.Linked (k.also (· = n)) :=
  h.learn fun m heq => h.inner m (heq ▸ hn)

/-- The children of a node that is none of the first ones are none of them either. -/
theorem Linked.isInner_child (h : s.Linked k) (hp : k.first ≤ p)
    (hc : c ∈ s.childrenOf p) : s.IsInner k.first c := by
  have parent := h.parent p c hc
  refine ⟨Nat.le_of_not_lt fun hlt => ?_, lt_of_parentOf parent⟩
  exact absurd (h.first c p hlt parent) (Nat.not_lt.2 (Nat.le_trans (Nat.le_of_lt hlt) hp))

/-! ## Open elements -/

theorem mem_dropLast_of_sublist {ns ms : List Nat} (h : ns.Sublist ms) (hn : n ∈ ns.dropLast) :
    n ∈ ms.dropLast := by
  have reversed := h.reverse.tail.reverse
  rw [List.tail_reverse, List.tail_reverse, List.reverse_reverse, List.reverse_reverse] at reversed
  exact reversed.subset hn

theorem mem_dropLast_cons {ns : List Nat} (h : m ∈ (n :: ns).dropLast) :
    m = n ∨ m ∈ ns.dropLast := by
  cases ns with
  | nil => cases h
  | cons n' ns =>
    rw [List.dropLast_cons_cons] at h
    exact List.mem_cons.1 h

/-- What lies inside of an element is not the outermost one. -/
theorem mem_dropLast_of_mem_takeWhile :
    ∀ {ns : List Nat}, n ∈ ns → m ∈ ns.takeWhile (· != n) → m ∈ ns.dropLast
  | [], there, _ => nomatch there
  | c :: ns, there, h => by
    rw [List.takeWhile_cons] at h
    split at h
    · rename_i other
      have rest : n ∈ ns := (List.mem_cons.1 there).resolve_left (Ne.symm (bne_iff_ne.1 other))
      rw [List.dropLast_cons_of_ne_nil (List.ne_nil_of_mem rest), List.mem_cons]
      exact (List.mem_cons.1 h).imp id (mem_dropLast_of_mem_takeWhile rest)
    · cases h

/-- A change that only ends elements. -/
theorem Linked.close (h : s.Linked k) (nodes : t.nodes = s.nodes)
    (stack : t.stack.Sublist s.stack) (head : t.head = s.head) : t.Linked k :=
  h.update nodes (fun _ hn => .inl (mem_dropLast_of_sublist stack hn)) fun _ hn => .inl (head ▸ hn)

/-- A change of neither the nodes nor the elements that are open. -/
theorem Linked.same (h : s.Linked k) (nodes : t.nodes = s.nodes)
    (stack : t.stack = s.stack) (head : t.head = s.head) : t.Linked k :=
  h.close nodes (stack ▸ List.Sublist.refl _) head

/-- A node is opened. -/
theorem Linked.open_ (h : s.Linked k) (hn : k.others n) (nodes : t.nodes = s.nodes)
    (stack : t.stack = n :: s.stack) (head : t.head = s.head) : t.Linked k := by
  refine h.update nodes (fun m hm => ?_) fun _ hm => .inl (head ▸ hm)
  rw [stack] at hm
  obtain rfl | hm := mem_dropLast_cons hm
  · exact .inr hn
  · exact .inl hm

/-! ## Changes of nodes -/

/-- A construction in which a node was changed. -/
def modified (s : Construction) (n : Nat) (f : BuildNode → BuildNode) : Construction :=
  { s with nodes := s.nodes.modify n f }

section

variable {f : BuildNode → BuildNode}

@[simp] theorem size_modified : (s.modified n f).nodes.size = s.nodes.size :=
  Array.size_modify

theorem parentOf_modified (same : ∀ node, (f node).parent = node.parent) :
    (s.modified n f).parentOf m = s.parentOf m := by
  rw [parentOf, modified, Array.getElem?_modify, parentOf]
  split
  · cases s.nodes[m]? with
    | none => rfl
    | some node => exact same node
  · rfl

theorem childrenOf_modified (same : ∀ node, (f node).children = node.children) :
    (s.modified n f).childrenOf m = s.childrenOf m := by
  rw [childrenOf, modified, Array.getElem?_modify, childrenOf]
  by_cases heq : n = m
  · rw [if_pos heq]
    cases s.nodes[m]? with
    | none => rfl
    | some node => exact same node
  · rw [if_neg heq]

/-- The document node stays one. -/
theorem Rooted.modified (h : s.Rooted)
    (same : ∀ node, s.nodes[n]? = some node → node.data = .document → (f node).data = .document) :
    (s.modified n f).Rooted := by
  rw [Rooted, Construction.modified, Array.getElem?_modify]
  split
  · rename_i heq
    subst heq
    obtain ⟨node, hnode, hdata⟩ := Option.map_eq_some_iff.1 h
    rw [hnode]
    exact congrArg some (same node hnode hdata)
  · exact h

end

/-- A construction in which a node has changed children. -/
def mapChildren (s : Construction) (p : Nat) (f : Array Nat → Array Nat) : Construction :=
  s.modified p fun node => { node with children := f node.children }

/-- A construction in which a node has another parent. -/
def setParent (s : Construction) (n : Nat) (parent : Option Nat) : Construction :=
  s.modified n fun node => { node with parent := parent }

theorem Rooted.relinked (h : s.Rooted) (p : Nat) (f : Array Nat → Array Nat) (n : Nat)
    (parent : Option Nat) : ((s.mapChildren p f).setParent n parent).Rooted :=
  Rooted.modified (Rooted.modified h fun _ _ hdata => hdata) fun _ _ hdata => hdata

variable {f : Array Nat → Array Nat} {parent : Option Nat}

@[simp] theorem size_mapChildren : (s.mapChildren p f).nodes.size = s.nodes.size :=
  size_modified

@[simp] theorem size_setParent : (s.setParent n parent).nodes.size = s.nodes.size :=
  size_modified

@[simp] theorem parentOf_mapChildren : (s.mapChildren p f).parentOf m = s.parentOf m :=
  parentOf_modified fun _ => rfl

@[simp] theorem childrenOf_setParent : (s.setParent n parent).childrenOf m = s.childrenOf m :=
  childrenOf_modified fun _ => rfl

theorem childrenOf_mapChildren :
    (s.mapChildren p f).childrenOf m =
      if p = m ∧ p < s.nodes.size then f (s.childrenOf m) else s.childrenOf m := by
  rw [childrenOf, mapChildren, modified, Array.getElem?_modify, childrenOf]
  by_cases heq : p = m
  · subst heq
    by_cases hlt : p < s.nodes.size
    · simp [hlt]
    · simp [hlt]
  · simp [heq]

theorem parentOf_setParent :
    (s.setParent n parent).parentOf m =
      if n = m ∧ n < s.nodes.size then parent else s.parentOf m := by
  rw [parentOf, setParent, modified, Array.getElem?_modify, parentOf]
  by_cases heq : n = m
  · subst heq
    by_cases hlt : n < s.nodes.size
    · simp [hlt]
    · simp [hlt]
  · simp [heq]

/-- A change of links that leaves everything else alone. -/
theorem Linked.relink (h : s.Linked k) (rooted : t.Rooted) (size : t.nodes.size = s.nodes.size)
    (stack : t.stack = s.stack) (head : t.head = s.head)
    (parent : ∀ p c, c ∈ t.childrenOf p → t.parentOf c = some p)
    (distinct : ∀ p, (t.childrenOf p).toList.Nodup)
    (first : ∀ n p, n < k.first → t.parentOf n = some p → p < n) : t.Linked k := by
  have inner : t.IsInner k.first = s.IsInner k.first := by
    funext n
    rw [IsInner, IsInner, size]
  constructor
  case rooted => exact rooted
  case size => rw [size]; exact h.size
  case inner => rw [inner]; exact h.inner
  case parent => exact parent
  case distinct => exact distinct
  case first => exact first
  case stack => rw [inner, stack]; exact h.stack
  case head => rw [inner, head]; exact h.head

/-- A node is taken from its parent. -/
theorem Linked.detached (h : s.Linked k) (hp : s.parentOf n = some p) :
    ((s.mapChildren p fun cs => cs.filter (· != n)).setParent n none).Linked k := by
  have hn := lt_of_parentOf hp
  refine h.relink (h.rooted.relinked _ _ _ _) (by simp) rfl rfl (fun q c hc => ?_) (fun q => ?_) fun m q hm hq => ?_
  · have kept : c ∈ s.childrenOf q ∧ n ≠ c := by
      rw [childrenOf_setParent, childrenOf_mapChildren] at hc
      split at hc
      · rw [Array.mem_filter] at hc
        exact ⟨hc.1, fun heq => by simp [heq] at hc⟩
      · rename_i other
        refine ⟨hc, fun heq => other ?_⟩
        rw [← heq] at hc
        have same := (h.parent q n hc).symm.trans hp
        cases same
        exact ⟨rfl, lt_of_mem_childrenOf hc⟩
    rw [parentOf_setParent, if_neg (fun both => kept.2 both.1), parentOf_mapChildren]
    exact h.parent q c kept.1
  · rw [childrenOf_setParent, childrenOf_mapChildren]
    split
    · rw [Array.toList_filter]
      exact (h.distinct q).filter _
    · exact h.distinct q
  · rw [parentOf_setParent, parentOf_mapChildren] at hq
    split at hq
    · cases hq
    · exact h.first m q hm hq

/-- A node without a parent is put among the children of another one. -/
theorem Linked.attached (h : s.Linked k) (hn : k.others n) (free : s.parentOf n = none)
    (put : (f (s.childrenOf p)).toList.Perm (n :: (s.childrenOf p).toList) ∨
      f (s.childrenOf p) = s.childrenOf p) :
    ((s.mapChildren p f).setParent n (some p)).Linked k := by
  have inner := h.inner n hn
  have alone : ∀ q, n ∉ s.childrenOf q := fun q hc => by
    rw [h.parent q n hc] at free
    cases free
  refine h.relink (h.rooted.relinked _ _ _ _) (by simp) rfl rfl (fun q c hc => ?_) (fun q => ?_) fun m q hm hq => ?_
  · rw [childrenOf_setParent, childrenOf_mapChildren] at hc
    have member : c = n ∧ p = q ∨ c ∈ s.childrenOf q := by
      split at hc
      · rename_i here
        obtain ⟨rfl, -⟩ := here
        rcases put with perm | same
        · rw [← Array.mem_toList_iff, perm.mem_iff, List.mem_cons, Array.mem_toList_iff] at hc
          exact hc.imp (fun heq => ⟨heq, rfl⟩) id
        · exact .inr (same ▸ hc)
      · exact .inr hc
    rw [parentOf_setParent, parentOf_mapChildren, size_mapChildren]
    rcases member with ⟨rfl, rfl⟩ | hc
    · rw [if_pos ⟨rfl, inner.2⟩]
    · have other : n ≠ c := fun heq => alone q (heq ▸ hc)
      rw [if_neg fun both => other both.1]
      exact h.parent q c hc
  · rw [childrenOf_setParent, childrenOf_mapChildren]
    split
    · rename_i here
      obtain ⟨rfl, -⟩ := here
      rcases put with perm | same
      · rw [perm.nodup_iff, List.nodup_cons, Array.mem_toList_iff]
        exact ⟨alone p, h.distinct p⟩
      · rw [same]
        exact h.distinct p
    · exact h.distinct q
  · have other : n ≠ m := Nat.ne_of_gt (Nat.lt_of_lt_of_le hm inner.1)
    rw [parentOf_setParent, if_neg fun both => other both.1, parentOf_mapChildren] at hq
    exact h.first m q hm hq

/-- A construction with one more node, which has no links. -/
def extended (s : Construction) (data : NodeData) : Construction :=
  { s with nodes := s.nodes.push ⟨data, none, #[], none⟩ }

theorem parentOf_extended (data : NodeData) : (s.extended data).parentOf m = s.parentOf m := by
  rw [parentOf, extended, Array.getElem?_push, parentOf]
  split
  · rename_i heq
    rw [heq, Array.getElem?_eq_none (Nat.le_refl _)]
    rfl
  · rfl

theorem childrenOf_extended (data : NodeData) :
    (s.extended data).childrenOf m = s.childrenOf m := by
  rw [childrenOf, extended, Array.getElem?_push, childrenOf]
  by_cases heq : m = s.nodes.size
  · rw [if_pos heq, heq, Array.getElem?_eq_none (Nat.le_refl _)]
  · rw [if_neg heq]

/-- A node is made. -/
theorem Linked.extended (h : s.Linked k) (data : NodeData) :
    (s.extended data).Linked (k.also (· = s.nodes.size)) := by
  have size : (s.extended data).nodes.size = s.nodes.size + 1 := Array.size_push _
  have inner : ∀ m, s.IsInner k.first m → (s.extended data).IsInner k.first m := fun m hm =>
    ⟨hm.1, size ▸ Nat.lt_succ_of_lt hm.2⟩
  constructor
  case rooted =>
    obtain ⟨node, hnode, -⟩ := Option.map_eq_some_iff.1 h.rooted
    have there := (Array.getElem?_eq_some_iff.1 hnode).1
    rw [Rooted, Construction.extended, Array.getElem?_push_lt there, ← Array.getElem?_eq_getElem]
    exact h.rooted
  case size => exact size ▸ Nat.le_succ_of_le h.size
  case inner =>
    rintro m (hm | rfl)
    · exact inner m (h.inner m hm)
    · exact ⟨h.size, size ▸ Nat.lt_succ_self _⟩
  case parent =>
    intro p c hc
    rw [childrenOf_extended] at hc
    rw [parentOf_extended]
    exact h.parent p c hc
  case distinct =>
    intro p
    rw [childrenOf_extended]
    exact h.distinct p
  case first =>
    intro n p hn hp
    rw [parentOf_extended] at hp
    exact h.first n p hn hp
  case stack => exact fun m hm => inner m (h.stack m hm)
  case head => exact fun m hm => inner m (h.head m hm)

/-- A change of what nodes hold, and not of their links. -/
theorem Linked.relabel (h : s.Linked k) {f : BuildNode → BuildNode} (n : Nat)
    (document : ∀ node, s.nodes[n]? = some node → node.data = .document →
      (f node).data = .document)
    (parent : ∀ node, (f node).parent = node.parent)
    (children : ∀ node, (f node).children = node.children) :
    (s.modified n f).Linked k := by
  refine h.relink (h.rooted.modified document) size_modified rfl rfl (fun p c hc => ?_) (fun p => ?_) fun m p hm hp => ?_
  · rw [childrenOf_modified children] at hc
    rw [parentOf_modified parent]
    exact h.parent p c hc
  · rw [childrenOf_modified children]
    exact h.distinct p
  · rw [parentOf_modified parent] at hp
    exact h.first m p hm hp

end Construction

/-! ## Places among siblings -/

theorem flatMap_before_of_notMem {sibling : Nat} :
    ∀ {cs : List Nat}, sibling ∉ cs →
      cs.flatMap (fun c => if c = sibling then [n, c] else [c]) = cs
  | [], _ => rfl
  | c :: cs, h => by
    rw [List.mem_cons, not_or] at h
    rw [List.flatMap_cons, if_neg (Ne.symm h.1), flatMap_before_of_notMem h.2]
    rfl

theorem flatMap_before_perm {sibling : Nat} {cs : List Nat} (distinct : cs.Nodup)
    (h : sibling ∈ cs) :
    (cs.flatMap fun c => if c = sibling then [n, c] else [c]).Perm (n :: cs) := by
  obtain ⟨before, after, rfl⟩ := List.append_of_mem h
  rw [List.nodup_append, List.nodup_cons] at distinct
  have hbefore : sibling ∉ before := fun hmem =>
    distinct.2.2 _ hmem _ List.mem_cons_self rfl
  rw [List.flatMap_append, List.flatMap_cons, if_pos rfl, flatMap_before_of_notMem hbefore,
    flatMap_before_of_notMem distinct.2.1.1]
  exact List.perm_middle

/-- A node that is put before another one is the outermost only if that is. -/
theorem mem_dropLast_flatMap_before {sibling : Nat} :
    ∀ {cs : List Nat},
      m ∈ (cs.flatMap fun c => if c = sibling then [n, c] else [c]).dropLast →
        m = n ∨ m ∈ cs.dropLast
  | [], h => nomatch h
  | [c], h => by
    rw [List.flatMap_singleton] at h
    split at h
    · exact .inl (List.mem_singleton.1 h)
    · cases h
  | c :: c' :: cs, h => by
    have more : ((c' :: cs).flatMap fun c => if c = sibling then [n, c] else [c]) ≠ [] := by
      rw [List.flatMap_cons]
      split <;> simp
    rw [List.flatMap_cons, List.dropLast_append_of_ne_nil more, List.mem_append] at h
    rw [List.dropLast_cons_cons, List.mem_cons]
    rcases h with h | h
    · split at h
      · exact (List.mem_cons.1 h).imp id fun h => .inl (List.mem_singleton.1 h)
      · exact .inr (.inl (List.mem_singleton.1 h))
    · exact (mem_dropLast_flatMap_before h).imp id .inr

end MarkupTemplate.Html
