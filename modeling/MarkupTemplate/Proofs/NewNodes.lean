import MarkupTemplate.Document.Edits
import MarkupTemplate.Proofs.Levels
import MarkupTemplate.Proofs.Moves

/-!
# New nodes

Nodes get beside a document as a leaf that is made, or as the trees of a fragment that is read. Their
identities go on from those of the document, so no node of it is touched.

* `wellFormed_adopt_leaf`, `find?_adopt_leaf_self`, `children_adopt_leaf` — a leaf.
* `Document.fragmentTrees` — the trees of a fragment; `graft_eq` — those are what is put beside a
  document.
* `wellFormed_graft`, `find?_graft`, `le_of_mem_graft` — they have identities of their own, which none of
  the nodes of the document has.
-/

namespace MarkupTemplate.Document

variable {d : Document} {n next : NodeId}

theorem WellFormed.nextId_not_mem (h : d.WellFormed) : d.nextId ∉ ids (d.tree :: d.strays) :=
  fun hmem => Nat.lt_irrefl _ (h.known _ hmem)

/-! ## Leaves -/

/-- A document with a new node beside it. -/
theorem adopt_leaf (d : Document) (data : NodeData) :
    (d.adopt (.node data [])).2 = d.beside [.node ⟨d.nextId, data, none⟩ []] (d.nextId + 1) :=
  rfl

theorem ids_leaf (a : Entry) : ids [.node a []] = [a.id] := by
  simp

theorem wellFormed_adopt_leaf (h : d.WellFormed) (data : NodeData) :
    (d.adopt (.node data [])).2.WellFormed := by
  rw [adopt_leaf]
  refine wellFormed_beside h ?_ (Nat.le_succ _) ?_ <;> rw [ids_leaf]
  · exact List.nodup_singleton _
  · intro x hx
    rw [List.mem_singleton.1 hx]
    exact ⟨Nat.le_refl _, Nat.lt_succ_self _⟩

theorem find?_adopt_leaf_of_ne (data : NodeData) (hn : n ≠ d.nextId) :
    (d.adopt (.node data [])).2.find? n = d.find? n := by
  rw [adopt_leaf]
  refine find?_beside ?_
  rw [ids_leaf]
  exact fun hmem => hn (List.mem_singleton.1 hmem)

theorem find?_adopt_leaf_self (h : d.WellFormed) (data : NodeData) :
    (d.adopt (.node data [])).2.find? d.nextId = some (.node ⟨d.nextId, data, none⟩ []) := by
  rw [adopt_leaf, find?_beside_new h.nextId_not_mem, Tree.findList?]
  simp [Tree.find?, hasId]

theorem children_adopt_leaf (h : d.WellFormed) (data : NodeData) (n : NodeId) :
    (d.adopt (.node data [])).2.children n = d.children n := by
  by_cases hn : n = d.nextId
  · rw [hn, children_of_find? (find?_adopt_leaf_self h data),
      children_of_find?_eq_none (find?_eq_none_iff.2 h.nextId_not_mem)]
    rfl
  · rw [children, children, find?_adopt_leaf_of_ne data hn]

/-! ## Fragments -/

open Html (Construction fragmentStart)

/-- The identity of a node of a fragment, whose nodes are counted on from a new identity. -/
def movedTo (next : NodeId) (n : Nat) : NodeId :=
  n - fragmentStart + next

theorem movedTo_inj {m n : Nat} (hm : fragmentStart ≤ m) (hn : fragmentStart ≤ n)
    (same : movedTo next m = movedTo next n) : m = n := by
  have counted : m - fragmentStart = n - fragmentStart := Nat.add_right_cancel same
  omega

theorem le_movedTo (next : NodeId) (n : Nat) : next ≤ movedTo next n :=
  Nat.le_add_left _ _

theorem movedTo_lt {m n : Nat} (hm : fragmentStart ≤ m) (h : m < n) :
    movedTo next m < movedTo next n := by
  have counted : m - fragmentStart < n - fragmentStart := by omega
  exact Nat.add_lt_add_right counted next

/-- The trees of a fragment, with identities from a new one on. -/
def fragmentTrees (next : NodeId) (text : String) : List (Tree Entry) :=
  (topmost (.ofFragment text) fragmentStart).map fun n =>
    (treeOf (.ofFragment text) n).map fun e => { e with id := movedTo next e.id }

theorem graft_eq (d : Document) (text : String) :
    d.graft text = ((fragmentNodes (.ofFragment text)).map (movedTo d.nextId),
      d.beside (fragmentTrees d.nextId text)
        (movedTo d.nextId (Construction.ofFragment text).nodes.size)) :=
  rfl

theorem ids_map_treeOf_moved (s : Construction) (f : Nat → NodeId) (ns : List Nat) :
    ids (ns.map fun n => (treeOf s n).map fun e => { e with id := f e.id }) =
      (Tree.labelsList (ns.map s.treeAt)).map f := by
  rw [← ids_map_treeOf]
  induction ns with
  | nil => rfl
  | cons n ns ih =>
    rw [ids, List.map_cons, Tree.labelsList_cons, List.map_append, ← ids, ih, List.map_cons, ids,
      ids, Tree.labelsList_cons, List.map_append, List.map_append, Tree.labels_map, List.map_map]
    congr 1
    rw [List.map_map]
    rfl

/-- The numbers of the nodes of a fragment. -/
theorem of_mem_labels_topmost {text : String} {m : Nat}
    (hm : m ∈ Tree.labelsList ((topmost (.ofFragment text) fragmentStart).map
      (Construction.ofFragment text).treeAt)) :
    fragmentStart ≤ m ∧ m < (Construction.ofFragment text).nodes.size := by
  have linked := Construction.linked_ofFragment text
  unfold Construction.treeAt at hm
  rw [Construction.labelsList_map_treeTo] at hm
  obtain ⟨n, hn, hm⟩ := List.mem_flatMap.1 hm
  obtain ⟨hsize, hstart, -⟩ := of_mem_topmost hn
  obtain ⟨k, below⟩ := Construction.below_of_mem_labels linked hm
  exact ⟨below.le linked (Nat.le_refl _) hstart, Construction.lt_of_mem_labels linked hsize hm⟩

/-- No two nodes of a fragment have the same number. -/
theorem nodup_labels_topmost (text : String) :
    (Tree.labelsList ((topmost (.ofFragment text) fragmentStart).map
      (Construction.ofFragment text).treeAt)).Nodup := by
  have linked := Construction.linked_ofFragment text
  have distinct : (topmost (.ofFragment text) fragmentStart).Nodup := List.nodup_range.filter _
  refine Construction.nodup_labels linked (fun n hn => ?_) (distinct.imp_of_mem ?_)
  · exact Construction.exists_atLevel linked (Nat.le_refl _) (of_mem_topmost hn).2.2
  · intro a b ha hb other
    obtain ⟨-, hstartA, topA⟩ := of_mem_topmost ha
    obtain ⟨-, hstartB, topB⟩ := of_mem_topmost hb
    exact Construction.apart_of_topmost linked (Nat.le_refl _) hstartA hstartB topA topB other

theorem nodup_ids_fragmentTrees (next : NodeId) (text : String) :
    (ids (fragmentTrees next text)).Nodup := by
  rw [fragmentTrees, ids_map_treeOf_moved]
  exact (nodup_labels_topmost text).map_on fun a ha b hb same =>
    movedTo_inj (of_mem_labels_topmost ha).1 (of_mem_labels_topmost hb).1 same

theorem bounds_of_mem_fragmentTrees {text : String} (hn : n ∈ ids (fragmentTrees next text)) :
    next ≤ n ∧ n < movedTo next (Construction.ofFragment text).nodes.size := by
  rw [fragmentTrees, ids_map_treeOf_moved] at hn
  obtain ⟨m, hm, rfl⟩ := List.mem_map.1 hn
  obtain ⟨hstart, hsize⟩ := of_mem_labels_topmost hm
  exact ⟨le_movedTo _ _, movedTo_lt hstart hsize⟩

/-- A document with a fragment beside it has nodes with identities of their own. -/
theorem wellFormed_graft (h : d.WellFormed) (text : String) : (d.graft text).2.WellFormed := by
  rw [graft_eq]
  refine wellFormed_beside h (nodup_ids_fragmentTrees _ _) ?_ fun x hx => bounds_of_mem_fragmentTrees hx
  exact le_movedTo _ _

theorem root_graft (d : Document) (text : String) : (d.graft text).2.root = d.root :=
  rfl

/-- The nodes of the document are found as they were. -/
theorem find?_graft (text : String) (hn : n < d.nextId) :
    (d.graft text).2.find? n = d.find? n := by
  rw [graft_eq]
  exact find?_beside fun hmem => Nat.not_lt_of_le (bounds_of_mem_fragmentTrees hmem).1 hn

/-- Below new nodes are new ones only. -/
theorem le_of_mem_children_graft (h : d.WellFormed) {text : String} {c : NodeId}
    (hn : d.nextId ≤ n) (hc : c ∈ (d.graft text).2.children n) : d.nextId ≤ c := by
  rw [graft_eq] at hc
  have new : n ∉ ids (d.tree :: d.strays) := fun hmem => Nat.not_lt_of_le hn (h.known n hmem)
  exact (bounds_of_mem_fragmentTrees (children_beside_new new c hc)).1

/-- The nodes that a fragment consists of are new. -/
theorem le_of_mem_graft {text : String} (hn : n ∈ (d.graft text).1) : d.nextId ≤ n := by
  rw [graft_eq] at hn
  obtain ⟨m, -, rfl⟩ := List.mem_map.1 hn
  exact le_movedTo _ _

end MarkupTemplate.Document
