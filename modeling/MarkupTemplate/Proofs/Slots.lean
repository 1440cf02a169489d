import MarkupTemplate.Proofs.NodeSets
import MarkupTemplate.Proofs.Reworking

/-!
# Slots of selectors

What a stack of data goes to in a document, before anything of it is changed.

* `Page.nodesAt_sublist` — what a query finds is in document order, each node once.
* `Page.Finds` — the elements that a selector finds.
* `Page.runFrom_selectCompiled`, `Page.Finds.runFrom_select` — a query finds them.
* `Page.Finds.nodup`, `Page.Finds.holds` — none is found twice, and none is the root.
* `WorkingList.runFrom_populate_named` — the working list of selectors that all find something.
-/

namespace MarkupTemplate

namespace Tree

variable {α β : Type}

mutual

theorem paths_map (f : α → β) : ∀ t : Tree α, (t.map f).paths = t.paths
  | .node a ts => by
    rw [map, paths, paths, pathsList_mapList f ts]

theorem pathsList_mapList (f : α → β) :
    ∀ (ts : List (Tree α)) (i : Nat), pathsList i (mapList f ts) = pathsList i ts
  | [], _ => rfl
  | t :: ts, i => by
    rw [mapList, pathsList, pathsList, paths_map f t, pathsList_mapList f ts]

end

mutual

/-- Along its paths, the labels of a tree are met in order. -/
theorem filterMap_paths : ∀ t : Tree α,
    (t.paths.filterMap fun p => (t.at? p).map label) = t.labels
  | .node a ts => by
    rw [paths, labels_node, List.filterMap_cons]
    exact congrArg (a :: ·) (filterMap_pathsList a [] ts)

theorem filterMap_pathsList (a : α) : ∀ before ts : List (Tree α),
    ((pathsList before.length ts).filterMap fun p => ((node a (before ++ ts)).at? p).map label) =
      labelsList ts
  | _, [] => rfl
  | before, t :: ts => by
    have first : ∀ q, (node a (before ++ t :: ts)).at? (before.length :: q) = t.at? q := by
      intro q
      rw [at?_cons, children_node, List.getElem?_append_right (Nat.le_refl _), Nat.sub_self]
      rfl
    have rest := filterMap_pathsList a (before ++ [t]) ts
    rw [List.length_append, List.append_assoc] at rest
    rw [pathsList, List.filterMap_append, List.filterMap_map, labelsList_cons]
    congr 1
    simp only [Function.comp_def, first]
    exact filterMap_paths t

end

end Tree

namespace XPath

/-- The places that a query selects are in document order. -/
theorem select_sublist {s : Scope} {e : Expr} {query : String} {context : Place} {ps : List Place}
    (hcontext : context ∈ s.preorder .root) (h : e.select query s context = .ok ps) :
    ps.Sublist (s.preorder .root) := by
  obtain ⟨ns, hns, rfl⟩ := select_eq_ok h
  have hf : (Node.tree context) ∈ s.documentOrder :=
    Scope.holds_tree.2 (Scope.mem_preorder_root.1 hcontext)
  have hsub : ns.Sublist s.documentOrder :=
    evaluate_sublist (f := ⟨s, .tree context, 1, 1⟩) hf e hns
  rw [← places_documentOrder s]
  exact hsub.filterMap _

end XPath

namespace Page

open Document (hasId ids)

variable {d : Document} {p : Page} {query selector : String} {found nodes : List NodeId}

theorem scopeOf_root (d : Document) : d.scopeOf d.root = (⟨d.markup, none⟩, .root) := by
  have here : d.tree.pathTo? (hasId d.root) = some [] := by
    rw [Document.root]
    cases d.tree
    rw [Tree.pathTo?, Tree.label, if_pos (Document.hasId_self _)]
  rw [Document.scopeOf, here]
  rfl

/-- The nodes at places in document order are in document order. -/
theorem filterMap_idAt?_sublist {ps : List XPath.Place}
    (h : ps.Sublist (XPath.Scope.preorder ⟨d.markup, none⟩ .root)) :
    (ps.filterMap (d.idAt? d.root)).Sublist (ids [d.tree]) := by
  have hpreorder : XPath.Scope.preorder ⟨d.markup, none⟩ .root =
      d.tree.paths.map fun q => ⟨false, q⟩ := by
    rw [← Tree.paths_map Entry.data d.tree]
    rfl
  have all : ((d.tree.paths.map fun q => (⟨false, q⟩ : XPath.Place)).filterMap
      (d.idAt? d.root)) = ids [d.tree] := by
    rw [ids, Tree.labelsList_cons, Tree.labelsList_nil, List.append_nil,
      ← Tree.filterMap_paths d.tree, List.map_filterMap, List.filterMap_map]
    refine List.filterMap_congr fun q _ => ?_
    simp [Document.idAt?, Function.comp_def]
  rw [hpreorder] at h
  rw [← all]
  exact h.filterMap _

/-- **What a query finds from the root is in document order.** -/
theorem nodesAt_sublist (h : nodesAt d d.root query = .ok found) : found.Sublist (ids [d.tree]) := by
  rw [nodesAt] at h
  obtain ⟨e, -, h⟩ := XPath.bind_eq_ok.1 h
  rw [scopeOf_root] at h
  obtain ⟨places, hplaces, h⟩ := XPath.bind_eq_ok.1 h
  rw [XPath.pure_eq_ok] at h
  subst h
  have hroot : XPath.Place.root ∈ XPath.Scope.preorder ⟨d.markup, none⟩ .root :=
    XPath.Scope.mem_preorder_root.2 (XPath.Scope.holds_root _)
  exact filterMap_idAt?_sublist (XPath.select_sublist hroot hplaces)

/-- The elements that a selector finds on a page. -/
structure Finds (p : Page) (selector : String) (nodes : List NodeId) : Prop where
  exists_query : ∃ s found, Selector.compile p.grammar selector = .ok s ∧
    nodesAt p.document p.document.root s.expression = .ok found ∧
    nodes = found.filter (isOpen p.document)

/-- No element is found twice. -/
theorem Finds.nodup (h : p.Finds selector nodes) (wellFormed : p.document.WellFormed) :
    nodes.Nodup := by
  obtain ⟨s, found, -, hfound, rfl⟩ := h.exists_query
  have nodup := wellFormed.nodup
  rw [show p.document.tree :: p.document.strays = [p.document.tree] ++ p.document.strays from rfl,
    Document.ids_append] at nodup
  exact ((nodesAt_sublist hfound).nodup (List.nodup_append.1 nodup).1).filter _

/-- What is found is below the root, which is no element. -/
theorem Finds.holds (h : p.Finds selector nodes)
    (document : p.document.tree.label.data = .document) :
    ∀ id ∈ nodes, p.document.Holds id := by
  obtain ⟨s, found, -, hfound, rfl⟩ := h.exists_query
  intro id hid
  obtain ⟨hmem, hopen⟩ := List.mem_filter.1 hid
  have htree := (nodesAt_sublist hfound).subset hmem
  rw [Document.ids_cons, Document.ids_nil, List.append_nil] at htree
  rcases List.mem_cons.1 htree with rfl | hbelow
  · have hroot : p.document.find? p.document.tree.label.id = some p.document.tree := by
      rw [Document.find?, Tree.findList?]
      cases p.document.tree
      rw [Tree.find?, Tree.label, if_pos (Document.hasId_self _)]
    rw [isOpen, Document.isElement, Document.data?, hroot, Option.map_some, document] at hopen
    cases hopen
  · exact hbelow

/-- The elements among what a query from a context finds are what is found. The query is logged with
their number. -/
theorem runFrom_selectCompiled_ok {s : Selector} {context : QueryContext}
    (h : nodesAt p.document (p.contextNode context) (Page.query s context) = .ok found) :
    (selectCompiled s context).runFrom p =
      (.ok (found.filter (isOpen p.document)),
        { p with log := p.log ++
          [⟨p.loggedQuery s context, (found.filter (isOpen p.document)).length⟩] }) := by
  rw [selectCompiled, Action.runFrom_bind_ok (Action.runFrom_get p)]
  dsimp only
  rw [h]
  rfl

/-- A query that fails is not logged. -/
theorem runFrom_selectCompiled_error {s : Selector} {context : QueryContext} {f : XPath.Fault}
    (h : nodesAt p.document (p.contextNode context) (Page.query s context) = .error f) :
    (selectCompiled s context).runFrom p = (.error (queryError f), p) := by
  rw [selectCompiled, Action.runFrom_bind_ok (Action.runFrom_get p)]
  dsimp only
  rw [h]
  rfl

/-- The elements among what a query finds are what is found, which is put down. -/
theorem runFrom_selectCompiled {s : Selector}
    (h : nodesAt p.document p.document.root s.expression = .ok found) :
    ∃ log, (selectCompiled s .document).runFrom p =
      (.ok (found.filter (isOpen p.document)), { p with log := log }) :=
  ⟨_, runFrom_selectCompiled_ok h⟩

/-- What a selector finds is found, and put down. -/
theorem Finds.runFrom_select (h : p.Finds selector nodes) :
    ∃ log, (select selector .document).runFrom p = (.ok nodes, { p with log := log }) := by
  obtain ⟨s, found, hcompile, hfound, rfl⟩ := h.exists_query
  obtain ⟨log, hrun⟩ := runFrom_selectCompiled hfound
  refine ⟨log, ?_⟩
  rw [select, Action.runFrom_bind_ok (Action.runFrom_get p), hcompile]
  exact hrun

end Page

namespace WorkingList

variable {p : Page} {selectors : List String} {slots : List (List NodeId)}

theorem runFrom_mapM_select : ∀ {selectors : List String} {slots : List (List NodeId)} {p : Page},
    List.Forall₂ p.Finds selectors slots →
    ∃ log, (selectors.mapM fun s => Page.select s .document).runFrom p =
      (.ok slots, { p with log := log })
  | [], [], p, _ => ⟨p.log, rfl⟩
  | s :: selectors, nodes :: slots, p, .cons hs hrest => by
    obtain ⟨log, hselect⟩ := hs.runFrom_select
    have hrest : List.Forall₂ ({ p with log := log } : Page).Finds selectors slots :=
      hrest.imp fun _ _ h => ⟨h.exists_query⟩
    obtain ⟨log', hmap⟩ := runFrom_mapM_select hrest
    refine ⟨log', ?_⟩
    rw [List.mapM_cons, Action.runFrom_bind_ok hselect, Action.runFrom_bind_ok hmap]
    rfl

/-- The slots of selectors hold what each finds. -/
theorem runFrom_populate_named (h : List.Forall₂ p.Finds selectors slots) (indented : Bool) :
    ∃ log, (populate (.named selectors) none none false indented).runFrom p =
      (.ok (ofSlots slots), { p with log := log }) := by
  obtain ⟨log, hmap⟩ := runFrom_mapM_select h
  refine ⟨log, ?_⟩
  have hnamed : (named selectors .document).runFrom p = (.ok (ofSlots slots), { p with log := log }) := by
    rw [named, Action.runFrom_bind_ok hmap]
    rfl
  rw [populate]
  exact Action.runFrom_bind_ok hnamed

end WorkingList

end MarkupTemplate
