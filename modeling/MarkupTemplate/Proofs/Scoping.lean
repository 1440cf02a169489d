import MarkupTemplate.Proofs.Contexts
import MarkupTemplate.Proofs.Levels
import MarkupTemplate.Proofs.Slots
import MarkupTemplate.Proofs.Unions

/-!
# Scoped queries

A query may run from a node, or below the location paths of several nodes. Both find the same, as
long as the branches of the selector are paths.

* `Document.walkFrom` — the nodes that steps lead to from a place.
* `Document.isAddressable` — the elements whose location paths lead back to them.
* `Document.union` — what is in one of several lists, in document order.
* `Page.found` — what a query finds.
* `Page.nodesAt_paths`, `Page.nodesAt_point` — what queries below paths and from a node select.
* `Page.css_scoped`, `Page.xpath_scoped` — **the main results**.
-/

namespace MarkupTemplate

open XPath

namespace Document

variable {d : Document} {id : NodeId} {ns ms : List Node}

/-! ## Walks in documents -/

/-- The nodes that queries from nodes of the document may see. -/
def scope (d : Document) : Scope :=
  ⟨d.markup, none⟩

/-- The focus of a query from a place. -/
def focus (d : Document) (q : Place) : Focus :=
  ⟨d.scope, .tree q, 1, 1⟩

/-- The nodes that steps lead to from a place. -/
def walkFrom (d : Document) (q : Place) (ss : List Step) : Except XPath.Fault (List Node) :=
  walk (d.focus q) [.tree q] ss

theorem evaluate_relative (d : Document) (q : Place) (ss : List Step) :
    evaluate (d.focus q) (.path .context ss) = (d.walkFrom q ss).map .nodes :=
  evaluate_context

theorem evaluate_absolute (d : Document) (q : Place) (ss : List Step) :
    evaluate (d.focus q) (.path .root ss) = (d.walkFrom .root ss).map .nodes := by
  have hscope : (d.focus q).scope = (d.focus .root).scope := rfl
  exact evaluate_root.trans (congrArg _ (walk_congr hscope ss _))

theorem evaluate_below {leading : List Step} {q r : Place}
    (h : d.walkFrom .root leading = .ok [.tree r]) (ss : List Step) :
    evaluate (d.focus q) (.path .root (leading ++ ss)) = (d.walkFrom r ss).map .nodes := by
  have hscope : (d.focus .root).scope = (d.focus r).scope := rfl
  rw [evaluate_absolute, walkFrom, walk_append]
  change ((d.walkFrom .root leading >>= _).map _) = _
  rw [h, ok_bind, walk_congr hscope, walkFrom]

theorem walkFrom_sublist {q : Place} {ss : List Step}
    (hq : .tree q ∈ d.scope.documentOrder) (h : d.walkFrom q ss = .ok ns) :
    ns.Sublist d.scope.documentOrder :=
  walk_sublist (f := d.focus q) (List.singleton_sublist.2 hq) h

theorem root_mem (d : Document) : .tree .root ∈ d.scope.documentOrder :=
  Scope.holds_tree.2 (Scope.holds_root _)

/-! ## Elements with location paths -/

/-- The location path of an element of the document can be read: the tags on the way to it are names
in queries, and there are no more children on the way than numbers in queries tell apart. -/
def isAddressable (d : Document) (id : NodeId) : Bool :=
  match d.tree.pathTo? (hasId id) with
  | some path => !path.isEmpty && Markup.isAddressable path d.markup
  | none => false

/-- The place of a node in the document. -/
def place (d : Document) (id : NodeId) : Place :=
  ⟨false, (d.tree.pathTo? (hasId id)).getD []⟩

/-- The location path of a node leads to it. -/
structure Located (d : Document) (id : NodeId) : Prop where
  scopeOf : d.scopeOf id = (d.scope, d.place id)
  mem : .tree (d.place id) ∈ d.scope.documentOrder
  isContext : IsContext (d.nodePath id).toList
  continues : Continues (d.nodePath id).toList (Selector.stepsOf (d.nodePath id))
  leads : d.walkFrom .root (Selector.stepsOf (d.nodePath id)) = .ok [.tree (d.place id)]

theorem located (document : d.tree.label.data = .document) (h : d.isAddressable id = true) :
    d.Located id := by
  rw [isAddressable] at h
  split at h
  · rename_i path hpath
    rw [Bool.and_eq_true, Bool.not_eq_true', List.isEmpty_eq_false_iff] at h
    have hlabel : d.markup.label = .document := by
      rw [← document, Document.markup, Document.plain]
      cases d.tree
      rfl
    obtain ⟨ss, hcontext, hcontinues, hne, hwalk⟩ := nodePath_leads hlabel h.1 h.2
    have hplace : d.place id = ⟨false, path⟩ := by rw [place, hpath, Option.getD_some]
    have hscope : d.scopeOf id = (d.scope, d.place id) := by
      rw [Document.scopeOf, hpath, hplace]
      rfl
    have hnode : d.nodePath id = d.markup.nodePath path := by
      rw [nodePath, home?, List.findSome?_cons, hpath]
      rfl
    have hholds : (Tree.at? path d.markup).isSome = true :=
      (pathSegments_lead path d.markup [] h.2).1
    have hsteps := Selector.stepsOf_eq hcontext hcontinues hne
    rw [← hnode] at hcontext hcontinues hsteps
    refine ⟨hscope, ?_, hcontext, hsteps ▸ hcontinues, ?_⟩
    · rw [hplace]
      exact Scope.holds_tree.2 ⟨rfl, hholds⟩
    · rw [hsteps, hplace]
      exact hwalk (d.focus .root) rfl
  · cases h

/-! ## Nodes and their identities -/

/-- The nodes of the document among others. -/
def idsAt (d : Document) (ns : List Node) : List NodeId :=
  (places ns).filterMap (d.idAt? d.root)

/-- What is in one of several lists, in document order and without repetitions. -/
def union (d : Document) (lists : List (List NodeId)) : List NodeId :=
  (ids [d.tree]).filter fun id => lists.any fun list => list.contains id

theorem mem_idsAt : id ∈ d.idsAt ns ↔ ∃ p, .tree p ∈ ns ∧ d.idAt? d.root p = some id := by
  simp only [idsAt, places, List.mem_filterMap]
  constructor
  · rintro ⟨p, ⟨n, hn, hp⟩, hid⟩
    rcases n with q | ⟨q, i⟩
    · obtain rfl := Option.some.inj hp
      exact ⟨q, hn, hid⟩
    · cases hp
  · rintro ⟨p, hp, hid⟩
    exact ⟨p, ⟨_, hp, rfl⟩, hid⟩

theorem idsAt_sublist (h : ns.Sublist d.scope.documentOrder) :
    (d.idsAt ns).Sublist (ids [d.tree]) := by
  refine Page.filterMap_idAt?_sublist ?_
  rw [← places_documentOrder]
  exact h.filterMap _

theorem eq_filter_of_sublist {α : Type} [BEq α] [LawfulBEq α] {as bs : List α} (h : as.Sublist bs)
    (nodup : bs.Nodup) : as = bs.filter as.contains := by
  induction h with
  | slnil => rfl
  | @cons as bs b hsub ih =>
    obtain ⟨hb, nodup⟩ := List.nodup_cons.1 nodup
    have hnot : as.contains b = false := by
      rw [List.contains_eq_mem, decide_eq_false_iff_not]
      exact fun hmem => hb (hsub.subset hmem)
    rw [List.filter_cons, hnot]
    exact ih nodup
  | @cons_cons as bs a hsub ih =>
    obtain ⟨ha, nodup⟩ := List.nodup_cons.1 nodup
    have hrest : bs.filter (a :: as).contains = bs.filter as.contains :=
      List.filter_congr fun b hb => by
        have hne : b ≠ a := fun heq => ha (heq ▸ hb)
        simp [hne]
    rw [List.filter_cons_of_pos (by simp), hrest, ← ih nodup]

theorem union_singleton (nodup : (ids [d.tree]).Nodup) {list : List NodeId}
    (h : list.Sublist (ids [d.tree])) : d.union [list] = list := by
  rw [union]
  simp only [List.any_cons, List.any_nil, Bool.or_false]
  exact (eq_filter_of_sublist h nodup).symm

theorem WellFormed.nodup_tree (h : d.WellFormed) : (ids [d.tree]).Nodup := by
  have nodup := h.nodup
  rw [← List.singleton_append, ids_append] at nodup
  exact (List.nodup_append.1 nodup).1

/-- Sorting the nodes of several lists gives their union. -/
theorem idsAt_inOrder (wellFormed : d.WellFormed) {lists : List (List Node)}
    (h : ∀ ns ∈ lists, ∀ n ∈ ns, n ∈ d.scope.documentOrder) :
    d.idsAt (inOrder lists.flatten) = d.union (lists.map d.idsAt) := by
  have hsub : (inOrder lists.flatten).Sublist d.scope.documentOrder := by
    refine inOrder_sublist fun n hn => ?_
    obtain ⟨ns, hns, hn⟩ := List.mem_flatten.1 hn
    exact h ns hns n hn
  rw [eq_filter_of_sublist (idsAt_sublist hsub) wellFormed.nodup_tree, union]
  refine List.filter_congr fun id _ => ?_
  rw [Bool.eq_iff_iff, List.contains_iff_mem, List.any_eq_true]
  simp only [mem_idsAt, mem_inOrder, List.mem_flatten, List.mem_map, List.contains_iff_mem]
  constructor
  · rintro ⟨p, ⟨ns, hns, hp⟩, hid⟩
    exact ⟨_, ⟨ns, hns, rfl⟩, mem_idsAt.2 ⟨p, hp, hid⟩⟩
  · rintro ⟨_, ⟨ns, hns, rfl⟩, hmem⟩
    obtain ⟨p, hp, hid⟩ := mem_idsAt.1 hmem
    exact ⟨p, ⟨ns, hns, hp⟩, hid⟩

/-- Sorting all nodes together gives the union of what is sorted by itself. -/
theorem idsAt_inOrder_flatten (wellFormed : d.WellFormed) {lists : List (List (List Node))}
    (h : ∀ list ∈ lists, ∀ ns ∈ list, ∀ n ∈ ns, n ∈ d.scope.documentOrder) :
    d.idsAt (inOrder lists.flatten.flatten) =
      d.union (lists.map fun list => d.idsAt (inOrder list.flatten)) := by
  have hall : ∀ n ∈ lists.flatten.flatten, n ∈ d.scope.documentOrder := by
    intro n hn
    obtain ⟨ns, hns, hn⟩ := List.mem_flatten.1 hn
    obtain ⟨list, hlist, hns⟩ := List.mem_flatten.1 hns
    exact h list hlist ns hns n hn
  have hsorted : inOrder lists.flatten.flatten =
      inOrder (lists.map fun list => inOrder list.flatten).flatten :=
    inOrder_congr hall fun n => by
      simp only [List.mem_flatten, List.mem_map, exists_exists_and_eq_and, mem_inOrder]
      constructor
      · rintro ⟨ns, ⟨list, hlist, hns⟩, hn⟩
        exact ⟨list, hlist, ns, hns, hn⟩
      · rintro ⟨list, hlist, ns, hns, hn⟩
        exact ⟨ns, ⟨list, hlist, hns⟩, hn⟩
  rw [hsorted, idsAt_inOrder wellFormed, List.map_map]
  · rfl
  · intro ns hns n hn
    obtain ⟨list, hlist, rfl⟩ := List.mem_map.1 hns
    obtain ⟨ns, hns, hn⟩ := List.mem_flatten.1 (mem_inOrder.1 hn)
    exact h list hlist ns hns n hn

theorem union_filter (d : Document) (keep : NodeId → Bool) (lists : List (List NodeId)) :
    (d.union lists).filter keep = d.union (lists.map (List.filter keep)) := by
  rw [union, union, List.filter_filter]
  refine List.filter_congr fun id _ => ?_
  rw [Bool.eq_iff_iff]
  simp only [Bool.and_eq_true, List.any_eq_true, List.any_map, Function.comp_apply,
    List.contains_iff_mem, List.mem_filter]
  constructor
  · rintro ⟨hkeep, list, hlist, hid⟩
    exact ⟨list, hlist, hid, hkeep⟩
  · rintro ⟨list, hlist, hid, hkeep⟩
    exact ⟨hkeep, list, hlist, hid⟩

end Document

namespace Page

open Document (ids)

open Selector (LocationPath)

variable {p : Page} {d : Document} {s : Selector} {context : QueryContext} {query : String}
  {id : NodeId} {nodes : List NodeId} {steps : String → List Step} {standard : Grammar}
  {source : String}

/-! ## What queries select -/

/-- What a query finds on a page. -/
def found (p : Page) (s : Selector) (context : QueryContext) : Except Error (List NodeId) :=
  ((selectCompiled s context).runFrom p).1

/-- The open elements among what a query selects. -/
def opened (d : Document) (selected : Except XPath.Fault (List NodeId)) :
    Except Error (List NodeId) :=
  (selected.map (List.filter (isOpen d))).mapError queryError

theorem found_eq : p.found s context =
    opened p.document (nodesAt p.document (p.contextNode context) (Page.query s context)) := by
  rw [found]
  cases h : nodesAt p.document (p.contextNode context) (Page.query s context) with
  | error f => rw [runFrom_selectCompiled_error h]; rfl
  | ok nodes => rw [runFrom_selectCompiled_ok h]; rfl

/-- What is found in several lists is open in all of them. -/
theorem opened_union {α : Type} {as : List α}
    (selected : α → Except XPath.Fault (List NodeId)) :
    opened d ((as.mapM selected).map d.union) =
      (as.mapM fun a => opened d (selected a)).map d.union := by
  have hopened : (as.mapM fun a => opened d (selected a)) =
      ((as.mapM selected).map (List.map (List.filter (isOpen d)))).mapError queryError := by
    rw [← mapM_map_result, ← mapM_mapError]
    rfl
  rw [hopened]
  cases as.mapM selected with
  | error => rfl
  | ok lists => exact congrArg Except.ok (d.union_filter (isOpen d) lists)

/-- The nodes that an expression selects from a node. Its text is for messages. -/
def selectedBy (d : Document) (id : NodeId) (query : String) (e : Expr) :
    Except XPath.Fault (List NodeId) :=
  let (scope, place) := d.scopeOf id
  (e.select query scope place).map (List.filterMap (d.idAt? id))

theorem nodesAt_of_read {e : Expr} (h : Expr.read query = .ok e) :
    nodesAt d id query = selectedBy d id query e := by
  rw [nodesAt, selectedBy, h, ok_bind]
  cases e.select query (d.scopeOf id).1 (d.scopeOf id).2 <;> rfl

/-- An expression that evaluates to what a walk leads to selects it. -/
theorem selectedBy_eq {e : Expr} {q : Place} {walked : Except XPath.Fault (List Node)}
    (hscope : d.scopeOf id = (d.scope, q))
    (hq : .tree q ∈ d.scope.documentOrder)
    (hvalue : evaluate (d.focus q) e = walked.map .nodes) :
    selectedBy d id query e = walked.map d.idsAt := by
  have hselect : e.select query d.scope q = walked.map places := by
    change (evaluate (d.focus q) e >>= _) = _
    rw [hvalue]
    cases walked <;> rfl
  rw [selectedBy, hscope]
  dsimp only
  rw [hselect]
  cases hwalked : walked with
  | error => rfl
  | ok ns =>
    rw [hwalked] at hvalue
    have hsub : ns.Sublist d.scope.documentOrder :=
      evaluate_sublist (f := d.focus q) hq e hvalue
    refine congrArg Except.ok (List.filterMap_congr fun r hr => ?_)
    have hr' : r ∈ d.scope.preorder .root := by
      rw [← places_documentOrder]
      exact (hsub.filterMap _).subset hr
    have hastray := (Scope.mem_preorder_root.1 hr').1
    simp [Document.idAt?, hastray]

/-! ## Queries as walks -/

/-- What each branch of a selector leads to from a node. -/
def walks (d : Document) (s : Selector) (steps : String → List Step) (id : NodeId) :
    Except XPath.Fault (List (List Node)) :=
  s.branches.mapM fun b => d.walkFrom (d.place id) (steps b)

/-- What the branches of a selector lead to from a node. -/
def reached (d : Document) (s : Selector) (steps : String → List Step) (id : NodeId) :
    Except XPath.Fault (List NodeId) :=
  (walks d s steps id).map fun lists => d.idsAt (inOrder lists.flatten)

theorem mem_of_walks {lists : List (List Node)} (h : d.Located id)
    (hlists : walks d s steps id = .ok lists) :
    ∀ ns ∈ lists, ∀ n ∈ ns, n ∈ d.scope.documentOrder := by
  intro ns hns
  obtain ⟨b, -, hwalk⟩ := Css.exists_of_mem_mapM hlists hns
  exact fun n hn => (Document.walkFrom_sublist h.mem hwalk).subset hn

/-- **A query below location paths** selects the union of what is reached from the nodes. -/
theorem nodesAt_paths (hs : s.Continues steps) (wellFormed : d.WellFormed) (hne : nodes ≠ [])
    (h : ∀ id ∈ nodes, d.Located id) :
    nodesAt d d.root (s.within (nodes.map d.nodePath)) =
      (nodes.mapM (reached d s steps)).map d.union := by
  have hread := Selector.read_within hs hne fun id hid =>
    ⟨(h id hid).isContext, (h id hid).continues⟩
  have hpairs : s.pairs nodes ≠ [] := by
    obtain ⟨id, rest, rfl⟩ := List.exists_cons_of_ne_nil hne
    simp [Selector.pairs, hs.branches]
  have hunion : evaluate (d.focus .root) (Css.folded .union ((s.pairs nodes).map fun ab =>
      .path .root (Selector.stepsOf (d.nodePath ab.1) ++ steps ab.2))) =
        ((s.pairs nodes).mapM fun ab => d.walkFrom (d.place ab.1) (steps ab.2)).map
          fun lists : List (List Node) => .nodes (inOrder lists.flatten) :=
    evaluate_union d.root_mem hpairs fun ab hmem =>
      Document.evaluate_below (h ab.1 (Selector.mem_pairs.1 hmem).1).leads _
  have hwalks : ((s.pairs nodes).mapM fun ab => d.walkFrom (d.place ab.1) (steps ab.2)) =
      (nodes.mapM (walks d s steps)).map List.flatten :=
    mapM_pairs (fun id b => d.walkFrom (d.place id) (steps b)) s.branches nodes
  have hvalue : evaluate (d.focus .root) (Css.folded .union ((s.pairs nodes).map fun ab =>
      .path .root (Selector.stepsOf (d.nodePath ab.1) ++ steps ab.2))) =
        ((nodes.mapM (walks d s steps)).map fun lists => inOrder lists.flatten.flatten).map
          .nodes := by
    rw [hunion, hwalks]
    cases nodes.mapM (walks d s steps) <;> rfl
  have hreached : nodes.mapM (reached d s steps) = (nodes.mapM (walks d s steps)).map
      (List.map fun lists => d.idsAt (inOrder lists.flatten)) :=
    mapM_map_result (walks d s steps) _ nodes
  rw [nodesAt_of_read hread, selectedBy_eq (scopeOf_root d) d.root_mem hvalue, hreached]
  cases hlists : nodes.mapM (walks d s steps) with
  | error => rfl
  | ok lists =>
    refine congrArg Except.ok (d.idsAt_inOrder_flatten wellFormed fun list hlist => ?_)
    obtain ⟨id, hid, hlist⟩ := Css.exists_of_mem_mapM hlists hlist
    exact mem_of_walks (h id hid) hlist

/-- The query below the location path of a node selects what is reached from it. -/
theorem nodesAt_path (hs : s.Continues steps) (wellFormed : d.WellFormed) (h : d.Located id) :
    nodesAt d d.root (s.within [d.nodePath id]) = reached d s steps id := by
  have hpaths := nodesAt_paths hs wellFormed (List.cons_ne_nil id [])
    fun id' hid => (List.mem_singleton.1 hid) ▸ h
  rw [List.map_singleton, List.mapM_cons, List.mapM_nil] at hpaths
  rw [hpaths]
  cases hreached : reached d s steps id with
  | error => rfl
  | ok ids =>
    refine congrArg Except.ok (d.union_singleton wellFormed.nodup_tree ?_)
    rw [reached] at hreached
    cases hlists : walks d s steps id with
    | error =>
      rw [hlists] at hreached
      cases hreached
    | ok lists =>
      rw [hlists] at hreached
      obtain rfl := Except.ok.inj hreached
      refine Document.idsAt_sublist (inOrder_sublist fun n hn => ?_)
      obtain ⟨ns, hns, hn⟩ := List.mem_flatten.1 hn
      exact mem_of_walks h hlists ns hns n hn

/-- The query of a CSS selector from a node selects what is reached from it. -/
theorem nodesAt_point (hs : s.Continues steps) (hgrammar : s.grammar = .css) (h : d.Located id) :
    nodesAt d id (s.within ["."]) = reached d s steps id := by
  have hread := Selector.read_within_point hs hgrammar
  have hunion : evaluate (d.focus (d.place id))
      (Css.folded .union (s.branches.map fun b =>
        .path .context (.mk .self .node [] :: steps b))) =
        (walks d s steps id).map fun lists => .nodes (inOrder lists.flatten) :=
    evaluate_union h.mem hs.branches fun b _ => by
      rw [evaluate_point, Document.evaluate_relative]
  have hvalue : evaluate (d.focus (d.place id))
      (Css.folded .union (s.branches.map fun b =>
        .path .context (.mk .self .node [] :: steps b))) =
        ((walks d s steps id).map fun lists => inOrder lists.flatten).map .nodes := by
    rw [hunion]
    cases walks d s steps id <;> rfl
  rw [nodesAt_of_read hread, selectedBy_eq h.scopeOf h.mem hvalue, reached]
  cases walks d s steps id <;> rfl

/-! ## Paths as texts -/

theorem query_paths (hne : nodes ≠ []) (h : ∀ id ∈ nodes, d.Located id) :
    Page.query s (.paths (String.intercalate " | " (nodes.map d.nodePath))) =
      s.within (nodes.map d.nodePath) := by
  rw [Page.query, contextPaths_joined (by simpa using hne)]
  simpa using fun id hid => (h id hid).isContext

theorem found_paths (hs : s.Continues steps) (wellFormed : p.document.WellFormed)
    (hne : nodes ≠ []) (h : ∀ id ∈ nodes, p.document.Located id) :
    p.found s (.paths (String.intercalate " | " (nodes.map p.document.nodePath))) =
      (nodes.mapM fun id => opened p.document (reached p.document s steps id)).map
        p.document.union := by
  rw [found_eq, query_paths hne h, ← opened_union]
  exact congrArg _ (nodesAt_paths hs wellFormed hne h)

/-! ## CSS selectors -/

/-- **Queries of CSS selectors agree.** Below the location paths of elements a selector finds the
union of what it finds from the elements. The query that is logged for an element finds the same
from the root. -/
theorem css_scoped (hcompile : Selector.compile standard source = .ok s)
    (hgrammar : s.grammar = .css) (hpaths : s.hasPaths = true)
    (wellFormed : p.document.WellFormed) (document : p.document.tree.label.data = .document)
    (hne : nodes ≠ []) (haddressable : ∀ id ∈ nodes, p.document.isAddressable id = true) :
    p.found s (.paths (String.intercalate " | " (nodes.map p.document.nodePath))) =
        (nodes.mapM fun id => p.found s (.node id)).map p.document.union ∧
      ∀ id ∈ nodes, ∀ ids p', (selectCompiled s (.node id)).runFrom p = (.ok ids, p') →
        ∃ query, p'.log = p.log ++ [⟨query, ids.length⟩] ∧
          opened p.document (nodesAt p.document p.document.root query) = .ok ids := by
  have hs := Selector.css_continues hcompile hgrammar hpaths
  have hlocated : ∀ id ∈ nodes, p.document.Located id := fun id hid =>
    Document.located document (haddressable id hid)
  have hnode : ∀ id ∈ nodes, p.found s (.node id) =
      opened p.document (reached p.document s Selector.stepsOf id) := fun id hid => by
    rw [found_eq]
    exact congrArg _ (nodesAt_point hs hgrammar (hlocated id hid))
  refine ⟨?_, fun id hid ids p' hrun => ?_⟩
  · rw [found_paths hs wellFormed hne hlocated]
    exact congrArg _ (mapM_congr fun id hid => (hnode id hid).symm)
  · have hsame : nodesAt p.document p.document.root (p.loggedQuery s (.node id)) =
        nodesAt p.document (p.contextNode (.node id)) (Page.query s (.node id)) :=
      (nodesAt_path hs wellFormed (hlocated id hid)).trans
        (nodesAt_point hs hgrammar (hlocated id hid)).symm
    cases hnodes : nodesAt p.document (p.contextNode (.node id)) (Page.query s (.node id)) with
    | error f =>
      rw [runFrom_selectCompiled_error hnodes] at hrun
      cases hrun
    | ok found =>
      rw [runFrom_selectCompiled_ok hnodes] at hrun
      obtain ⟨hids, rfl⟩ := Prod.mk.inj hrun
      obtain rfl := Except.ok.inj hids
      rw [hnodes] at hsame
      exact ⟨_, rfl, congrArg (opened p.document) hsame⟩

/-- A page of two lists of an item each. -/
def twoLists (grammar : Grammar) : Page :=
  .ofHtml "<ul><li>a</li></ul><ol><li>c</li></ol>" grammar

theorem twoLists_wellFormed (grammar : Grammar) : (twoLists grammar).document.WellFormed :=
  Document.wellFormed_ofHtml _

/-- The items below both lists are the items of the first and of the second list. -/
theorem css_scoped_itemsOfLists :
    ∃ s, Selector.compile .css "li" = .ok s ∧
      (twoLists .css).found s (.paths "/html/body/ul | /html/body/ol") =
        ([4, 7].mapM fun id => (twoLists .css).found s (.node id)).map
          (twoLists .css).document.union ∧
      ∀ id ∈ [4, 7], ∀ ids p',
        (selectCompiled s (.node id)).runFrom (twoLists .css) = (.ok ids, p') →
          ∃ query, p'.log = (twoLists .css).log ++ [⟨query, ids.length⟩] ∧
            opened (twoLists .css).document (nodesAt (twoLists .css).document
              (twoLists .css).document.root query) = .ok ids := by
  have hcompile : Selector.compile .css "li" = .ok ⟨"li", .css, none, ["//li"]⟩ := by
    decide +kernel
  have hpaths : String.intercalate " | " ([4, 7].map (twoLists .css).document.nodePath) =
      "/html/body/ul | /html/body/ol" := by decide +kernel
  have haddressable : ∀ id ∈ [4, 7], (twoLists .css).document.isAddressable id = true := by
    decide +kernel
  have hscoped := css_scoped hcompile rfl (by decide +kernel) (twoLists_wellFormed .css)
    (by decide +kernel) (List.cons_ne_nil 4 [7]) haddressable
  rw [hpaths] at hscoped
  exact ⟨_, hcompile, hscoped⟩

/-- A quote among the names makes a branch a union, of which only the first member is put behind a
context. -/
theorem css_union_unscoped :
    ∃ s, Selector.compile .css "[a>'=' or][c='] | parent::*[* or'][d>\"=\"v]" = .ok s ∧
      (Expr.read s.expression).isOk = true ∧
      (twoLists .css).document.isAddressable 5 = true ∧
      (twoLists .css).found s (.node 5) = .ok [4] ∧
      (twoLists .css).found s (.paths ((twoLists .css).document.nodePath 5)) = .ok [] := by
  refine ⟨⟨"[a>'=' or][c='] | parent::*[* or'][d>\"=\"v]", .css, none,
    ["//*[@a>'=\"' or\"][@c=\"] | parent::*[* or\"][@d>\"='\"v']"]⟩, ?_⟩
  decide +kernel

/-! ## XPath selectors -/

/-- The nodes that steps lead to from a node. -/
def along (d : Document) (ss : List Step) (id : NodeId) : Except XPath.Fault (List NodeId) :=
  selectedBy d id "" (.path .context ss)

theorem along_eq {ss : List Step} {q : Place} (hscope : d.scopeOf id = (d.scope, q))
    (hq : .tree q ∈ d.scope.documentOrder) : along d ss id = (d.walkFrom q ss).map d.idsAt :=
  selectedBy_eq hscope hq (d.evaluate_relative q ss)

/-- A union of location paths selects from a node what its members select: those from the root
from the root, the others from the node. -/
theorem selectedBy_union {members : List LocationPath} (wellFormed : d.WellFormed)
    (h : d.Located id) (hmembers : members ≠ []) :
    selectedBy d id query (Css.folded .union (members.map LocationPath.expr)) =
      (members.mapM fun m => along d m.steps (if m.absolute then d.root else id)).map d.union := by
  let walked (m : LocationPath) : Except XPath.Fault (List Node) :=
    d.walkFrom (if m.absolute then .root else d.place id) m.steps
  have hexpr : ∀ m ∈ members, evaluate (d.focus (d.place id)) m.expr = (walked m).map .nodes := by
    rintro ⟨absolute, ss⟩ -
    cases absolute with
    | false => exact d.evaluate_relative (d.place id) ss
    | true => exact d.evaluate_absolute (d.place id) ss
  have hvalue : evaluate (d.focus (d.place id))
      (Css.folded .union (members.map LocationPath.expr)) =
        ((members.mapM walked).map fun lists => inOrder lists.flatten).map .nodes := by
    rw [evaluate_union h.mem hmembers hexpr]
    cases members.mapM walked <;> rfl
  have halong : (members.mapM fun m => along d m.steps (if m.absolute then d.root else id)) =
      (members.mapM walked).map (List.map d.idsAt) := by
    rw [← mapM_map_result]
    refine mapM_congr ?_
    rintro ⟨absolute, ss⟩ -
    cases absolute with
    | false => exact along_eq h.scopeOf h.mem
    | true => exact along_eq (scopeOf_root d) d.root_mem
  rw [selectedBy_eq h.scopeOf h.mem hvalue, halong]
  cases hlists : members.mapM walked with
  | error => rfl
  | ok lists =>
    refine congrArg Except.ok (d.idsAt_inOrder wellFormed fun ns hns n hn => ?_)
    obtain ⟨⟨absolute, ss⟩, -, hwalk⟩ := Css.exists_of_mem_mapM hlists hns
    refine (Document.walkFrom_sublist ?_ hwalk).subset hn
    cases absolute with
    | false => exact h.mem
    | true => exact d.root_mem

/-- With a single branch the steps of the branch lead to what is reached. -/
theorem reached_single {b : String} {ss : List Step} (hb : s.branches = [b]) (h : d.Located id) :
    reached d s (fun _ => ss) id = along d ss id := by
  rw [along_eq h.scopeOf h.mem, reached, walks, hb, List.mapM_cons, List.mapM_nil]
  cases hwalk : d.walkFrom (d.place id) ss with
  | error => rfl
  | ok ns =>
    have hsub := Document.walkFrom_sublist h.mem hwalk
    change Except.ok (d.idsAt (inOrder [ns].flatten)) = .ok (d.idsAt ns)
    rw [List.flatten_singleton, inOrder_eq_self hsub]

/-- **Queries of XPath selectors.** From a node, a union of location paths finds what its paths
find: those from the root in the whole document, the others from the node. A single path goes on
from the nodes below whose location paths it is run. So a path that is not from the root finds the
same from a node and below its location path. -/
theorem xpath_scoped {members : List LocationPath}
    (hcompile : Selector.compile standard source = .ok s) (hgrammar : s.grammar = .xpath)
    (hread : Expr.read s.expression = .ok (Css.folded .union (members.map LocationPath.expr)))
    (hmembers : members ≠ [])
    (wellFormed : p.document.WellFormed) (document : p.document.tree.label.data = .document)
    (hne : nodes ≠ []) (haddressable : ∀ id ∈ nodes, p.document.isAddressable id = true) :
    (∀ id ∈ nodes, p.found s (.node id) = opened p.document
      ((members.mapM fun m =>
        along p.document m.steps (if m.absolute then p.document.root else id)).map
          p.document.union)) ∧
    ∀ path, members = [path] → path.steps ≠ [] → s.expression.toList.head? ≠ some '(' →
      nodesAt p.document p.document.root (s.within (nodes.map p.document.nodePath)) =
        (nodes.mapM (along p.document path.steps)).map p.document.union ∧
      (path.absolute = false → ∀ id ∈ nodes,
        p.found s (.node id) = p.found s (.paths (p.document.nodePath id))) := by
  have hlocated : ∀ id ∈ nodes, p.document.Located id := fun id hid =>
    Document.located document (haddressable id hid)
  obtain ⟨b, hb, -⟩ := Selector.xpath_branch hcompile hgrammar
  have hwithin : s.within ["."] = s.expression := by
    have hpoint : String.ofList (Text.dropEndWhile (fun c => c = '/') ".".toList) = "." := by rfl
    rw [Selector.within, Selector.expression, hgrammar, List.flatMap_cons, List.flatMap_nil,
      List.append_nil, hpoint, hb]
    rfl
  have hnode : ∀ id ∈ nodes, p.found s (.node id) = opened p.document
      ((members.mapM fun m =>
        along p.document m.steps (if m.absolute then p.document.root else id)).map
          p.document.union) := fun id hid => by
    rw [found_eq, Page.query, hwithin]
    exact congrArg _ ((nodesAt_of_read hread).trans
      (selectedBy_union wellFormed (hlocated id hid) hmembers))
  refine ⟨hnode, ?_⟩
  rintro path rfl hsteps hparen
  have hs := Selector.xpath_continues hcompile hgrammar hread hsteps hparen
  have halong : ∀ id ∈ nodes, reached p.document s (fun _ => path.steps) id =
      along p.document path.steps id := fun id hid => reached_single hb (hlocated id hid)
  refine ⟨?_, fun hrelative id hid => ?_⟩
  · rw [nodesAt_paths hs wellFormed hne hlocated, mapM_congr halong]
  · have hpath := query_paths (s := s) (List.cons_ne_nil id []) fun id' hid' =>
      (List.mem_singleton.1 hid') ▸ hlocated id hid
    rw [List.map_singleton, String.intercalate_singleton] at hpath
    have hselected : selectedBy p.document id s.expression path.expr =
        along p.document path.steps id := by
      rw [along_eq (hlocated id hid).scopeOf (hlocated id hid).mem, LocationPath.expr, hrelative]
      exact selectedBy_eq (hlocated id hid).scopeOf (hlocated id hid).mem
        (p.document.evaluate_relative _ _)
    rw [found_eq, Page.query, hwithin, found_eq, hpath]
    refine congrArg (opened p.document) ((nodesAt_of_read hread).trans (hselected.trans ?_))
    exact ((nodesAt_path hs wellFormed (hlocated id hid)).trans (halong id hid)).symm

/-- A path from the context finds the items of lists below their location paths, and from a list
what it finds below the location path of the list. -/
theorem xpath_scoped_itemsOfLists :
    ∃ s, Selector.compile .xpath "li" = .ok s ∧
      nodesAt (twoLists .xpath).document (twoLists .xpath).document.root
          (s.within ["/html/body/ul", "/html/body/ol"]) =
        ([4, 7].mapM (along (twoLists .xpath).document [.mk .child (.name "li") []])).map
          (twoLists .xpath).document.union ∧
      (twoLists .xpath).found s (.node 7) = (twoLists .xpath).found s (.paths "/html/body/ol") := by
  have hcompile : Selector.compile .xpath "li" = .ok ⟨"li", .xpath, none, ["li"]⟩ := by
    decide +kernel
  let path : LocationPath := ⟨false, [.mk .child (.name "li") []]⟩
  have hread : Expr.read "li" = .ok (Css.folded .union ([path].map LocationPath.expr)) := rfl
  have hfirst : (twoLists .xpath).document.nodePath 4 = "/html/body/ul" := by decide +kernel
  have hsecond : (twoLists .xpath).document.nodePath 7 = "/html/body/ol" := by decide +kernel
  have haddressable : ∀ id ∈ [4, 7], (twoLists .xpath).document.isAddressable id = true := by
    decide +kernel
  obtain ⟨-, hscoped⟩ := xpath_scoped hcompile rfl hread (List.cons_ne_nil path [])
    (twoLists_wellFormed .xpath) (by decide +kernel) (List.cons_ne_nil 4 [7]) haddressable
  obtain ⟨hbelow, hsame⟩ := hscoped path rfl (List.cons_ne_nil _ _) (by decide)
  rw [List.map_cons, List.map_singleton, hfirst, hsecond] at hbelow
  exact ⟨_, hcompile, hbelow, hsecond ▸ hsame rfl 7 (by decide)⟩

/-- A path from the root finds a list from the other one, but nothing below the location path of
that. Of a union only the first member is put below, and the root alone is no query there. -/
theorem xpath_unscoped :
    (∃ s, Selector.compile .xpath "//ul" = .ok s ∧
      (twoLists .xpath).found s (.node 7) = .ok [4] ∧
      (twoLists .xpath).found s (.paths ((twoLists .xpath).document.nodePath 7)) = .ok []) ∧
    (∃ s, Selector.compile .xpath "b | li" = .ok s ∧
      (twoLists .xpath).found s (.node 7) = .ok [8] ∧
      (twoLists .xpath).found s (.paths ((twoLists .xpath).document.nodePath 7)) = .ok []) ∧
    ∃ s, Selector.compile .xpath "/" = .ok s ∧
      (twoLists .xpath).found s (.node 7) = .ok [] ∧
      ((twoLists .xpath).found s (.paths ((twoLists .xpath).document.nodePath 7))).isOk =
        false := by
  refine ⟨⟨⟨"//ul", .xpath, none, ["//ul"]⟩, ?_⟩, ⟨⟨"b | li", .xpath, none, ["b | li"]⟩, ?_⟩,
    ⟨"/", .xpath, none, ["/"]⟩, ?_⟩
  · decide +kernel
  · decide +kernel
  · decide +kernel

end Page

end MarkupTemplate
