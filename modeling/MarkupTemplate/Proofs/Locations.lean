import MarkupTemplate.Proofs.Homes
import MarkupTemplate.Proofs.Scoping

/-!
# Locations of elements

What the location path of an element selects when it is run as a query.

* `Document.read_nodePath` — the path is read as steps that lead to the element.
* `Document.evaluate_nodePath`, `Document.nodesAt_nodePath` — what these find.
* `Document.nodePath_selects` — the path selects the element and nothing else, so that no two
  elements have the same path.
-/

namespace MarkupTemplate

open XPath

namespace Document

variable {d : Document} {e : NodeId}

theorem exists_path (h : d.isAddressable e = true) :
    ∃ path, d.tree.pathTo? (hasId e) = some path ∧ path ≠ [] := by
  rw [isAddressable] at h
  split at h
  · rename_i path hpath
    rw [Bool.and_eq_true, Bool.not_eq_true', List.isEmpty_eq_false_iff] at h
    exact ⟨path, hpath, h.1⟩
  · cases h

/-- The location path of an element is read as steps that lead to it from the root. -/
theorem read_nodePath (document : d.tree.label.data = .document) (h : d.isAddressable e = true) :
    ∃ ss, Expr.read (d.nodePath e) = .ok (.path .root ss) ∧
      d.walkFrom .root ss = .ok [.tree (d.place e)] := by
  have located := Document.located document h
  obtain ⟨path, hpath, hne⟩ := exists_path h
  refine ⟨_, Selector.read_context located.isContext located.continues fun hnil => ?_,
    located.leads⟩
  -- Without steps the walk would stay at the root.
  have leads := located.leads
  rw [hnil, walkFrom, walk] at leads
  injection leads with leads
  injection leads with leads _
  injection leads with hroot
  rw [place, hpath, Option.getD_some] at hroot
  exact hne (congrArg Place.path hroot).symm

/-- The node at the place of an element is the element. -/
theorem idsAt_place (h : d.isAddressable e = true) : d.idsAt [.tree (d.place e)] = [e] := by
  obtain ⟨path, hpath, -⟩ := exists_path h
  obtain ⟨u, hu, hid⟩ := Tree.at?_pathTo? d.tree hpath
  have here : d.idAt? d.root (d.place e) = some e := by
    rw [place, hpath, idAt?]
    simpa [hu, hasId] using hid
  change [d.place e].filterMap (d.idAt? d.root) = [e]
  rw [List.filterMap_cons, here, List.filterMap_nil]

/-- Evaluated from the root, the query that the path is read as finds the place of the element. -/
theorem evaluate_nodePath (document : d.tree.label.data = .document)
    (h : d.isAddressable e = true) :
    ∃ query, Expr.read (d.nodePath e) = .ok query ∧
      evaluate (d.focus .root) query = .ok (.nodes [.tree (d.place e)]) := by
  obtain ⟨ss, read, leads⟩ := read_nodePath document h
  refine ⟨_, read, ?_⟩
  rw [evaluate_absolute, leads]
  rfl

/-- Of the nodes of the document it selects the element alone. -/
theorem nodesAt_nodePath (document : d.tree.label.data = .document)
    (h : d.isAddressable e = true) : Page.nodesAt d d.root (d.nodePath e) = .ok [e] := by
  obtain ⟨query, read, value⟩ := evaluate_nodePath document h
  have value : evaluate (d.focus .root) query = (Except.ok [.tree (d.place e)]).map .nodes := value
  rw [Page.nodesAt_of_read read, Page.selectedBy_eq (Page.scopeOf_root d) d.root_mem value]
  exact congrArg Except.ok (idsAt_place h)

/-- **The location path of an element selects the element and nothing else.** Read as a query and
evaluated from the root of the document, it finds the place of the element. So elements that have the
same path are the same.

The tags on the way to the element are names of queries. That no node has `2 ^ 53` children, which
positions in queries cannot tell apart, is no restriction for what can be held in a memory. -/
theorem nodePath_selects (document : d.tree.label.data = .document)
    (h : d.isAddressable e = true) :
    (∃ query, Expr.read (d.nodePath e) = .ok query ∧
      evaluate (d.focus .root) query = .ok (.nodes [.tree (d.place e)])) ∧
    Page.nodesAt d d.root (d.nodePath e) = .ok [e] ∧
    ∀ e', d.isAddressable e' = true → d.nodePath e' = d.nodePath e → e' = e := by
  have selected := nodesAt_nodePath document h
  refine ⟨evaluate_nodePath document h, selected, fun e' h' same => ?_⟩
  have both := nodesAt_nodePath document h'
  rw [same, selected] at both
  exact (List.singleton_inj.1 (Except.ok.inj both)).symm

/-- A drawing with two texts, whose tag is the name of a node test too. -/
def twoTexts : Document :=
  .ofHtml "<svg><text>a</text><b:c></b:c><text>b</text></svg>"

/-- The location path of the second text selects it. -/
theorem nodePath_selects_secondText :
    twoTexts.isAddressable 8 = true ∧
      Page.nodesAt twoTexts twoTexts.root "/html/body/svg/text[2]" = .ok [8] := by
  have haddressable : twoTexts.isAddressable 8 = true := by decide +kernel
  have hpath : twoTexts.nodePath 8 = "/html/body/svg/text[2]" := by decide +kernel
  obtain ⟨-, hselected, -⟩ := nodePath_selects (root_ofHtml _) haddressable
  exact ⟨haddressable, hpath ▸ hselected⟩

end Document

end MarkupTemplate
