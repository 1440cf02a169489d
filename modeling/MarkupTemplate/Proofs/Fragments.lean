import MarkupTemplate.Import.Resolving
import MarkupTemplate.Proofs.Reworking
import MarkupTemplate.Proofs.Matching
import MarkupTemplate.Proofs.Levels
import MarkupTemplate.Proofs.Slots

/-!
# Fragments that are names

The fragment of a location may be a name. The import then inserts the elements that carry it.

* `Selector.compile_named` — the marker of the CSS grammar counts more than the grammar of a page.
* `Page.nodesAt_list` — what a selector list finds in a document, read off its nodes.
* `Document.carriers` — the elements that carry a name; `Document.isBlank_carriers_iff` — they are never
  blank as HTML.
* `Importer.resolve_name` — **the main result**: what is inserted are the elements that carry the name
  in lower case; `Importer.not_resolve_name` — the name as it is written is not looked for.
-/

namespace MarkupTemplate

open Css (SelectorList Word)
open XPath (Begins Finishes)

/-! ## Names as selectors -/

/-- A node carries a name: that is the value of its attribute `id`. -/
def NodeData.carries (name : List Char) (data : NodeData) : Bool :=
  data.attributes.any fun a => Text.sameLetters a.name.toList "id".toList && a.value.toList = name

theorem NodeData.isElement_of_carries {name : List Char} {data : NodeData}
    (h : data.carries name = true) : data.isElement = true := by
  cases data with
  | element => rfl
  | document | doctype | text | comment => cases h

namespace Css

/-- The selector of the elements that carry a word. -/
def SelectorList.named (word : Word) : SelectorList :=
  .last (.single (.first (.id word)))

end Css

namespace Selector

open Css XPath

/-- A name behind a number sign and the marker of the CSS grammar is compiled to one branch, whatever
the grammar of a page. -/
theorem compile_named (standard : Grammar) (word : Word) :
    compile standard (String.ofList ("css:#".toList ++ word.text)) =
      .ok ⟨String.ofList ("css:#".toList ++ word.text), .css, none,
        (SelectorList.named word).branches.map branchQuery⟩ := by
  let list := SelectorList.named word
  have htext : "css:#".toList ++ word.text = "css:".toList ++ list.text := rfl
  have hbegins : Begins ("css:".toList ++ list.text) := ⟨'c', _, rfl, by decide⟩
  have hfinishes : Finishes ("css:".toList ++ list.text) := list.finishes.append _
  have hends : EndsPlainly ("css:".toList ++ list.text) :=
    list.endsPlainly.append (x := '#') List.mem_cons_self (by decide) _
  have hsplit := splitPosition_eq hbegins hfinishes hends .none .none
  simp only [Gap.none, List.nil_append, List.append_nil] at hsplit
  have hdetect : detectGrammar standard ("css:".toList ++ list.text) = (.css, list.text) := by
    have hxpath : Text.lower (("css:".toList ++ list.text).take 6) ≠ "xpath:".toList := fun heq =>
      absurd (List.cons.inj heq).1 (by decide)
    have hcss : Text.lower (("css:".toList ++ list.text).take 4) = "css:".toList := by
      rw [List.take_left' (by rfl)]
      decide
    have hrest : ("css:".toList ++ list.text).drop 4 = list.text := List.drop_left' (by rfl)
    rw [detectGrammar, if_neg hxpath, if_pos hcss, hrest, trim_eq_self list.begins list.finishes]
  have hne : list.text.isEmpty = false := by
    obtain ⟨c, t, heq, -⟩ := list.begins
    rw [heq]
    rfl
  unfold compile
  rw [htext, hsplit]
  dsimp only
  rw [String.toList_ofList, hdetect]
  dsimp only
  rw [hne, readBranches_eq list]
  rfl

end Selector

/-! ## What is found -/

namespace Document

variable {d : Document} {e : Entry}

/-- What a node of the document holds is found by its identity. -/
theorem WellFormed.data?_of_mem (h : d.WellFormed) (he : e ∈ d.tree.labels) :
    d.data? e.id = some e.data := by
  have hmem : e ∈ Tree.labelsList (d.tree :: d.strays) := by
    rw [Tree.labelsList_cons]
    exact List.mem_append_left _ he
  have hid : e.id ∈ ids (d.tree :: d.strays) := List.mem_map_of_mem hmem
  cases hfound : d.find? e.id with
  | none =>
    have hzero := (Tree.findList?_eq_none_iff _).1 hfound
    exact absurd hid (countP_hasId_eq_zero.1 hzero)
  | some t =>
    obtain ⟨ht, hsame⟩ := find?_mem_entries hfound
    rw [data?, hfound, Option.map_some, List.inj_on_of_nodup_map h.nodup ht hmem hsame]

/-- The elements that carry a name, in document order. -/
def carriers (d : Document) (name : List Char) : List NodeId :=
  (d.tree.labels.filter fun e => e.data.carries name).map Entry.id

/-- An element is written with its tags. -/
theorem mem_nodeHtml {id : NodeId} {data : NodeData} (found : d.data? id = some data)
    (element : data.isElement = true) : '<' ∈ (d.nodeHtml id).toList := by
  obtain ⟨t, ht, rfl⟩ := Option.map_eq_some_iff.1 found
  obtain ⟨⟨id', data, content⟩, ts⟩ := t
  cases data with
  | element n as =>
    rw [nodeHtml, ht, Option.map_some, Option.getD_some, written, filledIn, Markup.html,
      Markup.write, if_neg (by decide), String.toList_join]
    refine List.mem_flatMap.2 ⟨"<", ?_, by decide⟩
    simp
  | document | doctype | text | comment => cases element

/-- Where elements carry a name, their HTML is not blank. -/
theorem isBlank_carriers_iff (h : d.WellFormed) {name : List Char} :
    isBlankString (String.join ((d.carriers name).map d.nodeHtml)) = true ↔ d.carriers name = [] := by
  constructor
  · intro hblank
    by_contra hne
    obtain ⟨id, hid⟩ := List.exists_mem_of_ne_nil _ hne
    obtain ⟨e, he, rfl⟩ := List.mem_map.1 hid
    obtain ⟨hmem, hcarries⟩ := List.mem_filter.1 he
    have hsign : '<' ∈ (d.nodeHtml e.id).toList :=
      mem_nodeHtml (h.data?_of_mem hmem) (NodeData.isElement_of_carries hcarries)
    have hjoin : '<' ∈ (String.join ((d.carriers name).map d.nodeHtml)).toList := by
      rw [String.toList_join]
      exact List.mem_flatMap.2 ⟨_, List.mem_map_of_mem hid, hsign⟩
    have := List.all_eq_true.1 hblank _ hjoin
    revert this
    decide
  · intro hnil
    rw [hnil]
    rfl

end Document

namespace Page

variable {d : Document}

/-- **What a selector list finds in a document**, where it depends on what the nodes hold: those of
them that it matches, in document order. -/
theorem nodesAt_list (list : SelectorList) {P : NodeData → Bool}
    (h : ∀ q t, d.tree.at? q = some t → list.selects ⟨d.markup, none⟩ ⟨false, q⟩ = P t.label.data) :
    nodesAt d d.root (String.intercalate " | " (list.branches.map Css.branchQuery)) =
      .ok ((d.tree.labels.filter fun e => P e.data).map Entry.id) := by
  have hpreorder : XPath.Scope.preorder ⟨d.markup, none⟩ .root =
      d.tree.paths.map fun q => ⟨false, q⟩ := by
    rw [← Tree.paths_map Entry.data d.tree]
    rfl
  have hplace : ∀ q : Path, ((Option.guard (list.selects ⟨d.markup, none⟩) ⟨false, q⟩).bind
      (d.idAt? d.root)) = (((d.tree.at? q).map Tree.label).filter fun e => P e.data).map Entry.id := by
    intro q
    cases hq : d.tree.at? q with
    | none =>
      cases hselects : list.selects ⟨d.markup, none⟩ ⟨false, q⟩ with
      | false => simp [Option.guard, hselects]
      | true => simp [Option.guard, hselects, Document.idAt?, hq]
    | some t =>
      cases hP : P t.label.data <;> simp [Option.guard, h q t hq, Document.idAt?, hq, hP]
  rw [nodesAt, list.read_eq, scopeOf_root]
  change (do
    let places ← XPath.Expr.select _ _ ⟨d.markup, none⟩ .root
    pure (places.filterMap (d.idAt? d.root))) = _
  rw [list.select_eq, hpreorder]
  change Except.ok _ = _
  rw [← Tree.filterMap_paths d.tree, List.filter_filterMap, List.map_filterMap, ← List.filterMap_eq_filter,
    List.filterMap_filterMap, List.filterMap_map]
  exact congrArg Except.ok (List.filterMap_congr fun q _ => hplace q)

/-- The selector of a name finds the elements that carry it in lower case. -/
theorem nodesAt_named (root : d.tree.label.data = .document) (word : Word) :
    nodesAt d d.root (String.intercalate " | " ((SelectorList.named word).branches.map
      Css.branchQuery)) = .ok (d.carriers (Text.lower word.text)) := by
  refine nodesAt_list _ (P := NodeData.carries (Text.lower word.text)) fun q t hq => ?_
  have hdata : XPath.Scope.data? ⟨d.markup, none⟩ ⟨false, q⟩ = some t.label.data := by
    have hat : XPath.Scope.at? ⟨d.markup, none⟩ ⟨false, q⟩ = (d.markup.at? q) := rfl
    rw [XPath.Scope.data?, hat, Document.markup, Document.plain, Tree.at?_map, hq]
    simp
  have hattributes : XPath.Scope.attributes ⟨d.markup, none⟩ ⟨false, q⟩ = t.label.data.attributes := by
    rw [XPath.Scope.attributes, hdata]
  have hcarries : ((Css.attributesNamed ⟨d.markup, none⟩ ⟨false, q⟩ "id".toList).any fun a =>
      a.value.toList = Text.lower word.text) = t.label.data.carries (Text.lower word.text) := by
    rw [Css.attributesNamed, hattributes, List.any_filter, NodeData.carries]
  change (Css.isElement _ _ && _) = _
  rw [Css.isElement, hdata]
  refine (congrArg (_ && ·) hcarries).trans ?_
  cases hc : t.label.data.carries (Text.lower word.text) with
  | false => rw [Bool.and_false]
  | true =>
    -- the root is no element
    have hq' : q ≠ [] := by
      rintro rfl
      obtain rfl : d.tree = t := Option.some.inj hq
      rw [root] at hc
      cases hc
    simp [hq', NodeData.isElement_of_carries hc]

end Page

/-! ## What is cut out -/

namespace Page

theorem intercalate_nothing : ∀ texts : List String, String.intercalate "" texts = String.join texts
  | [] => rfl
  | [s] => by simp
  | s :: t :: texts => by
    rw [String.intercalate_cons_cons, intercalate_nothing (t :: texts)]
    simp

variable {p : Page} {location : ImportLocation} {word : Word}

/-- What is cut out for a name are the elements that carry it in lower case. -/
theorem runFrom_cut_name (h : p.document.WellFormed)
    (root : p.document.tree.label.data = .document)
    (unsettled : ∀ e ∈ p.document.tree.labels, e.data.attribute? settledMark = none)
    (name : location.fragment = some (String.ofList word.text)) :
    ((cut location).runFrom p).1 = .ok (String.join
      ((p.document.carriers (Text.lower word.text)).map p.document.nodeHtml)) := by
  have hselector : location.selector? = some (String.ofList ("css:#".toList ++ word.text)) := by
    have hname : ((String.ofList word.text).toList.all fun c =>
        Text.isAlphanumeric c || c = '-' || c = '_') = true := by
      rw [String.toList_ofList]
      exact List.all_eq_true.2 word.isNameChar
    rw [ImportLocation.selector?, name, Option.map_some, if_pos hname, String.ofList_append,
      String.ofList_toList]
  have hopen : ∀ id ∈ p.document.carriers (Text.lower word.text), isOpen p.document id = true := by
    intro id hid
    obtain ⟨e, he, rfl⟩ := List.mem_map.1 hid
    obtain ⟨hmem, hcarries⟩ := List.mem_filter.1 he
    rw [isOpen, Document.isElement, Document.attribute?, h.data?_of_mem hmem]
    simp [unsettled e hmem, NodeData.isElement_of_carries hcarries]
  have finds : p.Finds (String.ofList ("css:#".toList ++ word.text))
      (p.document.carriers (Text.lower word.text)) :=
    ⟨_, _, Selector.compile_named p.grammar word, nodesAt_named root word,
      (List.filter_eq_self.2 hopen).symm⟩
  obtain ⟨log, hselect⟩ := finds.runFrom_select
  rw [cut, hselector]
  dsimp only
  have hhtml : (selectHtml (String.ofList ("css:#".toList ++ word.text))).runFrom p =
      (.ok ((p.document.carriers (Text.lower word.text)).map p.document.nodeHtml),
        { p with log := log }) := by
    rw [selectHtml, Action.runFrom_bind_ok hselect, Action.runFrom_bind_ok (Action.runFrom_get _)]
    rfl
  rw [fragmentHtml, map_eq_pure_bind, Action.runFrom_bind_ok hhtml]
  change Except.ok _ = _
  rw [intercalate_nothing]

end Page

namespace Importer

variable {i : Importer} {location : ImportLocation} {control : CacheControl} {html : String}

/-- What is cut out of a document is inserted, unless it is blank. -/
theorem markupIn_eq {grammar : Grammar} {markup : String}
    (h : ((Page.cut location).runFrom (Page.ofHtml html grammar)).1 = .ok markup) :
    markupIn grammar location html =
      if isBlankString markup then
        .error ⟨.importing, "Import '" ++ location.text ++ "' produced no content"⟩
      else .ok markup := by
  rw [markupIn, h, XPath.ok_bind]
  split <;> rfl

/-- A document that was loaded is cut. -/
theorem resolve_eq {grammar : Grammar} (loaded : (i.load location control).1 = .ok html) :
    (i.resolve location control grammar).1 = markupIn grammar location html := by
  rw [resolve]
  dsimp only
  rw [loaded, Except.bind]

/-- **An import whose fragment is a name** inserts the elements that carry the name in lower case, in
document order. It fails if there are none, and only then, because what is inserted would be blank. -/
theorem resolve_name (word : Word) (grammar : Grammar)
    (name : location.fragment = some (String.ofList word.text))
    (loaded : (i.load location control).1 = .ok html)
    (unsettled : ∀ e ∈ (Document.ofHtml html).tree.labels, e.data.attribute? settledMark = none) :
    let d := Document.ofHtml html
    let markup := String.join ((d.carriers (Text.lower word.text)).map d.nodeHtml)
    (i.resolve location control grammar).1 =
        (if isBlankString markup then
          .error ⟨.importing, "Import '" ++ location.text ++ "' produced no content"⟩
        else .ok markup) ∧
      (isBlankString markup = true ↔ d.carriers (Text.lower word.text) = []) := by
  intro d markup
  have hcut : ((Page.cut location).runFrom (Page.ofHtml html grammar)).1 = .ok markup :=
    Page.runFrom_cut_name (Document.wellFormed_ofHtml html) (Document.root_ofHtml html) unsettled name
  refine ⟨?_, Document.isBlank_carriers_iff (Document.wellFormed_ofHtml html)⟩
  rw [resolve_eq loaded, markupIn_eq hcut]

/-- Finds one document at one place. -/
def menu (html : String) : Importer :=
  .start (Fetcher.table [("file:menu", [some html])])

/-- The word `nav`. -/
def navWord : Word :=
  ⟨"nav".toList, by decide, List.all_eq_true.1 (by decide)⟩

/-- Two elements carry the name, one inside of the other. -/
theorem resolve_name_nested :
    ((menu "<p id=nav>a<b id=nav>c</b></p><i id=x></i>").load ⟨.file "menu", some "nav"⟩
        .standard).1 = .ok "<p id=nav>a<b id=nav>c</b></p><i id=x></i>" ∧
      ((menu "<p id=nav>a<b id=nav>c</b></p><i id=x></i>").resolve ⟨.file "menu", some "nav"⟩
        .standard .xpath).1 = .ok "<p id=\"nav\">a<b id=\"nav\">c</b></p><b id=\"nav\">c</b>" := by
  have loaded : ((menu "<p id=nav>a<b id=nav>c</b></p><i id=x></i>").load
      ⟨.file "menu", some "nav"⟩ .standard).1 = .ok "<p id=nav>a<b id=nav>c</b></p><i id=x></i>" := by
    decide +kernel
  refine ⟨loaded, (resolve_name navWord .xpath rfl loaded ?_).1.trans ?_⟩
  · decide +kernel
  · decide +kernel

/-- The name as it is written is not looked for: an element that carries it is not found if there are
capitals in it. -/
theorem not_resolve_name : ∃ (html : String) (d : Document) (e : NodeId),
    ((menu html).load ⟨.file "menu", some "Nav"⟩ .standard).1 = .ok html ∧ d = Document.ofHtml html ∧
      (∀ e ∈ d.tree.labels, e.data.attribute? settledMark = none) ∧
      d.carriers "Nav".toList = [e] ∧ d.nodeHtml e = "<nav id=\"Nav\">x</nav>" ∧
      ((menu html).resolve ⟨.file "menu", some "Nav"⟩ .standard .css).1 =
        .error ⟨.importing, "Import 'file:menu#Nav' produced no content"⟩ :=
  ⟨"<nav id=Nav>x</nav>", _, 4, by decide +kernel, rfl, by decide +kernel, by decide +kernel,
    by decide +kernel, by decide +kernel⟩

end Importer

end MarkupTemplate
