import MarkupTemplate.Proofs.Levels
import MarkupTemplate.Proofs.Slots
import MarkupTemplate.Proofs.Strictness

/-!
# Texts

What a page becomes when one text is filled in wherever a selector finds an element.

* `InsertMode.place` — children with a new one among them, or with nothing but the new one.
* `Document.Within.insertText_self` — a text put into a node.
* `Rework.texts` — a tree in which nodes that were found hold a text.
* `Rendering.runFrom_pass_text` — a pass of a single text leaves that tree.
* `Template.render_text` — so does the rendering of a page that was read.
-/

namespace MarkupTemplate

/-- Children with a new one: in place of the old ones, before them or after them. -/
def InsertMode.place {α : Type} (mode : InsertMode) (new : α) (old : List α) : List α :=
  match mode with
  | .replace => [new]
  | .prepend => new :: old
  | .append => old ++ [new]

/-- The children that a new one takes the place of. -/
def InsertMode.displaced {α : Type} (mode : InsertMode) (old : List α) : List α :=
  match mode with
  | .replace => old
  | .prepend | .append => []

namespace InsertMode

variable {P : Entry → Prop} {u : Tree Entry} {us : List (Tree Entry)}

theorem holdsAll_place (mode : InsertMode) (hu : u.Holds P) (hus : Tree.HoldsAll P us) :
    Tree.HoldsAll P (mode.place u us) := by
  cases mode with
  | replace => exact Tree.holdsAll_cons.2 ⟨hu, Tree.holdsAll_nil⟩
  | prepend => exact Tree.holdsAll_cons.2 ⟨hu, hus⟩
  | append => exact Tree.holdsAll_append.2 ⟨hus, Tree.holdsAll_cons.2 ⟨hu, Tree.holdsAll_nil⟩⟩

theorem holdsAll_displaced (mode : InsertMode) (hus : Tree.HoldsAll P us) :
    Tree.HoldsAll P (mode.displaced us) := by
  cases mode with
  | replace => exact hus
  | prepend | append => exact Tree.holdsAll_nil

end InsertMode

namespace Document

/-- A text as a node. -/
def textNode (id : NodeId) (text : String) : Tree Entry :=
  .node ⟨id, .text text, none⟩ []

namespace Within

variable {d : Document} {e next : NodeId} {t c u : Tree Entry}
variable {us before after gone : List (Tree Entry)}

/-- The first child is put beside the document. -/
theorem detach_child (h : Within d e (c :: us) gone next) (found : d.find? e = some t) :
    (d.refilled e (c :: us) gone next).detach c.label.id = d.refilled e us (c :: gone) next := by
  have h' : Within d e ([] ++ c :: us) gone next := h
  obtain ⟨-, -, hus, hgone, haround⟩ := h'.apart
  have here : (d.refilled e (c :: us) gone next).find? c.label.id = some c := h'.find?_child found
  rw [detach, take?_refilled haround, here, Option.map_some]
  rw [Tree.spliceList_cons _ (hasId_self _) (countP_hasId_eq_zero.2 hus),
    Tree.spliceList_of_absent _ gone (countP_hasId_eq_zero.2 hgone)]
  rfl

theorem detach_children (found : d.find? e = some t) :
    ∀ {us gone : List (Tree Entry)}, Within d e us gone next →
      (us.map fun c => c.label.id).foldl Document.detach (d.refilled e us gone next) =
        d.refilled e [] (us.reverse ++ gone) next
  | [], _, _ => rfl
  | c :: us, gone, h => by
    have moved : Within d e us (c :: gone) next := by
      refine h.of_perm (List.perm_iff_count.2 fun id => ?_)
      simp only [ids_cons, List.count_append, List.count_cons]
      omega
    rw [List.map_cons, List.foldl_cons, h.detach_child found, detach_children found moved,
      List.reverse_cons, List.append_assoc]
    rfl

/-- All children are put beside the document. -/
theorem clear_self (h : Within d e us gone next) (found : d.find? e = some t) :
    (d.refilled e us gone next).clear e = d.refilled e [] (us.reverse ++ gone) next := by
  rw [Document.clear, h.children_self found]
  exact detach_children found h

/-- A new text among the children, or in their place. -/
theorem place (h : Within d e us gone next) (text : String) (mode : InsertMode) :
    Within d e (mode.place (textNode next text) us) ((mode.displaced us).reverse ++ gone)
      (next + 1) := by
  have adopted : Within d e us (textNode next text :: gone) (next + 1) :=
    h.adopt (.node (.text text) [])
  refine adopted.of_perm (List.perm_iff_count.2 fun id => ?_)
  have reversed := (ids_perm (List.reverse_perm us)).count_eq id
  cases mode <;>
  · simp only [InsertMode.place, InsertMode.displaced, textNode, List.reverse_nil, List.nil_append,
      ids_append, ids_cons, ids_nil, Tree.label_node, Tree.children_node, List.append_nil,
      List.count_append, List.count_cons, List.count_nil, reversed]
    omega

/-- **A text put into the node.** -/
theorem insertText_self (h : Within d e us gone next) (found : d.find? e = some t) (text : String)
    (mode : InsertMode) :
    (d.refilled e us gone next).insertText e text mode =
      d.refilled e (mode.place (textNode next text) us) ((mode.displaced us).reverse ++ gone)
        (next + 1) := by
  have adopted : Within d e us (textNode next text :: gone) (next + 1) :=
    h.adopt (.node (.text text) [])
  -- the new text is put at the end of what the children are by then
  have appended : ∀ {us before rest}, Within d e us (before ++ textNode next text :: rest) (next + 1) →
      (d.refilled e us (before ++ textNode next text :: rest) (next + 1)).append e next =
        d.refilled e (us ++ [textNode next text]) (before ++ rest) (next + 1) := by
    intro us before rest h
    have taken := h.take?_gone
    have hgone : e ∉ ids (before ++ rest) := by
      have := h.not_mem_gone found
      simp only [ids_append, ids_cons, List.mem_append, List.mem_cons, not_or] at this ⊢
      exact ⟨this.1, this.2.2.2⟩
    rw [textNode, Tree.label_node] at taken
    rw [Document.append, textNode, taken]
    exact update_refilled_self hgone fun us => us ++ [textNode next text]
  have first : (d.refilled e us (textNode next text :: gone) (next + 1)).append e next =
      d.refilled e (us ++ [textNode next text]) gone (next + 1) :=
    appended (show Within d e us ([] ++ textNode next text :: gone) (next + 1) from adopted)
  rw [Document.insertText, adopt_refilled]
  change Document.insertNodes (d.refilled e us (textNode next text :: gone) (next + 1)) e [next]
    mode = _
  cases mode with
  | replace =>
    have cleared : Within d e [] (us.reverse ++ textNode next text :: gone) (next + 1) := by
      refine adopted.of_perm (List.perm_iff_count.2 fun id => ?_)
      have reversed := (ids_perm (List.reverse_perm us)).count_eq id
      simp only [ids_append, ids_cons, ids_nil, List.count_append, List.count_cons, List.count_nil,
        reversed]
      omega
    rw [insertNodes, List.foldl_cons, List.foldl_nil, adopted.clear_self found, appended cleared]
    rfl
  | append =>
    rw [insertNodes, List.foldl_cons, List.foldl_nil]
    exact first
  | prepend =>
    rw [insertNodes, adopted.children_self found]
    cases us with
    | nil => exact first
    | cons c us =>
      have taken := (show Within d e (c :: us) ([] ++ textNode next text :: gone) (next + 1) from
        adopted).take?_gone
      rw [textNode, Tree.label_node] at taken
      have other : c.label.id ≠ next := by
        have known : c.label.id < next := h.known c.label.id (by simp)
        exact Nat.ne_of_lt known
      obtain ⟨-, -, hus, hgone, haround⟩ :=
        (show Within d e ([] ++ c :: us) gone next from h).apart
      change Document.insertBefore _ c.label.id next = _
      rw [Document.insertBefore, if_neg other]
      rw [List.nil_append] at taken
      rw [textNode, taken]
      change Document.splice _ c.label.id _ = _
      rw [splice_refilled haround, List.nil_append,
        Tree.spliceList_cons _ (hasId_self _) (countP_hasId_eq_zero.2 hus),
        Tree.spliceList_of_absent _ gone (countP_hasId_eq_zero.2 hgone)]
      rfl

end Within

end Document

/-! ## Reworks -/

namespace Rework

open Document (textNode hasId ids)

variable {mode : InsertMode} {n new : NodeId}

/-- What becomes of a node that a text is put into. -/
def withText (mode : InsertMode) (text : String) (new : NodeId) : Rework :=
  ⟨id, fun _ us => mode.place (textNode new text) us⟩

/-- What becomes of a tree when a text is put into each of the nodes that were found: such a node holds
the text and what became of its children, or nothing but the text. All others keep what they hold. -/
def withTexts (mode : InsertMode) (text : String) (new : NodeId → NodeId) (found : List NodeId) :
    Rework :=
  ⟨id, fun e us => if e.id ∈ found then mode.place (textNode (new e.id) text) us else us⟩

theorem further_nothing_withText (mode : InsertMode) (text : String) (new : NodeId → NodeId)
    (found : List NodeId) :
    (nothing.further found fun id => withText mode text (new id)) =
      withTexts mode text new found := by
  simp [further, nothing, withText, withTexts]
  rfl

theorem node_withText (mode : InsertMode) (text : String) (new : NodeId) :
    (withText mode text new).node =
      fun u => u.withChildren (mode.place (textNode new text) u.children) := by
  funext u
  cases u
  rfl

theorem fresh_withText (text : String) (h : n ≤ new) : (withText mode text new).Fresh n where
  entry e := .inl rfl
  children e id f us hid := by
    have other : Tree.update (hasId id) f (textNode new text) = textNode new text := by
      refine Tree.update_of_absent f _ ?_
      have hne : new ≠ id := Nat.ne_of_gt (Nat.lt_of_lt_of_le hid h)
      simp [textNode, hasId, hne]
    cases mode with
    | replace => exact congrArg (fun u => [u]) other
    | prepend => exact congrArg (· :: _) other
    | append =>
      change Tree.updateList (hasId id) f (us ++ [textNode new text]) = _
      rw [Tree.updateList_append]
      exact congrArg (fun u => _ ++ [u]) other

end Rework

namespace Document

variable {d : Document} {e : NodeId} {t : Tree Entry}

/-- **A text put into a node** changes nothing but that node. -/
theorem changed_insertText (h : d.WellFormed) (found : d.find? e = some t) (text : String)
    (mode : InsertMode) :
    d.Changed e (.withText mode text d.nextId) (d.insertText e text mode) := by
  have self := h.refilled_self found
  have inserted : d.insertText e text mode =
      d.refilled e (mode.place (textNode d.nextId text) t.children)
        ((mode.displaced t.children).reverse ++ []) (d.nextId + 1) := by
    have run := (h.within found).insertText_self found text mode
    rwa [self] at run
  rw [inserted]
  constructor
  case tree =>
    have same : Tree.refill (hasId e) t.children d.tree = d.tree := congrArg Document.tree self
    rw [Rework.node_withText]
    change Tree.refill (hasId e) (mode.place (textNode d.nextId text) t.children) d.tree = _
    rw [← Tree.update_self_refill fun us => mode.place (textNode d.nextId text) us, same]
  case strays =>
    have same : [] ++ Tree.refillAll (hasId e) t.children d.strays = d.strays :=
      congrArg Document.strays self
    rw [List.nil_append] at same
    refine ⟨(mode.displaced t.children).reverse ++ [], ?_⟩
    rw [Rework.node_withText]
    change _ ++ Tree.refillAll (hasId e) (mode.place (textNode d.nextId text) t.children)
      d.strays = _
    rw [← Tree.updateList_self_refillAll fun us => mode.place (textNode d.nextId text) us, same]
  case wellFormed => exact ((h.within found).place text mode).wellFormed h found
  case unmarked =>
    intro P _ unmarked
    obtain ⟨htree, hstrays⟩ := Tree.holdsAll_cons.1 unmarked
    have children := (Tree.holds_findList? unmarked found).1.children
    have new : Tree.Holds (fun e => P e.id → Unmarked e.data.attributes)
        (textNode d.nextId text) :=
      Tree.holds_node.2 ⟨fun _ => List.forall_mem_nil _, Tree.holdsAll_nil⟩
    have placed := mode.holdsAll_place new children
    have displaced := mode.holdsAll_displaced children
    refine Tree.holdsAll_cons.2 ⟨Tree.holds_update (fun _ _ ht => ht.withChildren placed) _ htree,
      Tree.holdsAll_append.2 ⟨?_, ?_⟩⟩
    · rw [List.append_nil]
      exact Tree.holdsAll_of_forall fun u hu => displaced.holds u (List.mem_reverse.1 hu)
    · exact Tree.holdsAll_updateList (fun _ _ ht => ht.withChildren placed) _ hstrays
  case next => exact Nat.le_succ _

end Document

/-! ## Passes -/

namespace Rendering

open Document

variable {settings : Settings} {here : Situation} {text selector : String}

/-- A text that is not markup, put into the node that it is applied to. -/
theorem reworks_text (nonempty : text ≠ "")
    (asText : contentTypeOf settings here.params text ≠ .markup) :
    Reworks settings here ((Content.text text).job settings) (.withText here.mode text) := by
  intro r id t wellFormed found unmarked _ _
  refine ⟨r.page.document.insertText id text here.mode, r.touched ++ [id], ?_,
    changed_insertText wellFormed found text here.mode⟩
  refine runFrom_fillNode found unmarked (o := some id) ?_
  rw [Content.job, insertContent, if_neg (by simpa using nonempty)]
  cases hcontent : contentTypeOf settings here.params text with
  | markup => exact absurd hcontent asText
  | text => rfl
  | cdata => rfl

/-- **A pass of a single text** puts it into every element that its selector finds. -/
theorem runFrom_pass_text {r : Rendering} {nodes : List NodeId}
    (wellFormed : r.page.document.WellFormed)
    (unmarked : r.page.document.tree.Holds fun e => Unmarked e.data.attributes)
    (document : r.page.document.tree.label.data = .document)
    (finds : r.page.Finds selector nodes) (nonempty : text ≠ "")
    (asText : contentTypeOf settings .empty text ≠ .markup) :
    ∃ (new : NodeId → NodeId) (d : Document) (touched : List NodeId) (log : List QueryRecord),
      (pass settings [(selector, .text text)]).runFrom r =
        (.ok (), { r with page := { r.page with document := d, log := log }, touched := touched }) ∧
      (∀ id, r.page.document.nextId ≤ new id) ∧
      r.page.document.Reworked
        (.withTexts ((splitPosition selector).2.getD .replace) text new nodes) d := by
  obtain ⟨log, hlist⟩ := WorkingList.runFrom_populate_named
    (List.Forall₂.cons finds .nil) settings.keepIndentation
  have listed : (onPage (WorkingList.populate (.named [selector]) none none false
      settings.keepIndentation)).runFrom r =
        (.ok (.ofSlots [nodes]), { r with page := { r.page with log := log } }) := by
    rw [onPage, Action.runFrom_on, hlist]
  have reworks : Reworks settings (entrySituation .outermost selector)
      ((Content.text text).job settings) _ := reworks_text nonempty asText
  obtain ⟨new, d, touched, hfill, hnew, hreworked⟩ :=
    runFrom_fillAttached wellFormed document reworks
      (fun id hid => Rework.fresh_withText text hid)
      (r := { r with page := { r.page with log := log } }) (finds.nodup wellFormed)
      (finds.holds document) (Rework.fresh_nothing _) (reworked_nothing wellFormed unmarked)
  rw [Rework.further_nothing_withText] at hreworked
  refine ⟨new, d, touched, log, ?_, hnew, hreworked⟩
  rw [pass, fillEntries]
  change (onPage (WorkingList.populate (.named [selector]) none none false
    settings.keepIndentation) >>= _).runFrom r = _
  rw [Action.runFrom_bind_ok listed]
  exact Action.runFrom_bind_ok hfill

end Rendering

/-! ## Templates -/

theorem Selector.position_compile {grammar : Grammar} {source : String} {s : Selector}
    (h : Selector.compile grammar source = .ok s) : s.position = (splitPosition source).2 := by
  rw [Selector.compile] at h
  generalize splitPosition source = parts at h ⊢
  dsimp only at h
  split at h
  · cases h
  · split at h <;>
    · obtain ⟨branches, -, hs⟩ := XPath.bind_eq_ok.1 h
      rw [XPath.pure_eq_ok] at hs
      rw [← hs]

/-- Without anything for the engine on it, an element is open. -/
theorem Page.isOpen_eq_isElement {d : Document} {id : NodeId}
    (unmarked : ∀ t, d.find? id = some t → Document.Unmarked t.label.data.attributes) :
    isOpen d id = d.isElement id := by
  have mark : settledMark = attributeMarker ++ "no_parse" := by decide
  have absent : d.attribute? id settledMark = none := by
    cases found : d.find? id with
    | none =>
      rw [Document.attribute?, Document.data?, found]
      rfl
    | some t =>
      rw [mark]
      exact Document.attribute?_unmarked found (unmarked t found) _
  rw [isOpen, absent, Option.isNone_none, Bool.and_true]

namespace Template

open Document Rendering

/-- **A page with a single text to be filled in.** The page was read from HTML, and no element of it
carries anything for the engine. Rendered in one pass, it is what it was but for the elements that the
selector finds: each holds the text before or after what it held, if the selector asks for that, and
else nothing but the text. Then elements that were found inside of others have gone with what these
held. -/
theorem render_text {t : Template} {page : Page} {html text selector : String} {s : Selector}
    {found : List NodeId}
    (loaded : t.page = some page) (read : page = .ofHtml html page.grammar)
    (fresh : t.isRendered = false) (alone : t.imports = [])
    (data : t.data = [(selector, .text text)]) (onePass : t.settings.fillInserted = false)
    (unmarked : page.document.tree.Holds fun e => Unmarked e.data.attributes)
    (compiled : Selector.compile page.grammar selector = .ok s)
    (query : Page.nodesAt page.document page.document.root s.expression = .ok found)
    (nonempty : text ≠ "") (asText : contentTypeOf t.settings .empty text ≠ .markup) :
    ∃ (new : NodeId → NodeId) (d : Document) (log : List QueryRecord) (gone : List (Tree Entry)),
      render.runFrom t = (.ok d.html, { t with
        page := some { page with document := d, log := log }
        diagnostics := []
        isRendered := true }) ∧
      d.tree = (Rework.withTexts s.insertMode text new
        (found.filter page.document.isElement)).tree page.document.tree ∧
      d.strays = gone ++ page.document.strays ∧
      (∀ id, page.document.nextId ≤ new id) ∧ d.WellFormed := by
  have wellFormed : page.document.WellFormed := by
    rw [read]
    exact wellFormed_ofHtml html
  have document : page.document.tree.label.data = .document := by
    rw [read]
    exact root_ofHtml html
  have finds : page.Finds selector (found.filter page.document.isElement) := by
    refine ⟨s, found, compiled, query, List.filter_congr fun id hid => ?_⟩
    refine (Page.isOpen_eq_isElement fun u hu => unmarked _ ?_).symm
    obtain ⟨hentry, rfl⟩ := find?_mem_entries hu
    exact wellFormed.mem_labels hentry ((Page.nodesAt_sublist query).subset hid)
  obtain ⟨new, d, touched, log, hrun, hnew, hreworked⟩ :=
    runFrom_pass_text (r := .start page t.importer) wellFormed unmarked document finds nonempty
      asText
  obtain ⟨gone, hgone⟩ := hreworked.strays
  rw [← Selector.position_compile compiled] at hreworked
  have imported : (spliceImports t.settings []).runFrom (.start page t.importer) =
      (.ok (), .start page t.importer) := rfl
  have completed : t.completed page = (.ok (), { Rendering.start page t.importer with
      page := { page with document := d, log := log }
      touched := touched }) := by
    rw [completed, alone, data, complete, Action.runFrom_bind_ok imported,
      Action.runFrom_bind_ok hrun, onePass]
    rfl
  refine ⟨new, d, log, gone, ?_, hreworked.tree, hgone, hnew, hreworked.wellFormed⟩
  rw [render_of_page fresh loaded, completed]
  rfl

/-- A page of a paragraph with an element in it. -/
def paragraphPage : Page :=
  .ofHtml "<p><b></b></p>" .css

/-- A text to be filled in. -/
def paragraph : Template :=
  { (Template.empty .standard (Fetcher.files [])).withHtml "<p><b></b></p>" with
    data := [("p", .text "t")] }

/-- The text is all that the paragraph holds. -/
theorem render_text_paragraph :
    (render.runFrom paragraph).1 = .ok "<html><head></head><body><p>t</p></body></html>" ∧
      ∃ (new : NodeId → NodeId) (d : Document) (log : List QueryRecord) (gone : List (Tree Entry)),
        render.runFrom paragraph = (.ok d.html, { paragraph with
          page := some { paragraphPage with document := d, log := log }
          diagnostics := []
          isRendered := true }) ∧
        d.tree = (Rework.withTexts .replace "t" new
          ([4].filter paragraphPage.document.isElement)).tree paragraphPage.document.tree ∧
        d.strays = gone ++ paragraphPage.document.strays ∧
        (∀ id, paragraphPage.document.nextId ≤ new id) ∧ d.WellFormed := by
  have html : (render.runFrom paragraph).1 =
      .ok "<html><head></head><body><p>t</p></body></html>" := by
    decide +kernel
  have unmarked : paragraphPage.document.tree.Holds fun e => Unmarked e.data.attributes := by
    unfold Tree.Holds
    decide +kernel
  have compiled : Selector.compile paragraphPage.grammar "p" =
      .ok ⟨"p", .css, none, ["//p"]⟩ := rfl
  have query : Page.nodesAt paragraphPage.document paragraphPage.document.root
      (Selector.expression ⟨"p", .css, none, ["//p"]⟩) = .ok [4] := by
    decide +kernel
  have asText : contentTypeOf paragraph.settings .empty "t" ≠ .markup := by
    decide +kernel
  obtain ⟨new, d, log, gone, hrun, htree, hrest⟩ := render_text (t := paragraph)
    (show paragraph.page = some paragraphPage from rfl)
    (show paragraphPage = .ofHtml "<p><b></b></p>" paragraphPage.grammar from rfl) rfl rfl
    (show paragraph.data = [("p", .text "t")] from rfl) rfl unmarked compiled query (by decide) asText
  exact ⟨html, new, d, log, gone, hrun, htree, hrest⟩

end Template

end MarkupTemplate
