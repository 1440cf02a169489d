import MarkupTemplate.Proofs.WorkingLists

/-!
# Lists of texts

What a list of texts makes of the children of a node.

* `Document.filledWith` — trees of which the first elements hold texts.
* `Rendering.runFrom_fillText` — a text applied to one of the children.
* `Rendering.runFrom_fillSlots` — texts applied to the slots that stand for the children.
* `Document.ListFilled` — what a list of texts is to make of the children.
* `Rendering.list_filled` — it makes that of them.
-/

namespace MarkupTemplate

namespace Document

/-- There are no attributes for the engine among some. -/
def Unmarked (as : List Attribute) : Prop :=
  ∀ a ∈ as, ¬ attributeMarker.toList <+: a.name.toList

instance (as : List Attribute) : Decidable (Unmarked as) :=
  inferInstanceAs (Decidable (∀ a ∈ as, ¬ attributeMarker.toList <+: a.name.toList))

variable {d : Document} {e id next : NodeId} {t u : Tree Entry} {us : List (Tree Entry)}

/-- Without attributes for the engine, no such attribute has a value. -/
theorem attribute?_unmarked (found : d.find? id = some t)
    (unmarked : Unmarked t.label.data.attributes) (name : String) :
    d.attribute? id (attributeMarker ++ name) = none := by
  rw [attribute?, data?, found, Option.map_some, Option.bind_some, NodeData.attribute?,
    Attributes.find?, Option.map_eq_none_iff, List.find?_eq_none]
  intro a ha hname
  refine unmarked a ha ?_
  rw [of_decide_eq_true hname, String.toList_append]
  exact List.prefix_append ..

/-- An element without attributes for the engine carries no parameters. -/
theorem nodeParams_unmarked (found : d.find? id = some t)
    (unmarked : Unmarked t.label.data.attributes) : d.nodeParams id = .ok .empty := by
  simp only [nodeParams, param?, attribute?_unmarked found unmarked]
  rfl

/-- Trees of which the first elements hold texts, from a new identity on, and nothing else. -/
def filledWith : NodeId → List String → List (Tree Entry) → List (Tree Entry)
  | _, _, [] => []
  | _, [], us => us
  | next, text :: texts, u :: us =>
    if u.label.data.isElement then
      u.withChildren [.node ⟨next, .text text, none⟩ []] :: filledWith (next + 1) texts us
    else u :: filledWith next (text :: texts) us

theorem filledWith_nil (next : NodeId) (us : List (Tree Entry)) : filledWith next [] us = us := by
  cases us <;> rfl

/-- Only the first elements are other than they were, and only what they hold. -/
theorem getElem?_elementsIn_filledWith :
    ∀ (us : List (Tree Entry)) (next : NodeId) (texts : List String) (i : Nat),
      (elementsIn (filledWith next texts us))[i]? =
        match texts[i]? with
        | some text =>
          (elementsIn us)[i]?.map fun u => u.withChildren [.node ⟨next + i, .text text, none⟩ []]
        | none => (elementsIn us)[i]?
  | [], next, texts, i => by
    rw [filledWith]
    cases texts[i]? <;> rfl
  | u :: us, next, [], i => by
    rw [filledWith_nil]
    rfl
  | u :: us, next, text :: texts, i => by
    rw [filledWith]
    split
    · rename_i helement
      rw [elementsIn_cons (by rwa [Tree.label_withChildren]), elementsIn_cons helement]
      cases i with
      | zero => rfl
      | succ i =>
        rw [List.getElem?_cons_succ, List.getElem?_cons_succ, List.getElem?_cons_succ,
          getElem?_elementsIn_filledWith us (next + 1) texts i, Nat.add_right_comm, Nat.add_assoc]
    · rename_i helement
      have skip : ∀ vs, elementsIn (u :: vs) = elementsIn vs := fun vs =>
        List.filter_cons_of_neg helement
      rw [skip, skip, getElem?_elementsIn_filledWith us next (text :: texts) i]

theorem shapesIn_filledWith (next : NodeId) (texts : List String) (us : List (Tree Entry)) :
    shapesIn (filledWith next texts us) = shapesIn us := by
  refine List.ext_getElem? fun i => ?_
  rw [shapesIn, shapesIn, List.getElem?_map, List.getElem?_map, getElem?_elementsIn_filledWith]
  cases texts[i]? with
  | none => rfl
  | some text =>
    cases (elementsIn us)[i]? with
    | none => rfl
    | some u => simp

theorem othersIn_filledWith :
    ∀ (us : List (Tree Entry)) (next : NodeId) (texts : List String),
      othersIn (filledWith next texts us) = othersIn us
  | [], next, texts => by rw [filledWith]
  | u :: us, next, [] => by rw [filledWith_nil]
  | u :: us, next, text :: texts => by
    rw [filledWith]
    split
    · rename_i helement
      rw [othersIn_cons (by rwa [Tree.label_withChildren]), othersIn_cons helement,
        othersIn_filledWith us]
    · rename_i helement
      have keep : ∀ vs, othersIn (u :: vs) = u :: othersIn vs := fun vs =>
        List.filter_cons_of_pos (by simpa using helement)
      rw [keep, keep, othersIn_filledWith us]

/-- What a list of texts, of which a source is copied, makes of the children `ts` of a node: these
are the children `us`. -/
structure ListFilled (source : RepeatSource) (texts : List String) (ts us : List (Tree Entry)) :
    Prop where
  /-- There are as many elements as there were, or as there are texts. -/
  count : (elementsIn us).length = max (elementsIn ts).length texts.length
  /-- Each text is all that an element holds. -/
  filled : ∀ (i : Nat) text, texts[i]? = some text →
    ∃ (u : Tree Entry) (id : NodeId),
      (elementsIn us)[i]? = some u ∧ u.children = [.node ⟨id, .text text, none⟩ []]
  /-- The elements without a text are what they were. -/
  kept : ∀ i, texts.length ≤ i → i < (elementsIn ts).length →
    (elementsIn us)[i]? = (elementsIn ts)[i]?
  /-- One element is copied, and its copies come right after it. -/
  repeated : ∀ i, source.index? (elementsIn ts).length = some i →
    ∃ shape, (shapesIn ts)[i]? = some shape ∧
      shapesIn us = (shapesIn ts).take (i + 1) ++
        List.replicate (texts.length - (elementsIn ts).length) shape ++
        (shapesIn ts).drop (i + 1)
  /-- All elements are copied, each in its turn, and the copies come behind them. -/
  turned : ∀ direction once, source = .all direction once →
    ∃ copies, shapesIn us = shapesIn ts ++ copies ∧
      ∀ j c, (RepeatStrategy.plan ⟨source, false⟩ (elementsIn ts).length texts.length)[j]? =
          some c →
        c.source < (elementsIn ts).length + j ∧ copies[j]? = (shapesIn us)[c.source]?
  /-- What is not an element stays. -/
  others : othersIn us = othersIn ts

/-- Children of which there are enough hold the texts as they are to. -/
theorem listFilled_filledWith {source : RepeatSource} {texts : List String}
    {ts us : List (Tree Entry)} (any : elementsIn ts ≠ [])
    (shapes : shapesIn us = (RepeatStrategy.plan ⟨source, false⟩ (elementsIn ts).length
      texts.length).foldl PlannedCopy.repeated (shapesIn ts))
    (others : othersIn us = othersIn ts)
    (same : texts.length ≤ (elementsIn ts).length → us = ts) (next : NodeId) :
    ListFilled source texts ts (filledWith next texts us) := by
  have some : 0 < (elementsIn ts).length := List.length_pos_iff.2 any
  have count : (elementsIn us).length = max (elementsIn ts).length texts.length := by
    rw [← length_shapesIn us, shapes, length_foldl_repeated, RepeatStrategy.length_plan some,
      length_shapesIn]
    · omega
    · rw [length_shapesIn]
      exact RepeatStrategy.plan_feasible _ _ some
  constructor
  case count => rw [← length_shapesIn, shapesIn_filledWith, length_shapesIn, count]
  case filled =>
    intro i text hi
    have hlt : i < (elementsIn us).length := by
      have := (List.getElem?_eq_some_iff.1 hi).1
      omega
    refine ⟨(elementsIn us)[i].withChildren [.node ⟨next + i, .text text, none⟩ []], next + i, ?_,
      Tree.children_withChildren _⟩
    rw [getElem?_elementsIn_filledWith, hi, List.getElem?_eq_getElem hlt]
    rfl
  case kept =>
    intro i hi hlt
    rw [getElem?_elementsIn_filledWith, List.getElem?_eq_none hi, same (by omega)]
  case repeated =>
    intro i hi
    have hlt : i < (shapesIn ts).length := by
      rw [length_shapesIn]
      exact RepeatSource.index?_lt some hi
    have hshape := List.getElem?_eq_getElem hlt
    refine ⟨_, hshape, ?_⟩
    rw [shapesIn_filledWith, shapes]
    rw [← length_shapesIn] at hi ⊢
    exact RepeatStrategy.foldl_plan hi hshape texts.length
  case turned =>
    rintro direction once rfl
    rw [shapesIn_filledWith, shapes]
    rw [← length_shapesIn] at some ⊢
    obtain ⟨copies, hcopies, hsources⟩ :=
      RepeatStrategy.foldl_plan_all direction once false texts.length some
    rw [hcopies]
    exact ⟨copies, rfl, hsources⟩
  case others => rw [othersIn_filledWith, others]

end Document

namespace Rendering

open Document

variable {settings : Settings} {here : Situation} {r r' : Rendering} {job : Job}
variable {d : Document} {e node next : NodeId} {t u : Tree Entry}
variable {us before after gone : List (Tree Entry)} {text : String}

/-- A value applied to a node that carries no parameters. -/
theorem runFrom_fillNode {o : Option NodeId} (found : r.page.document.find? node = some t)
    (unmarked : Unmarked t.label.data.attributes)
    (h : (job here node).runFrom { r with touched := r.touched ++ [node] } = (.ok o, r')) :
    (fillNode settings job here node).runFrom r = (.ok (), r') := by
  have touched : (touch node).runFrom r = (.ok (), { r with touched := r.touched ++ [node] }) := rfl
  have filled : (fill job here node).runFrom r = (.ok o, r') := by
    rw [fill, Action.runFrom_bind_ok touched, document, bind_assoc,
      Action.runFrom_bind_ok (Action.runFrom_get _), pure_bind]
    dsimp only
    rw [nodeParams_unmarked found unmarked]
    change (job { here with params := Params.empty.orElse here.params } node).runFrom _ = _
    rw [Params.empty_orElse]
    exact h
  exact attempt_ok (Action.runFrom_bind_ok filled)

/-- **A text applied to one of the children:** it is all that the child holds. -/
theorem runFrom_fillText (h : Within d e (before ++ u :: after) gone next)
    (there : d.find? e = some t) (unmarked : Unmarked u.label.data.attributes)
    (replace : here.mode = .replace) (nonempty : text ≠ "")
    (asText : contentTypeOf settings here.params text ≠ .markup) (r : Rendering)
    (touched : List NodeId) :
    (fillNode settings ((Content.text text).job settings) here u.label.id).runFrom
        { r with
          page.document := d.refilled e (before ++ u :: after) gone next
          touched := touched } =
      (.ok (), { r with
        page.document := d.refilled e
          (before ++ u.withChildren [.node ⟨next, .text text, none⟩ []] :: after)
          (u.children.reverse ++ gone) (next + 1)
        touched := touched ++ [u.label.id] }) := by
  refine runFrom_fillNode (h.find?_child there) unmarked (o := some u.label.id) ?_
  rw [← h.insertText there, Content.job, insertContent, if_neg (by simpa using nonempty), replace]
  cases hcontent : contentTypeOf settings here.params text with
  | markup => exact absurd hcontent asText
  | text => rfl
  | cdata => rfl

/-- **Texts applied to the slots of the children:** the first elements hold them. -/
theorem runFrom_fillSlots (there : d.find? e = some t) (replace : here.mode = .replace)
    (r : Rendering) :
    ∀ {rest before gone : List (Tree Entry)} {texts : List String} {next : NodeId},
      Within d e (before ++ rest) gone next → (∀ s ∈ shapesIn rest, Unmarked s.2) →
      (∀ text ∈ texts, text ≠ "" ∧ contentTypeOf settings here.params text ≠ .markup) →
      ∀ touched, ∃ gone' next' touched',
        ((texts.zip (slotsOf rest)).forM fun p =>
            p.2.forM (fillNode settings ((Content.text p.1).job settings) here)).runFrom
            { r with
              page.document := d.refilled e (before ++ rest) gone next
              touched := touched } =
          (.ok (), { r with
            page.document := d.refilled e (before ++ filledWith next texts rest) gone' next'
            touched := touched' }) ∧
        Within d e (before ++ filledWith next texts rest) gone' next'
  | [], before, gone, texts, next, h, _, _, touched => by
    refine ⟨gone, next, touched, ?_, by rwa [filledWith]⟩
    rw [filledWith, slotsOf, elementsIn, List.filter_nil, List.map_nil, List.zip_nil_right]
    rfl
  | u :: rest, before, gone, [], next, h, _, _, touched => by
    refine ⟨gone, next, touched, ?_, by rwa [filledWith_nil]⟩
    rw [filledWith_nil]
    rfl
  | u :: rest, before, gone, text :: texts, next, h, unmarked, asTexts, touched => by
    rw [filledWith]
    split
    · rename_i helement
      have shapes : shapesIn (u :: rest) = u.label.data.shape :: shapesIn rest := by
        rw [shapesIn, elementsIn_cons helement]
        rfl
      have slots : slotsOf (u :: rest) = [u.label.id] :: slotsOf rest := by
        rw [slotsOf, elementsIn_cons helement]
        rfl
      rw [shapes] at unmarked
      obtain ⟨hu, hrest⟩ := List.forall_mem_cons.1 unmarked
      obtain ⟨⟨nonempty, asText⟩, asTexts⟩ := List.forall_mem_cons.1 asTexts
      have first := runFrom_fillText h there hu replace nonempty asText r touched
      have h' := h.withText text
      generalize u.withChildren [.node ⟨next, .text text, none⟩ []] = held at first h' ⊢
      rw [List.append_cons before held rest] at first h'
      have one := Action.runFrom_bind_ok (f := fun _ => (pure () : Action Rendering Unit)) first
      obtain ⟨gone', next', touched', hrun, further⟩ :=
        runFrom_fillSlots there replace r h' hrest asTexts (touched ++ [u.label.id])
      rw [List.append_cons before held (filledWith (next + 1) texts rest), slots]
      refine ⟨gone', next', touched', ?_, further⟩
      rw [← hrun]
      exact Action.runFrom_bind_ok one
    · rename_i helement
      have skip : elementsIn (u :: rest) = elementsIn rest := List.filter_cons_of_neg helement
      rw [List.append_cons] at h
      rw [shapesIn, skip] at unmarked
      rw [slotsOf, skip, List.append_cons before u rest,
        List.append_cons before u (filledWith next (text :: texts) rest)]
      exact runFrom_fillSlots there replace r h unmarked asTexts touched

/-- **A list of texts applied to a node** with elements in it: the first elements hold the texts,
copies were made for those that there was no element for, and nothing else changes. -/
theorem list_filled {settings : Settings} {here : Situation} {r : Rendering} {e : NodeId}
    {t : Tree Entry} {source : RepeatSource} {texts : List String}
    (wellFormed : r.page.document.WellFormed)
    (there : r.page.document.find? e = some t)
    (unmarked : Unmarked t.label.data.attributes)
    (any : elementsIn t.children ≠ [])
    (childrenUnmarked : ∀ s ∈ shapesIn t.children, Unmarked s.2)
    (childrenPlain : ∀ s ∈ shapesIn t.children, Attributes.AllPlain s.2)
    (strategy : strategyOf settings here = .ok ⟨source, false⟩)
    (unindented : settings.keepIndentation = false)
    (asTexts : ∀ text ∈ texts,
      text ≠ "" ∧ contentTypeOf settings here.params.inherited text ≠ .markup) :
    ∃ us gone next touched,
      (fillNode settings ((Content.list (texts.map .text)).job settings) here e).runFrom r =
        (.ok (), { r with
          page.document := r.page.document.refilled e us gone next
          touched := touched }) ∧
      (r.page.document.refilled e us gone next).WellFormed ∧
      (r.page.document.refilled e us gone next).find? e = some (t.withChildren us) ∧
      ListFilled source texts t.children us := by
  obtain ⟨us, next, hpopulate, within, hshapes, hothers, hsame⟩ :=
    WorkingList.runFrom_populate_children wellFormed there any childrenPlain ⟨source, false⟩ texts.length
  have itemsUnmarked : ∀ s ∈ shapesIn us, Unmarked s.2 := by
    rw [hshapes]
    exact fun s hs => childrenUnmarked s (mem_of_mem_foldl_repeated hs)
  obtain ⟨gone, next', touched, hfill, within'⟩ :=
    runFrom_fillSlots there (show (itemSituation here).mode = .replace from rfl) r
      (show Within r.page.document e ([] ++ us) [] next from within) itemsUnmarked asTexts
      (r.touched ++ [e])
  refine ⟨_, gone, next', touched, runFrom_fillNode there unmarked (o := some e) ?_,
    within'.wellFormed wellFormed there, within'.find?_self there,
    listFilled_filledWith any hshapes hothers hsame next⟩
  have read : (liftM (strategyOf settings here) : Action Rendering RepeatStrategy).runFrom
      { r with touched := r.touched ++ [e] } =
        (.ok ⟨source, false⟩, { r with touched := r.touched ++ [e] }) := by
    rw [strategy]
    rfl
  have listed : (onPage (WorkingList.populate (.items texts.length) (some e)
      (some ⟨source, false⟩) false false)).runFrom { r with touched := r.touched ++ [e] } =
        (.ok ⟨slotsOf us, (elementsIn t.children).length⟩, { r with
          page.document := r.page.document.refilled e us [] next
          touched := r.touched ++ [e] }) := by
    rw [onPage, Action.runFrom_on, hpopulate]
  rw [Content.job, Content.jobs_eq_map, fillItems_map, unindented, List.length_map]
  simp only [List.zip_map_left, Action.forM_map]
  rw [Action.runFrom_bind_ok read, Action.runFrom_bind_ok listed]
  exact Action.runFrom_bind_ok hfill

/-- A list with two entries, of which one is told apart by its class. -/
def twoEntries : Markup :=
  .node .document [.node (.element ⟨.html, "ul"⟩ [])
    [.node (.text " ") [],
      .node (.element ⟨.html, "li"⟩ [⟨.plain, "class", "first"⟩]) [.node (.text "one") []],
      .node (.element ⟨.html, "li"⟩ []) []]]

/-- The list is filled with three texts, for which the second entry is copied. -/
theorem list_filled_twoEntries :
    ∃ us gone next touched,
      (fillNode .standard ((Content.list (["x", "y", "z"].map .text)).job .standard) .outermost
          1).runFrom (.start ⟨.ofMarkup twoEntries, .css, []⟩ (.start (Fetcher.files []))) =
        (.ok (), { Rendering.start ⟨.ofMarkup twoEntries, .css, []⟩ (.start (Fetcher.files [])) with
          page.document := (Document.ofMarkup twoEntries).refilled 1 us gone next
          touched := touched }) ∧
      shapesIn us = [(some "li", [⟨.plain, "class", "first"⟩]), (some "li", []),
        (some "li", [])] := by
  have strategy : strategyOf .standard .outermost = .ok ⟨.last, false⟩ := rfl
  have asTexts : ∀ text ∈ ["x", "y", "z"], text ≠ "" ∧
      contentTypeOf .standard Situation.outermost.params.inherited text ≠ .markup := by
    decide +kernel
  have childrenPlain : ∀ s ∈ [(some "li", [(⟨.plain, "class", "first"⟩ : Attribute)]),
      (some "li", [])], Attributes.AllPlain s.2 := by
    refine List.forall_mem_cons.2 ⟨⟨by decide, by decide⟩, List.forall_mem_singleton.2 ?_⟩
    exact ⟨by decide, by decide⟩
  obtain ⟨us, gone, next, touched, hrun, -, -, hfilled⟩ := list_filled
    (r := .start ⟨.ofMarkup twoEntries, .css, []⟩ (.start (Fetcher.files [])))
    (e := 1) (wellFormed_ofMarkup twoEntries) rfl (by decide) (by decide) (by decide) childrenPlain
    strategy rfl asTexts
  refine ⟨us, gone, next, touched, hrun, ?_⟩
  obtain ⟨shape, hshape, hshapes⟩ := hfilled.repeated 1 rfl
  cases hshape
  exact hshapes

end Rendering

end MarkupTemplate
