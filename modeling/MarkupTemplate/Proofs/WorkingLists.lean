import MarkupTemplate.Proofs.Copies
import MarkupTemplate.Proofs.Homes
import MarkupTemplate.Proofs.Runs
import MarkupTemplate.Repeat.WorkingList

/-!
# Runs of working lists

The slots of a working list stand for elements among the children of one node, and stay so with each
copy that is made.

* `WorkingList.runFrom_makeCopy`, `WorkingList.runFrom_foldlM_makeCopy` — one copy, and the copies of
  a feasible plan, put into the document and into the list.
* `WorkingList.Starts` — the elements that a list for items stands for at first.
* `Starts.runFrom_start`, `Starts.runFrom_populate` — the list for items, at first and with all copies
  made.
* `WorkingList.runFrom_populate_children` — that of a node with elements in it, whose copies are not
  indented.
-/

namespace MarkupTemplate

namespace Document

variable {d : Document} {e : NodeId} {t u : Tree Entry} {us before after : List (Tree Entry)}
variable {gone : List (Tree Entry)} {next : NodeId} {m : Markup}

theorem elementChildren_refilled (h : Within d e us gone next) (found : d.find? e = some t) :
    (d.refilled e us gone next).elementChildren e = (elementsIn us).map fun u => u.label.id := by
  rw [elementChildren, h.children_self found, List.filter_map, elementsIn]
  refine congrArg (List.map _) (List.filter_congr fun u hu => ?_)
  obtain ⟨before, after, rfl⟩ := List.append_of_mem hu
  rw [Function.comp_apply, isElement, data?, h.find?_child found]
  rfl

/-- A clone of one of the children is put beside the document. -/
theorem copy?_child (h : Within d e (before ++ u :: after) gone next) (found : d.find? e = some t)
    (hm : (plain u).copied? = some m) :
    (d.refilled e (before ++ u :: after) gone next).copy? u.label.id =
      some (next, d.refilled e (before ++ u :: after) ((Markup.numbered next m).1 :: gone)
        (Markup.numbered next m).2) := by
  rw [copy?, markupOf?, h.find?_child found, Option.map_some, Option.bind_some, hm, Option.map_some,
    adopt_refilled]

end Document

namespace WorkingList

open Document

variable {d : Document} {e host : NodeId} {t u w : Tree Entry}
variable {us before after left right gone : List (Tree Entry)}
variable {next : NodeId} {found : Nat} {c : PlannedCopy} {indented itself : Bool}

/-! ## One copy -/

/-- A copy is put after the same element in the document and in the list. -/
theorem place_slotsOf (found : Nat) (copy : NodeId) (d : Document)
    (hu : (elementsIn us)[c.source]? = some u)
    (hw : (elementsIn us)[c.anchor (elementsIn us).length]? = some w) :
    place ⟨slotsOf us, found⟩ c u.label.id copy d =
      (⟨(slotsOf us).insertIdx (c.anchor (elementsIn us).length + 1) [copy], found⟩,
        d.insertAfter w.label.id copy) := by
  rw [place]
  cases hplace : c.placement with
  | afterSource =>
    rw [PlannedCopy.anchor, hplace] at hw ⊢
    rw [hu] at hw
    cases hw
    rfl
  | atEnd =>
    rw [PlannedCopy.anchor, hplace] at hw ⊢
    obtain ⟨before, hbefore⟩ := List.getLast?_eq_some_iff.1 (List.getLast?_eq_getElem?.trans hw)
    have slots : slotsOf us = (before.map fun u => [u.label.id]) ++ [[w.label.id]] := by
      rw [slotsOf, hbefore, List.map_append]
      rfl
    have last : (slotsOf us).reverse.findSome? List.getLast? = some w.label.id := by
      rw [slots, List.reverse_concat]
      rfl
    have length : (elementsIn us).length - 1 + 1 = (before.map fun u => [u.label.id]).length + 1 := by
      rw [hbefore, List.length_append, List.length_map]
      rfl
    rw [last, length, slots, insertIdx_append_cons]
    simp

/-- A node among the children of another one is indented like the first of these. -/
theorem indent_child (indented : Bool) (h : Within d host (before ++ u :: after) gone next)
    (there : d.find? host = some t) :
    ∃ next',
      (if indented then indent (d.refilled host (before ++ u :: after) gone next) u.label.id
        else d.refilled host (before ++ u :: after) gone next) =
          d.refilled host (before ++ (spacing next (indentation indented (before ++ u :: after)) ++
            u :: after)) gone next' ∧
      Within d host (before ++ (spacing next (indentation indented (before ++ u :: after)) ++
        u :: after)) gone next' := by
  cases indented with
  | false => exact ⟨next, rfl, h⟩
  | true =>
    obtain ⟨x, xs, hx⟩ := List.exists_cons_of_ne_nil (l := before ++ u :: after) (by simp)
    have data : (d.refilled host (before ++ u :: after) gone next).data? x.label.id =
        some x.label.data := by
      rw [hx] at h ⊢
      have found : (d.refilled host (x :: xs) gone next).find? x.label.id = some x :=
        (show Within d host ([] ++ x :: xs) gone next from h).find?_child there
      rw [data?, found]
      rfl
    have head : ((d.refilled host (before ++ u :: after) gone next).children host).head? =
        some x.label.id := by
      rw [h.children_self there, hx]
      rfl
    have space : indentation true (before ++ u :: after) =
        if x.label.data.isBlankText then some x.label.data else none := by
      rw [indentation, hx]
      exact Option.filter_some ..
    rw [if_pos rfl, indent, h.parent?_child there, Option.bind_some, head, space]
    dsimp only
    rw [data]
    dsimp only
    split
    · have adopted : Within d host (before ++ u :: after)
          (.node ⟨next, x.label.data, none⟩ [] :: gone) (next + 1) :=
        h.adopt (.node x.label.data [])
      exact ⟨next + 1, adopted.insertBefore, adopted.placed⟩
    · exact ⟨next, rfl, h⟩

/-- A new node is put right after one of the children and is indented. -/
theorem insertAfter_indented (indented : Bool) (h : Within d host (before ++ w :: after) (u :: gone) next)
    (there : d.find? host = some t) :
    ∃ next',
      (if indented then
          indent ((d.refilled host (before ++ w :: after) (u :: gone) next).insertAfter w.label.id
            u.label.id) u.label.id
        else
          (d.refilled host (before ++ w :: after) (u :: gone) next).insertAfter w.label.id
            u.label.id) =
          d.refilled host (before ++ w :: (spacing next
            (indentation indented (before ++ w :: after)) ++ u :: after)) gone next' ∧
      Within d host (before ++ w :: (spacing next
        (indentation indented (before ++ w :: after)) ++ u :: after)) gone next' := by
  have space : indentation indented ((before ++ [w]) ++ u :: after) =
      indentation indented (before ++ w :: after) := by
    simp only [indentation, List.append_assoc, List.cons_append, List.head?_append, List.head?_cons]
  rw [h.insertAfter there, ← space, List.append_cons before w (u :: after),
    List.append_cons before w (_ ++ _)]
  rw [List.append_cons] at h
  exact indent_child indented h.placed there

/-- So it is among some of the children. -/
theorem insertAfter_among (indented : Bool)
    (h : Within d host (before ++ (left ++ w :: right) ++ after) (u :: gone) next)
    (there : d.find? host = some t) :
    ∃ next',
      (if indented then
          indent ((d.refilled host (before ++ (left ++ w :: right) ++ after) (u :: gone)
            next).insertAfter w.label.id u.label.id) u.label.id
        else
          (d.refilled host (before ++ (left ++ w :: right) ++ after) (u :: gone)
            next).insertAfter w.label.id u.label.id) =
          d.refilled host (before ++ (left ++ w :: (spacing next
            (indentation indented (before ++ (left ++ w :: right) ++ after)) ++ u :: right)) ++ after)
              gone next' ∧
      Within d host (before ++ (left ++ w :: (spacing next
        (indentation indented (before ++ (left ++ w :: right) ++ after)) ++ u :: right)) ++ after)
          gone next' := by
  have around : ∀ xs, before ++ (left ++ w :: xs) ++ after = before ++ left ++ w :: (xs ++ after) := by
    simp
  have whole : ∀ xs, before ++ left ++ w :: (xs ++ u :: (right ++ after)) =
      before ++ (left ++ w :: (xs ++ u :: right)) ++ after := by
    simp
  rw [around] at h
  obtain ⟨next', inserted, within⟩ := insertAfter_indented indented h there
  rw [← around, whole] at inserted within
  exact ⟨next', inserted, within⟩

/-- A clone of an element among the children is put beside the document. -/
theorem copy?_element {i : Nat} (h : Within d host (before ++ us ++ after) gone next)
    (there : d.find? host = some t) (hu : (elementsIn us)[i]? = some u) :
    ∃ m : Markup, (plain u).copied? = some m ∧
      (d.refilled host (before ++ us ++ after) gone next).copy? u.label.id =
        some (next, d.refilled host (before ++ us ++ after) ((Markup.numbered next m).1 :: gone)
          (Markup.numbered next m).2) := by
  obtain ⟨left, right, rfl, -, element⟩ := exists_around hu
  obtain ⟨m, hm, -⟩ := Markup.exists_copied (m := plain u) (by rwa [label_plain])
  rw [← List.append_assoc before, List.append_assoc (before ++ left)] at h ⊢
  exact ⟨m, hm, copy?_child h there hm⟩

/-- **One copy:** the list stays that of the elements, among which there is the clone. -/
theorem runFrom_makeCopy (h : Within d host (before ++ us ++ after) gone next)
    (there : d.find? host = some t) (hc : c.source < (elementsIn us).length) (indented : Bool)
    (p : Page) :
    ∃ us' next',
      (makeCopy indented ⟨slotsOf us, found⟩ c).runFrom
          { p with document := d.refilled host (before ++ us ++ after) gone next } =
        (.ok ⟨slotsOf us', found⟩,
          { p with document := d.refilled host (before ++ us' ++ after) gone next' }) ∧
      Within d host (before ++ us' ++ after) gone next' ∧
      CopyMade (indentation indented (before ++ us ++ after)) c us us' := by
  obtain ⟨u, hu⟩ : ∃ u, (elementsIn us)[c.source]? = some u := ⟨_, List.getElem?_eq_getElem hc⟩
  obtain ⟨w, hw⟩ : ∃ w, (elementsIn us)[c.anchor (elementsIn us).length]? = some w :=
    ⟨_, List.getElem?_eq_getElem (PlannedCopy.anchor_lt hc)⟩
  obtain ⟨m, hm, copied⟩ := copy?_element h there hu
  have placed := place_slotsOf found next (d.refilled host (before ++ us ++ after)
    ((Markup.numbered next m).1 :: gone) (Markup.numbered next m).2) hu hw
  have adopted := h.adopt m
  have clone : (plain u).copied? = some (plain (Markup.numbered next m).1) := by
    rw [plain_numbered, hm]
  have id : (Markup.numbered next m).1.label.id = next := by rw [label_numbered]
  generalize (Markup.numbered next m).1 = new at *
  generalize (Markup.numbered next m).2 = next' at *
  have element := isElement_of_copied? (isElement_of_getElem? hu) clone
  have slot : ((slotsOf us)[c.source]?).bind List.head? = some u.label.id := by
    rw [slotsOf, List.getElem?_map, hu]
    rfl
  obtain ⟨left, right, rfl, place, anchor⟩ := exists_around hw
  obtain ⟨next'', inserted, within⟩ := insertAfter_among indented adopted there
  have blank := isBlankText_of_mem_indentation indented (before ++ (left ++ w :: right) ++ after)
  refine ⟨_, next'', ?_, within, .intro next' anchor place hu clone⟩
  rw [id] at inserted
  rw [slotsOf_insert next' blank anchor element, place, id, makeCopy,
    Action.runFrom_bind_ok (Action.runFrom_get _)]
  simp only [slot, copied, placed, inserted]
  rfl

/-! ## All copies -/

/-- **The copies of a plan:** the list stays that of the elements. -/
theorem runFrom_foldlM_makeCopy (there : d.find? host = some t) (found : Nat) (indented : Bool)
    (p : Page) :
    ∀ {plan : List PlannedCopy} {us : List (Tree Entry)} {next : NodeId},
      Within d host (before ++ us ++ after) gone next → Feasible (elementsIn us).length plan →
      ∃ us' next',
        (plan.foldlM (makeCopy indented) ⟨slotsOf us, found⟩).runFrom
            { p with document := d.refilled host (before ++ us ++ after) gone next } =
          (.ok ⟨slotsOf us', found⟩,
            { p with document := d.refilled host (before ++ us' ++ after) gone next' }) ∧
        Within d host (before ++ us' ++ after) gone next' ∧
        Completed (indentation indented (before ++ us ++ after)) plan us us'
  | [], us, next, h, _ => ⟨us, next, rfl, h, .nil us⟩
  | c :: plan, us, next, h, feasible => by
    obtain ⟨us', next', run, h', made⟩ := runFrom_makeCopy h there feasible.1 indented p
    have length := made.length_elementsIn (isBlankText_of_mem_indentation indented _)
    obtain ⟨us'', next'', runs, h'', completed⟩ :=
      runFrom_foldlM_makeCopy there found indented p h' (by rw [length]; exact feasible.2)
    rw [made.indentation_eq] at completed
    exact ⟨us'', next'', by rw [List.foldlM_cons, Action.runFrom_bind_ok run, runs], h'',
      .cons made completed⟩

/-! ## The list at first -/

/-- The trees that a list for items of an element stands for at first. They are the children of a
node between others of its children. -/
inductive Starts (d : Document) (e : NodeId) :
    Bool → NodeId → List (Tree Entry) → List (Tree Entry) → List (Tree Entry) → Prop where
  /-- They are the children of the element. -/
  | children {t : Tree Entry} (there : d.find? e = some t) (any : elementsIn t.children ≠ []) :
    Starts d e false e [] t.children []
  /-- Without elements among the children, a clone of the element itself becomes the last of them. -/
  | clone {t : Tree Entry} {m : Markup} (there : d.find? e = some t)
      (element : t.label.data.isElement = true) (nothing : elementsIn t.children = [])
      (copied : (plain t).copied? = some m) :
    Starts d e false e [] (t.children ++ [(Markup.numbered d.nextId m).1]) []
  /-- The element is repeated itself: there is only this one. -/
  | itself {host : NodeId} {t u : Tree Entry} {before after : List (Tree Entry)}
      (parent : d.parent? e = some host) (there : d.find? host = some u)
      (place : u.children = before ++ t :: after) (id : t.label.id = e)
      (element : t.label.data.isElement = true) :
    Starts d e true host before [t] after

/-- A list can start with every element of a document. -/
theorem exists_starts (wellFormed : d.WellFormed) (attached : d.isAttached e = true)
    (element : d.isElement e = true) (itself : Bool) :
    ∃ host before us after, Starts d e itself host before us after := by
  obtain ⟨parent, u, t, before, after, hparent, hu, place, ht, id⟩ :=
    wellFormed.exists_parent attached
  have element : t.label.data.isElement = true := by
    rwa [isElement, data?, ht] at element
  cases itself with
  | true => exact ⟨_, _, _, _, .itself hparent hu place id element⟩
  | false =>
    by_cases nothing : elementsIn t.children = []
    · obtain ⟨m, hm, -⟩ := Markup.exists_copied (m := plain t) (by rwa [label_plain])
      exact ⟨_, _, _, _, .clone ht element nothing hm⟩
    · exact ⟨_, _, _, _, .children ht nothing⟩

theorem elementChildren_eq (h : d.WellFormed) (there : d.find? e = some t) :
    d.elementChildren e = (elementsIn t.children).map fun u => u.label.id := by
  rw [← elementChildren_refilled (h.within there) there, h.refilled_self there]

/-- A list of the children of a node has a slot for each element, if there are any. -/
theorem ofChildren_eq (h : d.WellFormed) (there : d.find? e = some t)
    (any : elementsIn t.children ≠ []) :
    ofChildren d e = (⟨slotsOf t.children, (elementsIn t.children).length⟩, d) := by
  have present : ((elementsIn t.children).map fun u => u.label.id).isEmpty = false := by
    rw [List.isEmpty_map]
    simpa using any
  rw [ofChildren, elementChildren_eq h there, present]
  simp [ofSlots, slotsOf]

/-- A clone of an element without elements in it is the only one there. -/
theorem elementsIn_clone {m : Markup} (element : t.label.data.isElement = true)
    (nothing : elementsIn t.children = []) (copied : (plain t).copied? = some m) (next : NodeId) :
    elementsIn (t.children ++ [(Markup.numbered next m).1]) = [(Markup.numbered next m).1] := by
  have isClone : (Markup.numbered next m).1.label.data.isElement = true :=
    isElement_of_copied? element (by rw [plain_numbered, copied])
  rw [elementsIn_append, nothing, List.nil_append, elementsIn_cons isClone]
  rfl

/-- Without any, it has a slot for a clone of the node. -/
theorem ofChildren_eq_clone {m : Markup} (h : d.WellFormed) (there : d.find? e = some t)
    (element : t.label.data.isElement = true) (nothing : elementsIn t.children = [])
    (copied : (plain t).copied? = some m) :
    ofChildren d e = (⟨[[d.nextId]], 1⟩,
        d.refilled e (t.children ++ [(Markup.numbered d.nextId m).1]) []
          (Markup.numbered d.nextId m).2) ∧
      Within d e (t.children ++ [(Markup.numbered d.nextId m).1]) []
        (Markup.numbered d.nextId m).2 := by
  have adopted := (h.within there).adopt m
  have appended := adopted.append there
  rw [label_numbered] at appended
  have whole : Within d e (t.children ++ []) ((Markup.numbered d.nextId m).1 :: [])
      (Markup.numbered d.nextId m).2 := by
    rwa [List.append_nil]
  have clone : d.copy? e = some (d.nextId, d.refilled e t.children
      [(Markup.numbered d.nextId m).1] (Markup.numbered d.nextId m).2) := by
    rw [← adopt_refilled, h.refilled_self there, copy?, markupOf?, there, Option.map_some,
      Option.bind_some, copied, Option.map_some]
  refine ⟨?_, whole.placed⟩
  have isElement : d.isElement e = true := by rwa [isElement, data?, there]
  rw [ofChildren, elementChildren_eq h there, nothing, List.map_nil, List.isEmpty_nil, isElement,
    clone]
  exact congrArg (fun d => (ofSlots [[_]], d)) appended

theorem runFrom_start_children {p : Page} (h : p.document.WellFormed)
    (there : p.document.find? e = some t) (any : elementsIn t.children ≠ []) (count : Nat) :
    (start (.items count) (some e) false).runFrom p =
      (.ok ⟨slotsOf t.children, (elementsIn t.children).length⟩, p) := by
  rw [start, if_neg Bool.false_ne_true, Action.runFrom_bind_ok (Action.runFrom_get p)]
  dsimp only [Option.getD_some]
  rw [ofChildren_eq h there any]
  rfl

/-- **The list at first** has a slot for each of the elements that it stands for. -/
theorem Starts.runFrom_start {p : Page} (h : Starts p.document e itself host before us after)
    (wellFormed : p.document.WellFormed) (count : Nat) :
    ∃ t next, p.document.find? host = some t ∧
      (start (.items count) (some e) itself).runFrom p =
        (.ok ⟨slotsOf us, (elementsIn us).length⟩,
          { p with document := p.document.refilled host (before ++ us ++ after) [] next }) ∧
      Within p.document host (before ++ us ++ after) [] next ∧ elementsIn us ≠ [] := by
  cases h with
  | children there any =>
    refine ⟨_, p.document.nextId, there, ?_, ?_, any⟩
    · rw [List.append_nil, List.nil_append, wellFormed.refilled_self there,
        runFrom_start_children wellFormed there any]
    · rw [List.append_nil, List.nil_append]
      exact wellFormed.within there
  | @clone t m there element nothing copied =>
    obtain ⟨listed, within⟩ := ofChildren_eq_clone wellFormed there element nothing copied
    have elements := elementsIn_clone element nothing copied p.document.nextId
    refine ⟨t, (Markup.numbered p.document.nextId m).2, there, ?_, ?_, ?_⟩
    · rw [List.append_nil, List.nil_append, start, if_neg Bool.false_ne_true,
        Action.runFrom_bind_ok (Action.runFrom_get p)]
      dsimp only [Option.getD_some]
      rw [listed, slotsOf, elements, List.map_singleton, label_numbered]
      rfl
    · rwa [List.append_nil, List.nil_append]
    · rw [elements]
      exact List.cons_ne_nil _ _
  | @itself host t u before after parent there place id element =>
    have elements : elementsIn [t] = [t] := elementsIn_cons element []
    have whole : before ++ [t] ++ after = u.children := by
      rw [place, List.append_assoc, List.singleton_append]
    refine ⟨u, p.document.nextId, there, ?_, ?_, ?_⟩
    · rw [whole, wellFormed.refilled_self there, slotsOf, elements, start, if_pos rfl, ← id]
      rfl
    · rw [whole]
      exact wellFormed.within there
    · rw [elements]
      exact List.cons_ne_nil _ _

/-- **The list for items** stands for all elements, after all copies were made. -/
theorem Starts.runFrom_populate {p : Page} (h : Starts p.document e itself host before us after)
    (wellFormed : p.document.WellFormed) (s : RepeatStrategy) (count : Nat) (indented : Bool) :
    ∃ t us' next, p.document.find? host = some t ∧
      (populate (.items count) (some e) (some s) itself indented).runFrom p =
        (.ok ⟨slotsOf us', (elementsIn us).length⟩,
          { p with document := p.document.refilled host (before ++ us' ++ after) [] next }) ∧
      Within p.document host (before ++ us' ++ after) [] next ∧
      Completed (indentation indented (before ++ us ++ after))
        (s.plan (elementsIn us).length count) us us' := by
  obtain ⟨t, next, there, started, within, any⟩ := h.runFrom_start wellFormed count
  obtain ⟨us', next', run, within', completed⟩ :=
    runFrom_foldlM_makeCopy there (elementsIn us).length indented p within
      (s.plan_feasible count (List.length_pos_iff.2 any))
  refine ⟨t, us', next', there, ?_, within', completed⟩
  rw [populate, Action.runFrom_bind_ok started]
  exact run

/-- With enough elements among the children of a node nothing is copied. -/
theorem runFrom_populate_enough {p : Page} (h : p.document.WellFormed)
    (there : p.document.find? e = some t) (any : elementsIn t.children ≠ []) (s : RepeatStrategy)
    {count : Nat} (enough : count ≤ (elementsIn t.children).length) (indented : Bool) :
    (populate (.items count) (some e) (some s) false indented).runFrom p =
      (.ok ⟨slotsOf t.children, (elementsIn t.children).length⟩, p) := by
  rw [populate, Action.runFrom_bind_ok (runFrom_start_children h there any count)]
  dsimp only [complete]
  rw [Targets.expected, RepeatStrategy.plan_eq_nil enough]
  rfl

/-- That of the children of a node, if there are elements among them and copies are not indented. -/
theorem runFrom_populate_children {p : Page} (h : p.document.WellFormed)
    (there : p.document.find? e = some t) (any : elementsIn t.children ≠ [])
    (plain : ∀ s ∈ shapesIn t.children, Attributes.AllPlain s.2) (s : RepeatStrategy) (count : Nat) :
    ∃ us next,
      (populate (.items count) (some e) (some s) false false).runFrom p =
        (.ok ⟨slotsOf us, (elementsIn t.children).length⟩,
          { p with document := p.document.refilled e us [] next }) ∧
      Within p.document e us [] next ∧
      shapesIn us = (s.plan (elementsIn t.children).length count).foldl PlannedCopy.repeated
        (shapesIn t.children) ∧
      othersIn us = othersIn t.children ∧
      (count ≤ (elementsIn t.children).length → us = t.children) := by
  obtain ⟨-, us, next, -, run, within, completed⟩ :=
    (Starts.children there any).runFrom_populate h s count false
  rw [List.append_nil, List.nil_append] at run within
  refine ⟨us, next, run, within, completed.shapesIn_eq nofun plain, completed.othersIn_eq, ?_⟩
  intro enough
  rw [RepeatStrategy.plan_eq_nil enough] at completed
  cases completed
  rfl

end WorkingList

end MarkupTemplate
