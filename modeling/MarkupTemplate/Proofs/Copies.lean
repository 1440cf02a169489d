import MarkupTemplate.Proofs.Identities
import MarkupTemplate.Proofs.PatternReading
import MarkupTemplate.Proofs.Plans

/-!
# Copies among trees

What a plan of copies makes of some of the children of a node.

* `Document.slotsOf` — a slot for each element among the children.
* `Document.CopyMade` — what one copy makes of them: the source once more, in a place after another
  element, with the blank text before it that it is indented by.
* `Document.Completed` — what the copies of a plan make of them, one after the other.
* `Completed.sublist`, `Completed.mem_others`, `Completed.length_elementsIn` — nothing is lost or
  moved, what is new is a copy or blank, and there is an element more for each copy.
* `Completed.shapesIn_eq` — the shapes of the elements, if copies have the shape of their source.
-/

namespace MarkupTemplate

/-! ## Copied attributes -/

namespace Attributes

/-- An attribute by its local name. -/
def asPlain (a : Attribute) : Attribute :=
  ⟨.plain, a.name, a.value⟩

theorem set_of_notMem {name : String} (value : String) :
    ∀ {as : List Attribute}, name ∉ as.map Attribute.name →
      set name value as = as ++ [⟨.plain, name, value⟩]
  | [], _ => rfl
  | a :: as, h => by
    rw [List.map_cons, List.mem_cons, not_or] at h
    rw [set, if_neg (Ne.symm h.1), set_of_notMem value h.2, List.cons_append]

theorem foldl_set :
    ∀ {bs as : List Attribute}, ((as ++ bs).map Attribute.name).Nodup →
      bs.foldl (fun copy a => set a.name a.value copy) as = as ++ bs.map asPlain
  | [], as, _ => by rw [List.foldl_nil, List.map_nil, List.append_nil]
  | b :: bs, as, h => by
    rw [List.map_append] at h
    have fresh : b.name ∉ as.map Attribute.name := fun hmem =>
      (List.nodup_append.1 h).2.2 _ hmem _ (by simp) rfl
    have distinct : (((as ++ [asPlain b]) ++ bs).map Attribute.name).Nodup := by
      rwa [List.append_assoc, List.map_append]
    rw [List.foldl_cons, set_of_notMem b.value fresh, List.map_cons]
    exact (foldl_set distinct).trans (by rw [List.append_assoc, List.singleton_append])

/-- Attributes with different names are copied one by one. -/
theorem plain_of_nodup {as : List Attribute} (h : (as.map Attribute.name).Nodup) :
    plain as = as.map asPlain :=
  foldl_set h

/-- Attributes that a copy takes over as they are. -/
structure AllPlain (as : List Attribute) : Prop where
  spaces : ∀ a ∈ as, a.space = .plain
  distinct : (as.map Attribute.name).Nodup

theorem AllPlain.plain_eq {as : List Attribute} (h : AllPlain as) : plain as = as := by
  rw [plain_of_nodup h.distinct]
  refine (List.map_congr_left fun a ha => ?_).trans (List.map_id as)
  rw [asPlain, ← h.spaces a ha, id]

end Attributes

theorem lowered_lowered (s : String) : lowered (lowered s) = lowered s := by
  simp [lowered]

/-! ## Elements among the children -/

/-- The tag and the attributes of a node. -/
def NodeData.shape (data : NodeData) : Option String × List Attribute :=
  (data.tag?, data.attributes)

/-- An element has a copy, which is an element. -/
theorem Markup.exists_copied {m : Markup} (element : m.label.isElement = true) :
    ∃ c, m.copied? = some c ∧ c.label.isElement = true := by
  obtain ⟨data, ms⟩ := m
  cases data with
  | element => exact ⟨_, by rw [Markup.copied?], rfl⟩
  | document | doctype | text | comment => cases element

/-- A copy of an element has its tag, and its attributes if these are plain. -/
theorem Markup.copied?_shape {m : Markup} (element : m.label.isElement = true)
    (plain : Attributes.AllPlain m.label.attributes) :
    ∃ c, m.copied? = some c ∧ c.label.isElement = true ∧ c.label.shape = m.label.shape := by
  obtain ⟨data, ms⟩ := m
  cases data with
  | element name as =>
    refine ⟨_, by rw [Markup.copied?], rfl, ?_⟩
    have hplain : Attributes.plain as = as := plain.plain_eq
    have htag : lowered (lowered name.name) = lowered name.name := lowered_lowered name.name
    rw [hplain]
    exact congrArg (fun tag => (some tag, as)) htag
  | document | doctype | text | comment => cases element

namespace Document

/-- The elements among several trees. -/
def elementsIn (us : List (Tree Entry)) : List (Tree Entry) :=
  us.filter fun u => u.label.data.isElement

/-- What is not an element among several trees. -/
def othersIn (us : List (Tree Entry)) : List (Tree Entry) :=
  us.filter fun u => !u.label.data.isElement

/-- The shapes of the elements among several trees. -/
def shapesIn (us : List (Tree Entry)) : List (Option String × List Attribute) :=
  (elementsIn us).map fun u => u.label.data.shape

/-- A slot for each element among several trees. -/
def slotsOf (us : List (Tree Entry)) : List (List NodeId) :=
  (elementsIn us).map fun u => [u.label.id]

variable {d : Document} {e : NodeId} {t u : Tree Entry} {us before after : List (Tree Entry)}
variable {gone : List (Tree Entry)} {next : NodeId} {i : Nat}

@[simp] theorem elementsIn_append (us vs : List (Tree Entry)) :
    elementsIn (us ++ vs) = elementsIn us ++ elementsIn vs :=
  List.filter_append ..

@[simp] theorem othersIn_append (us vs : List (Tree Entry)) :
    othersIn (us ++ vs) = othersIn us ++ othersIn vs :=
  List.filter_append ..

theorem elementsIn_cons (h : u.label.data.isElement = true) (us : List (Tree Entry)) :
    elementsIn (u :: us) = u :: elementsIn us :=
  List.filter_cons_of_pos h

theorem othersIn_cons (h : u.label.data.isElement = true) (us : List (Tree Entry)) :
    othersIn (u :: us) = othersIn us :=
  List.filter_cons_of_neg (by simp [h])

theorem label_plain (u : Tree Entry) : (plain u).label = u.label.data :=
  Tree.label_map Entry.data u

theorem label_numbered (next : NodeId) (m : Markup) :
    (Markup.numbered next m).1.label = ⟨next, m.label, none⟩ := by
  cases m
  rfl

@[simp] theorem length_shapesIn (us : List (Tree Entry)) :
    (shapesIn us).length = (elementsIn us).length :=
  List.length_map _

/-- An element is in its place among all children. -/
theorem exists_around (h : (elementsIn us)[i]? = some u) :
    ∃ before after, us = before ++ u :: after ∧ (elementsIn before).length = i ∧
      u.label.data.isElement = true := by
  obtain ⟨hi, hu⟩ := List.getElem?_eq_some_iff.1 h
  have parts : elementsIn us = (elementsIn us).take i ++ u :: (elementsIn us).drop (i + 1) := by
    rw [← hu, ← List.drop_eq_getElem_cons hi, List.take_append_drop]
  obtain ⟨first, rest, rfl, hfirst, hrest⟩ := List.filter_eq_append_iff.1 parts
  obtain ⟨others, after, rfl, hothers, helement, -⟩ := List.filter_eq_cons_iff.1 hrest
  refine ⟨first ++ others, after, by rw [List.append_assoc], ?_, helement⟩
  have none : elementsIn others = [] := List.filter_eq_nil_iff.2 hothers
  rw [elementsIn_append, none, List.append_nil]
  exact (congrArg List.length hfirst).trans (List.length_take_of_le (Nat.le_of_lt hi))

/-! ## One copy -/

/-- The blank text that copies are indented by: that of the first tree, if it is one. -/
def indentation (indented : Bool) (us : List (Tree Entry)) : Option NodeData :=
  if indented then (us.head?.map fun u => u.label.data).filter NodeData.isBlankText else none

/-- A new text to indent by, if there is any. -/
def spacing (id : NodeId) : Option NodeData → List (Tree Entry)
  | some data => [.node ⟨id, data, none⟩ []]
  | none => []

/-- **What one copy makes of several trees:** after the element that it goes after there is a clone
of its source, as this is then, with the blank text before it that it is indented by. -/
inductive CopyMade (space : Option NodeData) (c : PlannedCopy) :
    List (Tree Entry) → List (Tree Entry) → Prop where
  | intro {left right : List (Tree Entry)} {w u v : Tree Entry} (id : NodeId)
      (anchor : w.label.data.isElement = true)
      (place : (elementsIn left).length = c.anchor (elementsIn (left ++ w :: right)).length)
      (source : (elementsIn (left ++ w :: right))[c.source]? = some u)
      (clone : (plain u).copied? = some (plain v)) :
      CopyMade space c (left ++ w :: right) (left ++ w :: (spacing id space ++ v :: right))

/-- What the copies of a plan make of several trees, one after the other. -/
inductive Completed (space : Option NodeData) :
    List PlannedCopy → List (Tree Entry) → List (Tree Entry) → Prop where
  | nil (us : List (Tree Entry)) : Completed space [] us us
  | cons {c : PlannedCopy} {plan : List PlannedCopy} {us us' us'' : List (Tree Entry)}
      (first : CopyMade space c us us') (rest : Completed space plan us' us'') :
      Completed space (c :: plan) us us''

section CopyMade

variable {space : Option NodeData} {c : PlannedCopy} {us' : List (Tree Entry)} {v w : Tree Entry}
variable {indented : Bool} {left right : List (Tree Entry)}

theorem blank_of_indentation {data : NodeData} (h : indentation indented us = some data) :
    indented = true ∧ data.isBlankText = true := by
  cases indented with
  | false => cases h
  | true => exact ⟨rfl, (Option.filter_eq_some_iff.1 h).2⟩

theorem isBlankText_of_mem_indentation (indented : Bool) (us : List (Tree Entry)) :
    ∀ data ∈ indentation indented us, data.isBlankText = true :=
  fun _ h => (blank_of_indentation h).2

theorem isElement_of_getElem? (h : (elementsIn us)[i]? = some u) :
    u.label.data.isElement = true :=
  (List.mem_filter.1 (List.mem_of_getElem? h)).2

/-- A clone of an element is one. -/
theorem isElement_of_copied? (element : u.label.data.isElement = true)
    (clone : (plain u).copied? = some (plain v)) : v.label.data.isElement = true := by
  rw [← label_plain] at element ⊢
  obtain ⟨c, hc, helement⟩ := Markup.exists_copied element
  rwa [Option.some.inj (clone.symm.trans hc)]

theorem shape_of_copied? (element : u.label.data.isElement = true)
    (plainly : Attributes.AllPlain u.label.data.attributes)
    (clone : (plain u).copied? = some (plain v)) : v.label.data.shape = u.label.data.shape := by
  rw [← label_plain] at element plainly ⊢
  rw [← label_plain u]
  obtain ⟨c, hc, -, hshape⟩ := Markup.copied?_shape element plainly
  rwa [Option.some.inj (clone.symm.trans hc)]

/-- A text to indent by is not an element. -/
theorem elementsIn_spacing (id : NodeId) (blank : ∀ data ∈ space, data.isBlankText = true) :
    elementsIn (spacing id space) = [] := by
  cases space with
  | none => rfl
  | some data =>
    refine List.filter_cons_of_neg (Bool.not_eq_true _ ▸ ?_)
    cases data with
    | text => rfl
    | document | doctype | element | comment => cases blank _ rfl

/-- A clone is right after the anchor among the elements. -/
theorem elementsIn_insert (id : NodeId) (blank : ∀ data ∈ space, data.isBlankText = true)
    (anchor : w.label.data.isElement = true) (element : v.label.data.isElement = true)
    (left right : List (Tree Entry)) :
    elementsIn (left ++ w :: (spacing id space ++ v :: right)) =
      (elementsIn (left ++ w :: right)).insertIdx ((elementsIn left).length + 1) v := by
  rw [elementsIn_append, elementsIn_append, elementsIn_cons anchor, elementsIn_cons anchor,
    elementsIn_append, elementsIn_spacing id blank, elementsIn_cons element, insertIdx_append_cons,
    List.nil_append]

theorem slotsOf_insert (id : NodeId) (blank : ∀ data ∈ space, data.isBlankText = true)
    (anchor : w.label.data.isElement = true) (element : v.label.data.isElement = true)
    (left right : List (Tree Entry)) :
    slotsOf (left ++ w :: (spacing id space ++ v :: right)) =
      (slotsOf (left ++ w :: right)).insertIdx ((elementsIn left).length + 1) [v.label.id] := by
  rw [slotsOf, elementsIn_insert id blank anchor element, List.map_insertIdx, slotsOf]

namespace CopyMade

/-- Nothing is lost, changed or moved. -/
theorem sublist (h : CopyMade space c us us') : us.Sublist us' := by
  cases h with
  | intro id =>
    exact ((List.sublist_append_of_sublist_right (List.sublist_cons_self _ _)).cons_cons _).append_left _

/-- What is new is a clone or a text to indent by. -/
theorem mem_others (h : CopyMade space c us us') {x : Tree Entry} (hx : x ∈ othersIn us') :
    x ∈ us ∨ space = some x.label.data ∧ x.children = [] := by
  cases h with
  | intro id anchor place source clone =>
    have element := isElement_of_copied? (isElement_of_getElem? source) clone
    rw [othersIn_append, othersIn_cons anchor, othersIn_append, othersIn_cons element] at hx
    rcases List.mem_append.1 hx with hleft | hx
    · exact .inl (List.mem_append_left _ (List.mem_of_mem_filter hleft))
    rcases List.mem_append.1 hx with hspacing | hright
    · cases space with
      | none => cases hspacing
      | some data =>
        cases List.mem_singleton.1 (List.mem_of_mem_filter hspacing)
        exact .inr ⟨rfl, rfl⟩
    · exact .inl (List.mem_append_right _ (List.mem_cons_of_mem _ (List.mem_of_mem_filter hright)))

/-- Copies that are not indented leave alone what is not an element. -/
theorem othersIn_eq (h : CopyMade none c us us') : othersIn us' = othersIn us := by
  cases h with
  | intro id anchor place source clone =>
    have element := isElement_of_copied? (isElement_of_getElem? source) clone
    rw [othersIn_append, othersIn_append, othersIn_cons anchor, othersIn_cons anchor, spacing,
      List.nil_append, othersIn_cons element]

/-- Among the elements there is a clone of the source in its place. -/
theorem exists_clone (h : CopyMade space c us us')
    (blank : ∀ data ∈ space, data.isBlankText = true) :
    ∃ u v, (elementsIn us)[c.source]? = some u ∧ (plain u).copied? = some (plain v) ∧
      elementsIn us' = (elementsIn us).insertIdx (c.anchor (elementsIn us).length + 1) v := by
  cases h with
  | @intro left right w u v id anchor place source clone =>
    have element := isElement_of_copied? (isElement_of_getElem? source) clone
    exact ⟨u, v, source, clone, by rw [elementsIn_insert id blank anchor element, place]⟩

theorem length_elementsIn (h : CopyMade space c us us')
    (blank : ∀ data ∈ space, data.isBlankText = true) :
    (elementsIn us').length = (elementsIn us).length + 1 := by
  obtain ⟨u, v, source, -, inserted⟩ := h.exists_clone blank
  have anchor := PlannedCopy.anchor_lt (List.getElem?_eq_some_iff.1 source).1
  rw [inserted, List.length_insertIdx, if_pos (Nat.succ_le_of_lt anchor)]

/-- The shape of the source is there once more. -/
theorem shapesIn_eq (h : CopyMade space c us us')
    (blank : ∀ data ∈ space, data.isBlankText = true)
    (plainly : ∀ s ∈ shapesIn us, Attributes.AllPlain s.2) :
    shapesIn us' = c.repeated (shapesIn us) := by
  obtain ⟨u, v, source, clone, inserted⟩ := h.exists_clone blank
  have there : (shapesIn us)[c.source]? = some u.label.data.shape := by
    rw [shapesIn, List.getElem?_map, source]
    rfl
  have shape := shape_of_copied? (isElement_of_getElem? source)
    (plainly _ (List.mem_of_getElem? there)) clone
  rw [PlannedCopy.repeated_eq there, length_shapesIn, ← shape, shapesIn, inserted,
    List.map_insertIdx]
  rfl

/-- The first tree stays the first. -/
theorem indentation_eq (h : CopyMade space c us us') (before after : List (Tree Entry)) :
    indentation indented (before ++ us' ++ after) = indentation indented (before ++ us ++ after) := by
  cases h with
  | intro =>
    simp only [indentation, List.append_assoc, List.cons_append, List.head?_append, List.head?_cons]

end CopyMade

namespace Completed

variable {plan : List PlannedCopy}

theorem sublist (h : Completed space plan us us') : us.Sublist us' := by
  induction h with
  | nil us => exact List.Sublist.refl us
  | cons first _ ih => exact first.sublist.trans ih

theorem mem_others (h : Completed space plan us us') {x : Tree Entry} (hx : x ∈ othersIn us') :
    x ∈ us ∨ space = some x.label.data ∧ x.children = [] := by
  induction h with
  | nil us => exact .inl (List.mem_of_mem_filter hx)
  | @cons c plan us us' us'' first rest ih =>
    rcases ih hx with old | new
    · have other := (List.mem_filter.1 hx).2
      exact first.mem_others (List.mem_filter.2 ⟨old, other⟩)
    · exact .inr new

theorem othersIn_eq (h : Completed none plan us us') : othersIn us' = othersIn us := by
  induction h with
  | nil => rfl
  | cons first _ ih => exact ih.trans first.othersIn_eq

/-- There is an element more for each copy. -/
theorem length_elementsIn (h : Completed space plan us us')
    (blank : ∀ data ∈ space, data.isBlankText = true) :
    (elementsIn us').length = (elementsIn us).length + plan.length := by
  induction h with
  | nil => rfl
  | cons first _ ih =>
    rw [ih, first.length_elementsIn blank, List.length_cons]
    omega

/-- The first element stays the first. -/
theorem head?_elementsIn (h : Completed space plan us us')
    (blank : ∀ data ∈ space, data.isBlankText = true) :
    (elementsIn us').head? = (elementsIn us).head? := by
  induction h with
  | nil => rfl
  | @cons c plan us us' us'' first _ ih =>
    obtain ⟨u, v, source, -, inserted⟩ := first.exists_clone blank
    rw [ih, inserted]
    cases hus : elementsIn us with
    | nil => simp [hus] at source
    | cons x xs => rfl

theorem shapesIn_eq (h : Completed space plan us us')
    (blank : ∀ data ∈ space, data.isBlankText = true)
    (plainly : ∀ s ∈ shapesIn us, Attributes.AllPlain s.2) :
    shapesIn us' = plan.foldl PlannedCopy.repeated (shapesIn us) := by
  induction h with
  | nil => rfl
  | cons first _ ih =>
    have shapes := first.shapesIn_eq blank plainly
    rw [ih (by rw [shapes]; exact fun s hs => plainly s (PlannedCopy.mem_of_mem_repeated hs)),
      shapes, List.foldl_cons]

end Completed

end CopyMade

end Document

end MarkupTemplate
