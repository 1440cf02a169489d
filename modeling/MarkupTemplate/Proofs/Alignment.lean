import MarkupTemplate.Proofs.Levels
import MarkupTemplate.Proofs.WorkingLists

/-!
# Alignment of working lists

How a working list for items agrees with the document that it was made in.

* `WorkingList.Aligned` — the slots are the elements among the children of a node, which are what
  they were but for clones and blank texts.
* `WorkingList.populate_aligned` — every list for items is aligned, however it is shuffled.
* `WorkingList.populate_children` — how many children an element gets for a list of items;
  `WorkingList.populate_nothing` — one without elements gets one even for no items.
-/

namespace MarkupTemplate.WorkingList

open Document

variable {d : Document} {e host next : NodeId} {t u : Tree Entry}
variable {us us' before after : List (Tree Entry)} {itself indented : Bool}

/-- **A working list for items agrees with the document** `d'` that it was made in, which was `d`
before: its slots are elements of the document in their order, and the document has gained nothing but
what the plan of the copies asks for. -/
structure Aligned (d : Document) (e : NodeId) (source : RepeatSource) (count : Nat)
    (itself indented : Bool) (list : WorkingList) (d' : Document) : Prop where
  /-- What there was at first: the element itself, or its child elements, or a clone of it. -/
  found : list.found = if itself then 1 else max 1 (d.elementChildren e).length
  /-- There are as many slots as items, if there were not more at first. -/
  length : list.slots.length = max list.found count
  /-- The slots are the child elements. -/
  children : itself = false → list.slots = (d'.elementChildren e).map fun c => [c]
  /-- If the element is repeated itself, they are this one and the elements right after it. -/
  siblings : itself = true →
    ∃ parent left copies right, d.parent? e = some parent ∧ d'.parent? e = some parent ∧
      d.elementChildren parent = left ++ e :: right ∧
      d'.elementChildren parent = left ++ e :: (copies ++ right) ∧
      list.slots = (e :: copies).map fun c => [c]
  /-- The children of one node were completed by the copies of the plan, and nothing else has
  changed. Of what these children have gained, all but the clones are blank texts. -/
  completed : ∃ host before us us' after next, Starts d e itself host before us after ∧
    Completed (indentation indented (before ++ us ++ after))
      (RepeatStrategy.plan ⟨source, false⟩ list.found count) us us' ∧
    d' = d.refilled host (before ++ us' ++ after) [] next ∧ list.slots = slotsOf us' ∧
    us.Sublist us' ∧ ∀ u ∈ othersIn us', u ∈ us ∨
      indented = true ∧ u.label.data.isBlankText = true ∧ u.children = []
  /-- The nodes are told apart by their identities. -/
  wellFormed : d'.WellFormed

/-- The number of the elements that a list stands for at first. -/
theorem Starts.length_elementsIn (h : Starts d e itself host before us after)
    (wellFormed : d.WellFormed) :
    (elementsIn us).length = if itself then 1 else max 1 (d.elementChildren e).length := by
  cases h with
  | children there any =>
    have some := List.length_pos_iff.2 any
    rw [elementChildren_eq wellFormed there, List.length_map, if_neg Bool.false_ne_true]
    omega
  | clone there element nothing copied =>
    rw [elementChildren_eq wellFormed there, nothing, elementsIn_clone element nothing copied]
    rfl
  | itself parent there place id element =>
    rw [elementsIn_cons element]
    rfl

/-- Completed children are aligned. -/
theorem Starts.aligned (h : Starts d e itself host before us after) (wellFormed : d.WellFormed)
    (there : d.find? host = some t) {source : RepeatSource} {count : Nat}
    (within : Within d host (before ++ us' ++ after) [] next)
    (completed : Completed (indentation indented (before ++ us ++ after))
      (RepeatStrategy.plan ⟨source, false⟩ (elementsIn us).length count) us us') :
    Aligned d e source count itself indented ⟨slotsOf us', (elementsIn us).length⟩
      (d.refilled host (before ++ us' ++ after) [] next) := by
  have blank := isBlankText_of_mem_indentation indented (before ++ us ++ after)
  have found := h.length_elementsIn wellFormed
  have some : 0 < (elementsIn us).length := by
    rw [found]
    split <;> omega
  refine ⟨found, ?length, ?children, ?siblings,
    ⟨host, before, us, us', after, next, h, completed, rfl, rfl, completed.sublist, ?others⟩,
    within.wellFormed wellFormed there⟩
  case length =>
    rw [slotsOf, List.length_map, completed.length_elementsIn blank, RepeatStrategy.length_plan some]
    dsimp only
    omega
  case children =>
    rintro rfl
    obtain ⟨rfl, rfl, rfl⟩ : host = e ∧ before = [] ∧ after = [] := by
      cases h <;> exact ⟨rfl, rfl, rfl⟩
    rw [elementChildren_refilled within there, List.append_nil, List.nil_append, List.map_map]
    rfl
  case siblings =>
    rintro rfl
    cases h with
    | @itself _ t u _ _ parent there place id element =>
      have first : (elementsIn us').head? = Option.some t := by
        rw [completed.head?_elementsIn blank, elementsIn_cons element]
        rfl
      obtain ⟨copies, hcopies⟩ : ∃ copies, elementsIn us' = t :: copies :=
        List.head?_eq_some_iff.1 first
      refine ⟨host, (elementsIn before).map fun u => u.label.id, copies.map fun u => u.label.id,
        (elementsIn after).map fun u => u.label.id, parent, ?_, ?_, ?_, ?_⟩
      · obtain ⟨left, right, rfl, -, -⟩ := exists_around (i := 0) (by rw [hcopies]; rfl)
        rw [← List.append_assoc before, List.append_assoc (before ++ left)] at within ⊢
        rw [← id]
        exact within.parent?_child there
      · rw [elementChildren_eq wellFormed there, place, elementsIn_append, elementsIn_cons element,
          List.map_append, List.map_cons, id]
      · rw [elementChildren_refilled within there, elementsIn_append, elementsIn_append, hcopies,
          List.map_append, List.map_append, List.map_cons, id, List.append_assoc, List.cons_append]
      · rw [slotsOf, hcopies, List.map_cons, List.map_cons, List.map_map, id]
        rfl
  case others =>
    intro u hu
    rcases completed.mem_others hu with old | ⟨space, childless⟩
    · exact .inl old
    · obtain ⟨isIndented, isBlank⟩ := blank_of_indentation space
      exact .inr ⟨isIndented, isBlank, childless⟩

/-- A list for items is made without failure and is aligned. -/
theorem exists_aligned {p : Page} (wellFormed : p.document.WellFormed)
    (attached : p.document.isAttached e = true) (element : p.document.isElement e = true)
    (s : RepeatStrategy) (count : Nat) (itself indented : Bool) :
    ∃ list d', (populate (.items count) (some e) (some s) itself indented).runFrom p =
        (.ok list, { p with document := d' }) ∧
      Aligned p.document e s.source count itself indented list d' := by
  obtain ⟨host, before, us, after, starts⟩ := exists_starts wellFormed attached element itself
  obtain ⟨t, us', next, there, run, within, completed⟩ :=
    starts.runFrom_populate wellFormed s count indented
  exact ⟨_, _, run, starts.aligned wellFormed there within completed⟩

/-- A shuffle does not concern the document, nor what is put on the list. -/
theorem runFrom_populateShuffled {p p' : Page} {shuffle : List (List NodeId) → List (List NodeId)}
    {count : Nat} {source : RepeatSource} {list : WorkingList}
    (perm : ∀ slots, (shuffle slots).Perm slots) (shuffled : Bool)
    (run : (populate (.items count) (some e) (some ⟨source, false⟩) itself indented).runFrom p =
      (.ok list, p')) :
    ∃ slots, (populateShuffled shuffle (.items count) (some e) (some ⟨source, shuffled⟩) itself
        indented).runFrom p = (.ok ⟨slots, list.found⟩, p') ∧
      slots.Perm list.slots ∧ (shuffled = false → slots = list.slots) := by
  have run : (populate (.items count) (some e) (some ⟨source, shuffled⟩) itself indented).runFrom p =
      (.ok list, p') := run
  cases shuffled with
  | false =>
    refine ⟨list.slots, ?_, List.Perm.refl _, fun _ => rfl⟩
    rw [populateShuffled, Action.runFrom_bind_ok run]
    rfl
  | true =>
    refine ⟨shuffle list.slots, ?_, perm _, nofun⟩
    rw [populateShuffled, Action.runFrom_bind_ok run]
    rfl

/-- **Every list for items is aligned with the document.** It is made without failure, and a shuffle
of any outcome only puts its slots in another order. -/
theorem populate_aligned {p : Page} {e : NodeId} (wellFormed : p.document.WellFormed)
    (attached : p.document.isAttached e = true) (element : p.document.isElement e = true)
    (source : RepeatSource) (count : Nat) (itself indented : Bool) :
    ∃ list d', Aligned p.document e source count itself indented list d' ∧
      ∀ shuffled shuffle, (∀ slots, (shuffle slots).Perm slots) →
        ∃ slots, (populateShuffled shuffle (.items count) (some e) (some ⟨source, shuffled⟩) itself
            indented).runFrom p = (.ok ⟨slots, list.found⟩, { p with document := d' }) ∧
          slots.Perm list.slots ∧ (shuffled = false → slots = list.slots) := by
  obtain ⟨list, d', run, aligned⟩ :=
    exists_aligned wellFormed attached element ⟨source, false⟩ count itself indented
  exact ⟨list, d', aligned, fun shuffled shuffle perm => runFrom_populateShuffled perm shuffled run⟩

/-- A list of two entries with texts around them. -/
def spacedEntries : Document :=
  .ofHtml "<ul>\n  <li>a</li>\n  <li>b</li>\n</ul>"

/-- The first entry is copied for three items, with a text before it, and the slots are reversed. -/
theorem populate_aligned_spacedEntries :
    ∃ list d', Aligned spacedEntries 4 .first 3 false true list d' ∧
      ∃ slots, (populateShuffled List.reverse (.items 3) (some 4) (some ⟨.first, true⟩) false
          true).runFrom ⟨spacedEntries, .css, []⟩ = (.ok ⟨slots, 2⟩, ⟨d', .css, []⟩) ∧
        slots.length = 3 := by
  have attached : spacedEntries.isAttached 4 = true := by decide +kernel
  have element : spacedEntries.isElement 4 = true := by decide +kernel
  have entries : spacedEntries.elementChildren 4 = [6, 9] := by decide +kernel
  obtain ⟨list, d', aligned, run⟩ := populate_aligned (p := ⟨spacedEntries, .css, []⟩)
    (wellFormed_ofHtml _) attached element .first 3 false true
  obtain ⟨slots, run, perm, -⟩ := run true List.reverse List.reverse_perm
  have found : list.found = 2 := by
    rw [aligned.found, entries]
    rfl
  refine ⟨list, d', aligned, slots, found ▸ run, ?_⟩
  rw [perm.length_eq, aligned.length, found]
  rfl

/-! ## The number of children -/

/-- The number of child elements. -/
theorem Aligned.length_elementChildren {source : RepeatSource} {count : Nat} {list : WorkingList}
    {d' : Document} (h : Aligned d e source count false indented list d') :
    (d'.elementChildren e).length = max (max 1 (d.elementChildren e).length) count := by
  have length := h.length
  rwa [h.children rfl, List.length_map, h.found] at length

/-- The elements that there were are still there. -/
theorem Starts.elementChildren_sublist (h : Starts d e false host before us after)
    (wellFormed : d.WellFormed) :
    host = e ∧ before = [] ∧ after = [] ∧
      (d.elementChildren e).Sublist ((elementsIn us).map fun u => u.label.id) := by
  cases h with
  | children there any =>
    rw [elementChildren_eq wellFormed there]
    exact ⟨rfl, rfl, rfl, List.Sublist.refl _⟩
  | clone there element nothing copied =>
    rw [elementChildren_eq wellFormed there, nothing]
    exact ⟨rfl, rfl, rfl, List.nil_sublist _⟩

/-- If there were none, the list stands for a clone of the element. -/
theorem Starts.exists_clone (h : Starts d e false host before us after) (wellFormed : d.WellFormed)
    (nothing : d.elementChildren e = []) :
    ∃ v, elementsIn us = [v] ∧ (d.markupOf? e).bind Markup.copied? = some (plain v) := by
  cases h with
  | children there any =>
    rw [elementChildren_eq wellFormed there, List.map_eq_nil_iff] at nothing
    exact absurd nothing any
  | clone there element none copied =>
    refine ⟨_, elementsIn_clone element none copied d.nextId, ?_⟩
    rw [markupOf?, there, Option.map_some, Option.bind_some, copied, plain_numbered]

/-- **The child elements of an element after a list of items was made of them.** If there are any,
there are as many more as there are too few, and with enough of them nothing changes. If there is
none, there is one for each item, but at least one, and the first is a clone of the element. -/
theorem populate_children {p : Page} {e : NodeId} (wellFormed : p.document.WellFormed)
    (attached : p.document.isAttached e = true) (element : p.document.isElement e = true)
    (s : RepeatStrategy) (count : Nat) (indented : Bool) :
    ∃ list d',
      (populate (.items count) (some e) (some s) false indented).runFrom p =
        (.ok list, { p with document := d' }) ∧
      (p.document.elementChildren e).Sublist (d'.elementChildren e) ∧
      (p.document.elementChildren e ≠ [] →
        (d'.elementChildren e).length = (p.document.elementChildren e).length +
          (count - (p.document.elementChildren e).length) ∧
        (count ≤ (p.document.elementChildren e).length → d' = p.document)) ∧
      (p.document.elementChildren e = [] →
        (d'.elementChildren e).length = max 1 count ∧
        ∃ copy rest, d'.elementChildren e = copy :: rest ∧
          d'.markupOf? copy = (p.document.markupOf? e).bind Markup.copied?) := by
  obtain ⟨host, before, us, after, starts⟩ := exists_starts wellFormed attached element false
  obtain ⟨t, us', next, there, run, within, completed⟩ :=
    starts.runFrom_populate wellFormed s count indented
  have aligned : Aligned p.document e s.source count false indented _ _ :=
    starts.aligned wellFormed there within completed
  have length := aligned.length_elementChildren
  obtain ⟨rfl, rfl, rfl, kept⟩ := starts.elementChildren_sublist wellFormed
  have before := elementChildren_eq wellFormed there
  have after := elementChildren_refilled within there
  refine ⟨_, _, run, ?kept, fun any => ⟨?more, fun enough => ?same⟩,
    fun nothing => ⟨by rw [length, nothing]; rfl, ?clone⟩⟩
  case kept =>
    rw [after, List.append_nil, List.nil_append]
    exact kept.trans ((completed.sublist.filter _).map _)
  case more =>
    have some := List.length_pos_iff.2 any
    omega
  case same =>
    rw [before, ne_eq, List.map_eq_nil_iff] at any
    rw [before, List.length_map] at enough
    have unchanged := runFrom_populate_enough wellFormed there any s enough indented
    exact congrArg (fun result => result.2.document) (run.symm.trans unchanged)
  case clone =>
    obtain ⟨v, first, copied⟩ := starts.exists_clone wellFormed nothing
    have head : (elementsIn us').head? = some v := by
      rw [completed.head?_elementsIn (isBlankText_of_mem_indentation indented _), first]
      rfl
    obtain ⟨copies, elements⟩ := List.head?_eq_some_iff.1 head
    rw [List.append_nil, List.nil_append] at within after ⊢
    refine ⟨v.label.id, copies.map fun u => u.label.id, by rw [after, elements, List.map_cons], ?_⟩
    obtain ⟨left, right, rfl, -, -⟩ := exists_around (i := 0) (by rw [elements]; rfl)
    rw [copied, markupOf?, within.find?_child there, Option.map_some]

/-- Two entries become three for three items. -/
theorem populate_children_spacedEntries :
    ∃ list d', (populate (.items 3) (some 4) (some .standard) false false).runFrom
        ⟨spacedEntries, .css, []⟩ = (.ok list, ⟨d', .css, []⟩) ∧
      (d'.elementChildren 4).length = 3 := by
  have attached : spacedEntries.isAttached 4 = true := by decide +kernel
  have element : spacedEntries.isElement 4 = true := by decide +kernel
  have entries : spacedEntries.elementChildren 4 = [6, 9] := by decide +kernel
  obtain ⟨list, d', run, -, more, -⟩ := populate_children (p := ⟨spacedEntries, .css, []⟩)
    (wellFormed_ofHtml _) attached element .standard 3 false
  have any : spacedEntries.elementChildren 4 ≠ [] := by
    rw [entries]
    exact List.cons_ne_nil _ _
  refine ⟨list, d', run, (more any).1.trans ?_⟩
  dsimp only
  rw [entries]
  rfl

/-- A page with a paragraph that has no elements in it. -/
def paragraphPage : Page :=
  .ofHtml "<p>hi</p>" .css

/-- An element without others in it gets a clone of itself, even if there are no items. -/
theorem populate_nothing :
    paragraphPage.document.elementChildren 4 = [] ∧
      ∃ list d', (populate (.items 0) (some 4) (some .standard) false false).runFrom paragraphPage =
          (.ok list, { paragraphPage with document := d' }) ∧
        (d'.elementChildren 4).length = 1 := by
  have attached : paragraphPage.document.isAttached 4 = true := by decide +kernel
  have element : paragraphPage.document.isElement 4 = true := by decide +kernel
  have nothing : paragraphPage.document.elementChildren 4 = [] := by decide +kernel
  obtain ⟨list, d', run, aligned⟩ := exists_aligned (p := paragraphPage) (wellFormed_ofHtml _)
    attached element .standard 0 false false
  refine ⟨nothing, list, d', run, ?_⟩
  rw [aligned.length_elementChildren, nothing]
  rfl

end MarkupTemplate.WorkingList
