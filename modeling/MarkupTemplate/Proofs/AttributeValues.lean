import MarkupTemplate.Data.Reading
import MarkupTemplate.Proofs.Contexts
import MarkupTemplate.Proofs.Moves
import MarkupTemplate.Proofs.Renaming
import MarkupTemplate.Proofs.Validation

/-!
# Values of attributes

What a set of attributes makes of an element, and that it makes nothing else.

* `joinedValue` — an old and a new value as a mode joins them; `mergedValue_eq_joinedValue_iff` — what
  is set is that, unless there are blanks around it.
* `Attributes.apply`, `Attributes.find?_foldl_apply`, `Attributes.filter_foldl_apply` — one entry of
  the set, and all of them.
* `Document.attributes_set` — a directive with a set of attributes.
* `Document.attributes_set_blank` — blanks around a value are lost.
-/

namespace MarkupTemplate

/-! ## One value -/

/-- An old value and a new one, joined as a mode says by a space; without an old value, the new
one. -/
def joinedValue (old : Option String) (value : String) : InsertMode → String
  | .replace => value
  | .prepend => if (old.getD "").isEmpty then value else value ++ " " ++ old.getD ""
  | .append => if (old.getD "").isEmpty then value else old.getD "" ++ " " ++ value

/-- The text has no blanks around it. -/
def Unpadded (s : String) : Prop :=
  s.toList = [] ∨ XPath.Begins s.toList ∧ XPath.Finishes s.toList

theorem trimmed_eq_self_iff {s : String} : trimmed s = s ↔ Unpadded s := by
  have same : trimmed s = s ↔ Text.trim s.toList = s.toList := by
    rw [trimmed, ← String.toList_inj, String.toList_ofList]
  rw [same, Unpadded]
  constructor
  · intro h
    by_cases hnil : s.toList = []
    · exact .inl hnil
    · have ends := Selector.ends_trim (h.symm ▸ hnil)
      rw [h] at ends
      exact .inr ends
  · rintro (hnil | ⟨begins, finishes⟩)
    · rw [hnil]
      rfl
    · exact XPath.trim_eq_self begins finishes

namespace Document

theorem mergedValue_eq (old : Option String) (value : String) (mode : InsertMode) :
    mergedValue old value mode = trimmed (joinedValue old value mode) := by
  cases mode <;> rfl

/-- The value that is set is the one that the mode says, if that has no blanks around it. -/
theorem mergedValue_eq_joinedValue_iff {old : Option String} {value : String} {mode : InsertMode} :
    mergedValue old value mode = joinedValue old value mode ↔
      Unpadded (joinedValue old value mode) := by
  rw [mergedValue_eq, trimmed_eq_self_iff]

end Document

/-! ## Lists of attributes -/

namespace Attributes

open Document (mergedValue)

variable {mode : InsertMode} {as : List Attribute} {name other : String}
variable {entry : String × Option String} {values : List (String × Option String)}

/-- One attribute set or extended, or removed if there is no value for it. -/
def apply (mode : InsertMode) (as : List Attribute) (entry : String × Option String) :
    List Attribute :=
  match entry.2 with
  | some value => set entry.1 (mergedValue (find? entry.1 as) value mode) as
  | none => erase entry.1 as

theorem find?_erase_of_ne (h : other ≠ name) (as : List Attribute) :
    find? other (erase name as) = find? other as := by
  have same : ∀ a : Attribute,
      ((a.name != name) = true ∧ decide (a.name = other) = true) ↔ a.name = other := by
    intro a
    rw [bne_iff_ne, decide_eq_true_iff]
    exact ⟨And.right, fun ha => ⟨fun heq => h (ha ▸ heq), ha⟩⟩
  rw [find?, find?, erase, List.find?_filter]
  simp only [same]

theorem find?_apply_self (mode : InsertMode) (as : List Attribute) (entry : String × Option String) :
    find? entry.1 (apply mode as entry) =
      entry.2.map fun value => mergedValue (find? entry.1 as) value mode := by
  rw [apply]
  split
  · rename_i value hvalue
    rw [hvalue, find?_set_self]
    rfl
  · rename_i hnone
    rw [hnone, find?_erase_self]
    rfl

theorem find?_apply_of_ne (h : other ≠ entry.1) (mode : InsertMode) (as : List Attribute) :
    find? other (apply mode as entry) = find? other as := by
  rw [apply]
  split
  · exact find?_set_of_ne h _ as
  · exact find?_erase_of_ne h as

theorem filter_set {p : Attribute → Bool} (value : String)
    (hp : ∀ a : Attribute, a.name = name → p a = false) (as : List Attribute) :
    (set name value as).filter p = as.filter p := by
  induction as with
  | nil =>
    rw [set, List.filter_cons_of_neg (Bool.eq_false_iff.1 (hp _ rfl))]
  | cons a as ih =>
    rw [set]
    split
    · rename_i ha
      rw [List.filter_cons_of_neg (Bool.eq_false_iff.1 (hp { a with value } ha)),
        List.filter_cons_of_neg (Bool.eq_false_iff.1 (hp a ha))]
    · rw [List.filter_cons, List.filter_cons, ih]

theorem filter_erase {p : Attribute → Bool} (hp : ∀ a : Attribute, a.name = name → p a = false)
    (as : List Attribute) : (erase name as).filter p = as.filter p := by
  rw [erase, List.filter_filter]
  refine List.filter_congr fun a _ => ?_
  by_cases ha : a.name = name
  · rw [hp a ha, Bool.false_and]
  · rw [bne_iff_ne.2 ha, Bool.and_true]

/-- The attributes of other names stay as they are. -/
theorem filter_apply {p : Attribute → Bool} (hp : ∀ a : Attribute, a.name = entry.1 → p a = false)
    (mode : InsertMode) (as : List Attribute) : (apply mode as entry).filter p = as.filter p := by
  rw [apply]
  split
  · exact filter_set _ hp as
  · exact filter_erase hp as

theorem find?_foldl_apply_of_not_mem (mode : InsertMode) :
    ∀ {values : List (String × Option String)} {as : List Attribute},
      name ∉ values.map Prod.fst → find? name (values.foldl (apply mode) as) = find? name as
  | [], _, _ => rfl
  | entry :: values, as, h => by
    rw [List.map_cons, List.mem_cons, not_or] at h
    rw [List.foldl_cons, find?_foldl_apply_of_not_mem mode h.2, find?_apply_of_ne h.1]

/-- Each of several entries does what it does alone. -/
theorem find?_foldl_apply (mode : InsertMode) :
    ∀ {values : List (String × Option String)} {as : List Attribute},
      (values.map Prod.fst).Nodup → entry ∈ values →
      find? entry.1 (values.foldl (apply mode) as) =
        entry.2.map fun value => mergedValue (find? entry.1 as) value mode
  | [], _, _, h => nomatch h
  | first :: values, as, distinct, h => by
    rw [List.map_cons, List.nodup_cons] at distinct
    rw [List.foldl_cons]
    rcases List.mem_cons.1 h with rfl | h
    · rw [find?_foldl_apply_of_not_mem mode distinct.1, find?_apply_self]
    · have other : entry.1 ≠ first.1 := fun heq => distinct.1 (heq ▸ List.mem_map_of_mem h)
      rw [find?_foldl_apply mode distinct.2 h, find?_apply_of_ne other]

/-- All attributes of other names stay as they are. -/
theorem filter_foldl_apply (mode : InsertMode) {p : Attribute → Bool} :
    ∀ {values : List (String × Option String)} {as : List Attribute},
      (∀ a : Attribute, a.name ∈ values.map Prod.fst → p a = false) →
      (values.foldl (apply mode) as).filter p = as.filter p
  | [], _, _ => rfl
  | entry :: values, as, hp => by
    rw [List.foldl_cons, filter_foldl_apply mode fun a ha => hp a (List.mem_cons_of_mem _ ha),
      filter_apply fun a ha => hp a (ha ▸ List.mem_cons_self)]

end Attributes

/-! ## The set as it is read -/

theorem attributeEntry_fst {entry : String × Json} {value : String × Option String}
    (h : attributeEntry entry = .ok value) : value.1 = entry.1 := by
  rw [attributeEntry] at h
  split at h
  · cases h
    rfl
  · split at h
    · cases h
      rfl
    · cases h

/-- An entry with a value that has a text has that text for its value. -/
theorem attributeEntry_text {v : Json} {text : String} (name : String)
    (h : scalarText? v = some text) : attributeEntry (name, v) = .ok (name, some text) := by
  cases v with
  | null => cases h
  | bool | number | string =>
    cases h
    rfl
  | array | object => cases h

section Entries

variable {entries : List (String × Json)} {values : List (String × Option String)}

/-- The names are those that are written. -/
theorem attributeEntries_names (h : attributeEntries (.object entries) = .ok values) :
    values.map Prod.fst = entries.map Prod.fst := by
  have pairs := Css.forall₂_of_mapM h
  clear h
  induction pairs with
  | nil => rfl
  | cons hab _ ih => rw [List.map_cons, List.map_cons, ih, attributeEntry_fst hab]

/-- Every entry that is written is there. -/
theorem mem_of_attributeEntries (h : attributeEntries (.object entries) = .ok values)
    {entry : String × Json} {value : String × Option String} (hentry : entry ∈ entries)
    (hvalue : attributeEntry entry = .ok value) : value ∈ values := by
  have pairs := Css.forall₂_of_mapM h
  clear h
  induction pairs with
  | nil => cases hentry
  | cons hab _ ih =>
    rcases List.mem_cons.1 hentry with rfl | hentry
    · cases hvalue.symm.trans hab
      exact List.mem_cons_self
    · exact List.mem_cons_of_mem _ (ih hentry)

end Entries

namespace Document

variable {d d' : Document} {e : NodeId} {t : Tree Entry} {f : NodeData → NodeData}

/-! ## A node that holds something else -/

/-- A document in which one node holds something else, and nothing else has changed. -/
structure Relabelled (d d' : Document) (e : NodeId) (f : NodeData → NodeData) : Prop where
  wellFormed : d'.WellFormed
  root : d'.root = d.root
  self : d'.label? e = (d.label? e).map fun a => { a with data := f a.data }
  label? : ∀ n, n ≠ e → d'.label? n = d.label? n
  children : ∀ n, d'.children n = d.children n

theorem relabelled_update (h : d.WellFormed) (found : d.find? e = some t) (f : NodeData → NodeData) :
    Relabelled d (d.update e (relabelled f)) e f := by
  have wellFormed : (d.update e (relabelled f)).WellFormed := h.update e (ids_relabelled f)
  obtain rfl := label_id_of_find? found
  let g (r : Row) : Row :=
    if r.id = t.label.id then ⟨{ r.entry with data := f r.entry.data }, r.children⟩ else r
  have rows : (d.update t.label.id (relabelled f)).rows.Perm (d.rows.map g) := by
    refine perm_map_of_replaced (wellFormed_iff_rows.1 h).1 (rootRow_mem_rows found)
      (fun r hr => if_neg hr) (List.perm_iff_count.2 fun r => ?_)
    have count := (rows_update h found (f := relabelled f) fun _ => rfl).count_eq r
    have last : g (rootRow t) = rootRow (relabelled f t) := if_pos rfl
    rw [rowsOf_eq, rowsOf_eq] at count
    rw [last]
    simp only [relabelled, Tree.children_node, List.count_append, List.count_cons,
      List.count_nil] at count ⊢
    omega
  have here : ∀ n, (d.update t.label.id (relabelled f)).children n = d.children n ∧
      (d.update t.label.id (relabelled f)).label? n =
        (d.label? n).map fun a => if n = t.label.id then { a with data := f a.data } else a := by
    intro n
    cases foundN : d.find? n with
    | none =>
      have absent : (d.update t.label.id (relabelled f)).find? n = none := by
        have same : ids ((d.update t.label.id (relabelled f)).tree ::
            (d.update t.label.id (relabelled f)).strays) = ids (d.tree :: d.strays) :=
          ids_updateList (ids_relabelled f) _ (d.tree :: d.strays)
        rw [find?_eq_none_iff, same, ← find?_eq_none_iff, foundN]
      rw [children_of_find?_eq_none absent, children_of_find?_eq_none foundN,
        label?_eq_none_iff.2 absent, label?_eq_none_iff.2 foundN]
      exact ⟨rfl, rfl⟩
    | some u =>
      have row := rows.mem_iff.2 (List.mem_map_of_mem (rootRow_mem_rows foundN))
      obtain rfl := label_id_of_find? foundN
      rw [children_of_find? foundN, label?_of_find? foundN, Option.map_some]
      by_cases same : u.label.id = t.label.id
      · have changed : g (rootRow u) =
            ⟨{ u.label with data := f u.label.data }, rootIds u.children⟩ := if_pos same
        rw [changed] at row
        rw [if_pos same]
        exact ⟨wellFormed.children_of_mem_rows row, wellFormed.label?_of_mem_rows row⟩
      · have kept : g (rootRow u) = rootRow u := if_neg same
        rw [kept] at row
        rw [if_neg same]
        exact ⟨wellFormed.children_of_mem_rows row, wellFormed.label?_of_mem_rows row⟩
  constructor
  case wellFormed => exact wellFormed
  case root => exact label_update (f := relabelled f) (fun _ => rfl) d.tree
  case self =>
    rw [(here t.label.id).2]
    simp only [if_true]
  case label? =>
    intro n hn
    rw [(here n).2]
    simp only [if_neg hn, Option.map_id']
  case children => exact fun n => (here n).1

/-! ## A set of attributes -/

/-- An element with a set of attributes applied, written as an object. -/
structure AttributesSet (d : Document) (e : NodeId) (entries : List (String × Json))
    (mode : InsertMode) (d' : Document) : Prop where
  /-- An attribute with a value has that value, joined with its old one and then trimmed. -/
  value : ∀ name v text, (name, v) ∈ entries → scalarText? v = some text →
    d'.attribute? e name = some (trimmed (joinedValue (d.attribute? e name) text mode))
  /-- Without blanks around it, nothing is trimmed off; with blanks around it, something is. -/
  exactly : ∀ name v text, (name, v) ∈ entries → scalarText? v = some text →
    (d'.attribute? e name = some (joinedValue (d.attribute? e name) text mode) ↔
      Unpadded (joinedValue (d.attribute? e name) text mode))
  removed : ∀ name, (name, .null) ∈ entries → d'.attribute? e name = none
  /-- The element has its name, and its other attributes in order. -/
  element : ∃ tag as as', d.data? e = some (.element tag as) ∧ d'.data? e = some (.element tag as') ∧
    as'.filter (fun a => a.name ∉ entries.map Prod.fst) =
      as.filter fun a => a.name ∉ entries.map Prod.fst
  content : (d'.label? e).map Entry.content = (d.label? e).map Entry.content
  others : ∀ n, n ≠ e → d'.label? n = d.label? n
  children : ∀ n, d'.children n = d.children n
  root : d'.root = d.root

theorem withAttributes_element (mode : InsertMode) (tag : ElementName) :
    ∀ (values : List (String × Option String)) (as : List Attribute),
      withAttributes mode values (.element tag as) =
        .element tag (values.foldl (Attributes.apply mode) as)
  | [], _ => rfl
  | entry :: values, as => by
    have first : withAttribute mode (.element tag as) entry =
        .element tag (Attributes.apply mode as entry) := by
      obtain ⟨name, value⟩ := entry
      cases value <;> rfl
    rw [withAttributes, List.foldl_cons, first, List.foldl_cons]
    exact withAttributes_element mode tag values _

theorem data?_eq_label? (d : Document) (n : NodeId) : d.data? n = (d.label? n).map Entry.data := by
  rw [data?, label?, Option.map_map]
  rfl

/-- **A directive with a set of attributes** sets, extends and removes these and does nothing else; what
it sets has no blanks around it. -/
theorem attributes_set {settings : Settings} {here : Situation} {own : InsertMode} {r : Rendering}
    {entries : List (String × Json)} {values : List (String × Option String)}
    (h : r.page.document.WellFormed) (found : r.page.document.find? e = some t)
    (element : t.label.data.isElement = true)
    (object : attributeEntries (.object entries) = .ok values)
    (distinct : (entries.map Prod.fst).Nodup) :
    ∃ d', ((Directive.setAttributes own values).job settings here e).runFrom r =
        (.ok (some e), { r with page.document := d' }) ∧
      AttributesSet r.page.document e entries (Rendering.modeOver own here.mode) d' := by
  let mode := Rendering.modeOver own here.mode
  let d' := values.foldl (Rendering.applyAttribute mode e) r.page.document
  refine ⟨d', rfl, ?_⟩
  obtain ⟨tag, as, data⟩ : ∃ tag as, t.label.data = .element tag as := by
    cases hdata : t.label.data with
    | element tag as => exact ⟨tag, as, rfl⟩
    | document | doctype | text | comment =>
      rw [hdata] at element
      cases element
  have before : r.page.document.data? e = some (.element tag as) := by
    rw [data?, found, Option.map_some, data]
  have whole := relabelled_update h found (withAttributes mode values)
  rw [← foldl_applyAttribute mode values h found] at whole
  have after : d'.data? e = some (.element tag (values.foldl (Attributes.apply mode) as)) := by
    rw [data?_eq_label?, whole.self, label?_of_find? found, Option.map_some, Option.map_some, data,
      withAttributes_element]
  have names := attributeEntries_names object
  have distinct' : (values.map Prod.fst).Nodup := names ▸ distinct
  -- what an entry does to the attributes of the element
  have apply : ∀ entry ∈ values, d'.attribute? e entry.1 =
      entry.2.map fun value => mergedValue (r.page.document.attribute? e entry.1) value mode := by
    intro entry hentry
    rw [attribute?, attribute?, after, before]
    exact Attributes.find?_foldl_apply mode distinct' hentry
  have value : ∀ name v text, (name, v) ∈ entries → scalarText? v = some text →
      d'.attribute? e name = some (mergedValue (r.page.document.attribute? e name) text mode) :=
    fun name v text hv htext =>
      apply (name, some text) (mem_of_attributeEntries object hv (attributeEntry_text name htext))
  constructor
  case value =>
    intro name v text hv htext
    rw [value name v text hv htext, mergedValue_eq]
  case exactly =>
    intro name v text hv htext
    rw [value name v text hv htext, Option.some_inj]
    exact mergedValue_eq_joinedValue_iff
  case removed =>
    exact fun name hv => apply (name, none) (mem_of_attributeEntries object hv rfl)
  case element =>
    refine ⟨tag, as, _, before, after, ?_⟩
    refine Attributes.filter_foldl_apply mode fun a ha => decide_eq_false ?_
    rw [names] at ha
    exact not_not_intro ha
  case content =>
    rw [whole.self, Option.map_map]
    rfl
  case others => exact whole.label?
  case children => exact whole.children
  case root => exact whole.root

/-- A page of a paragraph with two attributes. -/
def titledParagraph : Rendering :=
  .start (.ofHtml "<p class=\"a\" title=\"t\"></p>" .css) (.start (Fetcher.files []))

/-- The object of a directive that adds a class, removes the title and sets a language. -/
def classAndTitle : List (String × Json) :=
  [("class", .string "b"), ("title", .null), ("lang", .string "en")]

/-- The class is added, the title is removed, and the language is set. -/
theorem attributes_set_titledParagraph :
    ∃ d', ((Directive.setAttributes .append
        [("class", some "b"), ("title", none), ("lang", some "en")]).job .standard .outermost
          4).runFrom titledParagraph =
        (.ok (some 4), { titledParagraph with page.document := d' }) ∧
      AttributesSet titledParagraph.page.document 4 classAndTitle .append d' ∧
      d'.attribute? 4 "class" = some "a b" ∧ d'.attribute? 4 "title" = none ∧
      d'.attribute? 4 "lang" = some "en" := by
  have seen : (titledParagraph.page.document.find? 4).map (fun t => t.label.data.isElement) =
      some true := by
    decide +kernel
  obtain ⟨t, found, element⟩ := Option.map_eq_some_iff.1 seen
  have object : attributeEntries (.object classAndTitle) =
      .ok [("class", some "b"), ("title", none), ("lang", some "en")] := rfl
  obtain ⟨d', run, set⟩ : ∃ d', ((Directive.setAttributes .append
        [("class", some "b"), ("title", none), ("lang", some "en")]).job .standard .outermost
          4).runFrom titledParagraph =
        (.ok (some 4), { titledParagraph with page.document := d' }) ∧
      AttributesSet titledParagraph.page.document 4 classAndTitle .append d' :=
    attributes_set (wellFormed_ofHtml _) found element object (by decide +kernel)
  have value : ∀ name old text, (name, .string text) ∈ classAndTitle →
      titledParagraph.page.document.attribute? 4 name = old →
      d'.attribute? 4 name = some (trimmed (joinedValue old text .append)) := by
    rintro name old text hv rfl
    exact set.value name (.string text) text hv rfl
  refine ⟨d', run, set, ?_, set.removed "title" (by simp [classAndTitle]), ?_⟩
  · rw [value "class" (some "a") "b" (by simp [classAndTitle]) (by decide +kernel)]
    decide +kernel
  · rw [value "lang" none "en" (by simp [classAndTitle]) (by decide +kernel)]
    decide +kernel

/-- Blanks around a value are lost: a title with blanks around it is set without them. -/
theorem attributes_set_blank :
    ∃ r : Rendering, r = .start (.ofHtml "<p></p>" .css) (.start (Fetcher.files [])) ∧
      r.page.document.attribute? 4 "title" = none ∧
      joinedValue none " a " .replace = " a " ∧
      (((Directive.setAttributes .replace [("title", some " a ")]).job .standard .outermost
        4).runFrom r).2.page.document.attribute? 4 "title" = some "a" :=
  ⟨_, rfl, by decide +kernel, rfl, by decide +kernel⟩

end Document

end MarkupTemplate
