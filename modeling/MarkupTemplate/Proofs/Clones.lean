import MarkupTemplate.Proofs.Copies
import MarkupTemplate.Proofs.Levels
import MarkupTemplate.Proofs.Writing

/-!
# Clones of elements

What a copy of an element is, and how it is written.

* `Markup.uncommented` — a tree without its comments.
* `Markup.survives` — the trees of which copies are written as the trees are, but for comments: they
  have no elements without end tags, no raw text that escapes would change, and their start tags are
  written by names in lower case and by the local names of attributes.
* `Markup.html_copied` — these are written so.
* `Document.gained_adopt` — new nodes are put beside a document, which stays as it was.
* `Document.clone_faithful` — what a copy of an element is, and how it is written if the element
  survives; `Document.clone_lineBreak` — a line break does not.
-/

namespace MarkupTemplate

namespace Markup

/-! ## Trees without comments -/

mutual

/-- A tree without the comments below its root. -/
def uncommented : Markup → Markup
  | .node data ts => .node data (uncommentedAll ts)

/-- Several trees without comments. -/
def uncommentedAll : List Markup → List Markup
  | [] => []
  | t :: ts => if t.label.isComment then uncommentedAll ts else uncommented t :: uncommentedAll ts

end

/-! ## What survives in a copy -/

/-- The start tag of a copy is that of the element: the name is in lower case, and the attributes are
written by their local names, which are all different. -/
def tagSurvives (n : ElementName) (as : List Attribute) : Bool :=
  lowered n.name = n.name && as.all (fun a => attributeLabel a = a.name) &&
    decide (as.map Attribute.name).Nodup

/-- A text that is written alike whether it is escaped or not. Other nodes do not matter. -/
def needsNoEscapes (m : Markup) : Bool :=
  match m.label with
  | .text s => escapeText s = s
  | _ => true

mutual

/-- A copy of the tree is written as the tree is, but for comments. -/
def survives : Markup → Bool
  | .node (.element n as) ts =>
    tagSurvives n as && !isVoid n && (!isRawText n || ts.all needsNoEscapes) && survivesAll ts
  | .node (.text _) _ => true
  | .node (.comment _) _ => true
  | .node _ _ => false

/-- Copies of several trees are written as these are, but for comments. -/
def survivesAll : List Markup → Bool
  | [] => true
  | t :: ts => survives t && survivesAll ts

end

theorem attributesHtml_plain {n : ElementName} {as : List Attribute}
    (h : tagSurvives n as = true) : attributesHtml (Attributes.plain as) = attributesHtml as := by
  simp only [tagSurvives, Bool.and_eq_true, List.all_eq_true, decide_eq_true_eq] at h
  obtain ⟨⟨-, labels⟩, distinct⟩ := h
  rw [Attributes.plain_of_nodup distinct, attributesHtml, attributesHtml, List.map_map]
  refine congrArg String.join (List.map_congr_left fun a ha => ?_)
  simp only [Function.comp_apply, labels a ha]
  rfl

mutual

/-- **A copy is written as the tree without comments.** The copy is nowhere in raw text, the tree may
be. -/
theorem write_copied (raw : Bool) :
    ∀ m : Markup, m.survives = true → m.label.isComment = false →
      (raw = true → m.needsNoEscapes = true) →
      ∃ c, m.copied? = some c ∧ write ⟨false, false⟩ c = write ⟨raw, false⟩ m.uncommented
  | .node (.element n as) ts, h, _, _ => by
    simp only [survives, Bool.and_eq_true, Bool.not_eq_true', Bool.or_eq_true] at h
    obtain ⟨⟨⟨tag, notVoid⟩, unescaped⟩, below⟩ := h
    have children := writeList_copied (isRawText n) ts below fun hraw =>
      unescaped.resolve_left (by simp [hraw])
    have lower : lowered n.name = n.name := by
      simp only [tagSurvives, Bool.and_eq_true, decide_eq_true_eq] at tag
      exact tag.1.1
    have endTag : isVoid ⟨.unknown, n.name⟩ = false := rfl
    have escaped : isRawText ⟨.unknown, n.name⟩ = false := rfl
    refine ⟨_, by rw [copied?], ?_⟩
    rw [uncommented, write, write, lower, attributesHtml_plain tag, notVoid, endTag, escaped,
      children]
    rfl
  | .node (.text s) ts, _, _, unescaped => by
    refine ⟨_, by rw [copied?], ?_⟩
    rw [uncommented, write, write]
    cases raw with
    | false => rfl
    | true => exact congrArg (fun t => [t]) (of_decide_eq_true (unescaped rfl))
  | .node (.comment _) _, _, h, _ => by cases h
  | .node .document _, h, _, _ => by cases h
  | .node (.doctype _) _, h, _, _ => by cases h

/-- So are copies of several trees. -/
theorem writeList_copied (raw : Bool) :
    ∀ ts : List Markup, survivesAll ts = true → (raw = true → ts.all needsNoEscapes = true) →
      writeList ⟨false, false⟩ (copiedList ts) = writeList ⟨raw, false⟩ (uncommentedAll ts)
  | [], _, _ => rfl
  | t :: ts, h, unescaped => by
    rw [survivesAll, Bool.and_eq_true] at h
    have unescaped : raw = true → t.needsNoEscapes = true ∧ ts.all needsNoEscapes = true :=
      fun hraw => by simpa using unescaped hraw
    have rest := writeList_copied raw ts h.2 fun hraw => (unescaped hraw).2
    rw [copiedList, uncommentedAll]
    by_cases comment : t.label.isComment = true
    · have notCopied : t.copied? = none := by
        obtain ⟨data, ms⟩ := t
        cases data with
        | comment => rfl
        | document | doctype | element | text => cases comment
      rw [if_pos comment, notCopied, rest]
    · obtain ⟨c, hc, written⟩ := write_copied raw t h.1 (by simpa using comment)
        fun hraw => (unescaped hraw).1
      rw [if_neg comment, hc, writeList, writeList, written, rest]

end

/-- **A copy of an element that survives is written as the element without comments.** -/
theorem html_copied {m c : Markup} (h : m.survives = true) (element : m.label.isElement = true)
    (copied : m.copied? = some c) : c.html = m.uncommented.html := by
  have notComment : m.label.isComment = false := by
    obtain ⟨data, ms⟩ := m
    cases data with
    | element => rfl
    | document | doctype | text | comment => cases element
  obtain ⟨c', hc, written⟩ := write_copied false m h notComment nofun
  cases copied.symm.trans hc
  exact congrArg String.join written

end Markup

/-! ## New nodes beside a document -/

namespace Document

variable {d : Document} {e id : NodeId} {t : Tree Entry}

/-- A new node was put beside a document, which stayed as it was. -/
structure Gained (d : Document) (new : NodeId) (d' : Document) : Prop where
  /-- The tree of the document is the same. -/
  tree : d'.tree = d.tree
  /-- Beside it there is one more tree, with the new node at its root. -/
  strays : ∃ c, c.label.id = new ∧ d'.strays = c :: d.strays
  /-- The node is new. -/
  fresh : new ∉ ids (d.tree :: d.strays)
  /-- It has no parent and is not in the document. -/
  detached : d'.parent? new = none ∧ d'.isAttached new = false
  /-- Every other node is what it was, with all below it. -/
  kept : ∀ id ∈ ids (d.tree :: d.strays), d'.find? id = d.find? id

theorem absent_numbered (m : Markup) (h : id < d.nextId) :
    (Markup.numbered d.nextId m).1.labels.countP (hasId id) = 0 := by
  refine List.countP_eq_zero.2 fun a ha heq => ?_
  have new : d.nextId ≤ a.id := ((Markup.holds_numbered d.nextId m).1 a ha).1
  have same : a.id = id := by simpa [hasId] using heq
  exact Nat.not_le_of_lt h (same ▸ new)

theorem find?_adopt (m : Markup) (h : id < d.nextId) : (d.adopt m).2.find? id = d.find? id := by
  have skip := Tree.find?_of_absent _ (absent_numbered (d := d) m h)
  rw [find?, find?, adopt]
  simp only [Tree.findList?, skip]

/-- No node of a document has the identity to come. -/
theorem WellFormed.absent_nextId (h : d.WellFormed) :
    d.tree.labels.countP (hasId d.nextId) = 0 := by
  have new : d.nextId ∉ ids (d.tree :: d.strays) := fun hmem => Nat.lt_irrefl _ (h.known _ hmem)
  rw [← countP_hasId_eq_zero, Tree.labelsList_cons, List.countP_append] at new
  omega

theorem home?_adopt (wellFormed : d.WellFormed) (m : Markup) :
    (d.adopt m).2.home? d.nextId = some ((Markup.numbered d.nextId m).1, []) := by
  have skip := Tree.pathTo?_of_absent d.tree wellFormed.absent_nextId
  have root : (Markup.numbered d.nextId m).1.pathTo? (hasId d.nextId) = some [] := by
    cases m
    rw [Markup.numbered, Tree.pathTo?, if_pos (by simp [hasId])]
  rw [home?, adopt, List.findSome?_cons, skip, Option.map_none, List.findSome?_cons, root]
  rfl

/-- **What is put beside a document changes nothing else.** -/
theorem gained_adopt (wellFormed : d.WellFormed) (m : Markup) :
    d.Gained d.nextId (d.adopt m).2 where
  tree := rfl
  strays := ⟨_, by rw [label_numbered], rfl⟩
  fresh := fun hmem => Nat.lt_irrefl _ (wellFormed.known _ hmem)
  detached := by
    have home := home?_adopt wellFormed m
    refine ⟨by rw [parent?, home]; rfl, by rw [isAttached, home]; rfl⟩
  kept := fun id hid => find?_adopt m (wellFormed.known id hid)

/-- New markup is written as what it is. -/
theorem nodeHtml_adopt (wellFormed : d.WellFormed) (m : Markup) :
    (d.adopt m).2.nodeHtml d.nextId = m.html := by
  have skip := Tree.find?_of_absent d.tree wellFormed.absent_nextId
  have found : (d.adopt m).2.find? d.nextId = some (Markup.numbered d.nextId m).1 := by
    have here : hasId d.nextId (Markup.numbered d.nextId m).1.label = true := by
      rw [label_numbered]
      simp [hasId]
    rw [find?, adopt, Tree.findList?, skip]
    exact show Tree.findList? _ ([] ++ _ :: d.strays) = _ from Tree.findList?_append_cons here rfl
  have untemplated : ∀ x ∈ (Markup.numbered d.nextId m).1.labels, x.content = none :=
    fun x hx => ((Markup.holds_numbered d.nextId m).1 x hx).2
  rw [nodeHtml, found, Option.map_some, Option.getD_some, written_eq_plain _ _ untemplated,
    plain_numbered]

/-! ## Clones -/

/-- **A copy of an element is put beside the document and is written as the element is,** but for
comments, if the element survives in a copy. Templates are left out. -/
theorem clone_faithful (wellFormed : d.WellFormed) (there : d.find? e = some t)
    (element : t.label.data.isElement = true)
    (untemplated : ∀ x ∈ t.labels, x.content = none) :
    ∃ copy d', d.copy? e = some (copy, d') ∧ d.Gained copy d' ∧
      ((plain t).survives = true → d'.nodeHtml copy = (d.written t).uncommented.html) := by
  rw [← label_plain] at element
  obtain ⟨m, hm, -⟩ := Markup.exists_copied element
  refine ⟨d.nextId, (d.adopt m).2, ?_, gained_adopt wellFormed m, fun survives => ?_⟩
  · rw [copy?, markupOf?, there, Option.map_some, Option.bind_some, hm]
    rfl
  · rw [nodeHtml_adopt wellFormed, written_eq_plain d t untemplated]
    exact Markup.html_copied survives element hm

/-- A paragraph with a comment in it. -/
def commented : Document :=
  .ofHtml "<p title=\"t\">a<!--x--><b>c</b></p>"

/-- A copy of the paragraph lacks the comment and nothing else. -/
theorem clone_faithful_commented :
    commented.nodeHtml 4 = "<p title=\"t\">a<!--x--><b>c</b></p>" ∧
      ∃ copy d', commented.copy? 4 = some (copy, d') ∧ commented.Gained copy d' ∧
        d'.nodeHtml copy = "<p title=\"t\">a<b>c</b></p>" := by
  have seen : (commented.find? 4).map (fun t =>
      ((t.label.data.isElement, t.labels.all fun x => x.content.isNone),
        (plain t).survives, (commented.written t).uncommented.html)) =
      some ((true, true), true, "<p title=\"t\">a<b>c</b></p>") := by
    decide +kernel
  obtain ⟨t, there, seen⟩ := Option.map_eq_some_iff.1 seen
  simp only [Prod.mk.injEq, List.all_eq_true, Option.isNone_iff_eq_none] at seen
  obtain ⟨⟨element, untemplated⟩, survives, written⟩ := seen
  obtain ⟨copy, d', copied, gained, html⟩ :=
    clone_faithful (wellFormed_ofHtml _) there element untemplated
  exact ⟨by decide +kernel, copy, d', copied, gained, (html survives).trans written⟩

/-- A copy of an element without end tag has one: a copied line break is written as two tags, which
read as two line breaks. -/
theorem clone_lineBreak :
    ∃ d : Document, d = .ofHtml "<p>a<br>b</p>" ∧ d.nodeHtml 4 = "<p>a<br>b</p>" ∧
      (d.find? 4).map (fun t => (d.written t).uncommented.html) = some "<p>a<br>b</p>" ∧
      (d.copy? 4).map (fun c => c.2.nodeHtml c.1) = some "<p>a<br></br>b</p>" :=
  ⟨_, rfl, by decide +kernel, by decide +kernel, by decide +kernel⟩

end Document

end MarkupTemplate
