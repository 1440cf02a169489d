import MarkupTemplate.Proofs.Runs

/-!
# Entries

What edits do to the entries of a document, wherever they are in it: most edits only move them.

* `Tree.Holds`, `Tree.HoldsAll` — all labels of a tree, or of several, have a property.
* `Document.Upholds` — all entries of a document have a property, and new ones have it whatever they
  hold. Every edit keeps that (`Upholds.detach`, `Upholds.append`, …), a change of attributes if it is
  made to a node of which the property says nothing.
-/

namespace MarkupTemplate

/-! ## Labels -/

namespace Tree

variable {α β : Type} {P : α → Prop}

/-- All labels of a tree have a property. -/
def Holds (P : α → Prop) (t : Tree α) : Prop :=
  ∀ a ∈ t.labels, P a

/-- All labels of several trees have a property. -/
def HoldsAll (P : α → Prop) (ts : List (Tree α)) : Prop :=
  ∀ a ∈ labelsList ts, P a

theorem holds_node {a : α} {ts : List (Tree α)} :
    Holds P (.node a ts) ↔ P a ∧ HoldsAll P ts := by
  simp [Holds, HoldsAll, labels]

theorem holdsAll_nil : HoldsAll P ([] : List (Tree α)) := by
  simp [HoldsAll, labelsList]

theorem holdsAll_cons {t : Tree α} {ts : List (Tree α)} :
    HoldsAll P (t :: ts) ↔ Holds P t ∧ HoldsAll P ts := by
  simp only [HoldsAll, Holds, labelsList, List.forall_mem_append]

theorem holdsAll_append {ts us : List (Tree α)} :
    HoldsAll P (ts ++ us) ↔ HoldsAll P ts ∧ HoldsAll P us := by
  simp only [HoldsAll, labelsList_append, List.forall_mem_append]

theorem Holds.label {t : Tree α} (h : Holds P t) : P t.label := by
  cases t
  exact (holds_node.1 h).1

theorem Holds.children {t : Tree α} (h : Holds P t) : HoldsAll P t.children := by
  cases t
  exact (holds_node.1 h).2

theorem Holds.withChildren {t : Tree α} (h : Holds P t) {ts : List (Tree α)}
    (hts : HoldsAll P ts) : Holds P (t.withChildren ts) := by
  cases t
  exact holds_node.2 ⟨h.label, hts⟩

mutual

theorem holds_splice {p : α → Bool} {f : Tree α → List (Tree α)}
    (hf : ∀ t, p t.label = true → Holds P t → HoldsAll P (f t)) :
    ∀ t, Holds P t → Holds P (splice p f t)
  | .node _ ts, h => by
    obtain ⟨ha, hts⟩ := holds_node.1 h
    exact holds_node.2 ⟨ha, holdsAll_spliceList hf ts hts⟩

theorem holdsAll_spliceList {p : α → Bool} {f : Tree α → List (Tree α)}
    (hf : ∀ t, p t.label = true → Holds P t → HoldsAll P (f t)) :
    ∀ ts, HoldsAll P ts → HoldsAll P (spliceList p f ts)
  | [], _ => holdsAll_nil
  | t :: ts, h => by
    obtain ⟨ht, hts⟩ := holdsAll_cons.1 h
    rw [spliceList]
    split
    · rename_i hp
      exact holdsAll_append.2 ⟨hf t hp ht, holdsAll_spliceList hf ts hts⟩
    · exact holdsAll_cons.2 ⟨holds_splice hf t ht, holdsAll_spliceList hf ts hts⟩

end

mutual

theorem holds_update {p : α → Bool} {f : Tree α → Tree α}
    (hf : ∀ t, p t.label = true → Holds P t → Holds P (f t)) :
    ∀ t, Holds P t → Holds P (update p f t)
  | .node a ts, h => by
    rw [update]
    split
    · rename_i hp
      exact hf _ hp h
    · exact holds_node.2 ⟨h.label, holdsAll_updateList hf ts h.children⟩

theorem holdsAll_updateList {p : α → Bool} {f : Tree α → Tree α}
    (hf : ∀ t, p t.label = true → Holds P t → Holds P (f t)) :
    ∀ ts, HoldsAll P ts → HoldsAll P (updateList p f ts)
  | [], _ => holdsAll_nil
  | t :: ts, h => by
    obtain ⟨ht, hts⟩ := holdsAll_cons.1 h
    exact holdsAll_cons.2 ⟨holds_update hf t ht, holdsAll_updateList hf ts hts⟩

end

mutual

theorem holds_find? {p : α → Bool} :
    ∀ {t : Tree α}, Holds P t → ∀ {found : Tree α}, find? p t = some found →
      Holds P found ∧ p found.label = true
  | .node a ts, h, found, hfound => by
    rw [find?] at hfound
    split at hfound
    · rename_i hp
      cases hfound
      exact ⟨h, hp⟩
    · exact holds_findList? h.children hfound

theorem holds_findList? {p : α → Bool} :
    ∀ {ts : List (Tree α)}, HoldsAll P ts → ∀ {found : Tree α}, findList? p ts = some found →
      Holds P found ∧ p found.label = true
  | [], _, _, hfound => nomatch hfound
  | t :: ts, h, found, hfound => by
    obtain ⟨ht, hts⟩ := holdsAll_cons.1 h
    rw [findList?] at hfound
    split at hfound
    · rename_i first hfirst
      cases hfound
      exact holds_find? ht hfirst
    · exact holds_findList? hts hfound

end

mutual

theorem holds_map {Q : β → Prop} {f : α → β} :
    ∀ {t : Tree α}, Holds (fun a => Q (f a)) t → Holds Q (t.map f)
  | .node _ _, h => holds_node.2 ⟨h.label, holdsAll_mapList h.children⟩

theorem holdsAll_mapList {Q : β → Prop} {f : α → β} :
    ∀ {ts : List (Tree α)}, HoldsAll (fun a => Q (f a)) ts → HoldsAll Q (mapList f ts)
  | [], _ => holdsAll_nil
  | _ :: _, h => by
    obtain ⟨ht, hts⟩ := holdsAll_cons.1 h
    exact holdsAll_cons.2 ⟨holds_map ht, holdsAll_mapList hts⟩

end

theorem holdsAll_of_forall {ts : List (Tree α)} (h : ∀ t ∈ ts, Holds P t) : HoldsAll P ts := by
  induction ts with
  | nil => exact holdsAll_nil
  | cons t ts ih =>
    obtain ⟨ht, hts⟩ := List.forall_mem_cons.1 h
    exact holdsAll_cons.2 ⟨ht, ih hts⟩

theorem HoldsAll.holds : ∀ {ts : List (Tree α)}, HoldsAll P ts → ∀ t ∈ ts, Holds P t
  | [], _ => List.forall_mem_nil _
  | _ :: _, h => by
    obtain ⟨ht, hts⟩ := holdsAll_cons.1 h
    exact List.forall_mem_cons.2 ⟨ht, hts.holds⟩

end Tree

mutual

/-- New nodes are numbered from the next identity on, and none is a template. -/
theorem Markup.holds_numbered (next : NodeId) :
    ∀ m : Markup,
      (Markup.numbered next m).1.Holds (fun e => next ≤ e.id ∧ e.content = none) ∧
        next ≤ (Markup.numbered next m).2
  | .node data ts => by
    obtain ⟨holds, after⟩ := Markup.holdsAll_numberedList (next + 1) ts
    have below : Tree.HoldsAll (fun e => next ≤ e.id ∧ e.content = none)
        (Markup.numberedList (next + 1) ts).1 :=
      fun e he => ⟨Nat.le_of_succ_le (holds e he).1, (holds e he).2⟩
    exact ⟨Tree.holds_node.2 ⟨⟨Nat.le_refl next, rfl⟩, below⟩, Nat.le_of_succ_le after⟩

/-- So are several trees. -/
theorem Markup.holdsAll_numberedList (next : NodeId) :
    ∀ ms : List Markup,
      Tree.HoldsAll (fun e => next ≤ e.id ∧ e.content = none) (Markup.numberedList next ms).1 ∧
        next ≤ (Markup.numberedList next ms).2
  | [] => ⟨Tree.holdsAll_nil, Nat.le_refl next⟩
  | m :: ms => by
    obtain ⟨holds, after⟩ := Markup.holds_numbered next m
    obtain ⟨holds', after'⟩ := Markup.holdsAll_numberedList (Markup.numbered next m).2 ms
    have rest : Tree.HoldsAll (fun e => next ≤ e.id ∧ e.content = none)
        (Markup.numberedList (Markup.numbered next m).2 ms).1 :=
      fun e he => ⟨Nat.le_trans after (holds' e he).1, (holds' e he).2⟩
    exact ⟨Tree.holdsAll_cons.2 ⟨holds, rest⟩, Nat.le_trans after after'⟩

end

/-! ## Edits -/

namespace Document

/-- The entries of a document and beside it. -/
def entries (d : Document) : List Entry :=
  Tree.labelsList (d.tree :: d.strays)

/-- A property of entries says nothing of those with an identity. -/
def Free (P : Entry → Prop) (id : NodeId) : Prop :=
  ∀ e : Entry, e.id = id → P e

/-- All entries of a document have a property, which says nothing of those that are not yet made. -/
structure Upholds (P : Entry → Prop) (d : Document) : Prop where
  entries : ∀ e ∈ d.entries, P e
  free : ∀ id, d.nextId ≤ id → Free P id

namespace Upholds

variable {P : Entry → Prop} {d : Document}

theorem of_holds {tree : Tree Entry} {strays : List (Tree Entry)} {nextId : NodeId}
    (htree : tree.Holds P) (hstrays : Tree.HoldsAll P strays)
    (free : ∀ id, nextId ≤ id → Free P id) : Upholds P ⟨tree, strays, nextId⟩ :=
  ⟨Tree.holdsAll_cons.2 ⟨htree, hstrays⟩, free⟩

theorem holds_tree (h : Upholds P d) : d.tree.Holds P :=
  (Tree.holdsAll_cons.1 h.entries).1

theorem holds_strays (h : Upholds P d) : Tree.HoldsAll P d.strays :=
  (Tree.holdsAll_cons.1 h.entries).2

/-- Trees of new entries have the property. -/
theorem holdsAll_new (h : Upholds P d) {ts : List (Tree Entry)}
    (new : Tree.HoldsAll (fun e => d.nextId ≤ e.id) ts) : Tree.HoldsAll P ts :=
  fun e he => h.free e.id (new e he) e rfl

theorem find? (h : Upholds P d) {id : NodeId} {t : Tree Entry} (ht : d.find? id = some t) :
    t.Holds P ∧ t.label.id = id := by
  obtain ⟨holds, hid⟩ := Tree.holds_findList? h.entries ht
  exact ⟨holds, by simpa [hasId] using hid⟩

theorem splice (h : Upholds P d) (id : NodeId) {f : Tree Entry → List (Tree Entry)}
    (hf : ∀ t, t.Holds P → Tree.HoldsAll P (f t)) : Upholds P (d.splice id f) :=
  of_holds (Tree.holds_splice (fun t _ => hf t) _ h.holds_tree)
    (Tree.holdsAll_spliceList (fun t _ => hf t) _ h.holds_strays) h.free

theorem update (h : Upholds P d) (id : NodeId) {f : Tree Entry → Tree Entry}
    (hf : ∀ t, t.label.id = id → t.Holds P → (f t).Holds P) : Upholds P (d.update id f) := by
  have hf' : ∀ t : Tree Entry, hasId id t.label = true → t.Holds P → (f t).Holds P :=
    fun t ht => hf t (by simpa [hasId] using ht)
  exact of_holds (Tree.holds_update hf' _ h.holds_tree)
    (Tree.holdsAll_updateList hf' _ h.holds_strays) h.free

theorem take? (h : Upholds P d) {id : NodeId} {t : Tree Entry} {d' : Document}
    (ht : d.take? id = some (t, d')) : t.Holds P ∧ Upholds P d' := by
  rw [Document.take?] at ht
  split at ht
  · cases ht
  · obtain ⟨t', hfound, heq⟩ := Option.map_eq_some_iff.1 ht
    cases heq
    exact ⟨(h.find? hfound).1, h.splice id fun _ _ => Tree.holdsAll_nil⟩

theorem detach (h : Upholds P d) (id : NodeId) : Upholds P (d.detach id) := by
  rw [Document.detach]
  split
  · rename_i t d' ht
    obtain ⟨holds, h'⟩ := h.take? ht
    exact of_holds h'.holds_tree (Tree.holdsAll_cons.2 ⟨holds, h'.holds_strays⟩) h'.free
  · exact h

theorem append (h : Upholds P d) (parent child : NodeId) : Upholds P (d.append parent child) := by
  rw [Document.append]
  split
  · rename_i t d' ht
    obtain ⟨holds, h'⟩ := h.take? ht
    exact h'.update parent fun p _ hp => hp.withChildren
      (Tree.holdsAll_append.2 ⟨hp.children, Tree.holdsAll_cons.2 ⟨holds, Tree.holdsAll_nil⟩⟩)
  · exact h

theorem insertBefore (h : Upholds P d) (anchor moved : NodeId) :
    Upholds P (d.insertBefore anchor moved) := by
  rw [Document.insertBefore]
  split
  · exact h.detach moved
  · split
    · rename_i t d' ht
      obtain ⟨holds, h'⟩ := h.take? ht
      exact h'.splice anchor fun a ha =>
        Tree.holdsAll_cons.2 ⟨holds, Tree.holdsAll_cons.2 ⟨ha, Tree.holdsAll_nil⟩⟩
    · exact h

theorem insertAfter (h : Upholds P d) (anchor moved : NodeId) :
    Upholds P (d.insertAfter anchor moved) := by
  rw [Document.insertAfter]
  split
  · exact h.insertBefore _ moved
  · exact h.append _ moved
  · exact h

/-- Edits made one after the other. -/
theorem foldl {β : Type} {f : Document → β → Document}
    (hf : ∀ d b, Upholds P d → Upholds P (f d b)) :
    ∀ (bs : List β) (d : Document), Upholds P d → Upholds P (bs.foldl f d)
  | [], _, h => h
  | b :: bs, d, h => foldl hf bs (f d b) (hf d b h)

theorem clear (h : Upholds P d) (id : NodeId) : Upholds P (d.clear id) :=
  foldl (fun _ c h => h.detach c) _ d h

theorem adopt (h : Upholds P d) (m : Markup) : Upholds P (d.adopt m).2 := by
  obtain ⟨new, after⟩ := Markup.holds_numbered d.nextId m
  refine of_holds h.holds_tree (Tree.holdsAll_cons.2 ⟨?_, h.holds_strays⟩)
    fun id hid => h.free id (Nat.le_trans after hid)
  exact fun e he => h.free e.id (new e he).1 e rfl

/-- A copy is a node of which the property says nothing. -/
theorem copy? (h : Upholds P d) {id copy : NodeId} {d' : Document}
    (hcopy : d.copy? id = some (copy, d')) : Free P copy ∧ Upholds P d' := by
  obtain ⟨m, -, heq⟩ := Option.map_eq_some_iff.1 hcopy
  cases heq
  exact ⟨h.free _ (Nat.le_refl _), h.adopt m⟩

theorem insertNodes (h : Upholds P d) (target : NodeId) (nodes : List NodeId) (mode : InsertMode) :
    Upholds P (d.insertNodes target nodes mode) := by
  have appended : ∀ {d}, Upholds P d →
      Upholds P (nodes.foldl (fun d n => d.append target n) d) :=
    fun h => foldl (fun _ n h => h.append target n) _ _ h
  cases mode with
  | replace => exact appended (h.clear target)
  | append => exact appended h
  | prepend =>
    rw [Document.insertNodes]
    split
    · exact foldl (fun _ n h => h.insertBefore _ n) _ _ h
    · exact appended h

theorem insertText (h : Upholds P d) (target : NodeId) (text : String) (mode : InsertMode) :
    Upholds P (d.insertText target text mode) :=
  (h.adopt (.node (.text text) [])).insertNodes target [d.nextId] mode

theorem graft (h : Upholds P d) (text : String) : Upholds P (d.graft text).2 := by
  refine of_holds h.holds_tree (Tree.holdsAll_append.2 ⟨?_, h.holds_strays⟩) fun id hid =>
    h.free id (Nat.le_trans (Nat.le_add_left _ _) hid)
  refine h.holdsAll_new (Tree.holdsAll_of_forall fun t ht => ?_)
  obtain ⟨n, -, rfl⟩ := List.mem_map.1 ht
  exact Tree.holds_map fun e _ => Nat.le_add_left _ _

theorem insertMarkup (h : Upholds P d) (target : NodeId) (text : String) (mode : InsertMode) :
    Upholds P (d.insertMarkup target text mode) := by
  rw [Document.insertMarkup]
  refine insertNodes ?_ target _ mode
  refine foldl (fun _ n h => h.append d.nextId n) _ _ ?_
  exact (h.adopt (.node (.element ⟨.unknown, "div"⟩ []) [])).graft _

/-- Attributes are changed of a node of which the property says nothing. -/
theorem mapAttributes (h : Upholds P d) {id : NodeId} (free : Free P id)
    (f : List Attribute → List Attribute) : Upholds P (d.mapAttributes id f) := by
  refine h.update id fun t hid ht => ?_
  cases t
  exact Tree.holds_node.2 ⟨free _ hid, ht.children⟩

/-- A renamed node is a new one. -/
theorem rename (h : Upholds P d) (id : NodeId) (name : String) :
    Free P (d.rename id name).1 ∧ Upholds P (d.rename id name).2 := by
  have free : Free P d.nextId := h.free _ (Nat.le_refl _)
  have next : Upholds P { d with nextId := d.nextId + 1 } :=
    ⟨h.entries, fun id hid => h.free id (Nat.le_of_succ_le hid)⟩
  refine ⟨free, (next.splice id fun t ht => ?_).detach id⟩
  exact Tree.holdsAll_cons.2 ⟨Tree.holds_node.2 ⟨free _ rfl, ht.children⟩,
    Tree.holdsAll_cons.2 ⟨ht.withChildren Tree.holdsAll_nil, Tree.holdsAll_nil⟩⟩

theorem unwrap (h : Upholds P d) (id : NodeId) : Upholds P (d.unwrap id) :=
  (h.splice id fun _ ht => Tree.holdsAll_append.2 ⟨ht.children,
    Tree.holdsAll_cons.2 ⟨ht.withChildren Tree.holdsAll_nil, Tree.holdsAll_nil⟩⟩).detach id

/-- A copy gets the space that is before the nodes around it. -/
theorem indent (h : Upholds P d) (id : NodeId) : Upholds P (WorkingList.indent d id) := by
  rw [WorkingList.indent]
  split
  · exact h
  · split
    · exact h
    · split
      · exact (h.adopt (.node _ [])).insertBefore id d.nextId
      · exact h

end Upholds

/-! ## Reading -/

end Document

end MarkupTemplate
