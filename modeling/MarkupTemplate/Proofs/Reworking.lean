import MarkupTemplate.Proofs.Entries
import MarkupTemplate.Proofs.ListFilling

/-!
# Reworked trees

What a slot of nodes becomes when a value is applied to them, one after the other: the tree of the
document is the one that there was, with something done to each of its nodes, whichever nodes are
inside of others.

* `Rework` — what becomes of the nodes of a tree, by the entry that each had; `Rework.further` — what
  becomes of some of them after that.
* `Rework.update_tree` — an edit of one node of a reworked tree is a further rework.
* `Document.Changed`, `Document.Reworked` — one node of a document was changed, and its tree was
  reworked.
* `Rendering.Reworks` — a job changes the node that it is done to.
* `Rendering.runFrom_fillAttached` — such a job, done to a slot, reworks the nodes of the slot. A node
  that has left the document is passed over, and nothing of it is left in the tree.
-/

namespace MarkupTemplate

open MarkupTemplate.Document (hasId ids Unmarked)
open MarkupTemplate.Tree (labelsList updateList)

/-- What becomes of the nodes of a tree, by the entry that each had: of the entry itself, and of what
has become of the children. -/
structure Rework where
  entry : Entry → Entry
  children : Entry → List (Tree Entry) → List (Tree Entry)

namespace Rework

/-- Nothing becomes of the nodes. -/
def nothing : Rework :=
  ⟨id, fun _ us => us⟩

mutual

/-- A tree that was reworked. -/
def tree (w : Rework) : Tree Entry → Tree Entry
  | .node e ts => .node (w.entry e) (w.children e (trees w ts))

/-- Several trees that were. -/
def trees (w : Rework) : List (Tree Entry) → List (Tree Entry)
  | [] => []
  | t :: ts => tree w t :: trees w ts

end

/-- A single node that was reworked. -/
def node (w : Rework) (u : Tree Entry) : Tree Entry :=
  .node (w.entry u.label) (w.children u.label u.children)

/-- Some nodes are reworked once more, each in a way of its own, if they have kept their identity. -/
def further (w : Rework) (found : List NodeId) (v : NodeId → Rework) : Rework where
  entry e :=
    if e.id ∈ found ∧ (w.entry e).id = e.id then (v e.id).entry (w.entry e) else w.entry e
  children e us :=
    if e.id ∈ found ∧ (w.entry e).id = e.id then (v e.id).children (w.entry e) (w.children e us)
    else w.children e us

/-- What is new in a reworked tree has an identity from a number on, and what is not new is left where
it is or goes with all that is in it. -/
structure Fresh (n : NodeId) (w : Rework) : Prop where
  entry : ∀ e, (w.entry e).id = e.id ∨ n ≤ (w.entry e).id
  children : ∀ e {id f us}, id < n →
    updateList (hasId id) f (w.children e us) = w.children e (updateList (hasId id) f us)

variable {w : Rework} {v : NodeId → Rework} {n id : NodeId} {found : List NodeId}

theorem fresh_nothing (n : NodeId) : Fresh n nothing :=
  ⟨fun _ => .inl rfl, fun _ _ _ _ _ => rfl⟩

theorem Fresh.further (hw : w.Fresh n) (hv : ∀ id, (v id).Fresh n) : (w.further found v).Fresh n where
  entry e := by
    rw [Rework.further]
    dsimp only
    split
    · rename_i h
      rw [← h.2]
      exact (hv _).entry _
    · exact hw.entry e
  children e id f us hid := by
    rw [Rework.further]
    dsimp only
    split
    · rw [(hv _).children _ hid, hw.children _ hid]
    · exact hw.children _ hid

section Further

variable {e : Entry}

theorem entry_further_pos (h : e.id ∈ found ∧ (w.entry e).id = e.id) :
    (w.further found v).entry e = (v e.id).entry (w.entry e) :=
  if_pos h

theorem entry_further_neg (h : ¬ (e.id ∈ found ∧ (w.entry e).id = e.id)) :
    (w.further found v).entry e = w.entry e :=
  if_neg h

theorem children_further_pos (h : e.id ∈ found ∧ (w.entry e).id = e.id) (us : List (Tree Entry)) :
    (w.further found v).children e us = (v e.id).children (w.entry e) (w.children e us) :=
  if_pos h

theorem children_further_neg (h : ¬ (e.id ∈ found ∧ (w.entry e).id = e.id))
    (us : List (Tree Entry)) : (w.further found v).children e us = w.children e us :=
  if_neg h

end Further

theorem entry_further_nothing (v : NodeId → Rework) (found : List NodeId) (e : Entry) :
    (nothing.further found v).entry e = if e.id ∈ found then (v e.id).entry e else e := by
  simp [further, nothing]

theorem children_further_nothing (v : NodeId → Rework) (found : List NodeId) (e : Entry)
    (us : List (Tree Entry)) :
    (nothing.further found v).children e us =
      if e.id ∈ found then (v e.id).children e us else us := by
  simp [further, nothing]

theorem further_nil (w : Rework) (v : NodeId → Rework) : w.further [] v = w := by
  simp [further]

/-- One node and then others are reworked. -/
theorem further_cons (hid : id ∉ found) (u : Rework) :
    (w.further [id] fun _ => u).further found v =
      w.further (id :: found) fun i => if i = id then u else v i := by
  have first : ∀ e : Entry, e.id ∈ found → e.id ≠ id := fun e he heq => hid (heq ▸ he)
  rw [further, further, further, mk.injEq]
  refine ⟨funext fun e => ?_, funext fun e => funext fun us => ?_⟩ <;>
  · by_cases he : e.id = id
    · subst he
      simp [hid]
    · simp [he]

mutual

theorem tree_congr {w' : Rework} : ∀ {t : Tree Entry},
    (∀ e ∈ t.labels, w.entry e = w'.entry e ∧ w.children e = w'.children e) →
      w.tree t = w'.tree t
  | .node e ts, h => by
    rw [Tree.labels_node, List.forall_mem_cons] at h
    rw [tree, tree, h.1.1, h.1.2, trees_congr h.2]

/-- A tree is reworked in the same way if its nodes are. -/
theorem trees_congr {w' : Rework} : ∀ {ts : List (Tree Entry)},
    (∀ e ∈ labelsList ts, w.entry e = w'.entry e ∧ w.children e = w'.children e) →
      w.trees ts = w'.trees ts
  | [], _ => rfl
  | t :: ts, h => by
    rw [Tree.labelsList_cons, List.forall_mem_append] at h
    rw [trees, trees, tree_congr h.1, trees_congr h.2]

end

theorem label_tree (w : Rework) (t : Tree Entry) : (w.tree t).label = w.entry t.label := by
  cases t
  rfl

mutual

theorem tree_nothing : ∀ t, nothing.tree t = t
  | .node e ts => congrArg (Tree.node e) (trees_nothing ts)

theorem trees_nothing : ∀ ts, nothing.trees ts = ts
  | [] => rfl
  | t :: ts => by rw [trees, tree_nothing t, trees_nothing ts]

end

mutual

theorem update_tree (hw : w.Fresh n) (hid : id < n) (u : Rework) :
    ∀ t : Tree Entry, t.labels.countP (hasId id) ≤ 1 →
      (w.tree t).update (hasId id) u.node = (w.further [id] fun _ => u).tree t
  | .node e ts, one => by
    rw [Tree.labels_node, List.countP_cons] at one
    rw [tree, tree, Tree.update]
    split
    · -- the node itself, which is not met again below
      rename_i hhere
      have hentry : (w.entry e).id = id := by simpa [hasId] using hhere
      have hself : (w.entry e).id = e.id :=
        (hw.entry e).resolve_right (Nat.not_le.2 (hentry ▸ hid))
      have he : e.id = id := hself.symm.trans hentry
      have below : ∀ a ∈ labelsList ts, a.id ≠ id := by
        rw [if_pos (by simp [hasId, he])] at one
        have absent : (labelsList ts).countP (hasId id) = 0 := by omega
        intro a ha hid'
        have := List.countP_eq_zero.1 absent a ha
        simp [hasId, hid'] at this
      have same : w.trees ts = (w.further [id] fun _ => u).trees ts := by
        refine trees_congr fun a ha => ?_
        simp [further, below a ha]
      rw [← same]
      simp [further, node, he, hentry]
    · -- another node, of which only what is below changes
      rename_i hhere
      have hother : ¬ (e.id ∈ [id] ∧ (w.entry e).id = e.id) := by
        rintro ⟨he, hself⟩
        refine hhere ?_
        rw [hasId, hself, List.mem_singleton.1 he, beq_self_eq_true]
      rw [hw.children _ hid, update_trees hw hid u ts (by omega)]
      simp only [further, if_neg hother]

/-- **A further edit of a node is a further rework,** of nothing if the node is not there any more. -/
theorem update_trees (hw : w.Fresh n) (hid : id < n) (u : Rework) :
    ∀ ts : List (Tree Entry), (labelsList ts).countP (hasId id) ≤ 1 →
      updateList (hasId id) u.node (w.trees ts) = (w.further [id] fun _ => u).trees ts
  | [], _ => rfl
  | t :: ts, one => by
    rw [Tree.labelsList_cons, List.countP_append] at one
    rw [trees, trees, updateList, update_tree hw hid u t (by omega),
      update_trees hw hid u ts (by omega)]

end

end Rework

/-! ## Documents -/

namespace Document

variable {d d' : Document} {id : NodeId} {w u : Rework}

/-- Nodes with some identities carry nothing for the engine, wherever they are. -/
def UnmarkedAt (d : Document) (P : NodeId → Prop) : Prop :=
  ∀ e ∈ d.entries, P e.id → Unmarked e.data.attributes

/-- One node of a document was changed, wherever it is. -/
structure Changed (d : Document) (id : NodeId) (u : Rework) (d' : Document) : Prop where
  tree : d'.tree = d.tree.update (hasId id) u.node
  strays : ∃ gone, d'.strays = gone ++ updateList (hasId id) u.node d.strays
  wellFormed : d'.WellFormed
  unmarked : ∀ P : NodeId → Prop, (∀ id, P id → id < d.nextId) → d.UnmarkedAt P → d'.UnmarkedAt P
  next : d.nextId ≤ d'.nextId

/-- A node below the root of a document. -/
def Holds (d : Document) (id : NodeId) : Prop :=
  id ∈ ids d.tree.children

/-- The tree of a document was reworked, but for its root. What has left it is beside the document,
with what was there before. -/
structure Reworked (d : Document) (w : Rework) (d' : Document) : Prop where
  tree : d'.tree = w.tree d.tree
  root : w.entry d.tree.label = d.tree.label
  strays : ∃ gone, d'.strays = gone ++ d.strays
  wellFormed : d'.WellFormed
  unmarked : d'.UnmarkedAt d.Holds
  next : d.nextId ≤ d'.nextId

/-- A node below the root is neither the root nor beside the document. -/
theorem WellFormed.apart (h : d.WellFormed) (hid : d.Holds id) :
    id ≠ d.root ∧ id ∉ ids d.strays ∧ id < d.nextId := by
  have nodup := h.nodup
  rw [ids_cons, List.nodup_cons, List.mem_append, not_or, List.nodup_append] at nodup
  refine ⟨?_, fun hstray => nodup.2.2.2 id hid id hstray rfl, h.known id ?_⟩
  · rintro rfl
    exact nodup.1.1 hid
  · rw [ids_cons]
    exact List.mem_cons_of_mem _ (List.mem_append_left _ hid)

/-- An entry with an identity that the tree has is in the tree. -/
theorem WellFormed.mem_labels (h : d.WellFormed) {e : Entry} (he : e ∈ d.entries)
    (hid : e.id ∈ ids [d.tree]) : e ∈ d.tree.labels := by
  have nodup := h.nodup
  rw [show d.tree :: d.strays = [d.tree] ++ d.strays from rfl, ids_append, List.nodup_append]
    at nodup
  rw [entries, Tree.labelsList_cons, List.mem_append] at he
  exact he.resolve_right fun hstray => nodup.2.2 e.id hid e.id (List.mem_map_of_mem hstray) rfl

/-- A document is its own rework. -/
theorem reworked_nothing (wellFormed : d.WellFormed)
    (unmarked : d.tree.Holds fun e => Unmarked e.data.attributes) : d.Reworked .nothing d where
  tree := (Rework.tree_nothing d.tree).symm
  root := rfl
  strays := ⟨[], rfl⟩
  wellFormed := wellFormed
  unmarked e he hid := unmarked e (wellFormed.mem_labels he (by
    rw [ids_cons]
    exact List.mem_cons_of_mem _ (List.mem_append_left _ hid)))
  next := Nat.le_refl _

theorem WellFormed.countP_tree_le_one (h : d.WellFormed) (id : NodeId) :
    d.tree.labels.countP (hasId id) ≤ 1 := by
  have one := h.countP_hasId_le_one id
  rw [Tree.labelsList_cons, List.countP_append] at one
  omega

/-- What is found has the identity that was looked for. -/
theorem find?_mem_entries {t : Tree Entry} (h : d.find? id = some t) :
    t.label ∈ d.entries ∧ t.label.id = id := by
  obtain ⟨holds, hid⟩ := Tree.holds_findList? (P := (· ∈ d.entries)) (fun _ ha => ha) h
  exact ⟨holds.label, by simpa [hasId] using hid⟩

/-- An attached node is found. -/
theorem exists_find?_of_isAttached (h : d.isAttached id = true) : ∃ t, d.find? id = some t := by
  rw [isAttached, home?] at h
  cases hhome : (d.tree :: d.strays).findSome? fun t => (t.pathTo? (hasId id)).map fun p => (t, p) with
  | none =>
    rw [hhome] at h
    cases h
  | some home =>
    obtain ⟨t, ht, hpath⟩ := List.exists_of_findSome?_eq_some hhome
    refine Option.ne_none_iff_exists'.1 fun habsent => ?_
    have absent := (Tree.findList?_eq_none_iff _).1 habsent
    have here : t.labels.countP (hasId id) = 0 := by
      obtain ⟨before, after, hsplit⟩ := List.append_of_mem ht
      rw [hsplit, Tree.labelsList_append, Tree.labelsList_cons, List.countP_append,
        List.countP_append] at absent
      omega
    rw [Tree.pathTo?_of_absent t here] at hpath
    cases hpath

/-- Below a root that is a document node, every node is attached. -/
theorem absent_of_not_isAttached (hroot : d.tree.label.data = .document) (hid : id ≠ d.root)
    (h : d.isAttached id = false) : d.tree.labels.countP (hasId id) = 0 := by
  rw [← Tree.find?_eq_none_iff]
  refine Decidable.byContradiction fun hfound => ?_
  obtain ⟨p, hp⟩ : ∃ p, d.tree.pathTo? (hasId id) = some p := by
    rw [← Option.isSome_iff_exists, Tree.isSome_pathTo?]
    exact Option.ne_none_iff_isSome.1 hfound
  have home : d.home? id = some (d.tree, p) := by
    rw [home?, List.findSome?_cons, hp]
    rfl
  have passes : passesDocument p d.tree = true := by
    cases p with
    | nil =>
      refine absurd ?_ hid
      obtain ⟨⟨e, ts⟩, strays, next⟩ := d
      rw [Tree.pathTo?] at hp
      split at hp
      · rename_i he
        exact (beq_iff_eq.1 he).symm
      · obtain ⟨j, rest, hpath, -⟩ := Tree.at?_refillAll [] ts 0 hp
        cases hpath
    | cons i p =>
      rw [passesDocument, hroot]
      rfl
  rw [isAttached, home] at h
  simp [passes] at h

/-- **A change of one node is a further rework,** also if the node is not in the tree any more. -/
theorem Reworked.changed {d'' : Document} (h : d.Reworked w d') (wellFormed : d.WellFormed)
    (hid : d.Holds id) (fresh : w.Fresh d.nextId) (change : d'.Changed id u d'') :
    d.Reworked (w.further [id] fun _ => u) d'' where
  tree := by
    rw [change.tree, h.tree]
    exact Rework.update_tree fresh (wellFormed.apart hid).2.2 u d.tree
      (wellFormed.countP_tree_le_one id)
  root := by
    have hroot : d.tree.label.id ∉ [id] := fun hmem =>
      (wellFormed.apart hid).1 (List.mem_singleton.1 hmem).symm
    rw [Rework.entry_further_neg fun h => hroot h.1, h.root]
  strays := by
    obtain ⟨gone, hgone⟩ := h.strays
    obtain ⟨gone', hgone'⟩ := change.strays
    refine ⟨gone' ++ updateList (hasId id) u.node gone, ?_⟩
    rw [hgone', hgone, Tree.updateList_append,
      Tree.updateList_of_absent _ d.strays (countP_hasId_eq_zero.2 (wellFormed.apart hid).2.1),
      List.append_assoc]
  wellFormed := change.wellFormed
  unmarked := change.unmarked d.Holds
    (fun _ hid => Nat.lt_of_lt_of_le (wellFormed.apart hid).2.2 h.next) h.unmarked
  next := Nat.le_trans h.next change.next

/-- A node that is not in the tree may as well be reworked. -/
theorem Reworked.absent (h : d.Reworked w d') (wellFormed : d.WellFormed) (hid : d.Holds id)
    (fresh : w.Fresh d.nextId) (absent : d'.tree.labels.countP (hasId id) = 0) (u : Rework) :
    d.Reworked (w.further [id] fun _ => u) d' where
  tree := by
    rw [← Rework.update_tree fresh (wellFormed.apart hid).2.2 u d.tree
      (wellFormed.countP_tree_le_one id), ← h.tree]
    exact (Tree.update_of_absent _ _ absent).symm
  root := by
    have hroot : d.tree.label.id ∉ [id] := fun hmem =>
      (wellFormed.apart hid).1 (List.mem_singleton.1 hmem).symm
    rw [Rework.entry_further_neg fun h => hroot h.1, h.root]
  strays := h.strays
  wellFormed := h.wellFormed
  unmarked := h.unmarked
  next := h.next

end Document

/-! ## Slots -/

namespace Rendering

open Document

variable {settings : Settings} {here : Situation} {job : Job} {v : NodeId → Rework}

/-- A job that changes the node that it is done to, in a way that depends on the next identity. -/
def Reworks (settings : Settings) (here : Situation) (job : Job) (v : NodeId → Rework) : Prop :=
  ∀ {r : Rendering} {id : NodeId} {t : Tree Entry}, r.page.document.WellFormed →
    r.page.document.find? id = some t → Unmarked t.label.data.attributes →
    r.page.document.isAttached id = true → id ≠ r.page.document.root →
    ∃ d touched, (fillNode settings job here id).runFrom r =
        (.ok (), { r with page.document := d, touched := touched }) ∧
      r.page.document.Changed id (v r.page.document.nextId) d

/-- **A job done to a slot reworks the nodes of the slot,** each in a way that depends on an identity
which was not given before. -/
theorem runFrom_fillAttached {d : Document} (wellFormed : d.WellFormed)
    (document : d.tree.label.data = .document) (hjob : Reworks settings here job v)
    (hv : ∀ id, d.nextId ≤ id → (v id).Fresh d.nextId) :
    ∀ {slot : List NodeId} {w : Rework} {r : Rendering}, slot.Nodup → (∀ id ∈ slot, d.Holds id) →
      w.Fresh d.nextId → d.Reworked w r.page.document →
      ∃ (new : NodeId → NodeId) (d' : Document) (touched : List NodeId),
        (fillAttached settings job here slot).runFrom r =
          (.ok (), { r with page.document := d', touched := touched }) ∧
        (∀ id, d.nextId ≤ new id) ∧ d.Reworked (w.further slot fun id => v (new id)) d'
  | [], w, r, _, _, _, h => by
    refine ⟨fun _ => d.nextId, r.page.document, r.touched, rfl, fun _ => Nat.le_refl _, ?_⟩
    rwa [Rework.further_nil]
  | id :: slot, w, r, nodup, holds, fresh, h => by
    obtain ⟨hnot, nodup⟩ := List.nodup_cons.1 nodup
    obtain ⟨hid, holds⟩ := List.forall_mem_cons.1 holds
    -- the nodes after the first one, once that one was reworked
    have rest : ∀ {r' : Rendering} {n : NodeId}, d.nextId ≤ n →
        d.Reworked (w.further [id] fun _ => v n) r'.page.document →
        ∃ (new : NodeId → NodeId) (d' : Document) (touched : List NodeId),
          (fillAttached settings job here slot).runFrom r' =
            (.ok (), { r' with page.document := d', touched := touched }) ∧
          (∀ id, d.nextId ≤ new id) ∧
          d.Reworked (w.further (id :: slot) fun id => v (new id)) d' := by
      intro r' n hn h'
      obtain ⟨new, d', touched, hrun, hnew, hreworked⟩ :=
        runFrom_fillAttached wellFormed document hjob hv nodup holds
          (fresh.further fun _ => hv n hn) h'
      refine ⟨fun i => if i = id then n else new i, d', touched, hrun, fun i => ?_, ?_⟩
      · dsimp only
        split
        · exact hn
        · exact hnew i
      · rw [Rework.further_cons hnot] at hreworked
        simpa only [apply_ite v] using hreworked
    have hroot : r.page.document.tree.label = d.tree.label := by
      rw [h.tree, Rework.label_tree, h.root]
    have hdoc : (Rendering.document).runFrom r = (.ok r.page.document, r) := rfl
    change ∃ new d' touched, ((do
      if (← Rendering.document).isAttached id then fillNode settings job here id) >>= fun _ =>
        fillAttached settings job here slot).runFrom r = _ ∧ _
    cases hattached : r.page.document.isAttached id with
    | false =>
      have skip : (do
          if (← Rendering.document).isAttached id then fillNode settings job here id).runFrom r =
            (.ok (), r) := by
        rw [Action.runFrom_bind_ok hdoc, hattached]
        rfl
      have absent := absent_of_not_isAttached (by rw [hroot, document])
        (by rw [Document.root, hroot]; exact (wellFormed.apart hid).1) hattached
      obtain ⟨new, d', touched, hrun, hnew, hreworked⟩ := rest (Nat.le_refl _)
        (h.absent wellFormed hid fresh absent (v d.nextId))
      exact ⟨new, d', touched, (Action.runFrom_bind_ok skip).trans hrun, hnew, hreworked⟩
    | true =>
      obtain ⟨t, ht⟩ := exists_find?_of_isAttached hattached
      obtain ⟨label, hlabel⟩ := find?_mem_entries ht
      obtain ⟨d₁, touched₁, hfill, change⟩ := hjob h.wellFormed ht
        (h.unmarked t.label label (hlabel ▸ hid)) hattached
        (by rw [Document.root, hroot]; exact (wellFormed.apart hid).1)
      have fill : (do
          if (← Rendering.document).isAttached id then fillNode settings job here id).runFrom r =
            (.ok (), { r with page.document := d₁, touched := touched₁ }) := by
        rw [Action.runFrom_bind_ok hdoc, hattached]
        exact hfill
      obtain ⟨new, d', touched, hrun, hnew, hreworked⟩ := @rest
        { r with page.document := d₁, touched := touched₁ } _ h.next
        (h.changed wellFormed hid fresh change)
      exact ⟨new, d', touched, (Action.runFrom_bind_ok fill).trans hrun, hnew, hreworked⟩

end Rendering

end MarkupTemplate
