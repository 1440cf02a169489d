import MarkupTemplate.Proofs.Homes
import MarkupTemplate.Proofs.Reworking

/-!
# Rows

Documents as tables: every node with what it holds and the identities of its children. Two documents
with the same rows, in whatever order, are told apart by nothing but the order of their strays.

* `Row`, `rowsOfAll`, `Document.rows` — the rows of trees, and of a document.
* `rowsOfAll_spliceList`, `rowsOfAll_updateList` — what replacing a node, or changing it, does to the
  rows.
* `Document.label?` — what a node holds, whatever is below it.
* `WellFormed.find?_of_mem_rows` — a node is found as its row says.
* `Document.beside` — a document with more trees beside it.
-/

namespace MarkupTemplate

namespace Tree

variable {α : Type} {p : α → Bool}

theorem label_splice (f : Tree α → List (Tree α)) (t : Tree α) : (splice p f t).label = t.label := by
  cases t
  rw [splice, label_node, label_node]

theorem find?_of_label {t : Tree α} (h : p t.label = true) : find? p t = some t := by
  obtain ⟨a, ts⟩ := t
  rw [label_node] at h
  rw [find?, if_pos h]

end Tree

open MarkupTemplate.Tree (labelsList)

/-- A node: what it holds, and the identities of its children in order. -/
structure Row where
  entry : Entry
  children : List NodeId
deriving DecidableEq

/-- The identity of the node. -/
def Row.id (r : Row) : NodeId :=
  r.entry.id

/-- The identities of the roots of several trees. -/
def rootIds (ts : List (Tree Entry)) : List NodeId :=
  ts.map fun t => t.label.id

@[simp] theorem rootIds_nil : rootIds [] = [] :=
  rfl

@[simp] theorem rootIds_cons (t : Tree Entry) (ts : List (Tree Entry)) :
    rootIds (t :: ts) = t.label.id :: rootIds ts :=
  rfl

@[simp] theorem rootIds_append (ts us : List (Tree Entry)) :
    rootIds (ts ++ us) = rootIds ts ++ rootIds us := by
  simp [rootIds]

/-- The row of the root of a tree. -/
def rootRow (t : Tree Entry) : Row :=
  ⟨t.label, rootIds t.children⟩

theorem rootRow_withChildren (t : Tree Entry) (us : List (Tree Entry)) :
    rootRow (t.withChildren us) = ⟨t.label, rootIds us⟩ := by
  rw [rootRow, Tree.label_withChildren, Tree.children_withChildren]

mutual

/-- The rows of the nodes of a tree, in document order. -/
def rowsOf : Tree Entry → List Row
  | .node e ts => ⟨e, rootIds ts⟩ :: rowsOfAll ts

/-- The rows of the nodes of several trees. -/
def rowsOfAll : List (Tree Entry) → List Row
  | [] => []
  | t :: ts => rowsOf t ++ rowsOfAll ts

end

@[simp] theorem rowsOfAll_nil : rowsOfAll [] = [] := by
  rw [rowsOfAll]

@[simp] theorem rowsOfAll_cons (t : Tree Entry) (ts : List (Tree Entry)) :
    rowsOfAll (t :: ts) = rowsOf t ++ rowsOfAll ts := by
  rw [rowsOfAll]

theorem rowsOf_node (e : Entry) (ts : List (Tree Entry)) :
    rowsOf (.node e ts) = ⟨e, rootIds ts⟩ :: rowsOfAll ts := by
  rw [rowsOf]

theorem rowsOf_eq (t : Tree Entry) : rowsOf t = rootRow t :: rowsOfAll t.children := by
  cases t
  rw [rowsOf_node]
  rfl

@[simp] theorem rowsOfAll_append (ts us : List (Tree Entry)) :
    rowsOfAll (ts ++ us) = rowsOfAll ts ++ rowsOfAll us := by
  induction ts with
  | nil => simp
  | cons t ts ih => simp [ih]

mutual

theorem map_entry_rowsOf : ∀ t : Tree Entry, (rowsOf t).map Row.entry = t.labels
  | .node e ts => by
    rw [rowsOf_node, Tree.labels_node, List.map_cons, map_entry_rowsOfAll ts]

/-- There is one row for each node. -/
theorem map_entry_rowsOfAll :
    ∀ ts : List (Tree Entry), (rowsOfAll ts).map Row.entry = labelsList ts
  | [] => by simp
  | t :: ts => by
    rw [rowsOfAll_cons, Tree.labelsList_cons, List.map_append, map_entry_rowsOf t,
      map_entry_rowsOfAll ts]

end

theorem map_id_rowsOfAll (ts : List (Tree Entry)) : (rowsOfAll ts).map Row.id = Document.ids ts := by
  rw [Document.ids, ← map_entry_rowsOfAll, List.map_map]
  rfl

theorem rootIds_sublist : ∀ ts : List (Tree Entry), (rootIds ts).Sublist (Document.ids ts)
  | [] => List.Sublist.refl _
  | t :: ts => by
    rw [rootIds_cons, Document.ids_cons]
    exact ((rootIds_sublist ts).trans (List.sublist_append_right _ _)).cons_cons _

theorem rootIds_subset (ts : List (Tree Entry)) : ∀ x ∈ rootIds ts, x ∈ Document.ids ts :=
  fun _ hx => (rootIds_sublist ts).subset hx

theorem exists_row_of_mem_ids {ts : List (Tree Entry)} {x : NodeId} (hx : x ∈ Document.ids ts) :
    ∃ r ∈ rowsOfAll ts, r.id = x := by
  rw [← map_id_rowsOfAll] at hx
  exact List.mem_map.1 hx

theorem rowsOf_subset_of_mem {t : Tree Entry} {ts : List (Tree Entry)} (ht : t ∈ ts) :
    rowsOf t ⊆ rowsOfAll ts := by
  obtain ⟨before, after, rfl⟩ := List.append_of_mem ht
  rw [rowsOfAll_append, rowsOfAll_cons]
  exact List.subset_append_of_subset_right _ (List.subset_append_left _ _)

theorem ids_subset_of_rows {t : Tree Entry} {ts : List (Tree Entry)} (h : rowsOf t ⊆ rowsOfAll ts) :
    Document.ids [t] ⊆ Document.ids ts := by
  intro x hx
  rw [← map_id_rowsOfAll, List.mem_map] at hx ⊢
  obtain ⟨r, hr, rfl⟩ := hx
  rw [rowsOfAll_cons, rowsOfAll_nil, List.append_nil] at hr
  exact ⟨r, h hr, rfl⟩

theorem ids_subset_of_mem {t : Tree Entry} {ts : List (Tree Entry)} (ht : t ∈ ts) :
    Document.ids [t] ⊆ Document.ids ts :=
  ids_subset_of_rows (rowsOf_subset_of_mem ht)

mutual

theorem mem_children_of_mem_ids {x : NodeId} :
    ∀ {t : Tree Entry}, x ∈ Document.ids t.children → ∃ r ∈ rowsOf t, x ∈ r.children
  | .node e ts, hx => by
    rw [rowsOf_node]
    rcases mem_children_of_mem_idsAll hx with hroot | ⟨r, hr, hx⟩
    · exact ⟨_, List.mem_cons_self, hroot⟩
    · exact ⟨r, List.mem_cons_of_mem _ hr, hx⟩

/-- Every node but the roots is a child. -/
theorem mem_children_of_mem_idsAll {x : NodeId} :
    ∀ {ts : List (Tree Entry)}, x ∈ Document.ids ts →
      x ∈ rootIds ts ∨ ∃ r ∈ rowsOfAll ts, x ∈ r.children
  | [], hx => by
    rw [Document.ids_nil] at hx
    cases hx
  | t :: ts, hx => by
    rw [Document.ids_cons, List.mem_cons, List.mem_append] at hx
    rw [rootIds_cons, List.mem_cons, rowsOfAll_cons]
    rcases hx with hx | hx | hx
    · exact .inl (.inl hx)
    · obtain ⟨r, hr, hx⟩ := mem_children_of_mem_ids hx
      exact .inr ⟨r, List.mem_append_left _ hr, hx⟩
    · rcases mem_children_of_mem_idsAll hx with hroot | ⟨r, hr, hx⟩
      · exact .inl (.inr hroot)
      · exact .inr ⟨r, List.mem_append_right _ hr, hx⟩

end

mutual

/-- The rows of a node that is found are among the rows. -/
theorem rowsOf_subset {p : Entry → Bool} {t : Tree Entry} :
    ∀ {u : Tree Entry}, u.find? p = some t → rowsOf t ⊆ rowsOf u
  | .node e ts, found => by
    rw [Tree.find?] at found
    split at found
    · cases found
      exact List.Subset.refl _
    · rw [rowsOf_node]
      exact List.subset_cons_of_subset _ (rowsOfAll_subset found)

theorem rowsOfAll_subset {p : Entry → Bool} {t : Tree Entry} :
    ∀ {us : List (Tree Entry)}, Tree.findList? p us = some t → rowsOf t ⊆ rowsOfAll us
  | [], found => nomatch found
  | u :: us, found => by
    rw [Tree.findList?] at found
    rw [rowsOfAll_cons]
    split at found
    · rename_i hu
      cases found
      exact List.subset_append_of_subset_left _ (rowsOf_subset hu)
    · exact List.subset_append_of_subset_right _ (rowsOfAll_subset found)

end

mutual

/-- The children of a node are below the roots. -/
theorem children_subset_of_mem_rowsOf {r : Row} :
    ∀ {t : Tree Entry}, r ∈ rowsOf t → ∀ x ∈ r.children, x ∈ Document.ids t.children
  | .node e ts, hr, x, hx => by
    rw [rowsOf_node, List.mem_cons] at hr
    rcases hr with rfl | hr
    · exact rootIds_subset ts x hx
    · exact children_subset_of_mem_rowsOfAll hr x hx

theorem children_subset_of_mem_rowsOfAll {r : Row} :
    ∀ {ts : List (Tree Entry)}, r ∈ rowsOfAll ts → ∀ x ∈ r.children, x ∈ Document.ids ts
  | [], hr, _, _ => by
    rw [rowsOfAll_nil] at hr
    cases hr
  | t :: ts, hr, x, hx => by
    rw [rowsOfAll_cons, List.mem_append] at hr
    rw [Document.ids_cons, List.mem_cons, List.mem_append]
    rcases hr with hr | hr
    · exact .inr (.inl (children_subset_of_mem_rowsOf hr x hx))
    · exact .inr (.inr (children_subset_of_mem_rowsOfAll hr x hx))

end

mutual

theorem holds_below {S : NodeId → Prop} :
    ∀ {t : Tree Entry}, (∀ r ∈ rowsOf t, S r.id → ∀ c ∈ r.children, S c) → S t.label.id →
      ∀ x ∈ Document.ids t.children, S x
  | .node e ts, step, hroot => by
    rw [rowsOf_node, List.forall_mem_cons] at step
    exact holds_belowAll step.2 (step.1 hroot)

/-- What every node hands on to its children holds below the roots if it holds of them. -/
theorem holds_belowAll {S : NodeId → Prop} :
    ∀ {ts : List (Tree Entry)}, (∀ r ∈ rowsOfAll ts, S r.id → ∀ c ∈ r.children, S c) →
      (∀ x ∈ rootIds ts, S x) → ∀ x ∈ Document.ids ts, S x
  | [], _, _, x, hx => by
    rw [Document.ids_nil] at hx
    cases hx
  | t :: ts, step, hroots, x, hx => by
    rw [rowsOfAll_cons, List.forall_mem_append] at step
    rw [rootIds_cons, List.forall_mem_cons] at hroots
    rw [Document.ids_cons, List.mem_cons, List.mem_append] at hx
    rcases hx with rfl | hx | hx
    · exact hroots.1
    · exact holds_below step.1 hroots.1 x hx
    · exact holds_belowAll step.2 hroots.2 x hx

end

/-! ## Replaced nodes -/

/-- Nodes in place of a node in a list. -/
def exchanged (a : NodeId) (new : List NodeId) (ns : List NodeId) : List NodeId :=
  ns.flatMap fun n => if n = a then new else [n]

theorem exchanged_append (a : NodeId) (new ms ns : List NodeId) :
    exchanged a new (ms ++ ns) = exchanged a new ms ++ exchanged a new ns :=
  List.flatMap_append

theorem exchanged_cons_self (a : NodeId) (new ns : List NodeId) :
    exchanged a new (a :: ns) = new ++ exchanged a new ns := by
  rw [exchanged, List.flatMap_cons, if_pos rfl]
  rfl

theorem exchanged_cons_of_ne {a n : NodeId} (h : n ≠ a) (new ns : List NodeId) :
    exchanged a new (n :: ns) = n :: exchanged a new ns := by
  rw [exchanged, List.flatMap_cons, if_neg h]
  rfl

/-- Nothing is exchanged where the node is not. -/
theorem exchanged_of_not_mem {a : NodeId} (new : List NodeId) :
    ∀ {ns : List NodeId}, a ∉ ns → exchanged a new ns = ns
  | [], _ => rfl
  | n :: ns, h => by
    rw [List.mem_cons, not_or] at h
    rw [exchanged_cons_of_ne (Ne.symm h.1), exchanged_of_not_mem new h.2]

/-- In place of a node that is once in a list. -/
theorem exchanged_between {a : NodeId} (new : List NodeId) {before after : List NodeId}
    (hbefore : a ∉ before) (hafter : a ∉ after) :
    exchanged a new (before ++ a :: after) = before ++ (new ++ after) := by
  rw [exchanged_append, exchanged_cons_self, exchanged_of_not_mem new hbefore,
    exchanged_of_not_mem new hafter]

/-- With nothing in its place, a node is left out. -/
theorem exchanged_nil (a : NodeId) (ns : List NodeId) :
    exchanged a [] ns = ns.filter (· ≠ a) := by
  induction ns with
  | nil => rfl
  | cons n ns ih =>
    by_cases h : n = a
    · subst h
      rw [exchanged_cons_self, List.nil_append, ih, List.filter_cons_of_neg (by simp)]
    · rw [exchanged_cons_of_ne h, ih, List.filter_cons_of_pos (by simpa using h)]

/-- A row with nodes in place of one of the children. -/
def Row.exchange (a : NodeId) (new : List NodeId) (r : Row) : Row :=
  ⟨r.entry, exchanged a new r.children⟩

theorem Row.exchange_of_not_mem {a : NodeId} (new : List NodeId) {r : Row} (h : a ∉ r.children) :
    r.exchange a new = r := by
  rw [Row.exchange, exchanged_of_not_mem new h]

/-- Rows in which a node is no child stay as they are. -/
theorem map_exchange_of_not_mem {a : NodeId} (new : List NodeId) {rows : List Row}
    (h : ∀ r ∈ rows, a ∉ r.children) : rows.map (Row.exchange a new) = rows := by
  have same : ∀ r ∈ rows, r.exchange a new = r := fun r hr => Row.exchange_of_not_mem new (h r hr)
  rw [List.map_congr_left same, List.map_id']

theorem map_exchange_rowsOfAll {a : NodeId} (new : List NodeId) {ts : List (Tree Entry)}
    (h : a ∉ Document.ids ts) : (rowsOfAll ts).map (Row.exchange a new) = rowsOfAll ts :=
  map_exchange_of_not_mem new fun _ hr ha => h (children_subset_of_mem_rowsOfAll hr a ha)

theorem map_exchange_rowsOf {a : NodeId} (new : List NodeId) {t : Tree Entry}
    (h : a ∉ Document.ids t.children) : (rowsOf t).map (Row.exchange a new) = rowsOf t :=
  map_exchange_of_not_mem new fun _ hr ha => h (children_subset_of_mem_rowsOf hr a ha)

open Document (hasId ids countP_hasId_eq_zero)

section Splice

variable {a : NodeId} {f : Tree Entry → List (Tree Entry)} {u : Tree Entry}

mutual

theorem rowsOf_splice :
    ∀ {t : Tree Entry}, t.labels.countP (hasId a) ≤ 1 → t.label.id ≠ a →
      t.find? (hasId a) = some u →
      (rowsOf (t.splice (hasId a) f) ++ rowsOf u).Perm
        ((rowsOf t).map (Row.exchange a (rootIds (f u))) ++ rowsOfAll (f u))
  | .node e ts, one, other, found => by
    have he : ¬ hasId a e = true := by simpa [hasId] using other
    rw [Tree.labels_node, List.countP_cons, if_neg he] at one
    rw [Tree.find?, if_neg he] at found
    obtain ⟨roots, perm⟩ := rowsOfAll_spliceList (by omega) found
    rw [Tree.splice, rowsOf_node, rowsOf_node, roots, List.map_cons, List.cons_append,
      List.cons_append]
    exact perm.cons _

/-- A node replaced by some trees: its parent has their roots for children in its place, and the rows
below it give way to theirs. -/
theorem rowsOfAll_spliceList :
    ∀ {ts : List (Tree Entry)}, (labelsList ts).countP (hasId a) ≤ 1 →
      Tree.findList? (hasId a) ts = some u →
      rootIds (Tree.spliceList (hasId a) f ts) = exchanged a (rootIds (f u)) (rootIds ts) ∧
        (rowsOfAll (Tree.spliceList (hasId a) f ts) ++ rowsOf u).Perm
          ((rowsOfAll ts).map (Row.exchange a (rootIds (f u))) ++ rowsOfAll (f u))
  | [], _, found => nomatch found
  | t :: ts, one, found => by
    rw [Tree.labelsList_cons, List.countP_append] at one
    rw [Tree.findList?] at found
    rw [rootIds_cons, rowsOfAll_cons, List.map_append]
    by_cases ht : t.label.id = a
    · -- the node is the first of the trees
      have he : hasId a t.label = true := by simpa [hasId] using ht
      rw [Tree.labels_eq, List.countP_cons, if_pos he] at one
      have below : a ∉ ids t.children := countP_hasId_eq_zero.1 (by omega)
      have absent : a ∉ ids ts := countP_hasId_eq_zero.1 (by omega)
      rw [Tree.find?_of_label he] at found
      cases found
      rw [Tree.spliceList_cons f he (countP_hasId_eq_zero.2 absent), rootIds_append,
        rowsOfAll_append, ht, exchanged_cons_self,
        exchanged_of_not_mem _ fun hmem => absent (rootIds_subset ts a hmem),
        map_exchange_rowsOfAll _ absent, map_exchange_rowsOf _ below]
      refine ⟨rfl, List.perm_iff_count.2 fun r => ?_⟩
      simp only [List.count_append]
      omega
    · have he : ¬ hasId a t.label = true := by simpa [hasId] using ht
      rw [Tree.spliceList, if_neg he, rootIds_cons, rowsOfAll_cons, exchanged_cons_of_ne ht,
        Tree.label_splice]
      cases hfind : t.find? (hasId a) with
      | some w =>
        -- it is below the first of the trees
        rw [hfind] at found
        cases found
        obtain ⟨one, absent⟩ := Tree.countP_of_find? one hfind
        have perm := rowsOf_splice one ht hfind
        have absent : a ∉ ids ts := countP_hasId_eq_zero.1 absent
        rw [Tree.spliceList_of_absent f ts (countP_hasId_eq_zero.2 absent),
          exchanged_of_not_mem _ fun hmem => absent (rootIds_subset ts a hmem),
          map_exchange_rowsOfAll _ absent]
        refine ⟨rfl, List.perm_iff_count.2 fun r => ?_⟩
        have count := perm.count_eq r
        simp only [List.count_append] at count ⊢
        omega
      | none =>
        rw [hfind] at found
        have zero := (Tree.find?_eq_none_iff t).1 hfind
        have absent : a ∉ ids t.children := by
          rw [Tree.labels_eq, List.countP_cons] at zero
          exact countP_hasId_eq_zero.1 (by omega)
        obtain ⟨roots, perm⟩ := rowsOfAll_spliceList (by omega) found
        rw [Tree.splice_of_absent f t zero, roots, map_exchange_rowsOf _ absent]
        refine ⟨rfl, List.perm_iff_count.2 fun r => ?_⟩
        have count := perm.count_eq r
        simp only [List.count_append] at count ⊢
        omega

end

end Splice

/-! ## Changed nodes -/

section Change

variable {p : Entry → Bool} {f : Tree Entry → Tree Entry} {u : Tree Entry}

mutual

theorem label_update (hf : ∀ t, (f t).label.id = t.label.id) :
    ∀ t : Tree Entry, (t.update p f).label.id = t.label.id
  | .node e ts => by
    rw [Tree.update]
    split
    · exact hf _
    · rfl

theorem rootIds_updateList (hf : ∀ t, (f t).label.id = t.label.id) :
    ∀ ts : List (Tree Entry), rootIds (Tree.updateList p f ts) = rootIds ts
  | [] => rfl
  | t :: ts => by
    rw [Tree.updateList, rootIds_cons, rootIds_cons, label_update hf t, rootIds_updateList hf ts]

end

mutual

theorem rowsOf_update (hf : ∀ t, (f t).label.id = t.label.id) :
    ∀ {t : Tree Entry}, t.labels.countP p ≤ 1 → t.find? p = some u →
      (rowsOf (t.update p f) ++ rowsOf u).Perm (rowsOf t ++ rowsOf (f u))
  | .node e ts, one, found => by
    rw [Tree.labels_node, List.countP_cons] at one
    rw [Tree.find?] at found
    rw [Tree.update]
    split at found
    · rename_i he
      cases found
      rw [if_pos he]
      exact List.perm_append_comm
    · rename_i he
      rw [if_neg he] at one ⊢
      rw [rowsOf_node, rowsOf_node, rootIds_updateList hf, List.cons_append, List.cons_append]
      exact (rowsOfAll_updateList hf (by omega) found).cons _

/-- A node changed that keeps its identity: its rows give way to those of what it becomes. -/
theorem rowsOfAll_updateList (hf : ∀ t, (f t).label.id = t.label.id) :
    ∀ {ts : List (Tree Entry)}, (labelsList ts).countP p ≤ 1 → Tree.findList? p ts = some u →
      (rowsOfAll (Tree.updateList p f ts) ++ rowsOf u).Perm (rowsOfAll ts ++ rowsOf (f u))
  | [], _, found => nomatch found
  | t :: ts, one, found => by
    rw [Tree.labelsList_cons, List.countP_append] at one
    rw [Tree.findList?] at found
    rw [Tree.updateList, rowsOfAll_cons, rowsOfAll_cons]
    cases hfind : t.find? p with
    | some w =>
      rw [hfind] at found
      cases found
      obtain ⟨one, absent⟩ := Tree.countP_of_find? one hfind
      have perm := rowsOf_update hf one hfind
      rw [Tree.updateList_of_absent f ts absent]
      refine List.perm_iff_count.2 fun r => ?_
      have count := perm.count_eq r
      simp only [List.count_append] at count ⊢
      omega
    | none =>
      rw [hfind] at found
      have perm := rowsOfAll_updateList hf (by omega) found
      rw [Tree.update_of_absent f t ((Tree.find?_eq_none_iff t).1 hfind), List.append_assoc,
        List.append_assoc]
      exact perm.append_left _

end

end Change

/-! ## Documents -/

namespace Document

variable {d d' : Document} {a n : NodeId} {t u : Tree Entry} {r : Row}

/-- The rows of a document and of what is beside it. -/
def rows (d : Document) : List Row :=
  rowsOfAll (d.tree :: d.strays)

/-- What a node holds, and its identity. -/
def label? (d : Document) (n : NodeId) : Option Entry :=
  (d.find? n).map Tree.label

theorem map_id_rows (d : Document) : d.rows.map Row.id = ids (d.tree :: d.strays) :=
  map_id_rowsOfAll _

theorem wellFormed_iff_rows :
    d.WellFormed ↔ (d.rows.map Row.id).Nodup ∧ ∀ r ∈ d.rows, r.id < d.nextId := by
  rw [← List.forall_mem_map (f := Row.id) (P := (· < d.nextId)), map_id_rows]
  exact ⟨fun h => ⟨h.nodup, h.known⟩, fun h => ⟨h.1, h.2⟩⟩

theorem label_id_of_find? (found : d.find? n = some t) : t.label.id = n :=
  (find?_mem_entries found).2

theorem rowsOf_subset_rows (found : d.find? n = some t) : rowsOf t ⊆ d.rows :=
  rowsOfAll_subset found

theorem rootRow_mem_rows (found : d.find? n = some t) : rootRow t ∈ d.rows := by
  apply rowsOf_subset_rows found
  rw [rowsOf_eq]
  exact List.mem_cons_self

theorem find?_eq_none_iff : d.find? n = none ↔ n ∉ ids (d.tree :: d.strays) := by
  rw [find?, Tree.findList?_eq_none_iff, countP_hasId_eq_zero]

theorem exists_find?_iff : (∃ t, d.find? n = some t) ↔ n ∈ ids (d.tree :: d.strays) := by
  rw [← Option.isSome_iff_exists, ← not_iff_not, Option.not_isSome_iff_eq_none, find?_eq_none_iff]

/-- There is one row for each node. -/
theorem WellFormed.eq_of_mem_rows (h : d.WellFormed) {r r' : Row} (hr : r ∈ d.rows)
    (hr' : r' ∈ d.rows) (same : r.id = r'.id) : r = r' :=
  List.inj_on_of_nodup_map (wellFormed_iff_rows.1 h).1 hr hr' same

/-- A node is found as its row says. -/
theorem WellFormed.find?_of_mem_rows (h : d.WellFormed) (hr : r ∈ d.rows) :
    ∃ t, d.find? r.id = some t ∧ rootRow t = r := by
  have known : r.id ∈ ids (d.tree :: d.strays) := by
    rw [← map_id_rows]
    exact List.mem_map_of_mem hr
  obtain ⟨t, found⟩ := exists_find?_iff.2 known
  exact ⟨t, found, h.eq_of_mem_rows (rootRow_mem_rows found) hr (label_id_of_find? found)⟩

theorem children_of_find? (found : d.find? n = some t) : d.children n = rootIds t.children := by
  rw [children, found]
  rfl

theorem children_of_find?_eq_none (none : d.find? n = none) : d.children n = [] := by
  rw [children, none]

theorem label?_of_find? (found : d.find? n = some t) : d.label? n = some t.label := by
  rw [label?, found, Option.map_some]

theorem label?_eq_none_iff : d.label? n = none ↔ d.find? n = none := by
  rw [label?, Option.map_eq_none_iff]

theorem WellFormed.children_of_mem_rows (h : d.WellFormed) (hr : r ∈ d.rows) :
    d.children r.id = r.children := by
  obtain ⟨t, found, rfl⟩ := h.find?_of_mem_rows hr
  exact children_of_find? found

theorem WellFormed.label?_of_mem_rows (h : d.WellFormed) (hr : r ∈ d.rows) :
    d.label? r.id = some r.entry := by
  obtain ⟨t, found, rfl⟩ := h.find?_of_mem_rows hr
  exact label?_of_find? found

/-- A child is a node. -/
theorem mem_ids_of_mem_children (hn : n ∈ d.children a) : n ∈ ids (d.tree :: d.strays) := by
  cases found : d.find? a with
  | none =>
    rw [children_of_find?_eq_none found] at hn
    cases hn
  | some t =>
    rw [children_of_find? found] at hn
    exact children_subset_of_mem_rowsOfAll (rootRow_mem_rows found) n hn

/-! ## Trees beside a document -/

variable {ts : List (Tree Entry)} {next : NodeId}

/-- A document with some more trees beside it. -/
def beside (d : Document) (ts : List (Tree Entry)) (next : NodeId) : Document :=
  { d with strays := ts ++ d.strays, nextId := next }

theorem wellFormed_beside (h : d.WellFormed) (nodup : (ids ts).Nodup) (hle : d.nextId ≤ next)
    (new : ∀ x ∈ ids ts, d.nextId ≤ x ∧ x < next) : (d.beside ts next).WellFormed := by
  have perm : (ids ((d.beside ts next).tree :: (d.beside ts next).strays)).Perm
      (ids ts ++ ids (d.tree :: d.strays)) := by
    refine List.perm_iff_count.2 fun x => ?_
    simp only [beside, ids_cons, ids_append, List.count_cons, List.count_append]
    omega
  constructor
  · refine perm.nodup_iff.2 (List.nodup_append.2 ⟨nodup, h.nodup, ?_⟩)
    rintro x hx _ hold rfl
    exact Nat.not_lt_of_le (new x hx).1 (h.known x hold)
  · intro x hx
    rcases List.mem_append.1 (perm.mem_iff.1 hx) with hnew | hold
    · exact (new x hnew).2
    · exact Nat.lt_of_lt_of_le (h.known x hold) hle

/-- What is in none of the trees is found as it was. -/
theorem find?_beside (hn : n ∉ ids ts) : (d.beside ts next).find? n = d.find? n := by
  rw [find?, find?, beside, Tree.findList?, Tree.findList?, Tree.findList?_append,
    Tree.findList?_of_absent ts (countP_hasId_eq_zero.2 hn), Option.none_or]

/-- What is not in the document is found in the trees. -/
theorem find?_beside_new (hn : n ∉ ids (d.tree :: d.strays)) :
    (d.beside ts next).find? n = Tree.findList? (hasId n) ts := by
  rw [← countP_hasId_eq_zero, Tree.labelsList_cons, List.countP_append] at hn
  rw [find?, beside, Tree.findList?, Tree.find?_of_absent d.tree (by omega), Tree.findList?_append,
    Tree.findList?_of_absent d.strays (by omega), Option.or_none]

/-- What is not in the document has children in the trees only. -/
theorem children_beside_new (hn : n ∉ ids (d.tree :: d.strays)) :
    ∀ c ∈ (d.beside ts next).children n, c ∈ ids ts := by
  intro c hc
  cases found : (d.beside ts next).find? n with
  | none =>
    rw [children_of_find?_eq_none found] at hc
    cases hc
  | some t =>
    rw [children_of_find? found] at hc
    rw [find?_beside_new hn] at found
    have row : rootRow t ∈ rowsOfAll ts := by
      apply rowsOfAll_subset found
      rw [rowsOf_eq]
      exact List.mem_cons_self
    exact children_subset_of_mem_rowsOfAll row c hc

end Document

end MarkupTemplate
