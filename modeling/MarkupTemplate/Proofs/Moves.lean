import MarkupTemplate.Proofs.Rows

/-!
# Moves

Nodes that are moved in a document, one or many, and what becomes of the lists of children.

* `Document.Relinked` — a document with the same nodes, which have other children.
* `relinked_detach`, `relinked_append`, `relinked_insertBefore` — one node is moved.
* `Document.Loose` — nodes that have nothing else below them; every move of one of them to another
  place keeps that.
* `relinked_appendAll`, `relinked_insertAllBefore`, `relinked_clear` — several nodes are moved, one
  after the other.
* `relinked_insertNodes` — nodes are put into an element, in any of the modes.
-/

namespace MarkupTemplate

/-- A row with a node behind the children, if it is the row of another node. -/
def Row.extend (p c : NodeId) (r : Row) : Row :=
  ⟨r.entry, r.children ++ if r.id = p then [c] else []⟩

theorem Row.extend_of_ne {p : NodeId} {r : Row} (h : r.id ≠ p) (c : NodeId) : r.extend p c = r := by
  rw [Row.extend, if_neg h, List.append_nil]

theorem Row.extend_self (r : Row) (c : NodeId) : r.extend r.id c = ⟨r.entry, r.children ++ [c]⟩ := by
  rw [Row.extend, if_pos rfl]

/-- The only row of a node is changed. -/
theorem perm_map_of_replaced {rows rows' : List Row} {r : Row} {g : Row → Row}
    (nodup : (rows.map Row.id).Nodup) (hr : r ∈ rows) (others : ∀ r', r'.id ≠ r.id → g r' = r')
    (perm : (rows' ++ [r]).Perm (rows ++ [g r])) : rows'.Perm (rows.map g) := by
  obtain ⟨before, after, rfl⟩ := List.append_of_mem hr
  rw [List.map_append, List.map_cons, List.nodup_append, List.nodup_cons] at nodup
  obtain ⟨-, ⟨hafter, -⟩, hbefore⟩ := nodup
  have unchanged : ∀ rs : List Row, r.id ∉ rs.map Row.id → rs.map g = rs := by
    intro rs absent
    have same : ∀ r' ∈ rs, g r' = r' := fun r' hr' =>
      others r' fun heq => absent (heq ▸ List.mem_map_of_mem hr')
    rw [List.map_congr_left same, List.map_id']
  rw [List.map_append, List.map_cons, unchanged after hafter,
    unchanged before fun hmem => hbefore _ hmem _ List.mem_cons_self rfl]
  refine List.perm_iff_count.2 fun x => ?_
  have count := perm.count_eq x
  simp only [List.count_append, List.count_cons, List.count_nil] at count ⊢
  omega

/-- New nodes in place of the old ones, before them or after them. -/
def InsertMode.arrange {α : Type} (mode : InsertMode) (new old : List α) : List α :=
  match mode with
  | .replace => new
  | .prepend => new ++ old
  | .append => old ++ new

/-! ## Lists of children -/

section Lists

variable {a c : NodeId} {ns : List NodeId}

/-- Leaving out what is not there changes nothing. -/
theorem filter_ne_of_not_mem (h : c ∉ ns) : ns.filter (· ≠ c) = ns := by
  refine List.filter_eq_self.2 fun n hn => ?_
  exact decide_eq_true fun heq => h (heq ▸ hn)

theorem filter_ne_filter_not_mem (c : NodeId) (ms ns : List NodeId) :
    (ns.filter (· ≠ c)).filter (· ∉ ms) = ns.filter (· ∉ c :: ms) := by
  rw [List.filter_filter]
  refine List.filter_congr fun x _ => ?_
  simp [Bool.and_comm]

theorem exchanged_self (a : NodeId) (ns : List NodeId) : exchanged a [a] ns = ns := by
  induction ns with
  | nil => rfl
  | cons n ns ih =>
    by_cases h : n = a
    · rw [h, exchanged_cons_self, ih]
      rfl
    · rw [exchanged_cons_of_ne h, ih]

theorem mem_of_mem_exchanged {x : NodeId} {new : List NodeId} (h : x ∈ exchanged a new ns) :
    a ∈ ns ∧ x ∈ new ∨ x ∈ ns := by
  obtain ⟨n, hn, hx⟩ := List.mem_flatMap.1 h
  split at hx
  · rename_i heq
    exact .inl ⟨heq ▸ hn, hx⟩
  · rw [List.mem_singleton] at hx
    exact .inr (hx ▸ hn)

/-- A node is not where others took its place. -/
theorem not_mem_exchanged {new : List NodeId} (h : a ∉ new) (ns : List NodeId) :
    a ∉ exchanged a new ns := by
  intro hmem
  obtain ⟨n, -, hn⟩ := List.mem_flatMap.1 hmem
  split at hn
  · exact h hn
  · rename_i hne
    exact hne (List.mem_singleton.1 hn).symm

/-- One node put before another one, and then some more. -/
theorem exchanged_exchanged {ms : List NodeId} (hc : c ∉ ms) (hca : c ≠ a) (ha : a ∉ ms)
    (ns : List NodeId) :
    exchanged a (ms ++ [a]) ((exchanged a [c, a] ns).filter (· ∉ ms)) =
      exchanged a (c :: (ms ++ [a])) (ns.filter (· ∉ ms)) := by
  induction ns with
  | nil => rfl
  | cons n ns ih =>
    by_cases hn : n = a
    · subst hn
      have kept : [c, n].filter (· ∉ ms) = [c, n] := by simp [hc, ha]
      rw [exchanged_cons_self, List.filter_append, exchanged_append, ih, kept,
        exchanged_cons_of_ne hca, exchanged_cons_self, List.filter_cons_of_pos (by simpa using ha),
        exchanged_cons_self, exchanged, List.flatMap_nil, List.append_nil]
    · rw [exchanged_cons_of_ne hn, List.filter_cons, List.filter_cons]
      split
      · rw [exchanged_cons_of_ne hn, exchanged_cons_of_ne hn, ih]
      · exact ih

/-- Nodes put before another one, which is then left out, stand in its place. -/
theorem filter_ne_exchanged {new : List NodeId} (ha : a ∉ new) (ns : List NodeId) :
    (exchanged a (new ++ [a]) ns).filter (· ≠ a) = exchanged a new ns := by
  induction ns with
  | nil => rfl
  | cons n ns ih =>
    by_cases hn : n = a
    · subst hn
      have left : (new ++ [n]).filter (· ≠ n) = new := by
        rw [List.filter_append, filter_ne_of_not_mem ha, List.filter_cons_of_neg (by simp)]
        exact List.append_nil _
      rw [exchanged_cons_self, exchanged_cons_self, List.filter_append, left, ih]
    · rw [exchanged_cons_of_ne hn, exchanged_cons_of_ne hn,
        List.filter_cons_of_pos (by simpa using hn), ih]

end Lists

namespace Document

variable {d d' d₁ d₂ : Document} {a c e p n : NodeId} {t u : Tree Entry}
variable {kids kids' : NodeId → List NodeId}

/-- A document with the same nodes as another one, which hold what they held, but whose children are
given anew. -/
structure Relinked (d d' : Document) (kids : NodeId → List NodeId) : Prop where
  wellFormed : d'.WellFormed
  root : d'.root = d.root
  nextId : d'.nextId = d.nextId
  label? : ∀ n, d'.label? n = d.label? n
  children : ∀ n, d'.children n = kids n

namespace Relinked

theorem refl (h : d.WellFormed) : Relinked d d d.children :=
  ⟨h, rfl, rfl, fun _ => rfl, fun _ => rfl⟩

theorem trans (h : Relinked d d₁ kids) (h' : Relinked d₁ d₂ kids') : Relinked d d₂ kids' where
  wellFormed := h'.wellFormed
  root := h'.root.trans h.root
  nextId := h'.nextId.trans h.nextId
  label? := fun n => (h'.label? n).trans (h.label? n)
  children := h'.children

theorem congr (h : Relinked d d' kids) (same : ∀ n, kids n = kids' n) : Relinked d d' kids' :=
  { h with children := fun n => (h.children n).trans (same n) }

/-- The nodes are the same. -/
theorem mem_ids_iff (h : Relinked d d' kids) :
    n ∈ ids (d'.tree :: d'.strays) ↔ n ∈ ids (d.tree :: d.strays) := by
  have same := h.label? n
  rw [← not_iff_not, ← find?_eq_none_iff, ← find?_eq_none_iff, ← label?_eq_none_iff,
    ← label?_eq_none_iff, same]

/-- A node with the children that it had has the row that it had. -/
theorem mem_rows (h : Relinked d d' kids) {r : Row} (wellFormed : d.WellFormed) (hr : r ∈ d.rows)
    (same : kids r.id = r.children) : r ∈ d'.rows := by
  have entry := (h.label? r.id).trans (wellFormed.label?_of_mem_rows hr)
  obtain ⟨t, found, hlabel⟩ := Option.map_eq_some_iff.1 entry
  have row : rootRow t = r := by
    rw [rootRow, hlabel, ← children_of_find? found, h.children r.id, same]
  exact row ▸ rootRow_mem_rows found

end Relinked

/-- A document is told by its rows, but for the order of what is beside it. -/
theorem relinked_of_rows {f : NodeId → List NodeId → List NodeId} (h : d.WellFormed)
    (root : d'.root = d.root) (nextId : d'.nextId = d.nextId)
    (rows : d'.rows.Perm (d.rows.map fun r => ⟨r.entry, f r.id r.children⟩))
    (unknown : ∀ n, d.find? n = none → f n [] = []) :
    Relinked d d' fun n => f n (d.children n) := by
  have sameIds : (ids (d'.tree :: d'.strays)).Perm (ids (d.tree :: d.strays)) := by
    have perm := rows.map Row.id
    rwa [List.map_map, map_id_rows,
      show Row.id ∘ (fun r : Row => (⟨r.entry, f r.id r.children⟩ : Row)) = Row.id from rfl,
      map_id_rows] at perm
  have wellFormed : d'.WellFormed :=
    ⟨sameIds.nodup_iff.2 h.nodup, fun n hn => nextId ▸ h.known n (sameIds.mem_iff.1 hn)⟩
  have here : ∀ n, d'.label? n = d.label? n ∧ d'.children n = f n (d.children n) := by
    intro n
    cases found : d.find? n with
    | none =>
      have absent : d'.find? n = none := by
        rw [find?_eq_none_iff, sameIds.mem_iff, ← find?_eq_none_iff, found]
      rw [label?_eq_none_iff.2 absent, label?_eq_none_iff.2 found,
        children_of_find?_eq_none absent, children_of_find?_eq_none found, unknown n found]
      exact ⟨rfl, rfl⟩
    | some t =>
      have row := rows.mem_iff.2 (List.mem_map_of_mem (rootRow_mem_rows found))
      obtain rfl := label_id_of_find? found
      exact ⟨(wellFormed.label?_of_mem_rows row).trans (label?_of_find? found).symm,
        (wellFormed.children_of_mem_rows row).trans (by rw [children_of_find? found]; rfl)⟩
  exact ⟨wellFormed, root, nextId, fun n => (here n).1, fun n => (here n).2⟩

/-! ## Rows of edited documents -/

theorem rows_splice (h : d.WellFormed) (hroot : a ≠ d.root) (found : d.find? a = some u)
    (f : Tree Entry → List (Tree Entry)) :
    ((d.splice a f).rows ++ rowsOf u).Perm
      (d.rows.map (Row.exchange a (rootIds (f u))) ++ rowsOfAll (f u)) := by
  have perm := (rowsOfAll_spliceList (f := f) (h.countP_hasId_le_one a) found).2
  have other : ¬ hasId a d.tree.label = true := by
    simpa [hasId, root] using Ne.symm hroot
  rwa [Tree.spliceList, if_neg other] at perm

theorem rows_update (h : d.WellFormed) (found : d.find? a = some u) {f : Tree Entry → Tree Entry}
    (hf : ∀ t, (f t).label.id = t.label.id) :
    ((d.update a f).rows ++ rowsOf u).Perm (d.rows ++ rowsOf (f u)) :=
  rowsOfAll_updateList hf (h.countP_hasId_le_one a) found

/-- The document that a node was taken from, and what is known of it. -/
structure Taken (d : Document) (c : NodeId) (t : Tree Entry) (d₁ : Document) : Prop where
  take? : d.take? c = some (t, d₁)
  root : d₁.root = d.root
  nextId : d₁.nextId = d.nextId
  rows : (d₁.rows ++ rowsOf t).Perm (d.rows.map (Row.exchange c []))

theorem WellFormed.exists_taken (h : d.WellFormed) (hroot : c ≠ d.root)
    (found : d.find? c = some t) : ∃ d₁, Taken d c t d₁ := by
  refine ⟨d.splice c fun _ => [], ?_, ?_, rfl, ?_⟩
  · rw [Document.take?, if_neg hroot, found, Option.map_some]
  · exact congrArg Entry.id (Tree.label_splice _ _)
  · have perm := rows_splice h hroot found fun _ => []
    rwa [rowsOfAll_nil, List.append_nil] at perm

namespace Taken

theorem ids_perm (h : Taken d c t d₁) :
    (ids (d₁.tree :: d₁.strays) ++ ids [t]).Perm (ids (d.tree :: d.strays)) := by
  have perm := h.rows.map Row.id
  rw [List.map_append, map_id_rows, List.map_map,
    show Row.id ∘ Row.exchange c [] = Row.id from rfl, map_id_rows] at perm
  rwa [← map_id_rowsOfAll [t], rowsOfAll_cons, rowsOfAll_nil, List.append_nil]

theorem wellFormed (h : Taken d c t d₁) (wellFormed : d.WellFormed) : d₁.WellFormed := by
  have nodup := h.ids_perm.nodup_iff.2 wellFormed.nodup
  refine ⟨(List.nodup_append.1 nodup).1, fun n hn => ?_⟩
  rw [h.nextId]
  exact wellFormed.known n (h.ids_perm.mem_iff.1 (List.mem_append_left _ hn))

/-- What is not below the node is still there. -/
theorem exists_find? (h : Taken d c t d₁) (hn : n ∈ ids (d.tree :: d.strays)) (other : n ∉ ids [t]) :
    ∃ u, d₁.find? n = some u := by
  refine exists_find?_iff.2 ?_
  rcases List.mem_append.1 (h.ids_perm.mem_iff.2 hn) with there | below
  · exact there
  · exact absurd below other

end Taken

/-! ## One node -/

/-- The root is no child. -/
theorem WellFormed.root_not_mem_children (h : d.WellFormed) (n : NodeId) :
    d.root ∉ d.children n := by
  intro hroot
  have nodup := h.nodup
  rw [ids_cons, List.nodup_cons] at nodup
  refine nodup.1 (List.mem_append.2 ?_)
  cases found : d.find? n with
  | none =>
    rw [children_of_find?_eq_none found] at hroot
    cases hroot
  | some t =>
    rw [children_of_find? found] at hroot
    have row := rootRow_mem_rows found
    rw [rows, rowsOfAll_cons, List.mem_append] at row
    exact row.imp (fun row => children_subset_of_mem_rowsOf row _ hroot)
      fun row => children_subset_of_mem_rowsOfAll row _ hroot

/-- A node put beside the document is no child any more. -/
theorem relinked_detach (h : d.WellFormed) (c : NodeId) :
    Relinked d (d.detach c) fun n => (d.children n).filter (· ≠ c) := by
  by_cases hroot : c = d.root
  · have same : d.detach c = d := by rw [detach, take?, if_pos hroot]
    rw [same]
    exact (Relinked.refl h).congr fun n =>
      (filter_ne_of_not_mem (hroot ▸ h.root_not_mem_children n)).symm
  · cases found : d.find? c with
    | none =>
      have same : d.detach c = d := by rw [detach, take?, if_neg hroot, found, Option.map_none]
      have absent := find?_eq_none_iff.1 found
      rw [same]
      exact (Relinked.refl h).congr fun n =>
        (filter_ne_of_not_mem fun hc => absent (mem_ids_of_mem_children hc)).symm
    | some t =>
      obtain ⟨d₁, taken⟩ := h.exists_taken hroot found
      have moved : d.detach c = { d₁ with strays := t :: d₁.strays } := by rw [detach, taken.take?]
      rw [moved]
      refine relinked_of_rows (f := fun _ ns => ns.filter (· ≠ c)) h taken.root taken.nextId ?_
        fun _ _ => rfl
      have exchange : (fun r : Row => (⟨r.entry, r.children.filter (· ≠ c)⟩ : Row)) =
          Row.exchange c [] := by
        funext r
        rw [Row.exchange, exchanged_nil]
      rw [exchange]
      refine List.Perm.trans ?_ taken.rows
      rw [rows, rows, rowsOfAll_cons, rowsOfAll_cons, rowsOfAll_cons]
      refine List.perm_iff_count.2 fun r => ?_
      simp only [List.count_append]
      omega

/-- A node becomes the last child of another one, which is not below it. -/
theorem relinked_append (h : d.WellFormed) (hroot : c ≠ d.root) (found : d.find? c = some t)
    (there : p ∈ ids (d.tree :: d.strays)) (apart : p ∉ ids [t]) :
    Relinked d (d.append p c) fun n =>
      (d.children n).filter (· ≠ c) ++ if n = p then [c] else [] := by
  obtain ⟨d₁, taken⟩ := h.exists_taken hroot found
  have wellFormed := taken.wellFormed h
  obtain ⟨u, hu⟩ := taken.exists_find? there apart
  have moved : d.append p c = d₁.update p fun u => u.withChildren (u.children ++ [t]) := by
    rw [append, taken.take?]
  have sameRoot : (d.append p c).root = d.root := by
    rw [moved, ← taken.root]
    exact label_update (fun t => by rw [Tree.label_withChildren]) d₁.tree
  have nextId : (d.append p c).nextId = d.nextId := by
    rw [moved]
    exact taken.nextId
  have perm := rows_update wellFormed hu (f := fun u => u.withChildren (u.children ++ [t]))
    fun t => by rw [Tree.label_withChildren]
  obtain rfl := label_id_of_find? hu
  obtain rfl := label_id_of_find? found
  -- all rows but that of the new parent are those of the document without the node
  have replaced : ((d.append u.label.id t.label.id).rows ++ [rootRow u]).Perm
      (d.rows.map (Row.exchange t.label.id []) ++ [(rootRow u).extend u.label.id t.label.id]) := by
    rw [moved]
    refine List.perm_iff_count.2 fun r => ?_
    have count := perm.count_eq r
    have count' := taken.rows.count_eq r
    have last : (rootRow u).extend u.label.id t.label.id =
        ⟨u.label, rootIds u.children ++ [t.label.id]⟩ := Row.extend_self _ _
    rw [rowsOf_eq, rowsOf_eq, rootRow_withChildren, Tree.children_withChildren, rootIds_append,
      rowsOfAll_append] at count
    rw [last]
    simp only [List.count_append, List.count_cons, List.count_nil, rowsOfAll_cons, rowsOfAll_nil,
      rootIds_cons, rootIds_nil] at count count' ⊢
    omega
  have nodup : ((d.rows.map (Row.exchange t.label.id [])).map Row.id).Nodup := by
    rw [List.map_map]
    exact (wellFormed_iff_rows.1 h).1
  have row : rootRow u ∈ d.rows.map (Row.exchange t.label.id []) :=
    taken.rows.mem_iff.1 (List.mem_append_left _ (rootRow_mem_rows hu))
  have rows := perm_map_of_replaced nodup row (fun r hr => Row.extend_of_ne hr _) replaced
  rw [List.map_map] at rows
  refine relinked_of_rows h sameRoot nextId
    (f := fun n ns => ns.filter (· ≠ t.label.id) ++ if n = u.label.id then [t.label.id] else []) ?_ ?_
  · have exchange : (fun r : Row => (⟨r.entry, r.children.filter (· ≠ t.label.id) ++
        if r.id = u.label.id then [t.label.id] else []⟩ : Row)) =
        Row.extend u.label.id t.label.id ∘ Row.exchange t.label.id [] := by
      funext r
      rw [Function.comp_apply, Row.exchange, exchanged_nil]
      rfl
    rw [exchange]
    exact rows
  · intro n absent
    have other : n ≠ u.label.id := fun heq => find?_eq_none_iff.1 absent (heq ▸ there)
    rw [if_neg other]
    rfl

/-- A node becomes the child right before another one, which is not below it. -/
theorem relinked_insertBefore (h : d.WellFormed) (hroot : c ≠ d.root) (found : d.find? c = some t)
    (there : a ∈ ids (d.tree :: d.strays)) (apart : a ∉ ids [t]) (other : a ≠ d.root) :
    Relinked d (d.insertBefore a c) fun n =>
      exchanged a [c, a] ((d.children n).filter (· ≠ c)) := by
  obtain ⟨d₁, taken⟩ := h.exists_taken hroot found
  have wellFormed := taken.wellFormed h
  obtain ⟨u, hu⟩ := taken.exists_find? there apart
  have hne : a ≠ c := by
    intro heq
    rw [ids_cons, label_id_of_find? found, heq] at apart
    exact apart List.mem_cons_self
  have moved : d.insertBefore a c = d₁.splice a fun u => [t, u] := by
    rw [insertBefore, if_neg hne, taken.take?]
  have sameRoot : (d.insertBefore a c).root = d.root := by
    rw [moved, ← taken.root]
    exact congrArg Entry.id (Tree.label_splice _ _)
  have perm := rows_splice wellFormed (taken.root ▸ other) hu fun u => [t, u]
  obtain rfl := label_id_of_find? hu
  obtain rfl := label_id_of_find? found
  have below : u.label.id ∉ ids t.children := by
    rw [ids_cons, ids_nil, List.append_nil, List.mem_cons, not_or] at apart
    exact apart.2
  have rows : (d.insertBefore u.label.id t.label.id).rows.Perm
      ((d.rows.map (Row.exchange t.label.id [])).map
        (Row.exchange u.label.id [t.label.id, u.label.id])) := by
    refine List.Perm.trans ?_ (taken.rows.map _)
    rw [moved, List.map_append, map_exchange_rowsOf _ below]
    refine List.perm_iff_count.2 fun r => ?_
    have count := perm.count_eq r
    simp only [List.count_append, rowsOfAll_cons, rowsOfAll_nil, rootIds_cons, rootIds_nil,
      List.count_nil] at count ⊢
    omega
  have nextId : (d.insertBefore u.label.id t.label.id).nextId = d.nextId := by
    rw [moved]
    exact taken.nextId
  rw [List.map_map] at rows
  refine relinked_of_rows h sameRoot nextId
    (f := fun _ ns => exchanged u.label.id [t.label.id, u.label.id] (ns.filter (· ≠ t.label.id)))
    ?_ fun _ _ => rfl
  have exchange : (fun r : Row => (⟨r.entry, exchanged u.label.id [t.label.id, u.label.id]
      (r.children.filter (· ≠ t.label.id))⟩ : Row)) =
      Row.exchange u.label.id [t.label.id, u.label.id] ∘ Row.exchange t.label.id [] := by
    funext r
    rw [Function.comp_apply, Row.exchange, Row.exchange, exchanged_nil]
  rw [exchange]
  exact rows

/-! ## Nodes that keep to themselves -/

/-- Nodes that can be moved to a place outside of them: no other nodes are below them, and the root is
none of them. -/
structure Loose (d : Document) (S : NodeId → Prop) : Prop where
  wellFormed : d.WellFormed
  root : ¬ S d.root
  closed : ∀ n, S n → ∀ c ∈ d.children n, S c

/-- What is below a node can be moved. -/
theorem loose_below (h : d.WellFormed) (found : d.find? e = some t) :
    Loose d fun n => n ∈ ids t.children where
  wellFormed := h
  root := by
    intro hroot
    obtain ⟨r, hr, hmem⟩ := mem_children_of_mem_ids hroot
    rw [← h.children_of_mem_rows (rowsOf_subset_rows found hr)] at hmem
    exact h.root_not_mem_children _ hmem
  closed := by
    intro n hn c hc
    obtain ⟨r, hr, rfl⟩ := exists_row_of_mem_ids hn
    have row : r ∈ d.rows := by
      apply rowsOf_subset_rows found
      rw [rowsOf_eq]
      exact List.mem_cons_of_mem _ hr
    rw [h.children_of_mem_rows row] at hc
    exact children_subset_of_mem_rowsOfAll hr c hc

namespace Loose

variable {S : NodeId → Prop} {ns : List NodeId}

/-- A node that is none of them is not below them. -/
theorem not_below (h : Loose d S) (hc : S c) (found : d.find? c = some t) (hp : ¬ S p) :
    p ∉ ids [t] := by
  intro below
  rw [ids_cons, ids_nil, List.append_nil, label_id_of_find? found, List.mem_cons] at below
  rcases below with rfl | below
  · exact hp hc
  · refine hp (holds_below (fun r hr hS x hx => ?_) (by rwa [label_id_of_find? found]) p below)
    rw [← h.wellFormed.children_of_mem_rows (rowsOf_subset_rows found hr)] at hx
    exact h.closed r.id hS x hx

theorem ne_root (h : Loose d S) (hc : S c) : c ≠ d.root :=
  fun heq => h.root (heq ▸ hc)

/-- Moves that bring no other node below them. -/
theorem of_relinked (h : Loose d S) (moved : Relinked d d' kids)
    (closed : ∀ n, S n → ∀ c ∈ kids n, S c) : Loose d' S where
  wellFormed := moved.wellFormed
  root := by
    rw [moved.root]
    exact h.root
  closed := fun n hn c hc => closed n hn c (moved.children n ▸ hc)

theorem relinked_append (h : Loose d S) (hc : S c) (known : c ∈ ids (d.tree :: d.strays))
    (hp : ¬ S p) (there : p ∈ ids (d.tree :: d.strays)) :
    Relinked d (d.append p c) fun n =>
      (d.children n).filter (· ≠ c) ++ if n = p then [c] else [] := by
  obtain ⟨t, found⟩ := exists_find?_iff.2 known
  exact Document.relinked_append h.wellFormed (h.ne_root hc) found there (h.not_below hc found hp)

/-- Moved to another node, they still keep to themselves. -/
theorem loose_append (h : Loose d S) (hc : S c) (known : c ∈ ids (d.tree :: d.strays)) (hp : ¬ S p)
    (there : p ∈ ids (d.tree :: d.strays)) : Loose (d.append p c) S := by
  refine h.of_relinked (h.relinked_append hc known hp there) fun n hn x hx => ?_
  have other : n ≠ p := fun heq => hp (heq ▸ hn)
  rw [if_neg other, List.append_nil, List.mem_filter] at hx
  exact h.closed n hn x hx.1

theorem relinked_insertBefore (h : Loose d S) (hc : S c) (known : c ∈ ids (d.tree :: d.strays))
    (ha : ¬ S a) (there : a ∈ ids (d.tree :: d.strays)) (other : a ≠ d.root) :
    Relinked d (d.insertBefore a c) fun n =>
      exchanged a [c, a] ((d.children n).filter (· ≠ c)) := by
  obtain ⟨t, found⟩ := exists_find?_iff.2 known
  exact Document.relinked_insertBefore h.wellFormed (h.ne_root hc) found there
    (h.not_below hc found ha) other

/-- Nodes that become the last children of another one, one after the other. -/
theorem relinked_appendAll (hp : ¬ S p) :
    ∀ {ns : List NodeId} {d : Document}, Loose d S → (∀ n ∈ ns, S n) →
      (∀ n ∈ ns, n ∈ ids (d.tree :: d.strays)) → p ∈ ids (d.tree :: d.strays) → ns.Nodup →
      Relinked d (ns.foldl (fun d n => d.append p n) d) fun n =>
        (d.children n).filter (· ∉ ns) ++ if n = p then ns else []
  | [], d, h, _, _, _, _ => by
    refine (Relinked.refl h.wellFormed).congr fun n => ?_
    simp
  | c :: ns, d, h, hns, known, there, nodup => by
    rw [List.forall_mem_cons] at hns known
    rw [List.nodup_cons] at nodup
    have first := h.relinked_append hns.1 known.1 hp there
    have loose := h.loose_append hns.1 known.1 hp there
    have rest := relinked_appendAll hp loose hns.2
      (fun n hn => first.mem_ids_iff.2 (known.2 n hn)) (first.mem_ids_iff.2 there) nodup.2
    refine (first.trans rest).congr fun n => ?_
    rw [first.children n, List.filter_append, filter_ne_filter_not_mem, List.append_assoc]
    congr 1
    split
    · rw [List.filter_cons_of_pos (by simpa using nodup.1), List.filter_nil]
      rfl
    · rfl

/-- The same for nodes of which some may be unknown, or there twice: the nodes that none of them is
below keep their children. -/
theorem exists_relinked_appendAll (hp : ¬ S p) :
    ∀ {ns : List NodeId} {d : Document}, Loose d S → (∀ n ∈ ns, S n) →
      p ∈ ids (d.tree :: d.strays) →
      ∃ kids, Relinked d (ns.foldl (fun d n => d.append p n) d) kids ∧
        (∀ n, n ≠ p → (∀ c ∈ d.children n, ¬ S c) → kids n = d.children n) ∧
        ∀ n, ∀ c ∈ kids n, c ∈ d.children n ∨ n = p ∧ S c
  | [], d, h, _, _ => ⟨d.children, Relinked.refl h.wellFormed, fun _ _ _ => rfl, fun _ _ => .inl⟩
  | c :: ns, d, h, hns, there => by
    rw [List.forall_mem_cons] at hns
    cases found : d.find? c with
    | none =>
      have unmoved : d.append p c = d := by
        rw [append, take?, if_neg (h.ne_root hns.1), found]
        rfl
      rw [List.foldl_cons, unmoved]
      exact exists_relinked_appendAll hp h hns.2 there
    | some t =>
      have first := h.relinked_append hns.1 (exists_find?_iff.1 ⟨t, found⟩) hp there
      have loose := h.loose_append hns.1 (exists_find?_iff.1 ⟨t, found⟩) hp there
      obtain ⟨kids, rest, same, origin⟩ :=
        exists_relinked_appendAll hp loose hns.2 (first.mem_ids_iff.2 there)
      refine ⟨kids, first.trans rest, fun n hn kept => ?_, fun n x hx => ?_⟩
      · have stays : (d.append p c).children n = d.children n := by
          rw [first.children n, if_neg hn, List.append_nil]
          exact filter_ne_of_not_mem fun hmem => kept c hmem hns.1
        rw [same n hn (stays ▸ kept), stays]
      · rcases origin n x hx with hx | hx
        · rw [first.children n, List.mem_append] at hx
          rcases hx with hx | hx
          · exact .inl (List.mem_filter.1 hx).1
          · split at hx
            · rename_i heq
              exact .inr ⟨heq, List.mem_singleton.1 hx ▸ hns.1⟩
            · cases hx
        · exact .inr hx

/-- Nodes that are put before another one, one after the other. -/
theorem relinked_insertAllBefore (ha : ¬ S a) :
    ∀ {ns : List NodeId} {d : Document}, Loose d S → (∀ n ∈ ns, S n) →
      (∀ n ∈ ns, n ∈ ids (d.tree :: d.strays)) → a ∈ ids (d.tree :: d.strays) → a ≠ d.root →
      ns.Nodup →
      Relinked d (ns.foldl (fun d n => d.insertBefore a n) d) fun n =>
        exchanged a (ns ++ [a]) ((d.children n).filter (· ∉ ns))
  | [], d, h, _, _, _, _, _ => by
    refine (Relinked.refl h.wellFormed).congr fun n => ?_
    rw [List.nil_append, exchanged_self]
    simp
  | c :: ns, d, h, hns, known, there, other, nodup => by
    rw [List.forall_mem_cons] at hns known
    rw [List.nodup_cons] at nodup
    have hca : c ≠ a := fun heq => ha (heq ▸ hns.1)
    have first := h.relinked_insertBefore hns.1 known.1 ha there other
    have loose : Loose (d.insertBefore a c) S := by
      refine h.of_relinked first fun n hn x hx => ?_
      rcases mem_of_mem_exchanged hx with ⟨anchor, -⟩ | hx
      · exact absurd (h.closed n hn a (List.mem_filter.1 anchor).1) ha
      · exact h.closed n hn x (List.mem_filter.1 hx).1
    have rest := relinked_insertAllBefore ha loose hns.2
      (fun n hn => first.mem_ids_iff.2 (known.2 n hn)) (first.mem_ids_iff.2 there)
      (first.root ▸ other) nodup.2
    refine (first.trans rest).congr fun n => ?_
    rw [first.children n, exchanged_exchanged nodup.1 hca (fun hmem => ha (hns.2 a hmem)),
      filter_ne_filter_not_mem]
    rfl

end Loose

/-! ## Parents and children -/

theorem WellFormed.nodup_children (h : d.WellFormed) (n : NodeId) : (d.children n).Nodup := by
  cases found : d.find? n with
  | none =>
    rw [children_of_find?_eq_none found]
    exact List.nodup_nil
  | some t =>
    rw [children_of_find? found]
    have inside := (List.nodup_append.1 (h.within found).nodup).2.1
    rw [ids_nil, List.append_nil] at inside
    exact (rootIds_sublist t.children).nodup inside

/-- A child is there once. -/
theorem WellFormed.not_mem_around (h : d.WellFormed) {before after : List NodeId}
    (split : d.children p = before ++ e :: after) : e ∉ before ∧ e ∉ after := by
  have nodup := h.nodup_children p
  rw [split, List.nodup_append, List.nodup_cons] at nodup
  obtain ⟨-, ⟨hafter, -⟩, disjoint⟩ := nodup
  exact ⟨fun hmem => disjoint e hmem e List.mem_cons_self rfl, hafter⟩

theorem WellFormed.nextSibling?_eq (h : d.WellFormed) {before after : List NodeId}
    (split : d.children p = before ++ e :: after) : d.nextSibling? e = after.head? := by
  have child : e ∈ d.children p := by
    rw [split]
    exact List.mem_append_right _ List.mem_cons_self
  have others : ∀ x ∈ before, (x != e) = true := fun x hx =>
    bne_iff_ne.2 fun heq => (h.not_mem_around split).1 (heq ▸ hx)
  rw [nextSibling?, h.parent?_eq_some_iff.2 child]
  change ((d.children p).dropWhile (· != e))[1]? = _
  rw [split, List.dropWhile_append_of_pos others, List.dropWhile_cons_of_neg (by simp)]
  cases after <;> rfl

/-- A node is not below itself. -/
theorem WellFormed.not_mem_below (h : d.WellFormed) (found : d.find? e = some t) :
    e ∉ ids t.children := by
  have once := (List.nodup_append.1 (h.within found).nodup).2.2 e (mem_aroundIds found)
  rw [ids_nil, List.append_nil] at once
  exact fun hmem => once e hmem rfl

/-- A node is a child of one node only. -/
theorem WellFormed.eq_of_mem_children (h : d.WellFormed) {m : NodeId} (hm : c ∈ d.children m)
    (hn : c ∈ d.children n) : m = n :=
  Option.some.inj ((h.parent?_eq_some_iff.2 hm).symm.trans (h.parent?_eq_some_iff.2 hn))

/-- No other node has the children of a node. -/
theorem WellFormed.filter_not_children (h : d.WellFormed) (hne : n ≠ e) :
    (d.children n).filter (· ∉ d.children e) = d.children n :=
  List.filter_eq_self.2 fun _ hc => decide_eq_true fun hc' => hne (h.eq_of_mem_children hc hc')

theorem filter_not_self (ns : List NodeId) : ns.filter (· ∉ ns) = [] :=
  List.filter_eq_nil_iff.2 fun c hc => by simpa using hc

/-- What has children is a node. -/
theorem mem_ids_of_child (hc : c ∈ d.children n) : n ∈ ids (d.tree :: d.strays) := by
  refine Decidable.byContradiction fun absent => ?_
  rw [children_of_find?_eq_none (find?_eq_none_iff.2 absent)] at hc
  cases hc

/-! ## Nodes put beside the document -/

theorem relinked_detachAll :
    ∀ {ns : List NodeId} {d : Document}, d.WellFormed →
      Relinked d (ns.foldl detach d) fun n => (d.children n).filter (· ∉ ns)
  | [], d, h => by
    refine (Relinked.refl h).congr fun n => ?_
    simp
  | c :: ns, d, h => by
    have first := relinked_detach h c
    refine (first.trans (relinked_detachAll first.wellFormed)).congr fun n => ?_
    rw [first.children n, filter_ne_filter_not_mem]

/-- Nothing is left of the children of a node, and all other nodes have theirs. -/
theorem relinked_clear (h : d.WellFormed) (e : NodeId) :
    Relinked d (d.clear e) fun n => if n = e then [] else d.children n := by
  refine (relinked_detachAll h).congr fun n => ?_
  split
  · rename_i heq
    rw [heq, filter_not_self]
  · rename_i hne
    exact h.filter_not_children hne

/-! ## Nodes put into an element -/

namespace Loose

variable {S : NodeId → Prop} {ns : List NodeId}

/-- **Nodes that are put into an element** are its children instead of the old ones, before them, or
after them, and are taken from where they were. -/
theorem relinked_insertNodes (h : Loose d S) (he : ¬ S e) (there : e ∈ ids (d.tree :: d.strays))
    (kept : ∀ c ∈ d.children e, ¬ S c) (hns : ∀ n ∈ ns, S n)
    (known : ∀ n ∈ ns, n ∈ ids (d.tree :: d.strays)) (nodup : ns.Nodup) (mode : InsertMode) :
    Relinked d (d.insertNodes e ns mode) fun n =>
      if n = e then mode.arrange ns (d.children e) else (d.children n).filter (· ∉ ns) := by
  have old : (d.children e).filter (· ∉ ns) = d.children e :=
    List.filter_eq_self.2 fun c hc => decide_eq_true fun hmem => kept c hc (hns c hmem)
  have appended : Relinked d (ns.foldl (fun d n => d.append e n) d) fun n =>
      if n = e then d.children e ++ ns else (d.children n).filter (· ∉ ns) := by
    refine (relinked_appendAll he h hns known there nodup).congr fun n => ?_
    split
    · rename_i heq
      rw [heq, old]
    · rw [List.append_nil]
  cases mode with
  | append => exact appended
  | replace =>
    have cleared := relinked_clear h.wellFormed e
    have loose : Loose (d.clear e) S := by
      refine h.of_relinked cleared fun n hn c hc => ?_
      have other : n ≠ e := fun heq => he (heq ▸ hn)
      rw [if_neg other] at hc
      exact h.closed n hn c hc
    have filled := relinked_appendAll he loose hns (fun n hn => cleared.mem_ids_iff.2 (known n hn))
      (cleared.mem_ids_iff.2 there) nodup
    refine (cleared.trans filled).congr fun n => ?_
    rw [cleared.children n]
    split
    · rfl
    · rw [List.append_nil]
  | prepend =>
    rw [insertNodes]
    cases first : d.children e with
    | nil =>
      refine appended.congr fun n => ?_
      rw [first, InsertMode.arrange, List.nil_append, List.append_nil]
    | cons f rest =>
      have hf : f ∈ d.children e := first ▸ List.mem_cons_self
      have other : f ≠ d.root := fun heq => h.wellFormed.root_not_mem_children e (heq ▸ hf)
      have nodup' := h.wellFormed.nodup_children e
      rw [first, List.nodup_cons] at nodup'
      refine (relinked_insertAllBefore (kept f hf) h hns known (mem_ids_of_mem_children hf) other
        nodup).congr fun n => ?_
      split
      · rename_i heq
        rw [heq, old, first, exchanged_cons_self, exchanged_of_not_mem _ nodup'.1, List.append_assoc]
        rfl
      · rename_i hne
        refine exchanged_of_not_mem _ fun hmem => hne ?_
        exact h.wellFormed.eq_of_mem_children (List.mem_filter.1 hmem).1 hf

/-- **A node put right after another one** stands there, and is taken from where it was. -/
theorem relinked_insertAfter (h : Loose d S) (hc : S c) (known : c ∈ ids (d.tree :: d.strays))
    (hp : ¬ S p) (he : e ∈ d.children p) (kept : ∀ x ∈ d.children p, ¬ S x) :
    Relinked d (d.insertAfter e c) fun n =>
      exchanged e [e, c] ((d.children n).filter (· ≠ c)) := by
  have parent := h.wellFormed.parent?_eq_some_iff.2 he
  have stays : (d.children p).filter (· ≠ c) = d.children p :=
    filter_ne_of_not_mem fun hmem => kept c hmem hc
  obtain ⟨before, after, split⟩ := List.append_of_mem he
  obtain ⟨hbefore, hafter⟩ := h.wellFormed.not_mem_around split
  rw [insertAfter, h.wellFormed.nextSibling?_eq split, parent]
  have elsewhere : ∀ n x, x ∈ d.children p → n ≠ p → x ∉ (d.children n).filter (· ≠ c) :=
    fun n x hx hne hmem => hne (h.wellFormed.eq_of_mem_children (List.mem_filter.1 hmem).1 hx)
  cases after with
  | nil =>
    refine (h.relinked_append hc known hp (mem_ids_of_child he)).congr fun n => ?_
    by_cases hn : n = p
    · rw [hn, stays, if_pos rfl, split, exchanged_between _ hbefore hafter, List.append_assoc]
      rfl
    · rw [if_neg hn, List.append_nil, exchanged_of_not_mem _ (elsewhere n e he hn)]
  | cons next after =>
    have hnext : next ∈ d.children p := by
      rw [split]
      simp
    have other : next ≠ d.root := fun heq => h.wellFormed.root_not_mem_children p (heq ▸ hnext)
    refine (h.relinked_insertBefore hc known (kept next hnext) (mem_ids_of_mem_children hnext)
      other).congr fun n => ?_
    by_cases hn : n = p
    · have split' : d.children p = (before ++ [e]) ++ next :: after := by rw [split]; simp
      obtain ⟨hbefore', hafter'⟩ := h.wellFormed.not_mem_around split'
      rw [hn, stays, split, exchanged_between _ hbefore hafter, ← split, split',
        exchanged_between _ hbefore' hafter']
      simp
    · rw [exchanged_of_not_mem _ (elsewhere n e he hn),
        exchanged_of_not_mem _ (elsewhere n next hnext hn)]

end Loose

end Document

end MarkupTemplate
