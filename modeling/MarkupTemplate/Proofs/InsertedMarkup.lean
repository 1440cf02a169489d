import MarkupTemplate.Proofs.TreeEdits

/-!
# Markup put into an element

Markup for a part of a table is read inside of wrappers, one in the other, below an element of its own.
Then the nodes that hang off the wrappers are put into the target: those beside the first wrapper,
those beside the one inside of it, and so on, and at last what the innermost one contains.

* `Document.wrappers`, `Document.hanging` — the wrappers, and the nodes that hang off them.
* `rootIds_insideChain`, `nodup_hanging`, `mem_hanging_iff` — those nodes are what is inside of the
  chain, each once.
* `Document.InOrder` — nothing stands behind a wrapper that something hangs inside of;
  `hanging_sublist_iff` — just then the nodes are in document order.
* `Document.holding` — a document with the markup below an element of its own beside it;
  `keptBeside_holding` — which is the document that it was.
* `insertMarkup_gathered` — what putting markup into an element makes of the document.
* `insertMarkup_cellAndRow` — the order is not kept if there is something behind a wrapper.
-/

namespace MarkupTemplate.Document

/-! ## Wrappers -/

/-- Whether a tree is below an element with a tag. -/
def IsWrapper (tag : String) (t : Tree Entry) : Prop :=
  t.label.data.tag? = some tag

instance (tag : String) : DecidablePred (IsWrapper tag) :=
  fun t => inferInstanceAs (Decidable (t.label.data.tag? = some tag))

/-- The wrappers for the tags of a chain: the first tree with the first tag, the first of its children
with the next tag, and so on, as far as there is one. -/
def wrappers : List String → List (Tree Entry) → List (Tree Entry)
  | [], _ => []
  | tag :: chain, ts =>
    match ts.find? fun t => IsWrapper tag t with
    | none => []
    | some w => w :: wrappers chain w.children

/-- The nodes that hang off the wrappers of a chain, level by level: the roots and the children of the
wrappers, other than the wrappers themselves. -/
def hanging (chain : List String) (ts : List (Tree Entry)) : List NodeId :=
  (ts :: (wrappers chain ts).map Tree.children).flatMap fun us =>
    (rootIds us).filter (· ∉ rootIds (wrappers chain ts))

/-- Nothing stands behind a wrapper, or nothing hangs inside of it, at every level. -/
def InOrder : List String → List (Tree Entry) → Prop
  | [], _ => True
  | tag :: chain, ts =>
    match ts.dropWhile fun t => ¬ IsWrapper tag t with
    | [] => True
    | w :: after => (after = [] ∨ hanging chain w.children = []) ∧ InOrder chain w.children

section Wrappers

variable {tag : String} {chain : List String} {ts before after : List (Tree Entry)} {w : Tree Entry}

/-- There is no wrapper on a level, or there is a first one. -/
theorem wrapper_cases (tag : String) (ts : List (Tree Entry)) :
    (∀ t ∈ ts, ¬ IsWrapper tag t) ∨
      ∃ before w after, ts = before ++ w :: after ∧ (∀ t ∈ before, ¬ IsWrapper tag t) ∧
        IsWrapper tag w := by
  cases found : ts.find? fun t => IsWrapper tag t with
  | none => exact .inl fun t ht => by simpa using List.find?_eq_none.1 found t ht
  | some w =>
    obtain ⟨hw, before, after, split, hbefore⟩ := List.find?_eq_some_iff_append.1 found
    exact .inr ⟨before, w, after, split, fun t ht => by simpa using hbefore t ht, by simpa using hw⟩

theorem find?_wrapper (absent : ∀ t ∈ before, ¬ IsWrapper tag t) (hw : IsWrapper tag w) :
    (before ++ w :: after).find? (fun t => IsWrapper tag t) = some w :=
  List.find?_eq_some_iff_append.2
    ⟨decide_eq_true hw, before, after, rfl, fun t ht => by simpa using absent t ht⟩

theorem wrappers_of_none (absent : ∀ t ∈ ts, ¬ IsWrapper tag t) : wrappers (tag :: chain) ts = [] := by
  rw [wrappers, List.find?_eq_none.2 fun t ht => by simpa using absent t ht]

theorem wrappers_of_first (absent : ∀ t ∈ before, ¬ IsWrapper tag t) (hw : IsWrapper tag w) :
    wrappers (tag :: chain) (before ++ w :: after) = w :: wrappers chain w.children := by
  rw [wrappers, find?_wrapper absent hw]

theorem insideChain_of_none (absent : ∀ t ∈ ts, ¬ IsWrapper tag t) :
    insideChain (tag :: chain) ts = ts := by
  have index : ts.findIdx? (fun t => t.label.data.tag? = some tag) = none :=
    List.findIdx?_eq_none_iff.2 fun t ht => decide_eq_false (absent t ht)
  rw [insideChain, index]

theorem insideChain_of_first (absent : ∀ t ∈ before, ¬ IsWrapper tag t) (hw : IsWrapper tag w) :
    insideChain (tag :: chain) (before ++ w :: after) =
      before ++ after ++ insideChain chain w.children := by
  have index : (before ++ w :: after).findIdx? (fun t => t.label.data.tag? = some tag) =
      some before.length := by
    have left : before.findIdx? (fun t => t.label.data.tag? = some tag) = none :=
      List.findIdx?_eq_none_iff.2 fun t ht => decide_eq_false (absent t ht)
    have here : decide (w.label.data.tag? = some tag) = true := decide_eq_true hw
    rw [List.findIdx?_append, left, List.findIdx?_cons, if_pos here]
    simp
  have there : (before ++ w :: after)[before.length]? = some w := by simp
  rw [insideChain, index]
  simp only [there]
  rw [List.eraseIdx_append_of_length_le (Nat.le_refl _), Nat.sub_self]
  rfl

theorem inOrder_of_none (absent : ∀ t ∈ ts, ¬ IsWrapper tag t) : InOrder (tag :: chain) ts := by
  have all : ts.dropWhile (fun t => ¬ IsWrapper tag t) = [] :=
    List.dropWhile_eq_nil_iff.2 fun t ht => by simpa using absent t ht
  rw [InOrder, all]
  trivial

theorem inOrder_of_first (absent : ∀ t ∈ before, ¬ IsWrapper tag t) (hw : IsWrapper tag w) :
    InOrder (tag :: chain) (before ++ w :: after) ↔
      (after = [] ∨ hanging chain w.children = []) ∧ InOrder chain w.children := by
  have rest : (before ++ w :: after).dropWhile (fun t => ¬ IsWrapper tag t) = w :: after := by
    rw [List.dropWhile_append_of_pos fun t ht => by simpa using absent t ht,
      List.dropWhile_cons_of_neg (by simpa using hw)]
  rw [InOrder, rest]

end Wrappers

/-! ## What hangs off the wrappers -/

section Hanging

variable {tag : String} {chain : List String} {ts before after : List (Tree Entry)} {w : Tree Entry}
variable {x : NodeId}

/-- The wrappers are among the nodes, with what is below them. -/
theorem rowsOf_wrapper_subset :
    ∀ {chain : List String} {ts : List (Tree Entry)}, ∀ w ∈ wrappers chain ts,
      rowsOf w ⊆ rowsOfAll ts
  | [], _, _, hw => nomatch hw
  | tag :: chain, ts, v, hv => by
    rcases wrapper_cases tag ts with absent | ⟨before, w, after, rfl, absent, hw⟩
    · rw [wrappers_of_none absent] at hv
      cases hv
    · have first : rowsOf w ⊆ rowsOfAll (before ++ w :: after) :=
        rowsOf_subset_of_mem (List.mem_append_right _ List.mem_cons_self)
      rw [wrappers_of_first absent hw, List.mem_cons] at hv
      rcases hv with rfl | hv
      · exact first
      · rw [rowsOf_eq] at first
        exact List.Subset.trans (rowsOf_wrapper_subset v hv)
          (List.Subset.trans (List.subset_cons_self _ _) first)

theorem rootIds_wrappers_subset (hx : x ∈ rootIds (wrappers chain ts)) : x ∈ ids ts := by
  obtain ⟨w, hw, rfl⟩ := List.mem_map.1 hx
  apply ids_subset_of_rows (rowsOf_wrapper_subset w hw)
  rw [ids_cons]
  exact List.mem_cons_self

theorem ids_children_subset (hw : w ∈ wrappers chain ts) : ids w.children ⊆ ids ts := by
  intro x hx
  apply ids_subset_of_rows (rowsOf_wrapper_subset w hw)
  rw [ids_cons]
  exact List.mem_cons_of_mem _ (List.mem_append_left _ hx)

theorem hanging_of_no_wrapper (none : wrappers chain ts = []) : hanging chain ts = rootIds ts := by
  rw [hanging, none]
  simp

/-- Beside a first wrapper are its siblings, and then comes what hangs inside of it. -/
theorem hanging_of_first (absent : ∀ t ∈ before, ¬ IsWrapper tag t) (hw : IsWrapper tag w)
    (nodup : (ids (before ++ w :: after)).Nodup) :
    hanging (tag :: chain) (before ++ w :: after) =
      rootIds before ++ rootIds after ++ hanging chain w.children := by
  simp only [ids_append, ids_cons, List.nodup_append, List.nodup_cons, List.mem_append,
    List.mem_cons, not_or] at nodup
  obtain ⟨-, ⟨⟨hself, hafter⟩, -, -, apart⟩, apart'⟩ := nodup
  have others : ∀ us : List (Tree Entry), (∀ x ∈ rootIds us, x ≠ w.label.id ∧ x ∉ ids w.children) →
      (rootIds us).filter (· ∉ rootIds (w :: wrappers chain w.children)) = rootIds us := by
    intro us hus
    refine List.filter_eq_self.2 fun x hx => decide_eq_true fun hmem => ?_
    rcases List.mem_cons.1 hmem with heq | hmem
    · exact (hus x hx).1 heq
    · exact (hus x hx).2 (rootIds_wrappers_subset hmem)
  have left := others before fun x hx =>
    ⟨fun heq => apart' x (rootIds_subset _ x hx) x (.inl heq) rfl,
      fun hmem => apart' x (rootIds_subset _ x hx) x (.inr (.inl hmem)) rfl⟩
  have right := others after fun x hx =>
    ⟨fun heq => hafter (heq ▸ rootIds_subset _ x hx),
      fun hmem => apart x hmem x (rootIds_subset _ x hx) rfl⟩
  -- the wrapper itself is on none of the levels inside of it
  have inner : ∀ us ∈ w.children :: (wrappers chain w.children).map Tree.children,
      (rootIds us).filter (· ∉ rootIds (w :: wrappers chain w.children)) =
        (rootIds us).filter (· ∉ rootIds (wrappers chain w.children)) := by
    intro us hus
    have below : ids us ⊆ ids w.children := by
      rcases List.mem_cons.1 hus with rfl | hus
      · exact List.Subset.refl _
      · obtain ⟨v, hv, rfl⟩ := List.mem_map.1 hus
        exact ids_children_subset hv
    refine List.filter_congr fun x hx => ?_
    have other : x ≠ w.label.id := fun heq => hself (heq ▸ below (rootIds_subset _ x hx))
    simp [other]
  rw [hanging, wrappers_of_first absent hw, List.flatMap_cons, List.map_cons, rootIds_append,
    List.filter_append, left, rootIds_cons w after, List.filter_cons_of_neg (by simp), right,
    hanging]
  congr 1
  exact List.flatMap_congr inner

theorem nodup_ids_children_of_first (nodup : (ids (before ++ w :: after)).Nodup) :
    (ids w.children).Nodup := by
  refine List.Sublist.nodup ?_ nodup
  rw [ids_append, ids_cons]
  exact ((List.sublist_append_left _ _).cons _).trans (List.sublist_append_right _ _)

/-- **What is inside of a chain** are the nodes that hang off its wrappers. -/
theorem rootIds_insideChain :
    ∀ {chain : List String} {ts : List (Tree Entry)}, (ids ts).Nodup →
      rootIds (insideChain chain ts) = hanging chain ts
  | [], ts, _ => by rw [insideChain, hanging_of_no_wrapper rfl]
  | tag :: chain, ts, nodup => by
    rcases wrapper_cases tag ts with absent | ⟨before, w, after, rfl, absent, hw⟩
    · rw [insideChain_of_none absent, hanging_of_no_wrapper (wrappers_of_none absent)]
    · rw [insideChain_of_first absent hw, hanging_of_first absent hw nodup, rootIds_append,
        rootIds_append, rootIds_insideChain (nodup_ids_children_of_first nodup)]

/-- A node hangs off the wrappers at most as often as it is below the roots. -/
theorem count_hanging_le :
    ∀ {chain : List String} {ts : List (Tree Entry)}, (ids ts).Nodup →
      (hanging chain ts).count x ≤ (ids ts).count x
  | [], ts, _ => by
    rw [hanging_of_no_wrapper rfl]
    exact (rootIds_sublist ts).count_le x
  | tag :: chain, ts, nodup => by
    rcases wrapper_cases tag ts with absent | ⟨before, w, after, rfl, absent, hw⟩
    · rw [hanging_of_no_wrapper (wrappers_of_none absent)]
      exact (rootIds_sublist ts).count_le x
    · have left := (rootIds_sublist before).count_le x
      have right := (rootIds_sublist after).count_le x
      have inner : (hanging chain w.children).count x ≤ (ids w.children).count x :=
        count_hanging_le (nodup_ids_children_of_first nodup)
      rw [hanging_of_first absent hw nodup]
      simp only [ids_append, ids_cons, List.count_append, List.count_cons]
      omega

/-- No node hangs off the wrappers twice. -/
theorem nodup_hanging (chain : List String) (nodup : (ids ts).Nodup) : (hanging chain ts).Nodup :=
  List.nodup_iff_count_le_one.2 fun x =>
    (count_hanging_le nodup).trans (List.nodup_iff_count_le_one.1 nodup x)

theorem hanging_subset (nodup : (ids ts).Nodup) : hanging chain ts ⊆ ids ts := fun _ hx =>
  List.count_pos_iff.1 (Nat.lt_of_lt_of_le (List.count_pos_iff.2 hx) (count_hanging_le nodup))

/-- What hangs off the wrappers are the roots and the children of the wrappers but the wrappers
themselves. -/
theorem mem_hanging_iff :
    x ∈ hanging chain ts ↔ x ∉ rootIds (wrappers chain ts) ∧
      (x ∈ rootIds ts ∨ ∃ w ∈ wrappers chain ts, x ∈ rootIds w.children) := by
  simp only [hanging, List.flatMap_cons, List.mem_append, List.mem_filter, List.mem_flatMap,
    List.mem_map, decide_eq_true_eq]
  constructor
  · rintro (⟨hx, other⟩ | ⟨_, ⟨w, hw, rfl⟩, hx, other⟩)
    · exact ⟨other, .inl hx⟩
    · exact ⟨other, .inr ⟨w, hw, hx⟩⟩
  · rintro ⟨other, hx | ⟨w, hw, hx⟩⟩
    · exact .inl ⟨hx, other⟩
    · exact .inr ⟨_, ⟨w, hw, rfl⟩, hx, other⟩

/-! ## Document order -/

/-- Of two nodes in a list that has each once, the later does not come before the earlier. -/
theorem not_sublist_swapped {xs ys : List NodeId} {y : NodeId} (nodup : (xs ++ ys).Nodup)
    (hx : x ∈ xs) (hy : y ∈ ys) : ¬ [y, x].Sublist (xs ++ ys) := by
  intro sub
  obtain ⟨left, right, split, hleft, hright⟩ := List.sublist_append_iff.1 sub
  have disjoint := (List.nodup_append.1 nodup).2.2
  cases left with
  | nil =>
    have both : x ∈ right := by
      rw [List.nil_append] at split
      simp [← split]
    exact disjoint x hx x (hright.subset both) rfl
  | cons z left =>
    rw [List.cons_append, List.cons.injEq] at split
    exact disjoint y (split.1 ▸ hleft.subset List.mem_cons_self) y hy rfl

/-- What is taken in order from a list that has each node once, and lies between two points of it, is
taken in order from between them. -/
theorem sublist_between {xs ys zs ns : List NodeId} (nodup : (xs ++ (ys ++ zs)).Nodup)
    (between : ns ⊆ ys) (sub : ns.Sublist (xs ++ (ys ++ zs))) : ns.Sublist ys := by
  obtain ⟨-, nodup', before⟩ := List.nodup_append.1 nodup
  have after := (List.nodup_append.1 nodup').2.2
  have all : ns.filter (· ∈ ys) = ns :=
    List.filter_eq_self.2 fun x hx => decide_eq_true (between hx)
  have left : xs.filter (· ∈ ys) = [] := List.filter_eq_nil_iff.2 fun x hx => by
    simpa using fun hmem => before x hx x (List.mem_append_left _ hmem) rfl
  have right : zs.filter (· ∈ ys) = [] := List.filter_eq_nil_iff.2 fun x hx => by
    simpa using fun hmem => after x hmem x hx rfl
  have middle : ys.filter (· ∈ ys) = ys :=
    List.filter_eq_self.2 fun x hx => decide_eq_true hx
  have taken := sub.filter (· ∈ ys)
  rwa [all, List.filter_append, List.filter_append, left, middle, right, List.nil_append,
    List.append_nil] at taken

/-- **The nodes that hang off the wrappers are in document order** just if nothing stands behind a
wrapper that something hangs inside of. -/
theorem hanging_sublist_iff :
    ∀ {chain : List String} {ts : List (Tree Entry)}, (ids ts).Nodup →
      ((hanging chain ts).Sublist (ids ts) ↔ InOrder chain ts)
  | [], ts, _ => by
    rw [hanging_of_no_wrapper rfl, InOrder, iff_true]
    exact rootIds_sublist ts
  | tag :: chain, ts, nodup => by
    rcases wrapper_cases tag ts with absent | ⟨before, w, after, rfl, absent, hw⟩
    · rw [hanging_of_no_wrapper (wrappers_of_none absent)]
      exact iff_of_true (rootIds_sublist ts) (inOrder_of_none absent)
    have inside := nodup_ids_children_of_first nodup
    have inner : (hanging chain w.children).Sublist (ids w.children) ↔ InOrder chain w.children :=
      hanging_sublist_iff inside
    rw [hanging_of_first absent hw nodup, inOrder_of_first absent hw, ← inner]
    have split : ids (before ++ w :: after) =
        ids before ++ [w.label.id] ++ (ids w.children ++ ids after) := by simp
    rw [split] at nodup ⊢
    constructor
    · intro sub
      refine ⟨Decidable.byContradiction fun both => ?_, ?_⟩
      · -- what is behind the wrapper has been put before what hangs inside of it
        obtain ⟨behind, something⟩ := not_or.1 both
        obtain ⟨v, hv⟩ := List.exists_mem_of_ne_nil _ behind
        obtain ⟨x, hx⟩ := List.exists_mem_of_ne_nil _ something
        have hv' : v.label.id ∈ rootIds after := List.mem_map_of_mem hv
        have pair : [v.label.id, x].Sublist (rootIds after ++ hanging chain w.children) :=
          (List.singleton_sublist.2 hv').append (List.singleton_sublist.2 hx)
        have gathered := (pair.trans (List.sublist_append_right (rootIds before) _)).trans
          (List.append_assoc .. ▸ sub)
        rw [← List.append_assoc] at nodup gathered
        exact not_sublist_swapped nodup (List.mem_append_right _ (hanging_subset inside hx))
          (rootIds_subset _ _ hv') gathered
      · exact sublist_between nodup (hanging_subset inside)
          ((List.sublist_append_right _ _).trans sub)
    · rintro ⟨behind | something, sub⟩
      · rw [behind, rootIds_nil, ids_nil, List.append_nil, List.append_nil]
        exact ((rootIds_sublist before).trans (List.sublist_append_left _ _)).append sub
      · rw [something, List.append_nil]
        exact ((rootIds_sublist before).trans (List.sublist_append_left _ _)).append
          ((rootIds_sublist after).trans (List.sublist_append_right _ _))

end Hanging

/-! ## The markup beside the document -/

variable {d d' : Document} {target n : NodeId} {t : Tree Entry} {text : String}

/-- The element that markup is read into. -/
def holderData : NodeData :=
  .element ⟨.unknown, "div"⟩ []

/-- A document with markup read into a new element beside it. -/
def holding (d : Document) (text : String) : Document :=
  let grafted := (d.adopt (.node holderData [])).2.graft text
  grafted.1.foldl (fun d' n => d'.append d.nextId n) grafted.2

/-- The trees below the new element. -/
def held (d : Document) (text : String) : List (Tree Entry) :=
  (((d.holding text).find? d.nextId).map Tree.children).getD []

/-- Markup is put into an element from beside the document. -/
theorem insertMarkup_eq (d : Document) (target : NodeId) (text : String) (mode : InsertMode) :
    d.insertMarkup target text mode =
      let chain := contextChain ((d.tag? target).getD "")
      (d.holding (wrapped chain text)).insertNodes target
        (rootIds (insideChain chain (d.held (wrapped chain text)))) mode := by
  have made : d.adopt (.node holderData []) = (d.nextId, (d.adopt (.node holderData [])).2) := rfl
  rw [insertMarkup, ← holderData, made]
  simp only [held, holding]
  generalize (d.adopt (.node holderData [])).2.graft _ = grafted
  rfl

/-- A document that has new nodes beside it, one of which is above the others. -/
structure KeptBeside (d d' : Document) : Prop where
  root : d'.root = d.root
  label? : ∀ n < d.nextId, d'.label? n = d.label? n
  children : ∀ n < d.nextId, d'.children n = d.children n
  holder : d.nextId ∈ ids (d'.tree :: d'.strays)
  loose : Loose d' (d.nextId ≤ ·)

namespace KeptBeside

variable {u : Tree Entry}

theorem mem_ids (h : KeptBeside d d') (wellFormed : d.WellFormed) (hn : n ∈ ids (d.tree :: d.strays)) :
    n ∈ ids (d'.tree :: d'.strays) := by
  have same := h.label? n (wellFormed.known n hn)
  refine Decidable.byContradiction fun absent => ?_
  rw [← find?_eq_none_iff, ← label?_eq_none_iff, same, label?_eq_none_iff, find?_eq_none_iff] at absent
  exact absent hn

/-- What is below the new element is new. -/
theorem le_of_mem_below (h : KeptBeside d d') (holder : d'.find? d.nextId = some u) :
    ∀ n ∈ ids u.children, d.nextId ≤ n := by
  refine holds_below (S := (d.nextId ≤ ·)) (fun r hr hle c hc => ?_) ?_
  · rw [← h.loose.wellFormed.children_of_mem_rows (rowsOf_subset_rows holder hr)] at hc
    exact h.loose.closed r.id hle c hc
  · rw [label_id_of_find? holder]

theorem nodup_below (h : KeptBeside d d') (holder : d'.find? d.nextId = some u) :
    (ids u.children).Nodup := by
  have inside := (List.nodup_append.1 (h.loose.wellFormed.within holder).nodup).2.1
  rwa [ids_nil, List.append_nil] at inside

theorem known_below (holder : d'.find? d.nextId = some u) :
    ∀ n ∈ ids u.children, n ∈ ids (d'.tree :: d'.strays) := by
  intro n hn
  apply ids_subset_of_rows (rowsOf_subset_rows holder)
  rw [ids_cons]
  exact List.mem_cons_of_mem _ (List.mem_append_left _ hn)

/-- What hangs off the wrappers are no children of any other node. -/
theorem filter_not_hanging (h : KeptBeside d d') (holder : d'.find? d.nextId = some u)
    {chain : List String} (hn : n ∈ ids u.children) (other : n ∉ rootIds (wrappers chain u.children)) :
    (d'.children n).filter (· ∉ hanging chain u.children) = d'.children n := by
  have wellFormed := h.loose.wellFormed
  refine List.filter_eq_self.2 fun c hc => decide_eq_true fun hmem => ?_
  rcases (mem_hanging_iff.1 hmem).2 with top | ⟨w, hw, hc'⟩
  · rw [← children_of_find? holder] at top
    have same := wellFormed.eq_of_mem_children hc top
    exact wellFormed.not_mem_below holder (same ▸ hn)
  · have row : rootRow w ∈ d'.rows := by
      apply rowsOf_subset_rows holder
      rw [rowsOf_eq u]
      apply List.mem_cons_of_mem
      apply rowsOf_wrapper_subset w hw
      rw [rowsOf_eq]
      exact List.mem_cons_self
    have children : d'.children w.label.id = rootIds w.children :=
      wellFormed.children_of_mem_rows row
    have same := wellFormed.eq_of_mem_children hc (children ▸ hc')
    exact other (same ▸ List.mem_map_of_mem hw)

end KeptBeside

/-- **Markup is read beside a document** without a change to it. -/
theorem keptBeside_holding (h : d.WellFormed) (text : String) : KeptBeside d (d.holding text) := by
  let adopted := (d.adopt (.node holderData [])).2
  let grafted := (adopted.graft text).2
  have wellFormed : adopted.WellFormed := wellFormed_adopt_leaf h holderData
  have root : d.root < d.nextId := h.known _ (by
    rw [ids_cons]
    exact List.mem_cons_self)
  have sameRoot : grafted.root = d.root := root_graft adopted text
  have find : ∀ n < d.nextId, grafted.find? n = d.find? n := fun n hn =>
    (find?_graft text (Nat.lt_succ_of_lt hn)).trans
      (find?_adopt_leaf_of_ne holderData (Nat.ne_of_lt hn))
  have holder : grafted.find? d.nextId = some (.node ⟨d.nextId, holderData, none⟩ []) :=
    (find?_graft text (Nat.lt_succ_self _)).trans (find?_adopt_leaf_self h holderData)
  have children : ∀ n < d.nextId, grafted.children n = d.children n := fun n hn => by
    rw [Document.children, Document.children, find n hn]
  -- the nodes of the fragment, without the new element that they are moved into
  have fragment : Loose grafted (d.nextId + 1 ≤ ·) := by
    refine ⟨wellFormed_graft wellFormed text, ?_, fun n hn c hc => ?_⟩
    · rw [sameRoot]
      exact Nat.not_le_of_lt (Nat.lt_succ_of_lt root)
    · exact le_of_mem_children_graft wellFormed hn hc
  obtain ⟨kids, moved, same, origin⟩ :=
    fragment.exists_relinked_appendAll (Nat.not_succ_le_self d.nextId)
      (fun n hn => le_of_mem_graft (d := adopted) hn) (exists_find?_iff.1 ⟨_, holder⟩)
  change Relinked grafted (d.holding text) kids at moved
  have kept : ∀ n < d.nextId, (d.holding text).children n = d.children n := fun n hn => by
    rw [moved.children n, same n (Nat.ne_of_lt hn), children n hn]
    rw [children n hn]
    exact fun c hc hle =>
      Nat.lt_irrefl _ (Nat.lt_trans (h.known c (mem_ids_of_mem_children hc)) hle)
  constructor
  case root => exact moved.root.trans sameRoot
  case label? =>
    intro n hn
    rw [moved.label? n, Document.label?, Document.label?, find n hn]
  case children => exact kept
  case holder => exact moved.mem_ids_iff.2 (exists_find?_iff.1 ⟨_, holder⟩)
  case loose =>
    refine ⟨moved.wellFormed, ?_, fun n hn c hc => ?_⟩
    · rw [moved.root, sameRoot]
      exact Nat.not_le_of_lt root
    · rw [moved.children n] at hc
      rcases origin n c hc with hc | ⟨-, hc⟩
      · have other : n ≠ d.nextId := by
          rintro rfl
          rw [children_of_find? holder] at hc
          cases hc
        have behind : d.nextId + 1 ≤ n := Nat.lt_of_le_of_ne hn other.symm
        exact Nat.le_of_succ_le (fragment.closed n behind c hc)
      · exact Nat.le_of_succ_le hc

/-! ## The markup in the element -/

/-- A document with what hangs off the wrappers of a chain moved into an element. -/
structure Gathered (d : Document) (target : NodeId) (chain : List String) (text : String)
    (mode : InsertMode) (d' : Document) : Prop where
  children : d'.children target = mode.arrange (hanging chain (d.held text)) (d.children target)
  /-- What hangs off the wrappers: the children of the holder and of the wrappers, but the wrappers. -/
  exactly : ∀ n, n ∈ hanging chain (d.held text) ↔ n ∉ rootIds (wrappers chain (d.held text)) ∧
    (n ∈ rootIds (d.held text) ∨ ∃ w ∈ wrappers chain (d.held text), n ∈ rootIds w.children)
  once : (hanging chain (d.held text)).Nodup
  new : ∀ n ∈ hanging chain (d.held text), n ∉ ids (d.tree :: d.strays)
  order : (hanging chain (d.held text)).Sublist (ids (d.held text)) ↔ InOrder chain (d.held text)
  /-- What was read is as it was, but for the wrappers. -/
  content : ∀ n ∈ ids (d.held text), d'.label? n = (d.holding text).label? n ∧
    (n ∉ rootIds (wrappers chain (d.held text)) →
      d'.children n = (d.holding text).children n)
  frame : Frame d d' (· = target)

/-- **Markup put into an element** of a document: all that hangs off the wrappers, each node once, is
among the children of the element, level by level. That is document order just if nothing stands
behind a wrapper that something hangs inside of. Nothing else is changed. -/
theorem insertMarkup_gathered (h : d.WellFormed) (found : d.find? target = some t) (text : String)
    (mode : InsertMode) :
    let chain := contextChain ((d.tag? target).getD "")
    Gathered d target chain (wrapped chain text) mode (d.insertMarkup target text mode) := by
  intro chain
  rw [insertMarkup_eq]
  change Gathered d target chain (wrapped chain text) mode
    ((d.holding (wrapped chain text)).insertNodes target _ mode)
  generalize wrapped chain text = text
  have kept := keptBeside_holding h text
  obtain ⟨u, holder⟩ := exists_find?_iff.2 kept.holder
  have below : d.held text = u.children := by
    rw [held, holder]
    rfl
  have nodup := kept.nodup_below holder
  have old : ∀ n ∈ ids (d.tree :: d.strays), ¬ d.nextId ≤ n := fun n hn =>
    Nat.not_le_of_lt (h.known n hn)
  have there : target ∈ ids (d.tree :: d.strays) := exists_find?_iff.1 ⟨t, found⟩
  have inside : hanging chain u.children ⊆ ids u.children := hanging_subset nodup
  have new : ∀ n ∈ hanging chain u.children, d.nextId ≤ n := fun n hn =>
    kept.le_of_mem_below holder n (inside hn)
  have children := kept.children target (h.known target there)
  have whole := kept.loose.relinked_insertNodes (old target there) (kept.mem_ids h there)
    (fun c hc => old c (mem_ids_of_mem_children (children ▸ hc))) new
    (fun n hn => KeptBeside.known_below holder n (inside hn)) (nodup_hanging chain nodup) mode
  rw [below, rootIds_insideChain nodup]
  constructor
  case children => rw [whole.children target, if_pos rfl, children, below]
  case exactly => exact fun n => mem_hanging_iff
  case once =>
    rw [below]
    exact nodup_hanging chain nodup
  case new =>
    rw [below]
    exact fun n hn hold => old n hold (new n hn)
  case order =>
    rw [below]
    exact hanging_sublist_iff nodup
  case content =>
    rw [below]
    refine fun n hn => ⟨whole.label? n, fun other => ?_⟩
    have apart : n ≠ target := fun heq =>
      old target there (heq ▸ kept.le_of_mem_below holder n hn)
    rw [whole.children n, if_neg apart, kept.filter_not_hanging holder hn other]
  case frame =>
    refine ⟨whole.wellFormed, whole.root.trans kept.root, fun n hn => ?_, fun n hn other => ?_⟩
    · exact (whole.label? n).trans (kept.label? n (h.known n hn))
    · rw [whole.children n, if_neg other, kept.children n (h.known n hn)]
      exact List.filter_eq_self.2 fun c hc => decide_eq_true fun hmem =>
        old c (mem_ids_of_mem_children hc) (new c hmem)

/-- A table with a row. -/
def rowTable : Document :=
  .ofHtml "<table><tr><td>x</td></tr></table>"

/-- Another cell is put into the row. -/
theorem insertMarkup_gathered_cell :
    rowTable.tag? 6 = some "tr" ∧
      Gathered rowTable 6 (contextChain "tr") (wrapped (contextChain "tr") "<td>a</td>") .append
        (rowTable.insertMarkup 6 "<td>a</td>" .append) ∧
      (rowTable.insertMarkup 6 "<td>a</td>" .append).children 6 = [7, 13] := by
  have row : rowTable.tag? 6 = some "tr" := by decide +kernel
  obtain ⟨t, found⟩ : ∃ t, rowTable.find? 6 = some t := exists_find?_iff.2 (by decide +kernel)
  have gathered := insertMarkup_gathered (wellFormed_ofHtml _) found "<td>a</td>" .append
  rw [← rowTable, row] at gathered
  exact ⟨row, gathered, by decide +kernel⟩

/-- A cell and a row after it change places: the row stands behind the wrapper that the cell hangs
inside of, and comes first. -/
theorem insertMarkup_cellAndRow :
    ∃ held, held = rowTable.held (wrapped (contextChain "tr") "<td>a</td></tr><tr><td>b</td>") ∧
      hanging (contextChain "tr") held = [15, 13] ∧ ¬ [15, 13].Sublist (ids held) ∧
      [13, 15].Sublist (ids held) ∧
      (rowTable.insertMarkup 6 "<td>a</td></tr><tr><td>b</td>" .append).nodeHtml 6 =
        "<tr><td>x</td><tr><td>b</td></tr><td>a</td></tr>" :=
  ⟨_, rfl, by decide +kernel, by decide +kernel, by decide +kernel, by decide +kernel⟩

end MarkupTemplate.Document
