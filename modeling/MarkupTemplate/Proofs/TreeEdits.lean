import MarkupTemplate.Proofs.Clones
import MarkupTemplate.Proofs.NewNodes

/-!
# Edits of the tree

What is done to the tree by renaming and unwrapping an element, by putting new nodes into it, and by
putting one after it; and that nothing else is done.

* `Document.renameByMoves`, `Document.unwrapByMoves` — the children of an element are moved one by
  one; `rename_eq_renameByMoves`, `unwrap_eq_unwrapByMoves` — that is what renaming and unwrapping do.
* `Document.Fresh` — new nodes.
* `Renamed`, `Unwrapped`, `Inserted`, `Followed` — what an edit makes of a document.
* `edits_exact` — every edit of an attached element makes that of it.
-/

namespace MarkupTemplate.Document

variable {d d' : Document} {e p n next : NodeId} {t u c v : Tree Entry} {a : Entry}
variable {us before after cs gone : List (Tree Entry)}

/-! ## Children moved one by one -/

/-- An element renamed by moves: its children are moved into a new one, which is put before it. -/
def renameByMoves (d : Document) (e : NodeId) (name : String) : NodeId × Document :=
  let attributes := ((d.data? e).map NodeData.attributes).getD []
  let new := d.adopt (.node (.element ⟨.unknown, name⟩ (Attributes.plain attributes)) [])
  let moved := (d.children e).foldl (fun d c => d.append new.1 c) new.2
  (new.1, (moved.insertBefore e new.1).detach e)

/-- An element unwrapped by moves: its children are put before it. -/
def unwrapByMoves (d : Document) (e : NodeId) : Document :=
  ((d.children e).foldl (fun d c => d.insertBefore e c) d).detach e

namespace Within

/-- The first node in one of the children is moved into the first tree beside the document. -/
theorem append_below (h : Within d e (before ++ .node a (c :: cs) :: after) (v :: gone) next)
    (found : d.find? e = some t) :
    (d.refilled e (before ++ .node a (c :: cs) :: after) (v :: gone) next).append v.label.id
        c.label.id =
      d.refilled e (before ++ .node a cs :: after) (v.withChildren (v.children ++ [c]) :: gone)
        next := by
  have haround := h.disjoint v.label.id (by simp)
  have nodup := (List.nodup_append.1 h.nodup).2.1
  simp only [ids_append, ids_cons, Tree.children_node, Tree.label_node, List.nodup_append,
    List.nodup_cons, List.mem_append, List.mem_cons, not_or] at nodup
  obtain ⟨-, ⟨⟨-, hgone⟩, -⟩, apart⟩ := nodup
  have hus : v.label.id ∉ ids (before ++ .node a cs :: after) := by
    intro hmem
    refine apart v.label.id ?_ _ (.inl rfl) rfl
    simp only [ids_append, ids_cons, Tree.children_node, Tree.label_node, List.mem_append,
      List.mem_cons] at hmem
    rcases hmem with hmem | hmem | hmem | hmem
    · exact .inl hmem
    · exact .inr (.inl hmem)
    · exact .inr (.inr (.inl (.inr (.inr hmem))))
    · exact .inr (.inr (.inr hmem))
  rw [Document.append, h.take?_below found]
  change Document.update _ v.label.id _ = _
  rw [update_refilled haround, Tree.updateList_of_absent _ _ (countP_hasId_eq_zero.2 hus)]
  have first : Tree.updateList (hasId v.label.id) (fun w => w.withChildren (w.children ++ [c]))
      ([] ++ v :: gone) = [] ++ v.withChildren (v.children ++ [c]) :: gone :=
    Tree.updateList_append_cons _ (hasId_self _) rfl (countP_hasId_eq_zero.2 hgone)
  exact congrArg (d.refilled e _ · next) first

theorem appendAll_below (found : d.find? e = some t) :
    ∀ {cs : List (Tree Entry)} {v : Tree Entry},
      Within d e (before ++ .node a cs :: after) (v :: gone) next →
        (rootIds cs).foldl (fun d c => d.append v.label.id c)
            (d.refilled e (before ++ .node a cs :: after) (v :: gone) next) =
          d.refilled e (before ++ .node a [] :: after) (v.withChildren (v.children ++ cs) :: gone)
            next
  | [], v, _ => by
    obtain ⟨b, vs⟩ := v
    rw [List.append_nil]
    rfl
  | c :: cs, v, h => by
    have moved : Within d e (before ++ .node a cs :: after)
        (v.withChildren (v.children ++ [c]) :: gone) next := by
      refine h.of_perm (List.perm_iff_count.2 fun id => ?_)
      simp only [ids_append, ids_cons, ids_nil, Tree.children_node, Tree.label_node,
        Tree.label_withChildren, Tree.children_withChildren, List.count_append, List.count_cons,
        List.count_nil]
      omega
    have rest := appendAll_below found moved
    rw [Tree.label_withChildren, Tree.children_withChildren, Tree.withChildren_withChildren,
      List.append_assoc] at rest
    rw [rootIds_cons, List.foldl_cons, h.append_below found]
    exact rest

/-- The first node in one of the children is put right before that child. -/
theorem insertBefore_below (h : Within d e (before ++ .node a (c :: cs) :: after) gone next)
    (found : d.find? e = some t) :
    (d.refilled e (before ++ .node a (c :: cs) :: after) gone next).insertBefore a.id c.label.id =
      d.refilled e (before ++ c :: .node a cs :: after) gone next := by
  obtain ⟨hbefore, hbelow, hafter, hgone, haround⟩ := h.apart
  simp only [Tree.label_node, Tree.children_node, ids_cons, List.mem_cons, not_or] at *
  rw [Document.insertBefore, if_neg hbelow.1, h.take?_below found]
  change Document.splice _ a.id _ = _
  rw [splice_refilled haround, Tree.spliceList_append_cons _ (hasId_self a)
    (countP_hasId_eq_zero.2 hbefore) (countP_hasId_eq_zero.2 hafter),
    Tree.spliceList_of_absent _ gone (countP_hasId_eq_zero.2 hgone), List.append_assoc]
  rfl

theorem insertAllBefore_below (found : d.find? e = some t) :
    ∀ {cs before : List (Tree Entry)}, Within d e (before ++ .node a cs :: after) gone next →
      (rootIds cs).foldl (fun d c => d.insertBefore a.id c)
          (d.refilled e (before ++ .node a cs :: after) gone next) =
        d.refilled e (before ++ (cs ++ .node a [] :: after)) gone next
  | [], _, _ => rfl
  | c :: cs, before, h => by
    have moved : Within d e ((before ++ [c]) ++ .node a cs :: after) gone next := by
      refine h.of_perm (List.perm_iff_count.2 fun id => ?_)
      simp only [ids_append, ids_cons, ids_nil, Tree.children_node, Tree.label_node,
        List.count_append, List.count_cons, List.count_nil]
      omega
    have rest := insertAllBefore_below found moved
    rw [List.append_assoc, List.append_assoc] at rest
    rw [rootIds_cons, List.foldl_cons, h.insertBefore_below found]
    exact rest

end Within

/-- What an attached node is among. -/
theorem WellFormed.exists_within (h : d.WellFormed) (attached : d.isAttached e = true)
    (found : d.find? e = some t) :
    ∃ p u before after, d.find? p = some u ∧ t.label.id = e ∧ u.children = before ++ t :: after ∧
      d.parent? e = some p ∧ d = d.refilled p (before ++ t :: after) [] d.nextId ∧
      Within d p (before ++ t :: after) [] d.nextId := by
  obtain ⟨p, u, t', before, after, parent, hu, hsplit, ht', hid⟩ := h.exists_parent attached
  rw [found] at ht'
  cases ht'
  have within := h.within hu
  have self := h.refilled_self hu
  rw [hsplit] at within self
  exact ⟨p, u, before, after, hu, hid, hsplit, parent, self.symm, within⟩

theorem attributes_eq (found : d.find? e = some t) :
    ((d.data? e).map NodeData.attributes).getD [] = t.label.data.attributes := by
  rw [data?, found]
  rfl

/-- **Renaming an element** is moving its children into a new one, one by one. -/
theorem rename_eq_renameByMoves (h : d.WellFormed) (attached : d.isAttached e = true)
    (found : d.find? e = some t) (name : String) : d.rename e name = d.renameByMoves e name := by
  obtain ⟨p, u, before, after, hu, rfl, -, -, self, within⟩ := h.exists_within attached found
  obtain ⟨a, cs⟩ := t
  let element : Markup :=
    .node (.element ⟨.unknown, name⟩ (Attributes.plain a.data.attributes)) []
  let new : Tree Entry :=
    .node ⟨d.nextId, .element ⟨.unknown, name⟩ (Attributes.plain a.data.attributes), none⟩ []
  have kids : d.children a.id = rootIds cs := children_of_find? found
  obtain ⟨hbefore, -, hafter, -, haround⟩ := within.apart
  rw [Tree.label_node] at found hbefore hafter haround ⊢
  -- what both do before the old element is put beside the document
  have spliced : ({ d with nextId := d.nextId + 1 }.splice a.id fun t =>
      [.node ⟨d.nextId, .element ⟨.unknown, name⟩ (Attributes.plain t.label.data.attributes), none⟩
        t.children, t.withChildren []]) =
      d.refilled p (before ++ new.withChildren cs :: .node a [] :: after) [] (d.nextId + 1) := by
    have bumped : { d with nextId := d.nextId + 1 } =
        d.refilled p (before ++ .node a cs :: after) [] (d.nextId + 1) :=
      congrArg (fun d' : Document => { d' with nextId := d.nextId + 1 }) self
    rw [bumped, splice_refilled haround, Tree.spliceList_append_cons _ (hasId_self a)
      (countP_hasId_eq_zero.2 hbefore) (countP_hasId_eq_zero.2 hafter), List.append_assoc]
    rfl
  have moved : ((d.children a.id).foldl (fun d c => d.append new.label.id c)
      (d.adopt element).2).insertBefore a.id new.label.id =
      d.refilled p (before ++ new.withChildren cs :: .node a [] :: after) [] (d.nextId + 1) := by
    have adopted : Within d p (before ++ .node a cs :: after) [new] (d.nextId + 1) :=
      within.adopt element
    have filled : Within d p (before ++ .node a [] :: after) [new.withChildren cs]
        (d.nextId + 1) := by
      refine adopted.of_perm (List.perm_iff_count.2 fun id => ?_)
      simp only [new, ids_append, ids_cons, ids_nil, Tree.children_node, Tree.label_node,
        Tree.label_withChildren, Tree.children_withChildren, List.count_append, List.count_cons,
        List.count_nil]
      omega
    have beside : (d.adopt element).2 =
        d.refilled p (before ++ .node a cs :: after) [new] (d.nextId + 1) := by
      conv_lhs => rw [self]
      rw [adopt_refilled]
      rfl
    rw [kids, beside, adopted.appendAll_below hu]
    exact filled.insertBefore
  rw [renameByMoves, attributes_eq found, rename]
  exact congrArg (fun d' => (d.nextId, detach d' a.id)) (spliced.trans moved.symm)

/-- **Unwrapping an element** is moving its children before it, one by one. -/
theorem unwrap_eq_unwrapByMoves (h : d.WellFormed) (attached : d.isAttached e = true)
    (found : d.find? e = some t) : d.unwrap e = d.unwrapByMoves e := by
  obtain ⟨p, u, before, after, hu, rfl, -, -, self, within⟩ := h.exists_within attached found
  obtain ⟨a, cs⟩ := t
  have kids : d.children a.id = rootIds cs := children_of_find? found
  obtain ⟨hbefore, -, hafter, -, haround⟩ := within.apart
  rw [Tree.label_node] at found hbefore hafter haround ⊢
  have spliced : (d.splice a.id fun t => t.children ++ [t.withChildren []]) =
      d.refilled p (before ++ (cs ++ .node a [] :: after)) [] d.nextId := by
    conv_lhs => rw [self]
    rw [splice_refilled haround, Tree.spliceList_append_cons _ (hasId_self a)
      (countP_hasId_eq_zero.2 hbefore) (countP_hasId_eq_zero.2 hafter), List.append_assoc,
      Tree.children_node, List.append_assoc]
    rfl
  have moved : (d.children a.id).foldl (fun d c => d.insertBefore a.id c) d =
      d.refilled p (before ++ (cs ++ .node a [] :: after)) [] d.nextId := by
    rw [kids]
    conv_lhs => rw [self]
    exact within.insertAllBefore_below hu
  rw [unwrap, unwrapByMoves, spliced, moved]

/-! ## What edits make of a document -/

/-- A node without a parent, which is not in the document. -/
structure Removed (d : Document) (n : NodeId) : Prop where
  parent? : d.parent? n = none
  isAttached : d.isAttached n = false

/-- What is as it was after an edit: what every node holds, and the children of every node but
some. -/
structure Frame (d d' : Document) (changed : NodeId → Prop) : Prop where
  wellFormed : d'.WellFormed
  root : d'.root = d.root
  label? : ∀ n ∈ ids (d.tree :: d.strays), d'.label? n = d.label? n
  children : ∀ n ∈ ids (d.tree :: d.strays), ¬ changed n → d'.children n = d.children n

/-- An element replaced by a new one of another name, which has its attributes and its children. -/
structure Renamed (d : Document) (p e : NodeId) (name : String) (new : NodeId) (d' : Document) :
    Prop where
  fresh : new ∉ ids (d.tree :: d.strays)
  element : ∃ data, d.data? e = some data ∧
    d'.label? new = some ⟨new, .element ⟨.unknown, name⟩ data.attributes, none⟩
  content : d'.children new = d.children e
  place : ∃ before after, d.children p = before ++ e :: after ∧
    d'.children p = before ++ new :: after
  emptied : d'.children e = []
  removed : Removed d' e
  frame : Frame d d' fun n => n = p ∨ n = e

/-- An element replaced by its children. -/
structure Unwrapped (d : Document) (p e : NodeId) (d' : Document) : Prop where
  place : ∃ before after, d.children p = before ++ e :: after ∧
    d'.children p = before ++ (d.children e ++ after)
  emptied : d'.children e = []
  removed : Removed d' e
  frame : Frame d d' fun n => n = p ∨ n = e

theorem removed_of_not_child (h : d.WellFormed) (free : ∀ m, n ∉ d.children m) : Removed d n := by
  have none : d.parent? n = none := by
    cases parent : d.parent? n with
    | none => rfl
    | some m => exact absurd (h.parent?_eq_some_iff.1 parent) (free m)
  exact ⟨none, h.not_isAttached_of_parent? none⟩

/-- Where a node stands among the children of its parent. -/
structure Placed (d : Document) (p e : NodeId) (before after : List NodeId) : Prop where
  child : d.children p = before ++ e :: after
  hbefore : e ∉ before
  hafter : e ∉ after
  other : p ≠ e
  ne_root : e ≠ d.root

theorem WellFormed.exists_placed (h : d.WellFormed) (parent : d.parent? e = some p) :
    ∃ before after, Placed d p e before after := by
  have child := h.parent?_eq_some_iff.1 parent
  obtain ⟨before, after, hsplit⟩ := List.append_of_mem child
  obtain ⟨hbefore, hafter⟩ := h.not_mem_around hsplit
  refine ⟨before, after, hsplit, hbefore, hafter, ?_, ?_⟩
  · rintro rfl
    obtain ⟨t, found⟩ := exists_find?_iff.2 (mem_ids_of_mem_children child)
    refine h.not_mem_below found (rootIds_subset _ _ ?_)
    rwa [← children_of_find? found]
  · rintro rfl
    exact h.root_not_mem_children p child

/-- The children of a node can be moved. -/
theorem mem_below_of_mem_children (found : d.find? e = some t) :
    ∀ c ∈ d.children e, c ∈ ids t.children := by
  intro c hc
  rw [children_of_find? found] at hc
  exact rootIds_subset _ c hc

/-- **Unwrapping an element** puts its children in its place and does nothing else. -/
theorem unwrapped_unwrapByMoves (h : d.WellFormed) (found : d.find? e = some t)
    (parent : d.parent? e = some p) : Unwrapped d p e (d.unwrapByMoves e) := by
  obtain ⟨before, after, placed⟩ := h.exists_placed parent
  have below := mem_below_of_mem_children found
  have there : e ∈ ids (d.tree :: d.strays) := exists_find?_iff.1 ⟨t, found⟩
  have apart : e ∉ ids t.children := h.not_mem_below found
  have moved := (loose_below h found).relinked_insertAllBefore apart below
    (fun c hc => mem_ids_of_mem_children hc) there placed.ne_root (h.nodup_children e)
  have detached := relinked_detach moved.wellFormed e
  have whole : Relinked d (d.unwrapByMoves e) fun n =>
      exchanged e (d.children e) ((d.children n).filter (· ∉ d.children e)) := by
    refine (moved.trans detached).congr fun n => ?_
    rw [moved.children n, filter_ne_exchanged fun hmem => apart (below e hmem)]
  constructor
  case place =>
    refine ⟨before, after, placed.child, ?_⟩
    rw [whole.children p, h.filter_not_children placed.other, placed.child,
      exchanged_between _ placed.hbefore placed.hafter]
  case emptied =>
    rw [whole.children e, filter_not_self]
    rfl
  case removed =>
    refine removed_of_not_child whole.wellFormed fun m hm => ?_
    rw [whole.children m] at hm
    exact not_mem_exchanged (fun hmem => apart (below e hmem)) _ hm
  case frame =>
    refine ⟨whole.wellFormed, whole.root, fun n _ => whole.label? n, fun n _ other => ?_⟩
    rw [not_or] at other
    rw [whole.children n, h.filter_not_children other.2]
    refine exchanged_of_not_mem _ fun hmem => other.1 ?_
    exact h.eq_of_mem_children hmem (h.parent?_eq_some_iff.1 parent)

/-- A node that is no child of any other, and is not the root. -/
structure Lone (d : Document) (n : NodeId) : Prop where
  known : n ∈ ids (d.tree :: d.strays)
  ne_root : n ≠ d.root
  free : ∀ m, n ∉ d.children m

theorem Lone.not_mem_below (lone : Lone d n) (h : d.WellFormed) (found : d.find? e = some t) :
    n ∉ ids t.children := by
  intro hmem
  obtain ⟨r, hr, hn⟩ := mem_children_of_mem_ids hmem
  rw [← h.children_of_mem_rows (rowsOf_subset_rows found hr)] at hn
  exact lone.free _ hn

/-- The children of an element are moved into a node without children, which then takes its
place. -/
theorem relinked_handOver (h : d.WellFormed) (found : d.find? e = some t) (hroot : e ≠ d.root)
    (lone : Lone d n) (empty : d.children n = []) (other : e ≠ n) :
    Relinked d ((((d.children e).foldl (fun d c => d.append n c) d).insertBefore e n).detach e)
      fun m => if m = n then d.children e
        else exchanged e [n] ((d.children m).filter (· ∉ d.children e)) := by
  have below := mem_below_of_mem_children found
  have apart : e ∉ ids t.children := h.not_mem_below found
  have hn : n ∉ ids t.children := lone.not_mem_below h found
  have there : e ∈ ids (d.tree :: d.strays) := exists_find?_iff.1 ⟨t, found⟩
  have moved := (loose_below h found).relinked_appendAll hn below
    (fun c hc => mem_ids_of_mem_children hc) lone.known (h.nodup_children e)
  -- the node itself and what is below it by now
  have loose : Loose d fun m => m = n ∨ m ∈ ids t.children := by
    refine ⟨h, ?_, ?_⟩
    · rintro (heq | hmem)
      · exact lone.ne_root heq.symm
      · exact (loose_below h found).root hmem
    · rintro m (rfl | hmem) c hc
      · rw [empty] at hc
        cases hc
      · exact .inr ((loose_below h found).closed m hmem c hc)
  have loose' := loose.of_relinked moved (by
    rintro m hm c hc
    rcases List.mem_append.1 hc with hc | hc
    · exact loose.closed m hm c (List.mem_filter.1 hc).1
    · split at hc
      · exact .inr (below c hc)
      · cases hc)
  have inserted := loose'.relinked_insertBefore (.inl rfl) (moved.mem_ids_iff.2 lone.known)
    (not_or.2 ⟨other, apart⟩) (moved.mem_ids_iff.2 there) (moved.root ▸ hroot)
  have detached := relinked_detach inserted.wellFormed e
  refine ((moved.trans inserted).trans detached).congr fun m => ?_
  have without : (((d.children e).foldl (fun d c => d.append n c) d).children m).filter (· ≠ n) =
      (d.children m).filter (· ∉ d.children e) ++ if m = n then d.children e else [] := by
    rw [moved.children m]
    refine filter_ne_of_not_mem fun hmem => ?_
    rcases List.mem_append.1 hmem with hmem | hmem
    · exact lone.free m (List.mem_filter.1 hmem).1
    · split at hmem
      · exact lone.free e hmem
      · cases hmem
  have single : e ∉ [n] := fun hmem => other (List.mem_singleton.1 hmem)
  have exchange := filter_ne_exchanged single
    ((d.children m).filter (· ∉ d.children e) ++ if m = n then d.children e else [])
  rw [inserted.children m, without]
  refine exchange.trans ?_
  split
  · rename_i heq
    rw [heq, empty]
    exact exchanged_of_not_mem _ fun hmem => apart (below e hmem)
  · rw [List.append_nil]

theorem lone_adopt_leaf (h : d.WellFormed) (data : NodeData) :
    Lone (d.adopt (.node data [])).2 d.nextId where
  known := exists_find?_iff.1 ⟨_, find?_adopt_leaf_self h data⟩
  ne_root := fun heq => h.nextId_not_mem (heq ▸ by
    rw [adopt_leaf, ids_cons]
    exact List.mem_cons_self)
  free := fun m hmem => h.nextId_not_mem (mem_ids_of_mem_children
    ((children_adopt_leaf h data m) ▸ hmem))

/-- **Renaming an element** puts a new one in its place and does nothing else. -/
theorem renamed_renameByMoves (h : d.WellFormed) (found : d.find? e = some t)
    (parent : d.parent? e = some p) (plain : Attributes.AllPlain t.label.data.attributes)
    (name : String) :
    Renamed d p e name (d.renameByMoves e name).1 (d.renameByMoves e name).2 := by
  obtain ⟨before, after, placed⟩ := h.exists_placed parent
  have child := h.parent?_eq_some_iff.1 parent
  have known : ∀ n ∈ ids (d.tree :: d.strays), n ≠ d.nextId :=
    fun n hn heq => h.nextId_not_mem (heq ▸ hn)
  have he : e ≠ d.nextId := known e (mem_ids_of_mem_children child)
  have hp : p ≠ d.nextId := known p (mem_ids_of_child child)
  have not_child : e ∉ d.children e :=
    fun hmem => h.not_mem_below found (mem_below_of_mem_children found e hmem)
  let element : NodeData := .element ⟨.unknown, name⟩ t.label.data.attributes
  have moves : d.renameByMoves e name = (d.nextId,
      (((d.children e).foldl (fun d' c => d'.append d.nextId c)
        (d.adopt (.node element [])).2).insertBefore e d.nextId).detach e) := by
    rw [renameByMoves, attributes_eq found, plain.plain_eq]
    rfl
  have whole := relinked_handOver (wellFormed_adopt_leaf h element)
    ((find?_adopt_leaf_of_ne element he).trans found) placed.ne_root (lone_adopt_leaf h element)
    ((children_adopt_leaf h element d.nextId).trans
      (children_of_find?_eq_none (find?_eq_none_iff.2 h.nextId_not_mem))) he
  simp only [children_adopt_leaf h element] at whole
  simp only [moves]
  constructor
  case fresh => exact h.nextId_not_mem
  case element =>
    refine ⟨t.label.data, by rw [data?, found, Option.map_some], ?_⟩
    exact (whole.label? _).trans (label?_of_find? (find?_adopt_leaf_self h element))
  case content => rw [whole.children, if_pos rfl]
  case place =>
    refine ⟨before, after, placed.child, ?_⟩
    rw [whole.children p, if_neg hp, h.filter_not_children placed.other, placed.child,
      exchanged_between _ placed.hbefore placed.hafter]
    rfl
  case emptied =>
    rw [whole.children e, if_neg he, filter_not_self]
    rfl
  case removed =>
    refine removed_of_not_child whole.wellFormed fun m hm => ?_
    rw [whole.children m] at hm
    split at hm
    · exact not_child hm
    · exact not_mem_exchanged (fun hmem => he (List.mem_singleton.1 hmem)) _ hm
  case frame =>
    refine ⟨whole.wellFormed, whole.root, fun n hn => ?_, fun n hn other => ?_⟩
    · rw [whole.label? n, label?, label?, find?_adopt_leaf_of_ne element (known n hn)]
    · rw [not_or] at other
      rw [whole.children n, if_neg (known n hn), h.filter_not_children other.2]
      exact exchanged_of_not_mem _ fun hmem => other.1 (h.eq_of_mem_children hmem child)

/-! ## New nodes -/

/-- A new node: it is in a tree beside the document in which there is no document node. -/
def Fresh (d : Document) (n : NodeId) : Prop :=
  ∃ t ∈ d.strays, n ∈ ids [t] ∧ ∀ x ∈ t.labels, x.data.isDocument = false

theorem isAttached_of_mem_row (h : d.WellFormed) {r : Row} (hr : r ∈ d.rows)
    (hn : n ∈ r.children) :
    d.isAttached n = (r.entry.data.isDocument || d.isAttached r.id) := by
  obtain ⟨t, found, rfl⟩ := h.find?_of_mem_rows hr
  exact h.isAttached_child found (by rwa [children_of_find? found])

/-- What is below an attached node is attached. -/
theorem isAttached_below (h : d.WellFormed) (rows : rowsOf t ⊆ d.rows)
    (root : d.isAttached t.label.id = true) : ∀ x ∈ ids [t], d.isAttached x = true := by
  intro x hx
  rw [ids_cons, ids_nil, List.append_nil, List.mem_cons] at hx
  rcases hx with rfl | hx
  · exact root
  · refine holds_below (S := fun x => d.isAttached x = true) (fun r hr attached c hc => ?_) root x hx
    rw [isAttached_of_mem_row h (rows hr) hc, attached, Bool.or_true]

/-- What is below a node that is not attached is not attached, if there is no document node. -/
theorem not_isAttached_below (h : d.WellFormed) (rows : rowsOf t ⊆ d.rows)
    (plain : ∀ x ∈ t.labels, x.data.isDocument = false)
    (root : d.isAttached t.label.id = false) : ∀ x ∈ ids [t], d.isAttached x = false := by
  intro x hx
  rw [ids_cons, ids_nil, List.append_nil, List.mem_cons] at hx
  rcases hx with rfl | hx
  · exact root
  · refine holds_below (S := fun x => d.isAttached x = false) (fun r hr detached c hc => ?_) root x hx
    have entry : r.entry ∈ t.labels := by
      rw [← map_entry_rowsOf]
      exact List.mem_map_of_mem hr
    rw [isAttached_of_mem_row h (rows hr) hc, plain _ entry, detached, Bool.or_false]

theorem rows_of_stray (ht : t ∈ d.strays) : rowsOf t ⊆ d.rows :=
  rowsOf_subset_of_mem (List.mem_cons_of_mem _ ht)

theorem Fresh.known (fresh : d.Fresh n) : n ∈ ids (d.tree :: d.strays) := by
  obtain ⟨t, ht, hn, -⟩ := fresh
  exact ids_subset_of_mem (List.mem_cons_of_mem _ ht) hn

/-- New nodes are not attached. -/
theorem Fresh.not_isAttached (fresh : d.Fresh n) (h : d.WellFormed) : d.isAttached n = false := by
  obtain ⟨t, ht, hn, plain⟩ := fresh
  have home : d.home? t.label.id = some (t, []) :=
    h.home?_of_at? (List.mem_cons_of_mem _ ht) rfl
  have root : d.isAttached t.label.id = false := by
    rw [isAttached, home]
    rfl
  exact not_isAttached_below h (rows_of_stray ht) plain root n hn

/-- What was just made is new. -/
theorem fresh_adopt_leaf (d : Document) {data : NodeData} (plain : data.isDocument = false) :
    (d.adopt (.node data [])).2.Fresh d.nextId := by
  refine ⟨.node ⟨d.nextId, data, none⟩ [], List.mem_cons_self, ?_, ?_⟩
  · rw [ids_leaf]
    exact List.mem_singleton_self _
  · simpa using plain

/-- New nodes can be moved. -/
theorem loose_fresh (h : d.WellFormed) : Loose d d.Fresh where
  wellFormed := h
  root := by
    rintro ⟨t, ht, hn, -⟩
    have nodup := h.nodup
    rw [ids_cons, List.nodup_cons] at nodup
    exact nodup.1 (List.mem_append_right _ (ids_subset_of_mem ht hn))
  closed := by
    rintro n ⟨t, ht, hn, plain⟩ c hc
    obtain ⟨r, hr, rfl⟩ := exists_row_of_mem_ids hn
    rw [rowsOfAll_cons, rowsOfAll_nil, List.append_nil] at hr
    rw [h.children_of_mem_rows (rows_of_stray ht hr)] at hc
    refine ⟨t, ht, ?_, plain⟩
    rw [ids_cons, ids_nil, List.append_nil]
    exact List.mem_cons_of_mem _ (children_subset_of_mem_rowsOf hr c hc)

/-- New nodes put into an element. -/
structure Inserted (d : Document) (e : NodeId) (ns : List NodeId) (mode : InsertMode)
    (d' : Document) : Prop where
  children : d'.children e = mode.arrange ns (d.children e)
  /-- They are taken from where they were. -/
  taken : ∀ n, n ≠ e → d'.children n = (d.children n).filter (· ∉ ns)
  removed : mode = .replace → ∀ c ∈ d.children e, Removed d' c
  /-- So is what is below the children that were there, unless there is a document node above it. -/
  below : mode = .replace → ∀ c ∈ d.children e, ∀ t, d.find? c = some t →
    (∀ x ∈ t.labels, x.data.isDocument = false) → ∀ n ∈ ids [t], d'.isAttached n = false
  frame : Frame d d' fun n => n = e ∨ ∃ m ∈ ns, m ∈ d.children n

/-- A new node put right after another one. -/
structure Followed (d : Document) (p e n : NodeId) (d' : Document) : Prop where
  place : ∃ before after, d.children p = before ++ e :: after ∧
    d'.children p = before ++ e :: n :: after
  nextSibling? : d'.nextSibling? e = some n
  taken : ∀ m, m ≠ p → d'.children m = (d.children m).filter (· ≠ n)
  frame : Frame d d' fun m => m = p ∨ n ∈ d.children m

/-- **New nodes put into an attached element** are its children as the mode says, and nothing else is
done. -/
theorem inserted_insertNodes (h : d.WellFormed) (attached : d.isAttached e = true) {ns : List NodeId}
    (fresh : ∀ n ∈ ns, d.Fresh n) (nodup : ns.Nodup) (mode : InsertMode) :
    Inserted d e ns mode (d.insertNodes e ns mode) := by
  obtain ⟨u, found⟩ := exists_find?_of_isAttached attached
  have old : ∀ x, d.isAttached x = true → ¬ d.Fresh x := fun x hx new => by
    rw [new.not_isAttached h] at hx
    cases hx
  have children : ∀ c ∈ d.children e, d.isAttached c = true := fun c hc => by
    rw [h.isAttached_child found hc, attached, Bool.or_true]
  have whole := (loose_fresh h).relinked_insertNodes (old e attached)
    (exists_find?_iff.1 ⟨u, found⟩) (fun c hc => old c (children c hc)) fresh
    (fun n hn => (fresh n hn).known) nodup mode
  have removed : mode = .replace → ∀ c ∈ d.children e, Removed (d.insertNodes e ns mode) c := by
    rintro rfl c hc
    refine removed_of_not_child whole.wellFormed fun m hm => ?_
    rw [whole.children m] at hm
    split at hm
    · exact old c (children c hc) (fresh c hm)
    · rename_i hne
      exact hne (h.eq_of_mem_children (List.mem_filter.1 hm).1 hc)
  constructor
  case children => rw [whole.children e, if_pos rfl]
  case taken => exact fun n hn => by rw [whole.children n, if_neg hn]
  case removed => exact removed
  case below =>
    intro replace c hc t foundC plain
    have rows := rowsOf_subset_rows foundC
    have hid := label_id_of_find? foundC
    have kept : rowsOf t ⊆ (d.insertNodes e ns mode).rows := by
      intro r hr
      have below : r.id ∈ ids [t] := by
        rw [← map_id_rowsOfAll, rowsOfAll_cons, rowsOfAll_nil, List.append_nil]
        exact List.mem_map_of_mem hr
      have other : r.id ≠ e := by
        rintro rfl
        exact (loose_below h found).not_below (mem_below_of_mem_children found c hc) foundC
          (h.not_mem_below found) below
      refine whole.mem_rows h (rows hr) ?_
      rw [if_neg other, h.children_of_mem_rows (rows hr)]
      refine List.filter_eq_self.2 fun x hx => decide_eq_true fun hmem => ?_
      refine old x (isAttached_below h rows (hid.symm ▸ children c hc) x ?_) (fresh x hmem)
      rw [ids_cons, ids_nil, List.append_nil]
      exact List.mem_cons_of_mem _ (children_subset_of_mem_rowsOf hr x hx)
    exact not_isAttached_below whole.wellFormed kept plain
      (hid.symm ▸ (removed replace c hc).isAttached)
  case frame =>
    refine ⟨whole.wellFormed, whole.root, fun n _ => whole.label? n, fun n _ other => ?_⟩
    rw [not_or] at other
    rw [whole.children n, if_neg other.1]
    exact List.filter_eq_self.2 fun c hc => decide_eq_true fun hmem => other.2 ⟨c, hmem, hc⟩

/-- **A new node put after an attached one** is its next sibling, and nothing else is done. -/
theorem followed_insertAfter (h : d.WellFormed) (attached : d.isAttached e = true)
    (parent : d.parent? e = some p) (fresh : d.Fresh n) :
    Followed d p e n (d.insertAfter e n) := by
  obtain ⟨before, after, placed⟩ := h.exists_placed parent
  have child := h.parent?_eq_some_iff.1 parent
  obtain ⟨u, found⟩ := exists_find?_iff.2 (mem_ids_of_child child)
  have old : ∀ x ∈ d.children p, ¬ d.Fresh x := fun x hx new => by
    have same := (h.isAttached_child found hx).trans (h.isAttached_child found child).symm
    rw [attached, new.not_isAttached h] at same
    cases same
  have hp : ¬ d.Fresh p := fun new => old e child ((loose_fresh h).closed p new e child)
  have whole := (loose_fresh h).relinked_insertAfter fresh fresh.known hp child old
  have hplace : (d.insertAfter e n).children p = before ++ e :: n :: after := by
    rw [whole.children p, filter_ne_of_not_mem fun hmem => old n hmem fresh, placed.child,
      exchanged_between _ placed.hbefore placed.hafter]
    rfl
  have taken : ∀ m, m ≠ p → (d.insertAfter e n).children m = (d.children m).filter (· ≠ n) := by
    intro m hm
    rw [whole.children m]
    exact exchanged_of_not_mem _ fun hmem =>
      hm (h.eq_of_mem_children (List.mem_filter.1 hmem).1 child)
  constructor
  case place => exact ⟨before, after, placed.child, hplace⟩
  case nextSibling? => exact whole.wellFormed.nextSibling?_eq hplace
  case taken => exact taken
  case frame =>
    refine ⟨whole.wellFormed, whole.root, fun m _ => whole.label? m, fun m _ other => ?_⟩
    rw [not_or] at other
    rw [taken m other.1, filter_ne_of_not_mem other.2]

/-- **Edits do what they say.** Of an attached element with plain attributes: renaming puts one element
of the new name in its place, with its attributes and its children in order; unwrapping puts its
children there; new nodes put into it are its children instead of the old ones, before them, or after
them; a new node put after it is its next sibling. Renaming and unwrapping move the children one by
one. Nothing else is changed, and what was removed is not attached any more. -/
theorem edits_exact (h : d.WellFormed) (found : d.find? e = some t)
    (attached : d.isAttached e = true)
    (plain : Attributes.AllPlain t.label.data.attributes) :
    ∃ p, d.parent? e = some p ∧
      (∀ name, d.rename e name = d.renameByMoves e name ∧
        Renamed d p e name (d.rename e name).1 (d.rename e name).2) ∧
      (d.unwrap e = d.unwrapByMoves e ∧ Unwrapped d p e (d.unwrap e)) ∧
      (∀ ns : List NodeId, (∀ n ∈ ns, d.Fresh n) → ns.Nodup → ∀ mode,
        Inserted d e ns mode (d.insertNodes e ns mode)) ∧
      ∀ n, d.Fresh n → Followed d p e n (d.insertAfter e n) := by
  obtain ⟨p, -, -, -, -, parent, -⟩ := h.exists_parent attached
  refine ⟨p, parent, fun name => ?_, ?_, fun ns fresh nodup mode => ?_, fun n fresh => ?_⟩
  · have moves := rename_eq_renameByMoves h attached found name
    exact ⟨moves, moves ▸ renamed_renameByMoves h found parent plain name⟩
  · have moves := unwrap_eq_unwrapByMoves h attached found
    exact ⟨moves, moves ▸ unwrapped_unwrapByMoves h found parent⟩
  · exact inserted_insertNodes h attached fresh nodup mode
  · exact followed_insertAfter h attached parent fresh

/-- A list with an item that has two children, and a new text beside the page. -/
def itemAndText : Document :=
  ((ofHtml "<ul><li title=\"t\">a<b>c</b></li></ul>").adopt (.node (.text "d") [])).2

/-- The item is renamed and unwrapped, and the text is put before its children and after it. -/
theorem edits_exact_itemAndText :
    Renamed itemAndText 4 5 "p" (itemAndText.rename 5 "p").1 (itemAndText.rename 5 "p").2 ∧
      Unwrapped itemAndText 4 5 (itemAndText.unwrap 5) ∧
      Inserted itemAndText 5 [9] .prepend (itemAndText.insertNodes 5 [9] .prepend) ∧
      Followed itemAndText 4 5 9 (itemAndText.insertAfter 5 9) := by
  have seen : (itemAndText.find? 5).map (fun t => t.label.data.attributes) =
      some [⟨.plain, "title", "t"⟩] := by
    decide +kernel
  obtain ⟨t, found, attributes⟩ := Option.map_eq_some_iff.1 seen
  have plain : Attributes.AllPlain t.label.data.attributes := by
    rw [attributes]
    exact ⟨by simp, by simp⟩
  have next : (ofHtml "<ul><li title=\"t\">a<b>c</b></li></ul>").nextId = 9 := by decide +kernel
  have fresh : itemAndText.Fresh 9 := next ▸ fresh_adopt_leaf _ rfl
  have wellFormed : itemAndText.WellFormed := wellFormed_adopt_leaf (wellFormed_ofHtml _) _
  obtain ⟨p, parent, renamed, ⟨-, unwrapped⟩, inserted, followed⟩ :=
    edits_exact wellFormed found (by decide +kernel) plain
  obtain rfl : p = 4 := by
    have four : itemAndText.parent? 5 = some 4 := by decide +kernel
    exact Option.some.inj (parent.symm.trans four)
  exact ⟨(renamed "p").2, unwrapped, inserted [9] (by simpa using fresh) (by simp) .prepend,
    followed 9 fresh⟩

end MarkupTemplate.Document
