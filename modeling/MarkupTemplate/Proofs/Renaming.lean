import MarkupTemplate.Proofs.TextFilling

/-!
# Renamed elements

What a page becomes when one value of a stack renames elements and another one puts a text into
elements or changes their attributes.

* `Rework.renamed`, `Rework.withAttributes` — what becomes of the elements.
* `Document.changed_rename`, `Document.changed_attributes` — both edits change the node alone.
* `Rendering.Update` — the value that does not rename.
-/

namespace MarkupTemplate

open MarkupTemplate.Document (hasId ids)

namespace Tree

variable {α : Type} {p : α → Bool} {f g : Tree α → Tree α}

mutual

theorem update_congr : ∀ {t found : Tree α}, t.labels.countP p ≤ 1 → find? p t = some found →
    f found = g found → update p f t = update p g t
  | .node a ts, found, one, hfound, same => by
    rw [labels_node, List.countP_cons] at one
    rw [find?] at hfound
    rw [update, update]
    split at hfound
    · rename_i ha
      cases hfound
      rw [if_pos ha, if_pos ha, same]
    · rename_i ha
      rw [if_neg ha, if_neg ha, updateList_congr (by omega) hfound same]

/-- What is done to a node depends on that node alone, if it is the only one. -/
theorem updateList_congr : ∀ {ts : List (Tree α)} {found : Tree α}, (labelsList ts).countP p ≤ 1 →
    findList? p ts = some found → f found = g found → updateList p f ts = updateList p g ts
  | [], _, _, hfound, _ => nomatch hfound
  | t :: ts, found, one, hfound, same => by
    rw [labelsList_cons, List.countP_append] at one
    rw [findList?] at hfound
    rw [updateList, updateList]
    split at hfound
    · rename_i ht
      cases hfound
      obtain ⟨here, absent⟩ := countP_of_find? one ht
      rw [update_congr here ht same, updateList_of_absent f ts absent,
        updateList_of_absent g ts absent]
    · rename_i ht
      have absent := (find?_eq_none_iff t).1 ht
      rw [update_of_absent f t absent, update_of_absent g t absent,
        updateList_congr (by omega) hfound same]

end

mutual

theorem update_id : ∀ t : Tree α, update p (fun t => t) t = t
  | .node a ts => by
    rw [update, updateList_id ts, ite_self]

theorem updateList_id : ∀ ts : List (Tree α), updateList p (fun t => t) ts = ts
  | [] => rfl
  | t :: ts => by rw [updateList, update_id t, updateList_id ts]

end

mutual

theorem update_update (hf : ∀ t : Tree α, p (f t).label = p t.label) :
    ∀ t, update p g (update p f t) = update p (fun t => g (f t)) t
  | .node a ts => by
    have same := hf (.node a ts)
    rw [update, update]
    split
    · rename_i ha
      rcases hnode : f (.node a ts) with ⟨b, us⟩
      rw [hnode, label_node, label_node] at same
      rw [update, if_pos (same.trans ha)]
    · rename_i ha
      rw [update, if_neg ha, updateList_update hf ts]

/-- Two things done to a node, one after the other. -/
theorem updateList_update (hf : ∀ t : Tree α, p (f t).label = p t.label) :
    ∀ ts, updateList p g (updateList p f ts) = updateList p (fun t => g (f t)) ts
  | [] => rfl
  | t :: ts => by
    rw [updateList, updateList, updateList, update_update hf t, updateList_update hf ts]

end

mutual

theorem find?_update (hf : ∀ t : Tree α, p (f t).label = p t.label) :
    ∀ t, find? p (update p f t) = (find? p t).map f
  | .node a ts => by
    have same := hf (.node a ts)
    rw [update, find?]
    split
    · rename_i ha
      rcases hnode : f (.node a ts) with ⟨b, us⟩
      rw [hnode, label_node, label_node] at same
      rw [find?, if_pos (same.trans ha), Option.map_some, hnode]
    · rename_i ha
      rw [find?, if_neg ha, findList?_updateList hf ts]

/-- A node that was changed is found as it is then. -/
theorem findList?_updateList (hf : ∀ t : Tree α, p (f t).label = p t.label) :
    ∀ ts, findList? p (updateList p f ts) = (findList? p ts).map f
  | [] => rfl
  | t :: ts => by
    rw [updateList, findList?, findList?, find?_update hf t, findList?_updateList hf ts]
    cases find? p t <;> rfl

end

section Pairs

variable {c : Tree α → Tree α}

mutual

theorem splice_pair (hg : ∀ t, p t.label = true → ¬ p (g t).label = true)
    (children : ∀ t, (g t).children = t.children) (hc : ∀ t, (c t).label = t.label) :
    ∀ {t : Tree α}, t.labels.countP p ≤ 1 → ¬ p t.label = true →
      splice p (fun _ => []) (splice p (fun t => [g t, c t]) t) = update p g t
  | .node a ts, one, ha => by
    rw [labels_node, List.countP_cons] at one
    rw [label_node] at ha
    rw [splice, splice, update, if_neg ha, spliceList_pair hg children hc (by omega)]

/-- A node replaced by two others, of which one is then taken out, is replaced by the other one. -/
theorem spliceList_pair (hg : ∀ t, p t.label = true → ¬ p (g t).label = true)
    (children : ∀ t, (g t).children = t.children) (hc : ∀ t, (c t).label = t.label) :
    ∀ {ts : List (Tree α)}, (labelsList ts).countP p ≤ 1 →
      spliceList p (fun _ => []) (spliceList p (fun t => [g t, c t]) ts) = updateList p g ts
  | [], _ => rfl
  | t :: ts, one => by
    rw [labelsList_cons, List.countP_append] at one
    rw [spliceList, updateList]
    split
    · rename_i ht
      rw [labels_eq, List.countP_cons, if_pos ht] at one
      rcases hnew : g t with ⟨b, us⟩
      have hb : ¬ p b = true := by
        have := hg t ht
        rwa [hnew] at this
      have hus : us = t.children := by
        have := children t
        rwa [hnew] at this
      have here : update p g t = g t := by
        cases t
        rw [update]
        exact if_pos ht
      have taken : p (c t).label = true := by rwa [hc]
      rw [spliceList_of_absent _ ts (by omega), here, hnew, List.cons_append, spliceList,
        label_node, if_neg hb, splice, spliceList_of_absent _ us (by rw [hus]; omega),
        List.cons_append, List.nil_append, spliceList, if_pos taken, List.nil_append,
        spliceList_of_absent _ ts (by omega), updateList_of_absent g ts (by omega)]
    · rename_i ht
      have hlabel : ¬ p (splice p (fun t => [g t, c t]) t).label = true := by
        cases t
        exact ht
      rw [spliceList, if_neg hlabel, splice_pair hg children hc (by omega) ht,
        spliceList_pair hg children hc (by omega)]

end

mutual

theorem find?_splice_pair (hg : ∀ t, p t.label = true → ¬ p (g t).label = true)
    (children : ∀ t, (g t).children = t.children) (hc : ∀ t, (c t).label = t.label) :
    ∀ {t : Tree α}, t.labels.countP p ≤ 1 → ¬ p t.label = true →
      find? p (splice p (fun t => [g t, c t]) t) = (find? p t).map c
  | .node a ts, one, ha => by
    rw [labels_node, List.countP_cons] at one
    rw [label_node] at ha
    rw [splice, find?, find?, if_neg ha, if_neg ha,
      findList?_spliceList_pair hg children hc (by omega)]

/-- The other of the two nodes is found. -/
theorem findList?_spliceList_pair (hg : ∀ t, p t.label = true → ¬ p (g t).label = true)
    (children : ∀ t, (g t).children = t.children) (hc : ∀ t, (c t).label = t.label) :
    ∀ {ts : List (Tree α)}, (labelsList ts).countP p ≤ 1 →
      findList? p (spliceList p (fun t => [g t, c t]) ts) = (findList? p ts).map c
  | [], _ => rfl
  | t :: ts, one => by
    rw [labelsList_cons, List.countP_append] at one
    rw [spliceList, findList?]
    split
    · rename_i ht
      rw [labels_eq, List.countP_cons, if_pos ht] at one
      have absent : (g t).labels.countP p = 0 := by
        rw [labels_eq, List.countP_cons, if_neg (hg t ht), children]
        omega
      have here : find? p t = some t := by
        cases t
        rw [find?]
        exact if_pos ht
      have other : find? p (c t) = some (c t) := by
        have hlabel : p (c t).label = true := by rwa [hc]
        rcases hnode : c t with ⟨b, us⟩
        rw [hnode, label_node] at hlabel
        rw [find?, if_pos hlabel]
      rw [List.cons_append, findList?, find?_of_absent _ absent, List.cons_append, findList?, other,
        here]
      rfl
    · rename_i ht
      rw [findList?, find?_splice_pair hg children hc (by omega) ht,
        findList?_spliceList_pair hg children hc (by omega)]
      cases find? p t <;> rfl

end

end Pairs

end Tree

namespace Document

variable {d : Document} {id : NodeId} {t : Tree Entry} {f g : Tree Entry → Tree Entry}

mutual

theorem ids_update (hf : ∀ t, ids [f t] = ids [t]) (p : Entry → Bool) :
    ∀ t : Tree Entry, ids [t.update p f] = ids [t]
  | .node e ts => by
    rw [Tree.update]
    split
    · exact hf _
    · rw [ids_cons, ids_cons, Tree.children_node, Tree.children_node, ids_updateList hf p ts]
      rfl

/-- Changes that keep the identities of nodes keep those of all trees. -/
theorem ids_updateList (hf : ∀ t, ids [f t] = ids [t]) (p : Entry → Bool) :
    ∀ ts : List (Tree Entry), ids (Tree.updateList p f ts) = ids ts
  | [] => rfl
  | t :: ts => by
    rw [Tree.updateList, show t.update p f :: Tree.updateList p f ts =
      [t.update p f] ++ Tree.updateList p f ts from rfl, show t :: ts = [t] ++ ts from rfl,
      ids_append, ids_append, ids_update hf p t, ids_updateList hf p ts]

end

theorem WellFormed.update (h : d.WellFormed) (id : NodeId) (hf : ∀ t, ids [f t] = ids [t]) :
    (d.update id f).WellFormed := by
  have same : ids ((d.update id f).tree :: (d.update id f).strays) = ids (d.tree :: d.strays) :=
    ids_updateList hf (hasId id) (d.tree :: d.strays)
  exact ⟨same ▸ h.nodup, fun i hi => h.known i (same ▸ hi)⟩

theorem update_congr (h : d.WellFormed) (found : d.find? id = some t) (same : f t = g t) :
    d.update id f = d.update id g := by
  have trees := Tree.updateList_congr (h.countP_hasId_le_one id) found same
  rw [Tree.updateList, Tree.updateList, List.cons.injEq] at trees
  rw [Document.update, Document.update, trees.1, trees.2]

/-- A node that stays what it is. -/
theorem changed_self {u : Rework} (h : d.WellFormed) (found : d.find? id = some t)
    (same : u.node t = t) : d.Changed id u d := by
  have kept : d.update id u.node = d := by
    rw [update_congr h found (g := fun t => t) same, Document.update,
      Tree.update_id, Tree.updateList_id]
  exact ⟨(congrArg Document.tree kept).symm, ⟨[], (congrArg Document.strays kept).symm⟩, h,
    fun _ _ unmarked => unmarked, Nat.le_refl _⟩

/-! ## Attributes -/

/-- One attribute of a node set or extended, or removed. -/
def withAttribute (mode : InsertMode) (data : NodeData) (entry : String × Option String) :
    NodeData :=
  match entry.2 with
  | some value =>
    data.mapAttributes (Attributes.set entry.1 (mergedValue (data.attribute? entry.1) value mode))
  | none => data.mapAttributes (Attributes.erase entry.1)

/-- Attributes of a node set, extended or removed. -/
def withAttributes (mode : InsertMode) (values : List (String × Option String))
    (data : NodeData) : NodeData :=
  values.foldl (withAttribute mode) data

/-- A node that holds something else. -/
def relabelled (f : NodeData → NodeData) (u : Tree Entry) : Tree Entry :=
  .node { u.label with data := f u.label.data } u.children

theorem ids_relabelled (f : NodeData → NodeData) (u : Tree Entry) :
    ids [relabelled f u] = ids [u] := by
  cases u
  simp [relabelled]

theorem hasId_relabelled (f : NodeData → NodeData) (u : Tree Entry) :
    hasId id (relabelled f u).label = hasId id u.label :=
  rfl

theorem applyAttribute_eq (h : d.WellFormed) (found : d.find? id = some t) (mode : InsertMode)
    (entry : String × Option String) :
    Rendering.applyAttribute mode id d entry =
      d.update id (relabelled fun data => withAttribute mode data entry) := by
  have value : ∀ name, d.attribute? id name = t.label.data.attribute? name := by
    intro name
    rw [attribute?, data?, found]
    rfl
  obtain ⟨name, value?⟩ := entry
  cases value? with
  | none => rfl
  | some v =>
    refine update_congr h found ?_
    simp only [relabelled, withAttribute, value]

/-- Attributes applied to a node are a change of what it holds. -/
theorem foldl_applyAttribute (mode : InsertMode) : ∀ (values : List (String × Option String))
    {d : Document} {t : Tree Entry}, d.WellFormed → d.find? id = some t →
    values.foldl (Rendering.applyAttribute mode id) d =
      d.update id (relabelled (withAttributes mode values))
  | [], d, t, _, _ => by
    have same : relabelled (withAttributes mode []) = fun u => u := by
      funext u
      cases u
      rfl
    rw [same, List.foldl_nil, Document.update, Tree.update_id, Tree.updateList_id]
  | entry :: values, d, t, h, found => by
    have first := applyAttribute_eq h found mode entry
    have h' := h.update id (ids_relabelled fun data => withAttribute mode data entry)
    have found' : (d.update id (relabelled fun data => withAttribute mode data entry)).find? id =
        some (relabelled (fun data => withAttribute mode data entry) t) := by
      have keeps : ∀ u, hasId id (relabelled (fun data => withAttribute mode data entry) u).label =
          hasId id u.label :=
        hasId_relabelled _
      have changed := Tree.findList?_updateList keeps (d.tree :: d.strays)
      rw [show Tree.findList? (hasId id) (d.tree :: d.strays) = some t from found] at changed
      exact changed
    rw [List.foldl_cons, first, foldl_applyAttribute mode values h' found']
    simp only [Document.update, Tree.update_update (hasId_relabelled _),
      Tree.updateList_update (hasId_relabelled _)]
    rfl

theorem unmarked_withAttribute {mode : InsertMode} {data : NodeData}
    {entry : String × Option String} (h : Unmarked data.attributes)
    (hname : ¬ attributeMarker.toList <+: entry.1.toList) :
    Unmarked (withAttribute mode data entry).attributes := by
  have set : ∀ (as : List Attribute) value, Unmarked as →
      Unmarked (Attributes.set entry.1 value as) := by
    intro as value has
    induction as with
    | nil => exact List.forall_mem_singleton.2 hname
    | cons a as ih =>
      obtain ⟨ha, has⟩ := List.forall_mem_cons.1 has
      rw [Attributes.set]
      split
      · exact List.forall_mem_cons.2 ⟨ha, has⟩
      · exact List.forall_mem_cons.2 ⟨ha, ih has⟩
  obtain ⟨name, value?⟩ := entry
  cases data with
  | element n as =>
    cases value? with
    | some value => exact set as _ h
    | none => exact fun a ha => h a (List.mem_of_mem_filter ha)
  | document | doctype _ | text _ | comment _ => cases value? <;> exact List.forall_mem_nil _

theorem unmarked_withAttributes {mode : InsertMode} : ∀ {values : List (String × Option String)},
    (∀ v ∈ values, ¬ attributeMarker.toList <+: v.1.toList) → ∀ {data : NodeData},
      Unmarked data.attributes → Unmarked (withAttributes mode values data).attributes
  | [], _, _, h => h
  | _ :: _, hvalues, _, h => by
    obtain ⟨hv, hvalues⟩ := List.forall_mem_cons.1 hvalues
    exact unmarked_withAttributes hvalues (unmarked_withAttribute h hv)

end Document

/-- What becomes of an element whose attributes are set, extended or removed. -/
def Rework.withAttributes (mode : InsertMode) (values : List (String × Option String)) : Rework :=
  ⟨fun e => { e with data := Document.withAttributes mode values e.data }, fun _ us => us⟩

/-- What an element holds under a new name. -/
def NodeData.renamed (name : String) (data : NodeData) : NodeData :=
  if data.tag? = some name then data
  else .element ⟨.unknown, name⟩ (Attributes.plain data.attributes)

/-- What becomes of an element that gets a name: if it has another one, a new element takes its
place. -/
def Rework.renamed (name : String) (new : NodeId) : Rework :=
  ⟨fun e => if e.data.tag? = some name then e else ⟨new, e.data.renamed name, none⟩, fun _ us => us⟩

theorem Rework.data_renamed (name : String) (new : NodeId) (e : Entry) :
    ((renamed name new).entry e).data = e.data.renamed name := by
  rw [renamed]
  dsimp only
  split
  · rename_i same
    exact (if_pos same).symm
  · rfl

/-- An entry keeps its identity exactly if its node has the name already. -/
theorem Rework.id_renamed (name : String) {new : NodeId} {e : Entry} (h : e.id ≠ new) :
    ((renamed name new).entry e).id = e.id ↔ e.data.tag? = some name := by
  rw [renamed]
  dsimp only
  split
  · rename_i same
    exact iff_of_true rfl same
  · rename_i other
    exact iff_of_false (Ne.symm h) other

theorem Rework.fresh_withAttributes (mode : InsertMode) (values : List (String × Option String))
    (n : NodeId) : (withAttributes mode values).Fresh n :=
  ⟨fun _ => .inl rfl, fun _ _ _ _ _ => rfl⟩

theorem Rework.fresh_renamed (name : String) {n new : NodeId} (h : n ≤ new) :
    (renamed name new).Fresh n where
  entry e := by
    rw [renamed]
    dsimp only
    split
    · exact .inl rfl
    · exact .inr h
  children _ _ _ _ _ := rfl

namespace Document

variable {d : Document} {id new : NodeId} {t : Tree Entry} {name : String}

/-- **Attributes set, extended or removed** change nothing but the node that has them. -/
theorem changed_attributes (h : d.WellFormed) (found : d.find? id = some t) (mode : InsertMode)
    {values : List (String × Option String)}
    (free : ∀ v ∈ values, ¬ attributeMarker.toList <+: v.1.toList) :
    d.Changed id (.withAttributes mode values)
      (values.foldl (Rendering.applyAttribute mode id) d) := by
  rw [foldl_applyAttribute mode values h found]
  constructor
  case tree => rfl
  case strays => exact ⟨[], rfl⟩
  case wellFormed => exact h.update id (ids_relabelled _)
  case unmarked =>
    intro P _ unmarked
    refine Tree.holdsAll_updateList (fun u _ hu => ?_) (d.tree :: d.strays) unmarked
    exact Tree.holds_node.2 ⟨fun hP => unmarked_withAttributes free (hu.label hP), hu.children⟩
  case next => exact Nat.le_refl _

/-! ## Names -/

mutual

theorem ids_update_renamed {g : Tree Entry → Tree Entry}
    (hg : ∀ u, ids [g u] = new :: ids u.children) : ∀ {u : Tree Entry},
    u.labels.countP (hasId id) ≤ 1 →
      ids [u.update (hasId id) g] = (ids [u]).map fun i => if i = id then new else i
  | .node e us, one => by
    rw [Tree.labels_node, List.countP_cons] at one
    have old : ids [Tree.node e us] = e.id :: ids us := by simp
    rw [Tree.update, old, List.map_cons]
    split
    · rename_i he
      rw [if_pos he] at one
      have absent : id ∉ ids us := countP_hasId_eq_zero.1 (by omega)
      have same : (ids us).map (fun i => if i = id then new else i) = ids us := by
        conv_rhs => rw [← List.map_id' (ids us)]
        refine List.map_congr_left fun i hi => ?_
        have hne : i ≠ id := fun heq => absent (heq ▸ hi)
        exact if_neg hne
      rw [hg, if_pos (by simpa [hasId] using he), same, Tree.children_node]
    · rename_i he
      rw [ids_cons, ids_nil, List.append_nil, Tree.label_node, Tree.children_node,
        ids_updateList_renamed hg (by omega), if_neg (by simpa [hasId] using he)]

/-- A node that is replaced by a new one has its identity replaced. -/
theorem ids_updateList_renamed {g : Tree Entry → Tree Entry}
    (hg : ∀ u, ids [g u] = new :: ids u.children) : ∀ {us : List (Tree Entry)},
    (Tree.labelsList us).countP (hasId id) ≤ 1 →
      ids (Tree.updateList (hasId id) g us) = (ids us).map fun i => if i = id then new else i
  | [], _ => rfl
  | u :: us, one => by
    rw [Tree.labelsList_cons, List.countP_append] at one
    rw [Tree.updateList, show u.update (hasId id) g :: Tree.updateList (hasId id) g us =
      [u.update (hasId id) g] ++ Tree.updateList (hasId id) g us from rfl,
      show u :: us = [u] ++ us from rfl, ids_append, ids_append, List.map_append,
      ids_update_renamed hg (by omega), ids_updateList_renamed hg (by omega)]

end

/-- A node under a new name, as a node of its own. -/
def renamedNode (name : String) (new : NodeId) (u : Tree Entry) : Tree Entry :=
  .node ⟨new, .element ⟨.unknown, name⟩ (Attributes.plain u.label.data.attributes), none⟩ u.children

/-- The document in which an element was renamed. -/
theorem rename_eq (h : d.WellFormed) (found : d.find? id = some t) (hroot : id ≠ d.root)
    (name : String) :
    (d.rename id name).2 =
      { tree := d.tree.update (hasId id) (renamedNode name d.nextId)
        strays := t.withChildren [] ::
          Tree.updateList (hasId id) (renamedNode name d.nextId) d.strays
        nextId := d.nextId + 1 } := by
  have one := h.countP_hasId_le_one id
  rw [Tree.labelsList_cons, List.countP_append] at one
  have known : id < d.nextId := by
    obtain ⟨hentry, rfl⟩ := find?_mem_entries found
    exact h.known _ (List.mem_map_of_mem hentry)
  have hnew : ∀ u : Tree Entry, hasId id u.label = true →
      ¬ hasId id (renamedNode name d.nextId u).label = true := fun u _ => by
    simpa [renamedNode, hasId] using Nat.ne_of_gt known
  have hchildren : ∀ u : Tree Entry, (renamedNode name d.nextId u).children = u.children :=
    fun _ => rfl
  have htree : ¬ hasId id d.tree.label = true := by
    simpa [hasId, root] using Ne.symm hroot
  have hlabel : ∀ u : Tree Entry, (u.withChildren []).label = u.label := fun u => by simp
  have htreeOne : d.tree.labels.countP (hasId id) ≤ 1 := by omega
  have hstraysOne : (Tree.labelsList d.strays).countP (hasId id) ≤ 1 := by omega
  let pair (u : Tree Entry) : List (Tree Entry) :=
    [renamedNode name d.nextId u, u.withChildren []]
  have hsplice : { d with nextId := d.nextId + 1 }.splice id pair =
      ⟨d.tree.splice (hasId id) pair, Tree.spliceList (hasId id) pair d.strays, d.nextId + 1⟩ := rfl
  have here : ({ d with nextId := d.nextId + 1 }.splice id pair).find? id =
      some (t.withChildren []) := by
    have both : ({ d with nextId := d.nextId + 1 }.splice id pair).find? id =
        (d.find? id).map fun u => u.withChildren [] := by
      rw [hsplice, find?, find?, Tree.findList?, Tree.findList?,
        Tree.find?_splice_pair hnew hchildren hlabel htreeOne htree,
        Tree.findList?_spliceList_pair hnew hchildren hlabel hstraysOne]
      cases Tree.find? (hasId id) d.tree <;> rfl
    rw [both, found, Option.map_some]
  have same : ({ d with nextId := d.nextId + 1 }.splice id pair).root = d.root := by
    rw [hsplice, root, root]
    cases d.tree
    rfl
  change ({ d with nextId := d.nextId + 1 }.splice id pair).detach id = _
  rw [detach, take?, same, if_neg hroot, here, Option.map_some, hsplice, splice]
  dsimp only
  rw [Tree.splice_pair hnew hchildren hlabel htreeOne htree,
    Tree.spliceList_pair hnew hchildren hlabel hstraysOne]

/-- **An element renamed:** another one takes its place, and nothing else changes. -/
theorem changed_rename (h : d.WellFormed) (found : d.find? id = some t) (hroot : id ≠ d.root)
    (other : t.label.data.tag? ≠ some name) :
    d.Changed id (.renamed name d.nextId) (d.rename id name).2 := by
  have one := h.countP_hasId_le_one id
  have known : ∀ i ∈ ids (d.tree :: d.strays), i ≠ d.nextId := fun i hi =>
    Nat.ne_of_lt (h.known i hi)
  have same : renamedNode name d.nextId t = (Rework.renamed name d.nextId).node t := by
    simp only [Rework.node, Rework.renamed, renamedNode, NodeData.renamed, if_neg other]
  have trees := Tree.updateList_congr one found same
  rw [Tree.updateList, Tree.updateList, List.cons.injEq] at trees
  have hids : ids (Tree.updateList (hasId id) (renamedNode name d.nextId) (d.tree :: d.strays)) =
      (ids (d.tree :: d.strays)).map fun i => if i = id then d.nextId else i :=
    ids_updateList_renamed (fun u => by simp [renamedNode]) one
  have perm : (ids (d.tree.update (hasId id) (renamedNode name d.nextId) :: t.withChildren [] ::
      Tree.updateList (hasId id) (renamedNode name d.nextId) d.strays)).Perm
        (id :: (ids (d.tree :: d.strays)).map fun i => if i = id then d.nextId else i) := by
    obtain ⟨-, hid⟩ := find?_mem_entries found
    rw [← hids, Tree.updateList]
    refine List.perm_iff_count.2 fun i => ?_
    simp only [ids_cons, Tree.label_withChildren, Tree.children_withChildren, ids_nil,
      List.nil_append, List.count_append, List.count_cons, hid]
    omega
  rw [rename_eq h found hroot name]
  constructor
  case tree => exact trees.1
  case strays => exact ⟨[t.withChildren []], congrArg (t.withChildren [] :: ·) trees.2⟩
  case wellFormed =>
    constructor
    · refine perm.nodup_iff.2 (List.nodup_cons.2 ⟨fun hmem => ?_, h.nodup.map_on ?_⟩)
      · obtain ⟨i, hi, heq⟩ := List.mem_map.1 hmem
        obtain ⟨hentry, rfl⟩ := find?_mem_entries found
        split at heq
        · exact known _ (List.mem_map_of_mem hentry) heq.symm
        · rename_i hne
          exact hne heq
      · intro i hi j hj heq
        split at heq <;> split at heq
        · rename_i hi' hj'
          rw [hi', hj']
        · exact absurd heq.symm (known j hj)
        · exact absurd heq (known i hi)
        · exact heq
    · intro i hi
      rcases List.mem_cons.1 (perm.mem_iff.1 hi) with rfl | hmem
      · obtain ⟨hentry, hid⟩ := find?_mem_entries found
        exact Nat.lt_succ_of_lt (hid ▸ h.known _ (List.mem_map_of_mem hentry))
      · obtain ⟨j, hj, rfl⟩ := List.mem_map.1 hmem
        split
        · exact Nat.lt_succ_self _
        · exact Nat.lt_succ_of_lt (h.known j hj)
  case unmarked =>
    intro P bound unmarked
    have hrenamed : ∀ u : Tree Entry, hasId id u.label = true →
        u.Holds (fun e => P e.id → Unmarked e.data.attributes) →
        (renamedNode name d.nextId u).Holds fun e => P e.id → Unmarked e.data.attributes :=
      fun u _ hu => Tree.holds_node.2
        ⟨fun hP => absurd (bound _ hP) (Nat.lt_irrefl _), hu.children⟩
    have all := Tree.holdsAll_cons.1
      (Tree.holdsAll_updateList hrenamed (d.tree :: d.strays) unmarked)
    have taken := (Tree.holds_findList? unmarked found).1.withChildren Tree.holdsAll_nil
    exact Tree.holdsAll_cons.2 ⟨all.1, Tree.holdsAll_cons.2 ⟨taken, all.2⟩⟩
  case next => exact Nat.le_succ _

end Document

/-! ## Jobs -/

namespace Rendering

open Document

variable {settings : Settings} {here : Situation} {r r' : Rendering} {node : NodeId}
variable {t : Tree Entry} {name : String}

/-- A set of a single directive, applied to a node that carries no parameters. -/
theorem runFrom_fillDirective {params : Params} {directive : Directive} {o : Option NodeId}
    (found : r.page.document.find? node = some t) (unmarked : Unmarked t.label.data.attributes)
    (attached : r.page.document.isAttached node = true)
    (h : ∀ params, (directive.job settings { here with params := params } node).runFrom
      { r with touched := r.touched ++ [node] } = (.ok o, r')) :
    (fillNode settings ((Content.directives params [directive]).job settings) here node).runFrom r =
      (.ok (), r') := by
  refine runFrom_fillNode found unmarked (o := some node) ?_
  have single : Directive.orderedBy (fun e : Directive × Job => e.1.rank?)
      (Directive.jobs settings [directive]) = [(directive, directive.job settings)] :=
    List.perm_singleton.1 (Directive.orderedBy_perm _ _)
  have document : Rendering.document.runFrom { r with touched := r.touched ++ [node] } =
      (.ok r.page.document, { r with touched := r.touched ++ [node] }) := rfl
  have own : (liftM (r.page.document.nodeParams node) : Action Rendering Params).runFrom
      { r with touched := r.touched ++ [node] } =
        (.ok .empty, { r with touched := r.touched ++ [node] }) := by
    rw [nodeParams_unmarked found unmarked]
    rfl
  rw [Content.job, fillDirectives, single, Action.runFrom_bind_ok document,
    Action.runFrom_bind_ok own]
  have applied : (applyInOrder settings
      { here with params := Params.empty.orElse (params.orElse here.params) } (some node)
      [(directive, directive.job settings)]).runFrom { r with touched := r.touched ++ [node] } =
        (.ok (), r') := by
    rw [applyInOrder, Action.runFrom_bind_ok document, if_pos attached,
      Action.runFrom_bind_ok (attempt_ok (h _))]
    cases o <;> rfl
  exact Action.runFrom_bind_ok applied

/-- A new name for elements. -/
theorem reworks_rename (params : Params) (named : isTagName name = true) :
    Reworks settings here ((Content.directives params [.control (.rename name)]).job settings)
      (.renamed name) := by
  intro r id t wellFormed found unmarked attached hroot
  have tag : r.page.document.tag? id = t.label.data.tag? := by
    rw [Document.tag?, data?, found]
    rfl
  by_cases same : t.label.data.tag? = some name
  · -- nothing is done to an element that has the name
    refine ⟨r.page.document, r.touched ++ [id],
      runFrom_fillDirective found unmarked attached (o := some id) fun params => ?_, ?_⟩
    · rw [Directive.job, applyControl]
      change (if r.page.document.tag? id = some name then pure (some id) else _ :
        Action Rendering (Option NodeId)).runFrom _ = _
      rw [tag, if_pos same]
      rfl
    · refine changed_self wellFormed found ?_
      rw [Rework.node, Rework.renamed]
      dsimp only
      rw [if_pos same]
      cases t
      rfl
  · refine ⟨(r.page.document.rename id name).2, r.touched ++ [id] ++ [r.page.document.nextId],
      runFrom_fillDirective found unmarked attached (o := some r.page.document.nextId)
        fun params => ?_, changed_rename wellFormed found hroot same⟩
    rw [Directive.job, applyControl]
    change (if r.page.document.tag? id = some name then pure (some id) else _ :
      Action Rendering (Option NodeId)).runFrom _ = _
    rw [tag, if_neg same, if_pos named]
    rfl

/-- Attributes set, extended or removed. -/
theorem reworks_attributes (params : Params) (mode : InsertMode)
    {values : List (String × Option String)}
    (free : ∀ v ∈ values, ¬ attributeMarker.toList <+: v.1.toList) :
    Reworks settings here ((Content.directives params [.setAttributes mode values]).job settings)
      fun _ => .withAttributes (modeOver mode here.mode) values := by
  intro r id t wellFormed found unmarked attached _
  exact ⟨_, r.touched ++ [id],
    runFrom_fillDirective found unmarked attached (o := some id) fun _ => rfl,
    changed_attributes wellFormed found _ free⟩

/-- **A pass of two values that rework what they are applied to.** The nodes of the second one are
those that its selector finds before anything is changed. -/
theorem runFrom_pass_two {k₁ k₂ : String} {c₁ c₂ : Content} {s₁ s₂ : List NodeId}
    {v₁ v₂ : NodeId → Rework} (wellFormed : r.page.document.WellFormed)
    (unmarked : r.page.document.tree.Holds fun e => Unmarked e.data.attributes)
    (document : r.page.document.tree.label.data = .document)
    (finds₁ : r.page.Finds k₁ s₁) (finds₂ : r.page.Finds k₂ s₂)
    (h₁ : Reworks settings (entrySituation .outermost k₁) (c₁.job settings) v₁)
    (h₂ : Reworks settings (entrySituation .outermost k₂) (c₂.job settings) v₂)
    (fresh₁ : ∀ id, r.page.document.nextId ≤ id → (v₁ id).Fresh r.page.document.nextId)
    (fresh₂ : ∀ id, r.page.document.nextId ≤ id → (v₂ id).Fresh r.page.document.nextId) :
    ∃ (new₁ new₂ : NodeId → NodeId) (d : Document) (touched : List NodeId)
        (log : List QueryRecord),
      (pass settings [(k₁, c₁), (k₂, c₂)]).runFrom r =
        (.ok (), { r with page := { r.page with document := d, log := log }, touched := touched }) ∧
      r.page.document.Reworked
        ((Rework.nothing.further s₁ fun id => v₁ (new₁ id)).further s₂ fun id => v₂ (new₂ id))
        d ∧
      (∀ id, r.page.document.nextId ≤ new₁ id) := by
  obtain ⟨log, hlist⟩ := WorkingList.runFrom_populate_named
    (List.Forall₂.cons finds₁ (.cons finds₂ .nil)) settings.keepIndentation
  have listed : (onPage (WorkingList.populate (.named [k₁, k₂]) none none false
      settings.keepIndentation)).runFrom r =
        (.ok (.ofSlots [s₁, s₂]), { r with page := { r.page with log := log } }) := by
    rw [onPage, Action.runFrom_on, hlist]
  obtain ⟨new₁, d₁, touched₁, hfill₁, hnew₁, hreworked₁⟩ :=
    runFrom_fillAttached (r := { r with page := { r.page with log := log } }) wellFormed document
      h₁ fresh₁ (finds₁.nodup wellFormed) (finds₁.holds document) (Rework.fresh_nothing _)
      (reworked_nothing wellFormed unmarked)
  obtain ⟨new₂, d₂, touched₂, hfill₂, -, hreworked₂⟩ :=
    runFrom_fillAttached
      (r := { r with page := { r.page with document := d₁, log := log }, touched := touched₁ })
      wellFormed document h₂ fresh₂ (finds₂.nodup wellFormed) (finds₂.holds document)
      ((Rework.fresh_nothing _).further fun id => fresh₁ _ (hnew₁ id)) hreworked₁
  refine ⟨new₁, new₂, d₂, touched₂, log, ?_, hreworked₂, hnew₁⟩
  rw [pass, fillEntries]
  change (onPage (WorkingList.populate (.named [k₁, k₂]) none none false
    settings.keepIndentation) >>= _).runFrom r = _
  rw [Action.runFrom_bind_ok listed]
  exact (Action.runFrom_bind_ok hfill₁).trans (Action.runFrom_bind_ok hfill₂)

end Rendering

/-! ## Two values -/

open Rendering (modeOver contentTypeOf isTagName entrySituation)

/-- A value that puts a text into elements or changes their attributes. -/
inductive Update where
  | text (s : String)
  | attributes (mode : InsertMode) (values : List (String × Option String))

namespace Update

/-- The value. -/
def content : Update → Content
  | .text s => .text s
  | .attributes mode values => .directives .empty [.setAttributes mode values]

/-- What it makes of what an element is. -/
def data (outer : InsertMode) : Update → NodeData → NodeData
  | .text _, data => data
  | .attributes mode values, data => Document.withAttributes (modeOver mode outer) values data

/-- What it makes of what an element holds. -/
def children (outer : InsertMode) : Update → List Markup → List Markup
  | .text s, ms => outer.place (.node (.text s) []) ms
  | .attributes .., ms => ms

/-- What it makes of an element in a document. -/
def rework (outer : InsertMode) : Update → NodeId → Rework
  | .text s => .withText outer s
  | .attributes mode values => fun _ => .withAttributes (modeOver mode outer) values

/-- It is a text that is not empty and no markup, or changes no attributes for the engine. -/
def IsPlain (settings : Settings) : Update → Prop
  | .text s => s ≠ "" ∧ contentTypeOf settings .empty s ≠ .markup
  | .attributes _ values => ∀ v ∈ values, ¬ attributeMarker.toList <+: v.1.toList

variable {settings : Settings} {outer : InsertMode} {n new : NodeId}

theorem fresh_rework (u : Update) (h : n ≤ new) : (u.rework outer new).Fresh n := by
  cases u with
  | text s => exact Rework.fresh_withText s h
  | attributes mode values => exact Rework.fresh_withAttributes _ values n

theorem reworks {key : String} (u : Update) (h : u.IsPlain settings) :
    Rendering.Reworks settings (entrySituation .outermost key) (u.content.job settings)
      (u.rework ((splitPosition key).2.getD .replace)) := by
  cases u with
  | text s => exact Rendering.reworks_text h.1 h.2
  | attributes mode values => exact Rendering.reworks_attributes .empty mode h

theorem id_rework (u : Update) (e : Entry) : ((u.rework outer new).entry e).id = e.id := by
  cases u <;> rfl

theorem data_rework (u : Update) (e : Entry) :
    ((u.rework outer new).entry e).data = u.data outer e.data := by
  cases u <;> rfl

theorem children_rework (u : Update) (e : Entry) (us : List (Tree Entry)) :
    ((u.rework outer new).children e us).map Document.plain =
      u.children outer (us.map Document.plain) := by
  cases u with
  | attributes mode values => rfl
  | text s =>
    have new : Document.plain (Document.textNode new s) = .node (.text s) [] := by
      rw [Document.textNode, Document.plain, Tree.map, Tree.mapList]
    cases outer with
    | replace => exact congrArg (fun m => [m]) new
    | prepend => exact congrArg (· :: us.map Document.plain) new
    | append =>
      change (us ++ [Document.textNode _ s]).map Document.plain = _
      rw [List.map_append]
      exact congrArg (fun m => us.map Document.plain ++ [m]) new

theorem tag?_withAttributes {mode : InsertMode} : ∀ (values : List (String × Option String))
    (data : NodeData), (Document.withAttributes mode values data).tag? = data.tag?
  | [], _ => rfl
  | entry :: values, data => by
    rw [Document.withAttributes, List.foldl_cons]
    refine (tag?_withAttributes values _).trans ?_
    obtain ⟨name, value?⟩ := entry
    cases value? <;> cases data <;> rfl

/-- An update does not rename. -/
theorem tag?_data (u : Update) (data : NodeData) : (u.data outer data).tag? = data.tag? := by
  cases u with
  | text s => rfl
  | attributes mode values => exact tag?_withAttributes values data

end Update

mutual

/-- A tree without identities after some elements got a name and some were updated: each is what both
values make of it. -/
def Document.renewed (outer : InsertMode) (name : String) (u : Update)
    (renames updates : List NodeId) : Tree Entry → Markup
  | .node e ts =>
    let data := if e.id ∈ updates then u.data outer e.data else e.data
    let below := Document.renewedAll outer name u renames updates ts
    .node (if e.id ∈ renames then data.renamed name else data)
      (if e.id ∈ updates then u.children outer below else below)

/-- The same for several trees. -/
def Document.renewedAll (outer : InsertMode) (name : String) (u : Update)
    (renames updates : List NodeId) : List (Tree Entry) → List Markup
  | [] => []
  | t :: ts => Document.renewed outer name u renames updates t ::
      Document.renewedAll outer name u renames updates ts

end

namespace Document

variable {outer : InsertMode} {name : String} {u : Update} {w : Rework}
variable {renames updates : List NodeId}

mutual

theorem plain_tree : ∀ {t : Tree Entry}, (∀ e ∈ t.labels,
    (w.entry e).data = (if e.id ∈ renames then
      (if e.id ∈ updates then u.data outer e.data else e.data).renamed name
      else if e.id ∈ updates then u.data outer e.data else e.data) ∧
    ∀ us, (w.children e us).map plain =
      if e.id ∈ updates then u.children outer (us.map plain) else us.map plain) →
    plain (w.tree t) = renewed outer name u renames updates t
  | .node e ts, h => by
    rw [Tree.labels_node, List.forall_mem_cons] at h
    rw [Rework.tree, plain, Tree.map, Tree.mapList_eq, renewed, h.1.1,
      ← plain_trees h.2]
    exact congrArg (Tree.node _) (h.1.2 _)

/-- A reworked tree is, without identities, what becomes of each of its nodes. -/
theorem plain_trees : ∀ {ts : List (Tree Entry)}, (∀ e ∈ Tree.labelsList ts,
    (w.entry e).data = (if e.id ∈ renames then
      (if e.id ∈ updates then u.data outer e.data else e.data).renamed name
      else if e.id ∈ updates then u.data outer e.data else e.data) ∧
    ∀ us, (w.children e us).map plain =
      if e.id ∈ updates then u.children outer (us.map plain) else us.map plain) →
    (w.trees ts).map plain = renewedAll outer name u renames updates ts
  | [], _ => rfl
  | t :: ts, h => by
    rw [Tree.labelsList_cons, List.forall_mem_append] at h
    rw [Rework.trees, List.map_cons, plain_tree h.1, plain_trees h.2, renewedAll]

end

/-- The entry of a node in the tree is what is found under its identity. -/
theorem WellFormed.tag?_label {d : Document} (h : d.WellFormed) {e : Entry}
    (he : e ∈ d.tree.labels) : d.tag? e.id = e.data.tag? := by
  have mem : e ∈ d.entries := by
    rw [entries, Tree.labelsList_cons]
    exact List.mem_append_left _ he
  have present : (Tree.labelsList (d.tree :: d.strays)).countP (hasId e.id) ≠ 0 :=
    Nat.ne_of_gt (List.countP_pos_iff.2 ⟨e, mem, hasId_self e⟩)
  obtain ⟨t, ht⟩ : ∃ t, d.find? e.id = some t :=
    Option.ne_none_iff_exists'.1 fun habsent => present ((Tree.findList?_eq_none_iff _).1 habsent)
  obtain ⟨hentry, hid⟩ := find?_mem_entries ht
  have same : t.label = e := List.inj_on_of_nodup_map h.nodup hentry mem hid
  rw [tag?, data?, ht, Option.map_some, Option.bind_some, same]

/-- The elements to be updated that are still found after some elements got a name: all but those that
have become new elements. -/
def unreplaced (d : Document) (name : String) (renames updates : List NodeId) : List NodeId :=
  updates.filter fun id => !(renames.contains id) || d.tag? id = some name

theorem mem_unreplaced {d : Document} {id : NodeId} :
    id ∈ d.unreplaced name renames updates ↔
      id ∈ updates ∧ (id ∈ renames → d.tag? id = some name) := by
  rw [unreplaced, List.mem_filter, Bool.or_eq_true, decide_eq_true_eq, Bool.not_eq_true',
    List.contains_eq_mem, decide_eq_false_iff_not]
  exact and_congr_right fun _ => Decidable.imp_iff_not_or.symm

/-- Elements that were updated get a name: every element is what both make of it. -/
theorem plain_update_rename (u : Update) (new new' : NodeId → NodeId) (t : Tree Entry) :
    plain (((Rework.nothing.further updates fun id => u.rework outer (new id)).further renames
      fun id => .renamed name (new' id)).tree t) = renewed outer name u renames updates t := by
  refine plain_tree fun e _ => ?_
  have entry := Rework.entry_further_nothing (fun id => u.rework outer (new id)) updates e
  have children := Rework.children_further_nothing (fun id => u.rework outer (new id)) updates e
  have kept : ((Rework.nothing.further updates fun id => u.rework outer (new id)).entry e).id =
      e.id := by
    rw [entry]
    split
    · exact u.id_rework e
    · rfl
  have data : ((Rework.nothing.further updates fun id => u.rework outer (new id)).entry e).data =
      if e.id ∈ updates then u.data outer e.data else e.data := by
    rw [entry, apply_ite Entry.data, u.data_rework]
  have below : ∀ us, ((Rework.nothing.further updates fun id =>
      u.rework outer (new id)).children e us).map Document.plain =
        if e.id ∈ updates then u.children outer (us.map Document.plain)
        else us.map Document.plain := by
    intro us
    rw [children, apply_ite (List.map Document.plain), u.children_rework]
  by_cases he : e.id ∈ renames
  · rw [Rework.entry_further_pos ⟨he, kept⟩, Rework.data_renamed, data, if_pos he]
    refine ⟨rfl, fun us => ?_⟩
    rw [Rework.children_further_pos ⟨he, kept⟩]
    exact below us
  · rw [Rework.entry_further_neg fun h => he h.1, data, if_neg he]
    refine ⟨rfl, fun us => ?_⟩
    rw [Rework.children_further_neg fun h => he h.1]
    exact below us

/-- Elements that got a name are updated: those that are new are not. -/
theorem plain_rename_update {d : Document} (h : d.WellFormed) (u : Update) {new : NodeId → NodeId}
    (hnew : ∀ id, d.nextId ≤ new id) (new' : NodeId → NodeId) :
    plain (((Rework.nothing.further renames fun id => .renamed name (new id)).further updates
      fun id => u.rework outer (new' id)).tree d.tree) =
        renewed outer name u renames (d.unreplaced name renames updates) d.tree := by
  refine plain_tree fun e he => ?_
  have known : e.id < d.nextId := h.known e.id (List.mem_map_of_mem (List.mem_append_left _ he))
  have entry := Rework.entry_further_nothing (fun id => Rework.renamed name (new id)) renames e
  have children := Rework.children_further_nothing (fun id => Rework.renamed name (new id))
    renames e
  have data : ((Rework.nothing.further renames fun id => Rework.renamed name (new id)).entry
      e).data = if e.id ∈ renames then e.data.renamed name else e.data := by
    rw [entry, apply_ite Entry.data, Rework.data_renamed]
  have below : ∀ us, (Rework.nothing.further renames fun id =>
      Rework.renamed name (new id)).children e us = us := by
    intro us
    rw [children]
    exact ite_self us
  -- the update reaches the elements that have kept their identity
  have reached : e.id ∈ d.unreplaced name renames updates ↔ e.id ∈ updates ∧
      ((Rework.nothing.further renames fun id => Rework.renamed name (new id)).entry e).id =
        e.id := by
    have hne : e.id ≠ new e.id := Nat.ne_of_lt (Nat.lt_of_lt_of_le known (hnew e.id))
    rw [mem_unreplaced, h.tag?_label he, entry]
    refine and_congr_right fun _ => ?_
    split
    · rename_i hmem
      rw [Rework.id_renamed name hne]
      exact forall_prop_of_true hmem
    · rename_i hmem
      exact iff_of_true (fun h => absurd h hmem) rfl
  by_cases hu : e.id ∈ d.unreplaced name renames updates
  · rw [Rework.entry_further_pos (reached.1 hu), u.data_rework, data, if_pos hu]
    constructor
    · split
      · rename_i hmem
        have same : e.data.tag? = some name := by
          rw [← h.tag?_label he]
          exact (mem_unreplaced.1 hu).2 hmem
        rw [NodeData.renamed, if_pos same, NodeData.renamed, if_pos (by rw [u.tag?_data, same])]
      · rfl
    · intro us
      rw [Rework.children_further_pos (reached.1 hu), u.children_rework, below, if_pos hu]
  · rw [Rework.entry_further_neg (mt reached.2 hu), data, if_neg hu]
    refine ⟨rfl, fun us => ?_⟩
    rw [Rework.children_further_neg (mt reached.2 hu), below, if_neg hu]

end Document

namespace Rendering

open Document

variable {settings : Settings} {r : Rendering} {name html k k' : String}
variable {renames updates : List NodeId}

/-- **One value renames elements, and another one updates some.** If the update comes first, every
element is renamed and updated that is to be. If it comes second, it is lost on the elements that have
become new ones, and nothing is reported. So both orders give the same page if no element that both
values go to has another name than the new one. -/
theorem rename_and_update (u : Update)
    (read : r.page = .ofHtml html r.page.grammar)
    (unmarked : r.page.document.tree.Holds fun e => Unmarked e.data.attributes)
    (finds : r.page.Finds k renames) (finds' : r.page.Finds k' updates)
    (named : isTagName name = true) (plain : u.IsPlain settings) :
    let outer := (splitPosition k').2.getD .replace
    let rename : Content := .directives .empty [.control (.rename name)]
    ∃ r₁ r₂ : Rendering,
      (pass settings [(k', u.content), (k, rename)]).runFrom r = (.ok (), r₁) ∧
      (pass settings [(k, rename), (k', u.content)]).runFrom r = (.ok (), r₂) ∧
      r₁.page.document.markup = renewed outer name u renames updates r.page.document.tree ∧
      r₂.page.document.markup = renewed outer name u renames
        (r.page.document.unreplaced name renames updates) r.page.document.tree ∧
      r₂.diagnostics = r.diagnostics ∧
      ((∀ id ∈ renames, id ∈ updates → r.page.document.tag? id = some name) →
        r₂.page.document.markup = r₁.page.document.markup) := by
  intro outer rename
  have wellFormed : r.page.document.WellFormed := by
    rw [read]
    exact wellFormed_ofHtml html
  have document : r.page.document.tree.label.data = .document := by
    rw [read]
    exact root_ofHtml html
  have hrename : Reworks settings (entrySituation .outermost k) (rename.job settings) _ :=
    reworks_rename .empty named
  obtain ⟨new₁, new₁', d₁, touched₁, log₁, hrun₁, hreworked₁, hnew₁⟩ :=
    runFrom_pass_two wellFormed unmarked document finds' finds (u.reworks plain) hrename
      (fun _ h => u.fresh_rework h) fun _ h => Rework.fresh_renamed name h
  obtain ⟨new₂, new₂', d₂, touched₂, log₂, hrun₂, hreworked₂, hnew₂⟩ :=
    runFrom_pass_two wellFormed unmarked document finds finds' hrename (u.reworks plain)
      (fun _ h => Rework.fresh_renamed name h) fun _ h => u.fresh_rework h
  have first : d₁.markup = renewed outer name u renames updates r.page.document.tree := by
    rw [Document.markup, hreworked₁.tree]
    exact plain_update_rename u new₁ new₁' _
  have second : d₂.markup = renewed outer name u renames
      (r.page.document.unreplaced name renames updates) r.page.document.tree := by
    rw [Document.markup, hreworked₂.tree]
    exact plain_rename_update wellFormed u hnew₂ new₂'
  refine ⟨_, _, hrun₁, hrun₂, first, second, rfl, fun apart => ?_⟩
  have same : r.page.document.unreplaced name renames updates = updates := by
    refine List.filter_eq_self.2 fun id hid => ?_
    exact (List.mem_filter.1 (mem_unreplaced.2 ⟨hid, fun hmem => apart id hmem hid⟩)).2
  rw [first, second, same]

/-- A page of a paragraph and another element. -/
def paragraphAndAside : Rendering :=
  .start (.ofHtml "<p></p><i></i>" .css) (.start (Fetcher.files []))

/-- The paragraph gets a name, and the other element a text. -/
theorem rename_and_update_apart :
    ∃ r₁ r₂ : Rendering,
      (pass .standard [("i", .text "t"),
        ("p", .directives .empty [.control (.rename "div")])]).runFrom paragraphAndAside =
          (.ok (), r₁) ∧
      (pass .standard [("p", .directives .empty [.control (.rename "div")]),
        ("i", .text "t")]).runFrom paragraphAndAside = (.ok (), r₂) ∧
      r₂.page.document.markup = r₁.page.document.markup := by
  have unmarked : paragraphAndAside.page.document.tree.Holds fun e =>
      Unmarked e.data.attributes := by
    unfold Tree.Holds
    decide +kernel
  have compiled : Selector.compile paragraphAndAside.page.grammar "p" =
      .ok ⟨"p", .css, none, ["//p"]⟩ := rfl
  have compiled' : Selector.compile paragraphAndAside.page.grammar "i" =
      .ok ⟨"i", .css, none, ["//i"]⟩ := rfl
  have query : Page.nodesAt paragraphAndAside.page.document paragraphAndAside.page.document.root
      (Selector.expression ⟨"p", .css, none, ["//p"]⟩) = .ok [4] := by
    decide +kernel
  have query' : Page.nodesAt paragraphAndAside.page.document paragraphAndAside.page.document.root
      (Selector.expression ⟨"i", .css, none, ["//i"]⟩) = .ok [5] := by
    decide +kernel
  have opened : [4] = [4].filter (Page.isOpen paragraphAndAside.page.document) := by
    decide +kernel
  have opened' : [5] = [5].filter (Page.isOpen paragraphAndAside.page.document) := by
    decide +kernel
  have plain : (Update.text "t").IsPlain .standard := ⟨by decide, by decide +kernel⟩
  obtain ⟨r₁, r₂, hrun₁, hrun₂, -, -, -, hsame⟩ := rename_and_update (r := paragraphAndAside)
    (.text "t") (show _ = Page.ofHtml "<p></p><i></i>" _ from rfl) unmarked
    ⟨_, _, compiled, query, opened⟩ ⟨_, _, compiled', query', opened'⟩
    (show isTagName "div" = true by decide) plain
  exact ⟨r₁, r₂, hrun₁, hrun₂, hsame (by decide)⟩

/-- Both values go to one paragraph: what it holds depends on which comes first. -/
theorem update_lost :
    ((pass .standard [(".x", .text "y"),
        ("p", .directives .empty [.control (.rename "div")])]).runFrom
      (.start (.ofHtml "<p class=x></p>" .css) (.start (Fetcher.files [])))).2.page.document.html =
        "<html><head></head><body><div class=\"x\">y</div></body></html>" ∧
    ((pass .standard [("p", .directives .empty [.control (.rename "div")]),
        (".x", .text "y")]).runFrom
      (.start (.ofHtml "<p class=x></p>" .css) (.start (Fetcher.files [])))).2.page.document.html =
        "<html><head></head><body><div class=\"x\"></div></body></html>" := by
  constructor <;> decide +kernel

end Rendering

end MarkupTemplate
