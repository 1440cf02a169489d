import MarkupTemplate.Tree

/-!
# Forests

Runs of trees in which one node has new children: what is done to nodes that are among these children
does not reach the rest, and what is found there is found among them.

* `Tree.refill`, `Tree.refillAll` — trees in which a node has other children; with none, what is
  around these.
* `Tree.splice_refill`, `Tree.update_refill`, `Tree.find?_refill`, `Tree.pathTo?_refill` — edits of
  nodes that are not around, and searches for them.
* `Tree.labels_refill_perm` — nothing is lost and nothing is doubled.
* `Tree.spliceList_append_cons`, … — the same for a node at the top of one of the trees.
-/

namespace MarkupTemplate.Tree

variable {α : Type} {p q : α → Bool} {us : List (Tree α)}

/-- A tree in which the nodes with a property have the given children. -/
def refill (q : α → Bool) (us : List (Tree α)) (t : Tree α) : Tree α :=
  update q (withChildren us) t

/-- The same for several trees. -/
def refillAll (q : α → Bool) (us ts : List (Tree α)) : List (Tree α) :=
  updateList q (withChildren us) ts

@[simp] theorem label_node (a : α) (ts : List (Tree α)) : (node a ts).label = a :=
  rfl

@[simp] theorem children_node (a : α) (ts : List (Tree α)) : (node a ts).children = ts :=
  rfl

@[simp] theorem labels_node (a : α) (ts : List (Tree α)) :
    labels (.node a ts) = a :: labelsList ts := by
  rw [labels]

@[simp] theorem labelsList_nil : labelsList ([] : List (Tree α)) = [] := by
  rw [labelsList]

@[simp] theorem labelsList_cons (t : Tree α) (ts : List (Tree α)) :
    labelsList (t :: ts) = labels t ++ labelsList ts := by
  rw [labelsList]

theorem labels_eq (t : Tree α) : labels t = t.label :: labelsList t.children := by
  cases t
  rw [labels_node, label, children]

/-! ## Nodes that are not there -/

mutual

theorem update_of_absent (f : Tree α → Tree α) :
    ∀ t : Tree α, t.labels.countP p = 0 → update p f t = t
  | .node a ts, h => by
    rw [labels_node, List.countP_cons] at h
    split at h
    · omega
    · rename_i ha
      rw [update, if_neg ha, updateList_of_absent f ts (by omega)]

theorem updateList_of_absent (f : Tree α → Tree α) :
    ∀ ts : List (Tree α), (labelsList ts).countP p = 0 → updateList p f ts = ts
  | [], _ => rfl
  | t :: ts, h => by
    rw [labelsList_cons, List.countP_append] at h
    rw [updateList, update_of_absent f t (by omega), updateList_of_absent f ts (by omega)]

end

mutual

theorem splice_of_absent (f : Tree α → List (Tree α)) :
    ∀ t : Tree α, t.labels.countP p = 0 → splice p f t = t
  | .node a ts, h => by
    rw [labels_node, List.countP_cons] at h
    rw [splice, spliceList_of_absent f ts (by omega)]

theorem spliceList_of_absent (f : Tree α → List (Tree α)) :
    ∀ ts : List (Tree α), (labelsList ts).countP p = 0 → spliceList p f ts = ts
  | [], _ => rfl
  | .node a ts :: rest, h => by
    rw [labelsList_cons, List.countP_append] at h
    have ha : ¬ p a = true := by
      intro ha
      rw [labels_node, List.countP_cons, if_pos ha] at h
      omega
    rw [spliceList, label, if_neg ha, splice_of_absent f _ (by omega),
      spliceList_of_absent f rest (by omega)]

end

mutual

theorem find?_of_absent : ∀ t : Tree α, t.labels.countP p = 0 → find? p t = none
  | .node a ts, h => by
    rw [labels_node, List.countP_cons] at h
    split at h
    · omega
    · rename_i ha
      rw [find?, if_neg ha, findList?_of_absent ts (by omega)]

theorem findList?_of_absent :
    ∀ ts : List (Tree α), (labelsList ts).countP p = 0 → findList? p ts = none
  | [], _ => rfl
  | t :: ts, h => by
    rw [labelsList_cons, List.countP_append] at h
    rw [findList?, find?_of_absent t (by omega), findList?_of_absent ts (by omega)]

end

mutual

theorem pathTo?_of_absent : ∀ t : Tree α, t.labels.countP p = 0 → pathTo? p t = none
  | .node a ts, h => by
    rw [labels_node, List.countP_cons] at h
    split at h
    · omega
    · rename_i ha
      rw [pathTo?, if_neg ha, pathToList?_of_absent ts (by omega)]

theorem pathToList?_of_absent :
    ∀ (ts : List (Tree α)), (labelsList ts).countP p = 0 → ∀ i, pathToList? p i ts = none
  | [], _, _ => rfl
  | t :: ts, h, i => by
    rw [labelsList_cons, List.countP_append] at h
    rw [pathToList?, pathTo?_of_absent t (by omega)]
    exact pathToList?_of_absent ts (by omega) (i + 1)

end

/-! ## Nodes at the top of a tree -/

theorem updateList_append (f : Tree α → Tree α) (ts us : List (Tree α)) :
    updateList p f (ts ++ us) = updateList p f ts ++ updateList p f us := by
  induction ts with
  | nil => rfl
  | cons t ts ih => rw [List.cons_append, updateList, updateList, ih, List.cons_append]

theorem spliceList_append (f : Tree α → List (Tree α)) (ts us : List (Tree α)) :
    spliceList p f (ts ++ us) = spliceList p f ts ++ spliceList p f us := by
  induction ts with
  | nil => rfl
  | cons t ts ih =>
    rw [List.cons_append, spliceList, spliceList, ih]
    split <;> simp

theorem findList?_append (ts us : List (Tree α)) :
    findList? p (ts ++ us) = (findList? p ts).or (findList? p us) := by
  induction ts with
  | nil => rw [List.nil_append, findList?, Option.none_or]
  | cons t ts ih =>
    rw [List.cons_append, findList?, findList?]
    split
    · rw [Option.some_or]
    · exact ih

section Top

variable {t : Tree α} {before after : List (Tree α)}

theorem updateList_append_cons (f : Tree α → Tree α) (ht : p t.label = true)
    (hbefore : (labelsList before).countP p = 0) (hafter : (labelsList after).countP p = 0) :
    updateList p f (before ++ t :: after) = before ++ f t :: after := by
  obtain ⟨a, ts⟩ := t
  rw [label] at ht
  rw [updateList_append, updateList_of_absent f before hbefore, updateList, update, if_pos ht,
    updateList_of_absent f after hafter]

theorem spliceList_append_cons (f : Tree α → List (Tree α)) (ht : p t.label = true)
    (hbefore : (labelsList before).countP p = 0) (hafter : (labelsList after).countP p = 0) :
    spliceList p f (before ++ t :: after) = before ++ f t ++ after := by
  rw [spliceList_append, spliceList_of_absent f before hbefore, spliceList, if_pos ht,
    spliceList_of_absent f after hafter, List.append_assoc]

theorem spliceList_cons (f : Tree α → List (Tree α)) (ht : p t.label = true)
    (hafter : (labelsList after).countP p = 0) : spliceList p f (t :: after) = f t ++ after := by
  rw [spliceList, if_pos ht, spliceList_of_absent f after hafter]

theorem findList?_append_cons (ht : p t.label = true)
    (hbefore : (labelsList before).countP p = 0) :
    findList? p (before ++ t :: after) = some t := by
  obtain ⟨a, ts⟩ := t
  rw [label] at ht
  rw [findList?_append, findList?_of_absent before hbefore, Option.none_or, findList?, find?,
    if_pos ht]

theorem pathToList?_append_cons (ht : p t.label = true) :
    ∀ {before : List (Tree α)}, (labelsList before).countP p = 0 → ∀ i,
      pathToList? p i (before ++ t :: after) = some [i + before.length]
  | [], _, i => by
    obtain ⟨a, ts⟩ := t
    rw [label] at ht
    rw [List.nil_append, pathToList?, pathTo?, if_pos ht]
    rfl
  | b :: before, hbefore, i => by
    rw [labelsList_cons, List.countP_append] at hbefore
    rw [List.cons_append, pathToList?, pathTo?_of_absent b (by omega)]
    rw [List.length_cons, ← Nat.add_assoc, Nat.add_right_comm]
    exact pathToList?_append_cons ht (by omega) (i + 1)

end Top

/-! ## Trees with new children in a place -/

@[simp] theorem label_withChildren (t : Tree α) : (t.withChildren us).label = t.label := by
  cases t
  rfl

@[simp] theorem children_withChildren (t : Tree α) : (t.withChildren us).children = us := by
  cases t
  rfl

@[simp] theorem withChildren_withChildren (t : Tree α) (vs : List (Tree α)) :
    (t.withChildren us).withChildren vs = t.withChildren vs := by
  cases t
  rfl

theorem refill_node (us : List (Tree α)) (a : α) (ts : List (Tree α)) :
    refill q us (.node a ts) = .node a (if q a then us else refillAll q us ts) := by
  rw [refill, update]
  split <;> rfl

theorem refillAll_cons (us : List (Tree α)) (t : Tree α) (ts : List (Tree α)) :
    refillAll q us (t :: ts) = refill q us t :: refillAll q us ts :=
  rfl

theorem label_refill (t : Tree α) : (refill q us t).label = t.label := by
  cases t
  rw [refill_node]
  rfl

theorem countP_around_node (a : α) (ts : List (Tree α)) :
    (refill q [] (.node a ts)).labels.countP p =
      (if p a then 1 else 0) + if q a then 0 else (labelsList (refillAll q [] ts)).countP p := by
  rw [refill_node, labels_node, List.countP_cons, Nat.add_comm]
  cases q a <;> simp

theorem countP_around_cons (t : Tree α) (ts : List (Tree α)) :
    (labelsList (refillAll q [] (t :: ts))).countP p =
      (refill q [] t).labels.countP p + (labelsList (refillAll q [] ts)).countP p := by
  rw [refillAll_cons, labelsList_cons, List.countP_append]

/-- The root of a tree is around every place in it. -/
theorem not_of_around {a : α} {ts : List (Tree α)}
    (h : (refill q [] (.node a ts)).labels.countP p = 0) : ¬ p a = true := by
  rw [countP_around_node] at h
  intro ha
  rw [if_pos ha] at h
  omega

/-! ### Edits -/

mutual

theorem splice_refill (f : Tree α → List (Tree α)) :
    ∀ t : Tree α, (refill q [] t).labels.countP p = 0 →
      splice p f (refill q us t) = refill q (spliceList p f us) t
  | .node a ts, h => by
    rw [countP_around_node] at h
    rw [refill_node, refill_node, splice]
    split
    · rfl
    · rename_i ha
      rw [if_neg ha] at h
      rw [spliceList_refillAll f ts (by omega)]

/-- Nodes that are not around are replaced among the new children. -/
theorem spliceList_refillAll (f : Tree α → List (Tree α)) :
    ∀ ts : List (Tree α), (labelsList (refillAll q [] ts)).countP p = 0 →
      spliceList p f (refillAll q us ts) = refillAll q (spliceList p f us) ts
  | [], _ => rfl
  | .node a ts :: rest, h => by
    rw [countP_around_cons] at h
    have ha : ¬ p (refill q us (.node a ts)).label = true := by
      rw [label_refill, label]
      exact not_of_around (Nat.eq_zero_of_add_eq_zero_right h)
    rw [refillAll_cons, spliceList, if_neg ha, splice_refill f _ (by omega),
      spliceList_refillAll f rest (by omega), refillAll_cons]

end

mutual

theorem update_refill (f : Tree α → Tree α) :
    ∀ t : Tree α, (refill q [] t).labels.countP p = 0 →
      update p f (refill q us t) = refill q (updateList p f us) t
  | .node a ts, h => by
    have ha := not_of_around h
    rw [countP_around_node] at h
    rw [refill_node, refill_node, update, if_neg ha]
    split
    · rfl
    · rename_i hq
      rw [if_neg hq] at h
      rw [updateList_refillAll f ts (by omega)]

/-- Nodes that are not around are changed among the new children. -/
theorem updateList_refillAll (f : Tree α → Tree α) :
    ∀ ts : List (Tree α), (labelsList (refillAll q [] ts)).countP p = 0 →
      updateList p f (refillAll q us ts) = refillAll q (updateList p f us) ts
  | [], _ => rfl
  | t :: ts, h => by
    rw [countP_around_cons] at h
    rw [refillAll_cons, updateList, update_refill f t (by omega),
      updateList_refillAll f ts (by omega), refillAll_cons]

end

mutual

theorem update_self_refill (f : List (Tree α) → List (Tree α)) :
    ∀ t : Tree α, update q (fun u => u.withChildren (f u.children)) (refill q us t) =
      refill q (f us) t
  | .node a ts => by
    rw [refill_node, refill_node, update]
    split
    · rfl
    · rw [updateList_self_refillAll f ts]

/-- The new children are replaced by others. -/
theorem updateList_self_refillAll (f : List (Tree α) → List (Tree α)) :
    ∀ ts : List (Tree α),
      updateList q (fun u => u.withChildren (f u.children)) (refillAll q us ts) =
        refillAll q (f us) ts
  | [] => rfl
  | t :: ts => by
    rw [refillAll_cons, updateList, update_self_refill f t, updateList_self_refillAll f ts,
      refillAll_cons]

end

/-! ### Searches -/

mutual

theorem find?_refill (us : List (Tree α)) :
    ∀ t : Tree α, (refill q [] t).labels.countP p = 0 →
      find? p (refill q us t) = if (find? q t).isSome then findList? p us else none
  | .node a ts, h => by
    have ha := not_of_around h
    rw [countP_around_node] at h
    rw [refill_node, find?, if_neg ha, find?]
    split
    · rfl
    · rename_i hq
      rw [if_neg hq] at h
      exact findList?_refillAll us ts (by omega)

/-- A node that is not around is found among the new children, if these are anywhere. -/
theorem findList?_refillAll (us : List (Tree α)) :
    ∀ ts : List (Tree α), (labelsList (refillAll q [] ts)).countP p = 0 →
      findList? p (refillAll q us ts) = if (findList? q ts).isSome then findList? p us else none
  | [], _ => rfl
  | t :: ts, h => by
    rw [countP_around_cons] at h
    rw [refillAll_cons, findList?, find?_refill us t (by omega), findList?_refillAll us ts (by omega),
      findList?]
    cases find? q t with
    | none => rfl
    | some found => cases findList? p us <;> cases findList? q ts <;> rfl

end

mutual

theorem find?_self_refill (us : List (Tree α)) :
    ∀ t : Tree α, find? q (refill q us t) = (find? q t).map (withChildren us)
  | .node a ts => by
    rw [refill_node, find?, find?]
    split
    · rfl
    · exact findList?_self_refillAll us ts

/-- The node itself is found where it was, with its new children. -/
theorem findList?_self_refillAll (us : List (Tree α)) :
    ∀ ts : List (Tree α),
      findList? q (refillAll q us ts) = (findList? q ts).map (withChildren us)
  | [] => rfl
  | t :: ts => by
    rw [refillAll_cons, findList?, find?_self_refill us t, findList?_self_refillAll us ts, findList?]
    cases find? q t <;> rfl

end

mutual

theorem pathTo?_refill (us : List (Tree α)) :
    ∀ t : Tree α, (refill q [] t).labels.countP p = 0 →
      pathTo? p (refill q us t) =
        (pathTo? q t).bind fun path => (pathToList? p 0 us).map (path ++ ·)
  | .node a ts, h => by
    have ha := not_of_around h
    rw [countP_around_node] at h
    rw [refill_node, pathTo?, if_neg ha, pathTo?]
    split
    · simp
    · rename_i hq
      rw [if_neg hq] at h
      exact pathToList?_refillAll us ts (by omega) 0

/-- The way to a node that is not around leads through the node that has new children. -/
theorem pathToList?_refillAll (us : List (Tree α)) :
    ∀ ts : List (Tree α), (labelsList (refillAll q [] ts)).countP p = 0 → ∀ i,
      pathToList? p i (refillAll q us ts) =
        (pathToList? q i ts).bind fun path => (pathToList? p 0 us).map (path ++ ·)
  | [], _, _ => rfl
  | t :: ts, h, i => by
    rw [countP_around_cons] at h
    rw [refillAll_cons, pathToList?, pathTo?_refill us t (by omega),
      pathToList?_refillAll us ts (by omega) (i + 1), pathToList?]
    cases pathTo? q t with
    | none => rfl
    | some path => cases pathToList? p 0 us <;> cases pathToList? q (i + 1) ts <;> rfl

end

mutual

theorem isSome_pathTo? : ∀ t : Tree α, (pathTo? p t).isSome = (find? p t).isSome
  | .node a ts => by
    rw [pathTo?, find?]
    split
    · rfl
    · exact isSome_pathToList? ts 0

/-- A way is found to what is found. -/
theorem isSome_pathToList? :
    ∀ (ts : List (Tree α)) (i : Nat), (pathToList? p i ts).isSome = (findList? p ts).isSome
  | [], _ => rfl
  | t :: ts, i => by
    have first : (pathTo? p t).isSome = (find? p t).isSome := isSome_pathTo? t
    rw [pathToList?, findList?]
    cases hpath : pathTo? p t <;> cases hfind : find? p t <;> rw [hpath, hfind] at first
    · exact isSome_pathToList? ts (i + 1)
    · cases first
    · cases first
    · rfl

end

mutual

theorem at?_refill (us : List (Tree α)) :
    ∀ (t : Tree α) {path : Path}, pathTo? q t = some path →
      ∃ u, at? path (refill q us t) = some u ∧ q u.label = true
  | .node a ts, path, h => by
    rw [pathTo?] at h
    split at h
    · rename_i ha
      cases h
      exact ⟨_, rfl, by rwa [label_refill]⟩
    · rename_i ha
      obtain ⟨j, rest, rfl, c, hc, found⟩ := at?_refillAll us ts 0 h
      rwa [refill_node, if_neg ha, at?, children, Nat.zero_add, hc]

/-- Where a node with new children was, it is still. -/
theorem at?_refillAll (us : List (Tree α)) :
    ∀ (ts : List (Tree α)) (i : Nat) {path : Path}, pathToList? q i ts = some path →
      ∃ j rest, path = (i + j) :: rest ∧ ∃ c, (refillAll q us ts)[j]? = some c ∧
        ∃ u, at? rest c = some u ∧ q u.label = true
  | [], _, _, h => nomatch h
  | t :: ts, i, path, h => by
    rw [pathToList?] at h
    split at h
    · rename_i rest hrest
      cases h
      exact ⟨0, rest, rfl, refill q us t, rfl, at?_refill us t hrest⟩
    · obtain ⟨j, rest, rfl, c, hc, found⟩ := at?_refillAll us ts (i + 1) h
      exact ⟨j + 1, rest, by rw [Nat.add_right_comm, Nat.add_assoc], c, hc, found⟩

end

/-! ### Labels -/

mutual

theorem find?_eq_none_iff : ∀ t : Tree α, find? p t = none ↔ t.labels.countP p = 0
  | .node a ts => by
    rw [find?, labels_node, List.countP_cons]
    split
    · simp
    · rw [findList?_eq_none_iff ts, Nat.add_zero]

/-- What is not found is not there. -/
theorem findList?_eq_none_iff :
    ∀ ts : List (Tree α), findList? p ts = none ↔ (labelsList ts).countP p = 0
  | [] => by simp [findList?]
  | t :: ts => by
    rw [findList?, labelsList_cons, List.countP_append, Nat.add_eq_zero_iff,
      ← find?_eq_none_iff t, ← findList?_eq_none_iff ts]
    cases find? p t <;> simp

end

/-- A node that is found is in a single one of several trees, if there is only one. -/
theorem countP_of_find? {t : Tree α} {ts : List (Tree α)} {found : Tree α}
    (h : t.labels.countP p + (labelsList ts).countP p ≤ 1) (hfound : find? p t = some found) :
    t.labels.countP p ≤ 1 ∧ (labelsList ts).countP p = 0 := by
  have present : t.labels.countP p ≠ 0 := fun absent => by
    rw [(find?_eq_none_iff t).2 absent] at hfound
    cases hfound
  omega

mutual

theorem labels_refill_perm (us : List (Tree α)) :
    ∀ {t found : Tree α}, t.labels.countP q ≤ 1 → find? q t = some found →
      (refill q us t).labels.Perm ((refill q [] t).labels ++ labelsList us)
  | .node a ts, found, h, hfound => by
    rw [labels_node, List.countP_cons] at h
    rw [find?] at hfound
    rw [refill_node, refill_node, labels_node, labels_node, List.cons_append]
    split at hfound
    · rename_i ha
      rw [if_pos ha, if_pos ha]
      exact List.Perm.refl _
    · rename_i ha
      rw [if_neg ha, if_neg ha]
      exact (labelsList_refillAll_perm us (by omega) hfound).cons a

/-- With new children, nothing is added but these to what is around. -/
theorem labelsList_refillAll_perm (us : List (Tree α)) :
    ∀ {ts : List (Tree α)} {found : Tree α}, (labelsList ts).countP q ≤ 1 →
      findList? q ts = some found →
      (labelsList (refillAll q us ts)).Perm (labelsList (refillAll q [] ts) ++ labelsList us)
  | [], _, _, hfound => nomatch hfound
  | t :: ts, found, h, hfound => by
    rw [labelsList_cons, List.countP_append] at h
    rw [findList?] at hfound
    rw [refillAll_cons, refillAll_cons, labelsList_cons, labelsList_cons, List.append_assoc]
    split at hfound
    · rename_i ht
      obtain ⟨one, absent⟩ := countP_of_find? h ht
      rw [refillAll, refillAll, updateList_of_absent _ ts absent, updateList_of_absent _ ts absent]
      refine ((labels_refill_perm us one ht).append_right _).trans ?_
      rw [List.append_assoc]
      exact List.perm_append_comm.append_left _
    · rename_i ht
      rw [refill, refill, update_of_absent _ t ((find?_eq_none_iff t).1 ht),
        update_of_absent _ t ((find?_eq_none_iff t).1 ht)]
      exact (labelsList_refillAll_perm us (by omega) hfound).append_left _

end

mutual

theorem refill_children :
    ∀ {t found : Tree α}, t.labels.countP q ≤ 1 → find? q t = some found →
      refill q found.children t = t
  | .node a ts, found, h, hfound => by
    rw [labels_node, List.countP_cons] at h
    rw [find?] at hfound
    rw [refill_node]
    split at hfound
    · rename_i ha
      cases hfound
      rw [if_pos ha, children]
    · rename_i ha
      rw [if_neg ha, refillAll_children (by omega) hfound]

/-- Nothing changes if the new children are the old ones. -/
theorem refillAll_children :
    ∀ {ts : List (Tree α)} {found : Tree α}, (labelsList ts).countP q ≤ 1 →
      findList? q ts = some found → refillAll q found.children ts = ts
  | [], _, _, hfound => nomatch hfound
  | t :: ts, found, h, hfound => by
    rw [labelsList_cons, List.countP_append] at h
    rw [findList?] at hfound
    rw [refillAll_cons]
    split at hfound
    · rename_i ht
      cases hfound
      obtain ⟨one, absent⟩ := countP_of_find? h ht
      rw [refill_children one ht, refillAll, updateList_of_absent _ ts absent]
    · rename_i ht
      rw [refill, update_of_absent _ t ((find?_eq_none_iff t).1 ht),
        refillAll_children (by omega) hfound]

end

end MarkupTemplate.Tree
