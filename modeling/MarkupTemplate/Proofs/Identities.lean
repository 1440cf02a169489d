import MarkupTemplate.Document.Edits
import MarkupTemplate.Proofs.Forests

/-!
# Identities

Documents whose nodes are told apart by their identities, and edits of such documents that concern
the children of one node.

* `Document.WellFormed` — every identity is given to one node.
* `Document.refilled` — a document in which a node has other children.
* `Document.Within` — the identities of these children are not those of the nodes around them.
* `Within.find?_child`, `Within.append`, `Within.insertBefore`, `Within.insertAfter`,
  `Within.clear`, `Within.insertText` — what is found in such a document, and how its edits are
  edits of the list of children.
-/

namespace MarkupTemplate.Document

open MarkupTemplate.Tree (refill refillAll labelsList)

/-- The identities of the nodes of several trees. -/
def ids (ts : List (Tree Entry)) : List NodeId :=
  (labelsList ts).map Entry.id

@[simp] theorem ids_nil : ids [] = [] := by
  simp [ids]

@[simp] theorem ids_cons (t : Tree Entry) (ts : List (Tree Entry)) :
    ids (t :: ts) = t.label.id :: (ids t.children ++ ids ts) := by
  rw [ids, Tree.labelsList_cons, Tree.labels_eq]
  simp [ids]

@[simp] theorem ids_append (ts us : List (Tree Entry)) : ids (ts ++ us) = ids ts ++ ids us := by
  simp [ids, Tree.labelsList_append]

theorem ids_perm {ts us : List (Tree Entry)} (h : ts.Perm us) : (ids ts).Perm (ids us) := by
  induction h with
  | nil => exact List.Perm.refl _
  | cons t _ ih =>
    rw [ids_cons, ids_cons]
    exact (ih.append_left _).cons _
  | swap t u ts =>
    rw [show u :: t :: ts = [u] ++ ([t] ++ ts) from rfl,
      show t :: u :: ts = [t] ++ ([u] ++ ts) from rfl]
    simp only [ids_append, ← List.append_assoc]
    exact List.perm_append_comm.append_right _
  | trans _ _ ih ih' => exact ih.trans ih'

theorem countP_hasId (id : NodeId) (ts : List (Tree Entry)) :
    (labelsList ts).countP (hasId id) = (ids ts).count id := by
  rw [ids, List.count, List.countP_map]
  rfl

theorem countP_hasId_eq_zero {id : NodeId} {ts : List (Tree Entry)} :
    (labelsList ts).countP (hasId id) = 0 ↔ id ∉ ids ts := by
  rw [countP_hasId, List.count_eq_zero]

@[simp] theorem hasId_self (e : Entry) : hasId e.id e = true := by
  simp [hasId]

theorem range'_append_range' {a b c : Nat} (hab : a ≤ b) (hbc : b ≤ c) :
    List.range' a (b - a) ++ List.range' b (c - b) = List.range' a (c - a) := by
  have middle : b = a + (b - a) := by omega
  have whole : c - a = (b - a) + (c - b) := by omega
  rw [whole, ← List.range'_append_1, ← middle]

mutual

/-- Nodes are numbered one after the other. -/
theorem ids_numbered (next : NodeId) :
    ∀ m : Markup, ids [(Markup.numbered next m).1] =
        List.range' next ((Markup.numbered next m).2 - next) ∧
      next < (Markup.numbered next m).2
  | .node data ms => by
    obtain ⟨hids, hle⟩ := ids_numberedList (next + 1) ms
    refine ⟨?_, hle⟩
    rw [Markup.numbered, ids_cons, ids_nil, List.append_nil]
    change next :: ids (Markup.numberedList (next + 1) ms).1 = List.range' next
      ((Markup.numberedList (next + 1) ms).2 - next)
    rw [hids, ← range'_append_range' (Nat.le_succ next) hle, Nat.succ_sub (Nat.le_refl next),
      Nat.sub_self]
    rfl

/-- So are those of several trees. -/
theorem ids_numberedList (next : NodeId) :
    ∀ ms : List Markup, ids (Markup.numberedList next ms).1 =
        List.range' next ((Markup.numberedList next ms).2 - next) ∧
      next ≤ (Markup.numberedList next ms).2
  | [] => by simp [Markup.numberedList]
  | m :: ms => by
    obtain ⟨hfirst, hlt⟩ := ids_numbered next m
    obtain ⟨hrest, hle⟩ := ids_numberedList (Markup.numbered next m).2 ms
    refine ⟨?_, Nat.le_of_lt (Nat.lt_of_lt_of_le hlt hle)⟩
    rw [Markup.numberedList]
    change ids ([(Markup.numbered next m).1] ++ (Markup.numberedList (Markup.numbered next m).2 ms).1) =
      List.range' next ((Markup.numberedList (Markup.numbered next m).2 ms).2 - next)
    rw [ids_append, hfirst, hrest, range'_append_range' (Nat.le_of_lt hlt) hle]

end

/-- Every node has an identity of its own, and those to come are not yet given. -/
structure WellFormed (d : Document) : Prop where
  nodup : (ids (d.tree :: d.strays)).Nodup
  known : ∀ id ∈ ids (d.tree :: d.strays), id < d.nextId

theorem WellFormed.countP_hasId_le_one {d : Document} (h : d.WellFormed) (id : NodeId) :
    (labelsList (d.tree :: d.strays)).countP (hasId id) ≤ 1 := by
  rw [countP_hasId]
  exact List.nodup_iff_count.1 h.nodup id

/-- Every tree can be made a document whose nodes have identities of their own. -/
theorem wellFormed_ofMarkup (m : Markup) : (ofMarkup m).WellFormed := by
  obtain ⟨hids, hlt⟩ := ids_numbered 0 m
  constructor
  · rw [ofMarkup, hids]
    exact List.nodup_range'
  · intro id hid
    rw [ofMarkup, hids] at hid
    have hbound := (List.mem_range'_1.1 hid).2
    rwa [Nat.add_sub_of_le (Nat.le_of_lt hlt)] at hbound

/-- A document in which a node has other children, with some more trees beside it. -/
def refilled (d : Document) (e : NodeId) (us gone : List (Tree Entry)) (next : NodeId) :
    Document where
  tree := refill (hasId e) us d.tree
  strays := gone ++ refillAll (hasId e) us d.strays
  nextId := next

/-- The identities around the children of a node: all that are not below it. -/
def aroundIds (d : Document) (e : NodeId) : List NodeId :=
  ids (refill (hasId e) [] d.tree :: refillAll (hasId e) [] d.strays)

theorem root_mem_aroundIds (d : Document) (e : NodeId) : d.root ∈ d.aroundIds e := by
  rw [aroundIds, ids_cons, Tree.label_refill]
  exact List.mem_cons_self

/-- The identities of new children of a node, and of trees beside the document, are not those around
them, and those to come are not yet given. -/
structure Within (d : Document) (e : NodeId) (us gone : List (Tree Entry)) (next : NodeId) :
    Prop where
  nodup : (d.aroundIds e ++ (ids us ++ ids gone)).Nodup
  known : ∀ id ∈ d.aroundIds e ++ (ids us ++ ids gone), id < next

variable {d : Document} {e : NodeId} {t u : Tree Entry} {us before after : List (Tree Entry)}
variable {gone : List (Tree Entry)} {next : NodeId} {id : NodeId}

/-- A document is made of what is around the children of a node, and these. -/
theorem aroundIds_perm (h : d.WellFormed) (found : d.find? e = some t) :
    (d.aroundIds e ++ ids t.children).Perm (ids (d.tree :: d.strays)) := by
  have one := h.countP_hasId_le_one e
  have perm := Tree.labelsList_refillAll_perm t.children one found
  rw [Tree.refillAll_children one found] at perm
  have := (perm.map Entry.id).symm
  rwa [List.map_append] at this

theorem WellFormed.within (h : d.WellFormed) (found : d.find? e = some t) :
    Within d e t.children [] d.nextId := by
  have perm := aroundIds_perm h found
  constructor
  · rw [ids_nil, List.append_nil]
    exact perm.nodup_iff.2 h.nodup
  · rw [ids_nil, List.append_nil]
    exact fun id hid => h.known id (perm.mem_iff.1 hid)

/-- A document is itself with the children that its node has. -/
theorem WellFormed.refilled_self (h : d.WellFormed) (found : d.find? e = some t) :
    d.refilled e t.children [] d.nextId = d := by
  have one := h.countP_hasId_le_one e
  have same := Tree.refillAll_children one found
  rw [Tree.refillAll_cons, List.cons.injEq] at same
  rw [refilled, same.1, same.2, List.nil_append]

namespace Within

/-- With its new children, the document is one whose nodes have identities of their own. -/
theorem wellFormed (h : Within d e us gone next) (wellFormed : d.WellFormed)
    (found : d.find? e = some t) : (d.refilled e us gone next).WellFormed := by
  have one := wellFormed.countP_hasId_le_one e
  have perm : (ids (refillAll (hasId e) us (d.tree :: d.strays))).Perm (d.aroundIds e ++ ids us) := by
    have labels := (Tree.labelsList_refillAll_perm us one found).map Entry.id
    rwa [List.map_append] at labels
  have perm : (ids ((d.refilled e us gone next).tree :: (d.refilled e us gone next).strays)).Perm
      (d.aroundIds e ++ (ids us ++ ids gone)) := by
    refine List.perm_iff_count.2 fun id => ?_
    have count := perm.count_eq id
    rw [Tree.refillAll_cons, ids_cons] at count
    simp only [refilled, ids_cons, ids_append, List.count_append, List.count_cons] at count ⊢
    omega
  exact ⟨perm.nodup_iff.2 h.nodup, fun id hid => h.known id (perm.mem_iff.1 hid)⟩

/-- The same nodes in other places. -/
theorem of_perm (h : Within d e us gone next) {us' gone' : List (Tree Entry)}
    (perm : (ids us' ++ ids gone').Perm (ids us ++ ids gone)) : Within d e us' gone' next := by
  have perm := perm.append_left (d.aroundIds e)
  exact ⟨perm.nodup_iff.2 h.nodup, fun id hid => h.known id (perm.mem_iff.1 hid)⟩

theorem disjoint (h : Within d e us gone next) :
    ∀ id ∈ ids us ++ ids gone, id ∉ d.aroundIds e :=
  fun id hid haround => (List.nodup_append.1 h.nodup).2.2 id haround id hid rfl

/-- A node is in one place among the children. -/
theorem apart (h : Within d e (before ++ u :: after) gone next) :
    u.label.id ∉ ids before ∧ u.label.id ∉ ids u.children ∧ u.label.id ∉ ids after ∧
      u.label.id ∉ ids gone ∧ u.label.id ∉ d.aroundIds e := by
  have inside := h.disjoint u.label.id (by simp)
  have nodup := (List.nodup_append.1 h.nodup).2.1
  simp only [ids_append, ids_cons, List.append_assoc, List.cons_append, List.nodup_append,
    List.nodup_cons, List.mem_append, List.mem_cons, not_or] at nodup
  obtain ⟨-, ⟨⟨hchildren, hafter, hgone⟩, -⟩, hbefore⟩ := nodup
  exact ⟨fun hmem => hbefore _ hmem _ (.inl rfl) rfl, hchildren, hafter, hgone, inside⟩

end Within

/-! ## Searches -/

theorem countP_around (hid : id ∉ d.aroundIds e) :
    (labelsList (refillAll (hasId e) [] (d.tree :: d.strays))).countP (hasId id) = 0 := by
  rw [Tree.refillAll_cons]
  exact countP_hasId_eq_zero.2 hid

theorem mem_aroundIds (found : d.find? e = some t) : e ∈ d.aroundIds e := by
  have kept := Tree.findList?_self_refillAll (q := hasId e) [] (d.tree :: d.strays)
  rw [show Tree.findList? (hasId e) (d.tree :: d.strays) = some t from found] at kept
  rw [aroundIds]
  refine Decidable.byContradiction fun habsent => ?_
  rw [← Tree.refillAll_cons, ← countP_hasId_eq_zero, ← Tree.findList?_eq_none_iff, kept] at habsent
  cases habsent

theorem find?_eq (id : NodeId) :
    (d.refilled e us gone next).find? id =
      ((refill (hasId e) us d.tree).find? (hasId id)).or
        ((Tree.findList? (hasId id) gone).or
          (Tree.findList? (hasId id) (refillAll (hasId e) us d.strays))) := by
  rw [find?, refilled, Tree.findList?, Tree.findList?_append]
  cases (refill (hasId e) us d.tree).find? (hasId id) <;> rfl

/-- The node has its new children. -/
theorem find?_refilled_self (found : d.find? e = some t) (hgone : e ∉ ids gone) :
    (d.refilled e us gone next).find? e = some (t.withChildren us) := by
  have kept := Tree.findList?_self_refillAll (q := hasId e) us (d.tree :: d.strays)
  rw [show Tree.findList? (hasId e) (d.tree :: d.strays) = some t from found,
    Tree.refillAll_cons, Tree.findList?] at kept
  rw [find?_eq, Tree.findList?_of_absent gone (countP_hasId_eq_zero.2 hgone), Option.none_or]
  cases hfirst : (refill (hasId e) us d.tree).find? (hasId e) with
  | none =>
    rw [hfirst] at kept
    exact kept
  | some first =>
    rw [hfirst] at kept
    exact kept

/-- What is neither around nor beside the document is found among the children. -/
theorem find?_refilled_inside (found : d.find? e = some t) (haround : id ∉ d.aroundIds e)
    (hgone : id ∉ ids gone) :
    (d.refilled e us gone next).find? id = Tree.findList? (hasId id) us := by
  have inside := Tree.findList?_refillAll us _ (countP_around haround)
  rw [show Tree.findList? (hasId e) (d.tree :: d.strays) = some t from found,
    Tree.refillAll_cons, Tree.findList?] at inside
  rw [find?_eq, Tree.findList?_of_absent gone (countP_hasId_eq_zero.2 hgone), Option.none_or]
  cases hfirst : (refill (hasId e) us d.tree).find? (hasId id) with
  | none =>
    rw [hfirst] at inside
    exact inside
  | some first =>
    rw [hfirst] at inside
    exact inside

/-- What is neither around nor among the children is found beside the document. -/
theorem find?_refilled_gone (haround : id ∉ d.aroundIds e) (hus : id ∉ ids us) :
    (d.refilled e us gone next).find? id = Tree.findList? (hasId id) gone := by
  have inside := Tree.findList?_refillAll us _ (countP_around haround)
  rw [Tree.findList?_of_absent us (countP_hasId_eq_zero.2 hus), ite_self, Tree.refillAll_cons,
    Tree.findList?] at inside
  rw [find?_eq]
  cases hfirst : (refill (hasId e) us d.tree).find? (hasId id) with
  | none =>
    rw [hfirst] at inside
    rw [show Tree.findList? (hasId id) (refillAll (hasId e) us d.strays) = none from inside,
      Option.none_or, Option.or_none]
  | some first =>
    rw [hfirst] at inside
    cases inside

/-- The way to one of the children leads through the node that has them. -/
theorem exists_home_refillAll {path : Path} (there : Tree.pathToList? (hasId id) 0 us = some path) :
    ∀ {ts : List (Tree Entry)},
      (labelsList (refillAll (hasId e) [] ts)).countP (hasId id) = 0 →
      (Tree.findList? (hasId e) ts).isSome = true →
      ∃ v p, v.pathTo? (hasId e) = some p ∧
        ((refillAll (hasId e) us ts).findSome? fun v => (v.pathTo? (hasId id)).map fun p => (v, p)) =
          some (refill (hasId e) us v, p ++ path)
  | [], _, found => nomatch found
  | v :: ts, zero, found => by
    rw [Tree.countP_around_cons] at zero
    have way := Tree.pathTo?_refill (p := hasId id) (q := hasId e) us v (by omega)
    rw [there] at way
    rw [Tree.refillAll_cons, List.findSome?_cons]
    cases hv : v.pathTo? (hasId e) with
    | some p =>
      rw [hv] at way
      rw [way]
      exact ⟨v, p, hv, rfl⟩
    | none =>
      rw [hv] at way
      rw [way]
      have absent : (v.find? (hasId e)).isSome = false := by
        rw [← Tree.isSome_pathTo?, hv]
        rfl
      refine exists_home_refillAll there (by omega) ?_
      rw [Tree.findList?] at found
      cases hfind : v.find? (hasId e) with
      | none => rwa [hfind] at found
      | some w =>
        rw [hfind] at absent
        cases absent

/-- The node that has the new children is the parent of each. -/
theorem parent?_refilled (found : d.find? e = some t) (haround : u.label.id ∉ d.aroundIds e)
    (hbefore : u.label.id ∉ ids before) (hgone : u.label.id ∉ ids gone) :
    (d.refilled e (before ++ u :: after) gone next).parent? u.label.id = some e := by
  have there : Tree.pathToList? (hasId u.label.id) 0 (before ++ u :: after) =
      some [0 + before.length] :=
    Tree.pathToList?_append_cons (hasId_self u.label) (countP_hasId_eq_zero.2 hbefore) 0
  have nothing : (gone.findSome? fun v =>
      (v.pathTo? (hasId u.label.id)).map fun p => (v, p)) = none := by
    refine List.findSome?_eq_none_iff.2 fun v hv => ?_
    have absent : v.labels.countP (hasId u.label.id) = 0 := by
      obtain ⟨first, rest, rfl⟩ := List.append_of_mem hv
      have zero := countP_hasId_eq_zero.2 hgone
      rw [Tree.labelsList_append, List.countP_append, Tree.labelsList_cons,
        List.countP_append] at zero
      omega
    rw [Tree.pathTo?_of_absent v absent]
    rfl
  obtain ⟨v, p, hv, home⟩ := exists_home_refillAll there (countP_around haround)
    (Option.isSome_of_eq_some found)
  have home : (d.refilled e (before ++ u :: after) gone next).home? u.label.id =
      some (refill (hasId e) (before ++ u :: after) v, p ++ [0 + before.length]) := by
    rw [Tree.refillAll_cons, List.findSome?_cons] at home
    rw [home?, refilled, List.findSome?_cons, List.findSome?_append, nothing, Option.none_or]
    exact home
  obtain ⟨w, hw, hid⟩ := Tree.at?_refill (before ++ u :: after) v hv
  have below : (p ++ [0 + before.length]).isEmpty = false := by simp
  rw [parent?, home]
  simp only [below, Bool.false_eq_true, if_false, List.dropLast_concat, hw, Option.map_some]
  exact congrArg some (by simpa [hasId] using hid)

/-! ## Edits -/

theorem splice_refilled (haround : id ∉ d.aroundIds e) (f : Tree Entry → List (Tree Entry)) :
    (d.refilled e us gone next).splice id f =
      d.refilled e (Tree.spliceList (hasId id) f us) (Tree.spliceList (hasId id) f gone) next := by
  have zero := countP_around haround
  rw [Tree.countP_around_cons] at zero
  simp only [splice, refilled]
  rw [Tree.splice_refill f _ (by omega), Tree.spliceList_append,
    Tree.spliceList_refillAll f _ (by omega)]

theorem update_refilled (haround : id ∉ d.aroundIds e) (f : Tree Entry → Tree Entry) :
    (d.refilled e us gone next).update id f =
      d.refilled e (Tree.updateList (hasId id) f us) (Tree.updateList (hasId id) f gone) next := by
  have zero := countP_around haround
  rw [Tree.countP_around_cons] at zero
  simp only [update, refilled]
  rw [Tree.update_refill f _ (by omega), Tree.updateList_append,
    Tree.updateList_refillAll f _ (by omega)]

/-- The children of the node are replaced by others. -/
theorem update_refilled_self (hgone : e ∉ ids gone) (f : List (Tree Entry) → List (Tree Entry)) :
    (d.refilled e us gone next).update e (fun u => u.withChildren (f u.children)) =
      d.refilled e (f us) gone next := by
  simp only [update, refilled]
  rw [Tree.update_self_refill, Tree.updateList_append,
    Tree.updateList_of_absent _ gone (countP_hasId_eq_zero.2 hgone),
    Tree.updateList_self_refillAll]

theorem root_refilled : (d.refilled e us gone next).root = d.root := by
  rw [root, refilled, Tree.label_refill, root]

theorem take?_refilled (haround : id ∉ d.aroundIds e) :
    (d.refilled e us gone next).take? id =
      ((d.refilled e us gone next).find? id).map fun t =>
        (t, d.refilled e (Tree.spliceList (hasId id) (fun _ => []) us)
          (Tree.spliceList (hasId id) (fun _ => []) gone) next) := by
  have hroot : id ≠ d.root := fun heq => haround (heq ▸ root_mem_aroundIds d e)
  rw [take?, root_refilled, if_neg hroot, splice_refilled haround]

theorem adopt_refilled (m : Markup) :
    (d.refilled e us gone next).adopt m =
      (next, d.refilled e us ((Markup.numbered next m).1 :: gone) (Markup.numbered next m).2) :=
  rfl

/-! ## Edits of the children -/

namespace Within

variable {c : Tree Entry} {a : Entry} {cs : List (Tree Entry)}

theorem not_mem_gone (h : Within d e us gone next) (found : d.find? e = some t) :
    e ∉ ids gone :=
  fun hgone => h.disjoint e (List.mem_append_right _ hgone) (mem_aroundIds found)

/-- The node has its new children. -/
theorem find?_self (h : Within d e us gone next) (found : d.find? e = some t) :
    (d.refilled e us gone next).find? e = some (t.withChildren us) :=
  find?_refilled_self found (h.not_mem_gone found)

theorem children_self (h : Within d e us gone next) (found : d.find? e = some t) :
    (d.refilled e us gone next).children e = us.map fun c => c.label.id := by
  rw [children, h.find?_self found]
  simp

theorem find?_child (h : Within d e (before ++ u :: after) gone next)
    (found : d.find? e = some t) :
    (d.refilled e (before ++ u :: after) gone next).find? u.label.id = some u := by
  obtain ⟨hbefore, -, -, hgone, haround⟩ := h.apart
  rw [find?_refilled_inside found haround hgone]
  exact Tree.findList?_append_cons (hasId_self _) (countP_hasId_eq_zero.2 hbefore)

theorem parent?_child (h : Within d e (before ++ u :: after) gone next) (found : d.find? e = some t) :
    (d.refilled e (before ++ u :: after) gone next).parent? u.label.id = some e := by
  obtain ⟨hbefore, -, -, hgone, haround⟩ := h.apart
  exact parent?_refilled found haround hbefore hgone

theorem nextSibling?_child (h : Within d e (before ++ u :: after) gone next)
    (found : d.find? e = some t) :
    (d.refilled e (before ++ u :: after) gone next).nextSibling? u.label.id =
      after.head?.map fun c => c.label.id := by
  have hbefore := h.apart.1
  have others : ∀ x ∈ before.map fun c => c.label.id, (x != u.label.id) = true := by
    intro x hx
    obtain ⟨c, hc, rfl⟩ := List.mem_map.1 hx
    obtain ⟨first, rest, rfl⟩ := List.append_of_mem hc
    simp only [ids_append, ids_cons, List.mem_append, List.mem_cons, not_or] at hbefore
    simpa using Ne.symm hbefore.2.1
  rw [nextSibling?, h.parent?_child found]
  change (List.dropWhile _ ((d.refilled e (before ++ u :: after) gone next).children e))[1]? = _
  rw [h.children_self found, List.map_append, List.dropWhile_append_of_pos others, List.map_cons,
    List.dropWhile_cons_of_neg (by simp)]
  cases after <;> rfl

/-- A tree beside the document is taken from there. -/
theorem take?_gone {rest : List (Tree Entry)} (h : Within d e us (gone ++ c :: rest) next) :
    (d.refilled e us (gone ++ c :: rest) next).take? c.label.id =
      some (c, d.refilled e us (gone ++ rest) next) := by
  have haround := h.disjoint c.label.id (by simp)
  have nodup := (List.nodup_append.1 h.nodup).2.1
  simp only [ids_append, ids_cons, List.nodup_append, List.nodup_cons, List.mem_append,
    List.mem_cons, not_or] at nodup
  obtain ⟨-, ⟨-, ⟨⟨-, hrest⟩, -⟩, hgone⟩, hus⟩ := nodup
  have hgone : c.label.id ∉ ids gone := fun hmem => hgone _ hmem _ (.inl rfl) rfl
  have hus : c.label.id ∉ ids us := fun hmem => hus _ hmem _ (.inr (.inl rfl)) rfl
  rw [take?_refilled haround, find?_refilled_gone haround hus,
    Tree.findList?_append_cons (hasId_self _) (countP_hasId_eq_zero.2 hgone),
    Tree.spliceList_append_cons _ (hasId_self _) (countP_hasId_eq_zero.2 hgone)
      (countP_hasId_eq_zero.2 hrest),
    Tree.spliceList_of_absent _ us (countP_hasId_eq_zero.2 hus), List.append_nil]
  rfl

/-- A tree beside the document may stand anywhere among the children. -/
theorem placed (h : Within d e (before ++ after) (c :: gone) next) :
    Within d e (before ++ c :: after) gone next := by
  refine h.of_perm (List.perm_iff_count.2 fun id => ?_)
  simp only [ids_append, ids_cons, List.count_append, List.count_cons]
  omega

/-- The first tree beside the document is taken from there. -/
theorem take?_first (h : Within d e us (c :: gone) next) :
    (d.refilled e us (c :: gone) next).take? c.label.id = some (c, d.refilled e us gone next) :=
  take?_gone (show Within d e us ([] ++ c :: gone) next from h)

/-- A tree beside the document is put behind the children. -/
theorem append (h : Within d e us (c :: gone) next) (found : d.find? e = some t) :
    (d.refilled e us (c :: gone) next).append e c.label.id =
      d.refilled e (us ++ [c]) gone next := by
  have rest : e ∉ ids gone := fun hmem => h.not_mem_gone found (by simp [hmem])
  rw [Document.append, h.take?_first]
  exact update_refilled_self rest fun us => us ++ [c]

/-- A tree beside the document is put right before one of the children. -/
theorem insertBefore (h : Within d e (before ++ u :: after) (c :: gone) next) :
    (d.refilled e (before ++ u :: after) (c :: gone) next).insertBefore u.label.id c.label.id =
      d.refilled e (before ++ c :: u :: after) gone next := by
  obtain ⟨hbefore, -, hafter, hgone, haround⟩ := h.apart
  simp only [ids_cons, List.mem_cons, List.mem_append, not_or] at hgone
  rw [Document.insertBefore, if_neg hgone.1, h.take?_first]
  change Document.splice _ u.label.id _ = _
  rw [splice_refilled haround, Tree.spliceList_append_cons _ (hasId_self _)
    (countP_hasId_eq_zero.2 hbefore) (countP_hasId_eq_zero.2 hafter),
    Tree.spliceList_of_absent _ gone (countP_hasId_eq_zero.2 hgone.2.2), List.append_assoc]
  rfl

/-- A tree beside the document is put right after one of the children. -/
theorem insertAfter (h : Within d e (before ++ u :: after) (c :: gone) next)
    (found : d.find? e = some t) :
    (d.refilled e (before ++ u :: after) (c :: gone) next).insertAfter u.label.id c.label.id =
      d.refilled e (before ++ u :: c :: after) gone next := by
  rw [Document.insertAfter, h.nextSibling?_child found, h.parent?_child found]
  cases after with
  | nil => exact (h.append found).trans (by rw [List.append_assoc, List.cons_append, List.nil_append])
  | cons n after =>
    rw [List.append_cons] at h ⊢
    exact h.insertBefore.trans (by rw [List.append_assoc, List.singleton_append])

/-- The first node in one of the children is taken from there. -/
theorem take?_below (h : Within d e (before ++ .node a (c :: cs) :: after) gone next)
    (found : d.find? e = some t) :
    (d.refilled e (before ++ .node a (c :: cs) :: after) gone next).take? c.label.id =
      some (c, d.refilled e (before ++ .node a cs :: after) gone next) := by
  have haround := h.disjoint c.label.id (by simp)
  have nodup := (List.nodup_append.1 h.nodup).2.1
  simp only [ids_append, ids_cons, Tree.children_node, Tree.label_node, List.append_assoc,
    List.cons_append, List.nodup_append, List.nodup_cons, List.mem_append, List.mem_cons,
    not_or] at nodup
  obtain ⟨-, ⟨⟨hid, -⟩, ⟨-, hcs, hafter, hgone⟩, -⟩, hbefore⟩ := nodup
  have hbefore : c.label.id ∉ ids before := fun hmem => hbefore _ hmem _ (.inr (.inl rfl)) rfl
  have hpa : ¬ hasId c.label.id a = true := by simpa [hasId] using hid
  have here : Tree.findList? (hasId c.label.id) (before ++ .node a (c :: cs) :: after) =
      some c := by
    rw [Tree.findList?_append, Tree.findList?_of_absent _ (countP_hasId_eq_zero.2 hbefore),
      Option.none_or, Tree.findList?, Tree.find?, if_neg hpa]
    rw [show c :: cs = [] ++ c :: cs from rfl, Tree.findList?_append_cons (hasId_self _) rfl]
  have out : Tree.spliceList (hasId c.label.id) (fun _ => [])
      (before ++ .node a (c :: cs) :: after) = before ++ .node a cs :: after := by
    rw [Tree.spliceList_append, Tree.spliceList_of_absent _ _ (countP_hasId_eq_zero.2 hbefore),
      Tree.spliceList, Tree.label, if_neg hpa, Tree.splice,
      Tree.spliceList_of_absent _ _ (countP_hasId_eq_zero.2 hafter)]
    rw [show c :: cs = [] ++ c :: cs from rfl, Tree.spliceList_append_cons _ (hasId_self _) rfl
      (countP_hasId_eq_zero.2 hcs)]
    rfl
  rw [take?_refilled haround, find?_refilled_inside found haround hgone, here, out,
    Tree.spliceList_of_absent _ _ (countP_hasId_eq_zero.2 hgone)]
  rfl

/-- The first node in one of the children is put beside the document. -/
theorem detach_first (h : Within d e (before ++ .node a (c :: cs) :: after) gone next)
    (found : d.find? e = some t) :
    (d.refilled e (before ++ .node a (c :: cs) :: after) gone next).detach c.label.id =
      d.refilled e (before ++ .node a cs :: after) (c :: gone) next := by
  rw [detach, h.take?_below found]
  rfl

theorem detach_all (found : d.find? e = some t) :
    ∀ {cs gone : List (Tree Entry)}, Within d e (before ++ .node a cs :: after) gone next →
      (cs.map fun c => c.label.id).foldl Document.detach
          (d.refilled e (before ++ .node a cs :: after) gone next) =
        d.refilled e (before ++ .node a [] :: after) (cs.reverse ++ gone) next
  | [], _, _ => rfl
  | c :: cs, gone, h => by
    have moved : Within d e (before ++ .node a cs :: after) (c :: gone) next := by
      refine h.of_perm (List.perm_iff_count.2 fun id => ?_)
      simp only [ids_append, ids_cons, Tree.children_node, Tree.label_node, List.count_append,
        List.count_cons]
      omega
    rw [List.map_cons, List.foldl_cons, h.detach_first found, detach_all found moved,
      List.reverse_cons, List.append_assoc]
    rfl

/-- What one of the children holds is put beside the document. -/
theorem clear (h : Within d e (before ++ u :: after) gone next) (found : d.find? e = some t) :
    (d.refilled e (before ++ u :: after) gone next).clear u.label.id =
      d.refilled e (before ++ u.withChildren [] :: after) (u.children.reverse ++ gone) next := by
  obtain ⟨a, cs⟩ := u
  rw [Document.clear, children, h.find?_child found]
  exact detach_all found h

/-- New nodes have new identities. -/
theorem adopt (h : Within d e us gone next) (m : Markup) :
    Within d e us ((Markup.numbered next m).1 :: gone) (Markup.numbered next m).2 := by
  obtain ⟨hids, hlt⟩ := ids_numbered next m
  have perm : (d.aroundIds e ++ (ids us ++ ids ((Markup.numbered next m).1 :: gone))).Perm
      (List.range' next ((Markup.numbered next m).2 - next) ++
        (d.aroundIds e ++ (ids us ++ ids gone))) := by
    rw [← hids, ← List.singleton_append, ids_append]
    refine List.perm_iff_count.2 fun id => ?_
    simp only [List.count_append]
    omega
  constructor
  · refine perm.nodup_iff.2 (List.nodup_append.2 ⟨List.nodup_range', h.nodup, ?_⟩)
    rintro x hx _ hold rfl
    exact Nat.not_lt_of_le (List.mem_range'_1.1 hx).1 (h.known x hold)
  · intro x hx
    rcases List.mem_append.1 (perm.mem_iff.1 hx) with hnew | hold
    · have hbound := (List.mem_range'_1.1 hnew).2
      rwa [Nat.add_sub_of_le (Nat.le_of_lt hlt)] at hbound
    · exact Nat.lt_trans (h.known x hold) hlt

/-- A new text in place of what one of the children holds. -/
theorem withText (h : Within d e (before ++ u :: after) gone next) (text : String) :
    Within d e (before ++ u.withChildren [.node ⟨next, .text text, none⟩ []] :: after)
      (u.children.reverse ++ gone) (next + 1) := by
  have adopted : Within d e (before ++ u :: after) (.node ⟨next, .text text, none⟩ [] :: gone)
      (next + 1) := h.adopt (.node (.text text) [])
  refine adopted.of_perm (List.perm_iff_count.2 fun id => ?_)
  have reversed := (ids_perm (List.reverse_perm u.children)).count_eq id
  simp only [ids_append, ids_cons, Tree.label_withChildren, Tree.children_withChildren, ids_nil,
    List.append_nil, Tree.label_node, Tree.children_node, List.count_append, List.count_cons,
    List.count_nil, reversed]
  omega

/-- A text takes the place of what one of the children holds. -/
theorem insertText (h : Within d e (before ++ u :: after) gone next) (found : d.find? e = some t)
    (text : String) :
    (d.refilled e (before ++ u :: after) gone next).insertText u.label.id text .replace =
      d.refilled e (before ++ u.withChildren [.node ⟨next, .text text, none⟩ []] :: after)
        (u.children.reverse ++ gone) (next + 1) := by
  have adopted : Within d e (before ++ u :: after) (.node ⟨next, .text text, none⟩ [] :: gone)
      (next + 1) := h.adopt (.node (.text text) [])
  have cleared : Within d e (before ++ u.withChildren [] :: after)
      (u.children.reverse ++ .node ⟨next, .text text, none⟩ [] :: gone) (next + 1) := by
    refine adopted.of_perm (List.perm_iff_count.2 fun id => ?_)
    have reversed := (ids_perm (List.reverse_perm u.children)).count_eq id
    simp only [ids_append, ids_cons, Tree.label_withChildren, Tree.children_withChildren, ids_nil,
      List.nil_append, List.count_append, List.count_cons, reversed]
    omega
  obtain ⟨hbefore, -, hafter, hgone, haround⟩ := cleared.apart
  rw [Tree.label_withChildren] at hbefore hafter hgone haround
  simp only [ids_append, ids_cons, List.mem_append, List.mem_cons, not_or] at hgone
  have gone' : u.label.id ∉ ids (u.children.reverse ++ gone) := by
    simp [hgone.1, hgone.2.2.2]
  rw [Document.insertText, adopt_refilled]
  change Document.append (Document.clear (d.refilled e (before ++ u :: after)
    (.node ⟨next, .text text, none⟩ [] :: gone) (next + 1)) u.label.id) u.label.id next = _
  rw [adopted.clear found, Document.append]
  have taken := cleared.take?_gone
  rw [Tree.label_node] at taken
  rw [taken]
  change Document.update _ u.label.id _ = _
  rw [update_refilled haround, Tree.updateList_append_cons _ (by simp)
    (countP_hasId_eq_zero.2 hbefore) (countP_hasId_eq_zero.2 hafter),
    Tree.updateList_of_absent _ _ (countP_hasId_eq_zero.2 gone')]
  simp

end Within

end MarkupTemplate.Document
