import MarkupTemplate.Proofs.DocumentOrder
import MarkupTemplate.Proofs.Identities

/-!
# Homes of nodes

Where a node is found by its identity, and what is around it there.

* `Tree.at?_pathTo?` — the path to a node ends at the node.
* `Tree.find?_of_at?`, `Document.WellFormed.find?_of_at?` — a node at a path is found, unless there is
  another one like it.
* `Document.WellFormed.exists_parent` — an attached node stands among the children of its parent.
* `Document.WellFormed.parent?_eq_some_iff`, `Document.WellFormed.isAttached_child` — parents, and what
  is attached, as the lists of children tell.
-/

namespace MarkupTemplate

namespace Tree

variable {α : Type} {p : α → Bool} {t u : Tree α} {path : Path}

mutual

/-- The path to a node ends at it. -/
theorem at?_pathTo? :
    ∀ (t : Tree α) {path : Path}, pathTo? p t = some path →
      ∃ u, at? path t = some u ∧ p u.label = true
  | .node a ts, path, h => by
    rw [pathTo?] at h
    split at h
    · rename_i ha
      cases h
      exact ⟨_, rfl, ha⟩
    · obtain ⟨j, rest, rfl, c, hc, found⟩ := at?_pathToList? ts 0 h
      obtain ⟨u, hu, hp⟩ := found
      refine ⟨u, ?_, hp⟩
      rw [at?_cons, children_node, Nat.zero_add, hc]
      exact hu

theorem at?_pathToList? :
    ∀ (ts : List (Tree α)) (i : Nat) {path : Path}, pathToList? p i ts = some path →
      ∃ j rest, path = (i + j) :: rest ∧ ∃ c, ts[j]? = some c ∧
        ∃ u, at? rest c = some u ∧ p u.label = true
  | [], _, _, h => nomatch h
  | t :: ts, i, path, h => by
    rw [pathToList?] at h
    split at h
    · rename_i rest hrest
      cases h
      exact ⟨0, rest, rfl, t, rfl, at?_pathTo? t hrest⟩
    · obtain ⟨j, rest, rfl, c, hc, found⟩ := at?_pathToList? ts (i + 1) h
      exact ⟨j + 1, rest, by rw [Nat.add_right_comm, Nat.add_assoc], c, hc, found⟩

end

/-- What is at a path is in the tree. -/
theorem countP_pos_of_at? :
    ∀ {path : Path} {t : Tree α}, at? path t = some u → p u.label = true →
      0 < t.labels.countP p
  | [], t, h, hp => by
    cases h
    rw [labels_eq, List.countP_cons, if_pos hp]
    omega
  | i :: path, .node a ts, h, hp => by
    rw [at?_cons, children_node, Option.bind_eq_some_iff] at h
    obtain ⟨c, hc, h⟩ := h
    obtain ⟨before, after, rfl⟩ := List.append_of_mem (List.mem_of_getElem? hc)
    have below := countP_pos_of_at? h hp
    rw [labels_node, List.countP_cons, labelsList_append, List.countP_append, labelsList_cons,
      List.countP_append]
    omega

/-- What is found in one of several trees is found in all of them, if there is only one. -/
theorem findList?_of_find? {before after : List (Tree α)}
    (one : (labelsList (before ++ t :: after)).countP p ≤ 1) (h : find? p t = some u) :
    findList? p (before ++ t :: after) = some u := by
  have there : t.labels.countP p ≠ 0 := fun absent => by
    rw [(find?_eq_none_iff t).2 absent] at h
    cases h
  rw [labelsList_append, List.countP_append, labelsList_cons, List.countP_append] at one
  rw [findList?_append, findList?_of_absent before (by omega), Option.none_or, findList?, h]

/-- What is at a path is found, if there is only one. -/
theorem find?_of_at? :
    ∀ {path : Path} {t : Tree α}, t.labels.countP p ≤ 1 → at? path t = some u →
      p u.label = true → find? p t = some u
  | [], .node a ts, _, h, hp => by
    cases h
    rw [label_node] at hp
    rw [find?, if_pos hp]
  | i :: path, .node a ts, one, h, hp => by
    rw [at?_cons, children_node, Option.bind_eq_some_iff] at h
    obtain ⟨c, hc, h⟩ := h
    obtain ⟨before, after, rfl⟩ := List.append_of_mem (List.mem_of_getElem? hc)
    have below := countP_pos_of_at? h hp
    rw [labels_node, List.countP_cons] at one
    have split := one
    rw [labelsList_append, List.countP_append, labelsList_cons, List.countP_append] at split
    have ha : ¬ p a = true := fun ha => by
      rw [if_pos ha] at split
      omega
    rw [find?, if_neg ha]
    exact findList?_of_find? (by omega) (find?_of_at? (by omega) h hp)

theorem countP_pos_of_pathTo? (h : pathTo? p t = some path) : 0 < t.labels.countP p := by
  obtain ⟨u, hu, hp⟩ := at?_pathTo? t h
  exact countP_pos_of_at? hu hp

theorem pathToList?_of_getElem? :
    ∀ {ts : List (Tree α)} {i : Nat} (k : Nat), (labelsList ts).countP p ≤ 1 → ts[i]? = some t →
      pathTo? p t = some path → pathToList? p k ts = some ((k + i) :: path)
  | [], _, _, _, ht, _ => nomatch ht
  | c :: ts, 0, k, _, ht, hpath => by
    cases ht
    rw [pathToList?, hpath]
    rfl
  | c :: ts, i + 1, k, one, ht, hpath => by
    rw [List.getElem?_cons_succ] at ht
    have there : 0 < (labelsList ts).countP p := by
      obtain ⟨before, after, rfl⟩ := List.append_of_mem (List.mem_of_getElem? ht)
      have pos := countP_pos_of_pathTo? hpath
      rw [labelsList_append, List.countP_append, labelsList_cons, List.countP_append]
      omega
    rw [labelsList_cons, List.countP_append] at one
    rw [pathToList?, pathTo?_of_absent c (by omega),
      pathToList?_of_getElem? (k + 1) (by omega) ht hpath, Nat.add_right_comm, Nat.add_assoc]

/-- The path to what is at a path is that path, if there is only one. -/
theorem pathTo?_of_at? :
    ∀ {path : Path} {t : Tree α}, t.labels.countP p ≤ 1 → at? path t = some u →
      p u.label = true → pathTo? p t = some path
  | [], .node a ts, _, h, hp => by
    cases h
    rw [label_node] at hp
    rw [pathTo?, if_pos hp]
  | i :: path, .node a ts, one, h, hp => by
    rw [at?_cons, children_node, Option.bind_eq_some_iff] at h
    obtain ⟨c, hc, h⟩ := h
    have below := countP_pos_of_at? h hp
    obtain ⟨before, after, hsplit⟩ := List.append_of_mem (List.mem_of_getElem? hc)
    rw [labels_node, List.countP_cons] at one
    have split := one
    rw [hsplit, labelsList_append, List.countP_append, labelsList_cons, List.countP_append] at split
    have ha : ¬ p a = true := fun ha => by
      rw [if_pos ha] at split
      omega
    have further : pathTo? p c = some path := pathTo?_of_at? (by omega) h hp
    rw [pathTo?, if_neg ha, pathToList?_of_getElem? 0 (by omega) hc further, Nat.zero_add]

end Tree

namespace Document

variable {d : Document} {id : NodeId} {t u : Tree Entry} {path : Path}

/-- The node at a path in one of the trees of a document is found by its identity. -/
theorem WellFormed.find?_of_at? (h : d.WellFormed) (ht : t ∈ d.tree :: d.strays)
    (hu : t.at? path = some u) : d.find? u.label.id = some u := by
  have one := h.countP_hasId_le_one u.label.id
  obtain ⟨before, after, hsplit⟩ := List.append_of_mem ht
  rw [hsplit] at one
  have here := one
  rw [Tree.labelsList_append, List.countP_append, Tree.labelsList_cons, List.countP_append] at here
  rw [Document.find?, hsplit]
  exact Tree.findList?_of_find? one (Tree.find?_of_at? (by omega) hu (hasId_self _))

/-- A node at a path in one of the trees of a document is at home there. -/
theorem WellFormed.home?_of_at? (h : d.WellFormed) (ht : t ∈ d.tree :: d.strays)
    (hu : t.at? path = some u) : d.home? u.label.id = some (t, path) := by
  have one := h.countP_hasId_le_one u.label.id
  obtain ⟨before, after, hsplit⟩ := List.append_of_mem ht
  have below := Tree.countP_pos_of_at? hu (hasId_self u.label)
  rw [hsplit, Tree.labelsList_append, List.countP_append, Tree.labelsList_cons,
    List.countP_append] at one
  have nothing : (before.findSome? fun v =>
      (v.pathTo? (hasId u.label.id)).map fun p => (v, p)) = none := by
    refine List.findSome?_eq_none_iff.2 fun v hv => ?_
    have absent : v.labels.countP (hasId u.label.id) = 0 := by
      obtain ⟨first, rest, rfl⟩ := List.append_of_mem hv
      rw [Tree.labelsList_append, List.countP_append, Tree.labelsList_cons,
        List.countP_append] at one
      omega
    rw [Tree.pathTo?_of_absent v absent]
    rfl
  rw [home?, hsplit, List.findSome?_append, nothing, Option.none_or, List.findSome?_cons,
    Tree.pathTo?_of_at? (by omega) hu (hasId_self _)]
  rfl

/-- **An attached node stands among the children of its parent.** -/
theorem WellFormed.exists_parent (h : d.WellFormed) (attached : d.isAttached id = true) :
    ∃ parent u t before after, d.parent? id = some parent ∧ d.find? parent = some u ∧
      u.children = before ++ t :: after ∧ d.find? id = some t ∧ t.label.id = id := by
  rw [isAttached] at attached
  cases hhome : d.home? id with
  | none =>
    rw [hhome] at attached
    cases attached
  | some home =>
    obtain ⟨root, path⟩ := home
    rw [hhome, Option.map_some, Option.getD_some] at attached
    obtain ⟨tree, htree, hpath⟩ := List.exists_of_findSome?_eq_some hhome
    obtain ⟨path', hpath, heq⟩ := Option.map_eq_some_iff.1 hpath
    cases heq
    have hne : path ≠ [] := by
      rintro rfl
      cases attached
    obtain ⟨t, ht, hid⟩ := Tree.at?_pathTo? root hpath
    have hid : t.label.id = id := by simpa [hasId] using hid
    rw [← List.dropLast_concat_getLast hne, Tree.at?_append, Option.bind_eq_some_iff] at ht
    obtain ⟨u, hu, ht⟩ := ht
    rw [Tree.at?_cons, Option.bind_eq_some_iff] at ht
    obtain ⟨c, hc, ht⟩ := ht
    obtain rfl : c = t := Option.some.inj ht
    obtain ⟨before, after, hsplit⟩ := List.append_of_mem (List.mem_of_getElem? hc)
    have whole : root.at? (path.dropLast ++ [path.getLast hne]) = some c := by
      rw [Tree.at?_append, hu, Option.bind_some, Tree.at?_cons, hc]
      rfl
    refine ⟨u.label.id, u, c, before, after, ?_, h.find?_of_at? htree hu, hsplit,
      hid ▸ h.find?_of_at? htree whole, hid⟩
    rw [parent?, hhome]
    simp [hne, hu]

/-! ## Parents -/

/-- Where a node is at home, it is. -/
theorem at?_of_home? (home : d.home? id = some (t, path)) :
    t ∈ d.tree :: d.strays ∧ ∃ u, t.at? path = some u ∧ u.label.id = id := by
  obtain ⟨tree, htree, hpath⟩ := List.exists_of_findSome?_eq_some home
  obtain ⟨path', hpath, heq⟩ := Option.map_eq_some_iff.1 hpath
  cases heq
  obtain ⟨u, hu, hid⟩ := Tree.at?_pathTo? t hpath
  exact ⟨htree, u, hu, by simpa [hasId] using hid⟩

/-- What is found has a home. -/
theorem WellFormed.exists_home? (h : d.WellFormed) (found : d.find? id = some t) :
    ∃ root path, d.home? id = some (root, path) ∧ root ∈ d.tree :: d.strays ∧
      root.at? path = some t := by
  have there : ∀ ts : List (Tree Entry), Tree.findList? (hasId id) ts = some t →
      (ts.findSome? fun v => (v.pathTo? (hasId id)).map fun p => (v, p)).isSome = true := by
    intro ts hts
    induction ts with
    | nil => cases hts
    | cons v ts ih =>
      rw [Tree.findList?] at hts
      have same : (v.pathTo? (hasId id)).isSome = (v.find? (hasId id)).isSome := Tree.isSome_pathTo? v
      rw [List.findSome?_cons]
      cases hv : v.pathTo? (hasId id) with
      | some p => rfl
      | none =>
        rw [hv] at same
        rw [Option.isNone_iff_eq_none.1 (Option.isSome_eq_false_iff.1 same.symm)] at hts
        exact ih hts
  obtain ⟨⟨root, path⟩, home⟩ := Option.isSome_iff_exists.1 (there _ found)
  obtain ⟨hroot, u, hu, rfl⟩ := at?_of_home? home
  have same := h.find?_of_at? hroot hu
  rw [found] at same
  cases same
  exact ⟨root, path, home, hroot, hu⟩

/-- A child is at home below its parent. -/
theorem WellFormed.home?_child (h : d.WellFormed) (found : d.find? id = some t) {c : Tree Entry}
    (hc : c ∈ t.children) :
    ∃ root path i, d.home? id = some (root, path) ∧ root.at? path = some t ∧
      d.home? c.label.id = some (root, path ++ [i]) := by
  obtain ⟨root, path, home, hroot, hat⟩ := h.exists_home? found
  obtain ⟨i, hi⟩ := List.mem_iff_getElem?.1 hc
  have child : root.at? (path ++ [i]) = some c := by
    rw [Tree.at?_append, hat, Option.bind_some, Tree.at?_cons, hi]
    rfl
  exact ⟨root, path, i, home, hat, h.home?_of_at? hroot child⟩

/-- **A node is the parent of its children, and of no other node.** -/
theorem WellFormed.parent?_eq_some_iff (h : d.WellFormed) {n p : NodeId} :
    d.parent? n = some p ↔ n ∈ d.children p := by
  constructor
  · intro parent
    rw [parent?] at parent
    split at parent
    · rename_i root path home
      obtain ⟨hroot, c, hc, rfl⟩ := at?_of_home? home
      split at parent
      · cases parent
      rename_i below
      have hne : path ≠ [] := fun hnil => below (by rw [hnil]; rfl)
      obtain ⟨t, ht, rfl⟩ := Option.map_eq_some_iff.1 parent
      rw [← List.dropLast_concat_getLast hne, Tree.at?_append, ht, Option.bind_some, Tree.at?_cons,
        Option.bind_eq_some_iff] at hc
      obtain ⟨c', hc', same⟩ := hc
      cases same
      rw [children, h.find?_of_at? hroot ht]
      exact List.mem_map_of_mem (List.mem_of_getElem? hc')
    · cases parent
  · intro child
    rw [children] at child
    split at child
    · rename_i t found
      obtain ⟨c, hc, rfl⟩ := List.mem_map.1 child
      obtain ⟨root, path, i, home, hat, below⟩ := h.home?_child found hc
      obtain ⟨-, u, hu, rfl⟩ := at?_of_home? home
      rw [parent?, below]
      simp only [List.isEmpty_iff, List.append_eq_nil_iff, List.cons_ne_nil, and_false, if_false,
        List.dropLast_concat, hu, Option.map_some]
    · cases child

/-- The way to a child passes a document node if the way to its parent does, or if the parent is
one. -/
theorem passesDocument_append {i : Nat} :
    ∀ {path : Path} {root : Tree Entry}, root.at? path = some t →
      ∀ c, t.children[i]? = some c →
        passesDocument (path ++ [i]) root = (t.label.data.isDocument || passesDocument path root)
  | [], root, hat, c, hc => by
    cases hat
    simp [passesDocument, hc]
  | j :: path, root, hat, c, hc => by
    rw [Tree.at?_cons, Option.bind_eq_some_iff] at hat
    obtain ⟨v, hv, hat⟩ := hat
    have ih := passesDocument_append hat c hc
    simp only [List.cons_append, passesDocument, hv, Option.map_some, Option.getD_some, ih]
    exact Bool.or_left_comm _ _ _

/-- **A child is attached if its parent is, or if its parent is a document node.** -/
theorem WellFormed.isAttached_child (h : d.WellFormed) (found : d.find? id = some t) {n : NodeId}
    (hn : n ∈ d.children id) :
    d.isAttached n = (t.label.data.isDocument || d.isAttached id) := by
  rw [children, found] at hn
  obtain ⟨c, hc, rfl⟩ := List.mem_map.1 hn
  obtain ⟨root, path, i, home, hat, below⟩ := h.home?_child found hc
  obtain ⟨-, v, hv, hid⟩ := at?_of_home? below
  rw [Tree.at?_append, hat, Option.bind_some, Tree.at?_cons, Option.bind_eq_some_iff] at hv
  obtain ⟨v, hv, -⟩ := hv
  rw [isAttached, isAttached, below, home]
  exact passesDocument_append hat v hv

/-- What has no parent is not attached. -/
theorem WellFormed.not_isAttached_of_parent? (h : d.WellFormed) (none : d.parent? id = none) :
    d.isAttached id = false := by
  refine Bool.eq_false_iff.2 fun attached => ?_
  obtain ⟨parent, -, -, -, -, there, -⟩ := h.exists_parent attached
  rw [none] at there
  cases there

end Document

end MarkupTemplate
