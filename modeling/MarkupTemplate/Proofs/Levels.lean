import MarkupTemplate.Document.Reading
import MarkupTemplate.Proofs.Identities
import MarkupTemplate.Proofs.Modes

/-!
# Pages read from text

The tree below a node is cut out of a construction by following the lists of children. No node is
met twice on the way: it has one parent, so it lies below one topmost node only, and at one level.

* `Construction.Below` — a node lies so many steps below another; `Construction.AtLevel` — below one
  that has no parent.
* `Construction.nodup_labels` — the trees of nodes on one level share no node, and none has a node
  twice.
* `Document.wellFormed_ofConstruction`, `Document.wellFormed_ofHtml` — the nodes of a page that was
  read have identities of their own.
-/

namespace MarkupTemplate

namespace Html.Construction

variable {s : Construction} {known : Known} {a b c n m j k d : Nat} {ns : List Nat}

/-- A node lies so many steps below another. -/
inductive Below (s : Construction) (a : Nat) : Nat → Nat → Prop where
  | self : Below s a 0 a
  | child {k p m : Nat} : Below s a k p → s.parentOf m = some p → Below s a (k + 1) m

theorem Below.trans (h : s.Below a j b) (h' : s.Below b k m) : s.Below a (j + k) m := by
  induction h' with
  | self => exact h
  | child _ hp ih => exact ih.child hp

theorem Below.unique (h : s.Below a k m) (h' : s.Below b k m) : a = b := by
  induction h with
  | self =>
    cases h'
    rfl
  | child _ hp ih =>
    cases h' with
    | child h' hp' =>
      rw [hp] at hp'
      cases hp'
      exact ih h'

/-- A node lies so many steps below a node without a parent. -/
def AtLevel (s : Construction) (j n : Nat) : Prop :=
  ∃ top, s.parentOf top = none ∧ s.Below top j n

theorem AtLevel.below (h : s.AtLevel j n) (h' : s.Below n k m) : s.AtLevel (j + k) m := by
  obtain ⟨top, htop, hn⟩ := h
  exact ⟨top, htop, hn.trans h'⟩

theorem AtLevel.unique (h : s.AtLevel j m) (h' : s.AtLevel k m) : j = k := by
  obtain ⟨top, htop, hm⟩ := h
  obtain ⟨top', htop', hm'⟩ := h'
  induction hm generalizing k with
  | self =>
    cases hm' with
    | self => rfl
    | child _ hp => simp [htop] at hp
  | child _ hp ih =>
    cases hm' with
    | self => simp [htop'] at hp
    | child hm' hp' =>
      rw [hp] at hp'
      cases hp'
      rw [ih hm']

/-! ## Trees -/

theorem label_treeTo (s : Construction) (d n : Nat) : (s.treeTo d n).label = n := by
  cases d <;> rfl

theorem labelsList_map_treeTo (s : Construction) (d : Nat) (ns : List Nat) :
    Tree.labelsList (ns.map (s.treeTo d)) = ns.flatMap fun n => (s.treeTo d n).labels := by
  induction ns with
  | nil => exact Tree.labelsList_nil
  | cons n ns ih => rw [List.map_cons, Tree.labelsList_cons, ih, List.flatMap_cons]

theorem below_of_mem_labels (h : s.Linked known) (hm : m ∈ (s.treeTo d n).labels) :
    ∃ k, s.Below n k m := by
  induction d generalizing n with
  | zero =>
    rw [treeTo, Tree.labels_node, Tree.labelsList_nil, List.mem_singleton] at hm
    exact ⟨0, hm ▸ .self⟩
  | succ d ih =>
    rw [treeTo, Tree.labels_node, labelsList_map_treeTo, List.mem_cons, List.mem_flatMap] at hm
    obtain rfl | ⟨c, hc, hm⟩ := hm
    · exact ⟨0, .self⟩
    · obtain ⟨k, hk⟩ := ih hm
      have hchild : s.Below n 1 c := .child .self (h.parent n c (Array.mem_toList_iff.1 hc))
      exact ⟨1 + k, hchild.trans hk⟩

/-- Of two nodes above a third one the farther is above the nearer. -/
theorem Below.of_farther (h : s.Below a (j + k) m) (h' : s.Below b k m) : s.Below a j b := by
  induction h' with
  | self => exact h
  | child _ hp ih =>
    cases h with
    | child h hp' =>
      rw [hp] at hp'
      cases hp'
      exact ih h

/-- Neither of two nodes is the other or below it. -/
def Apart (s : Construction) (a b : Nat) : Prop :=
  ∀ k, ¬ s.Below a k b ∧ ¬ s.Below b k a

/-- The trees of two nodes that are apart have no node in common. -/
theorem disjoint_labels (h : s.Linked known) (apart : s.Apart a b) :
    (s.treeTo d a).labels.Disjoint (s.treeTo d b).labels := by
  intro m hma hmb
  obtain ⟨k, hka⟩ := below_of_mem_labels h hma
  obtain ⟨k', hkb⟩ := below_of_mem_labels h hmb
  rcases Nat.le_total k k' with hle | hle
  · obtain ⟨j, rfl⟩ := Nat.exists_eq_add_of_le' hle
    exact (apart j).2 (hkb.of_farther hka)
  · obtain ⟨j, rfl⟩ := Nat.exists_eq_add_of_le' hle
    exact (apart j).1 (hka.of_farther hkb)

/-- Two nodes on one level are apart. -/
theorem AtLevel.apart (ha : s.AtLevel j a) (hb : s.AtLevel j b) (other : a ≠ b) :
    s.Apart a b := by
  have same : ∀ {a b k}, s.AtLevel j a → s.AtLevel j b → s.Below a k b → a = b := by
    intro a b k ha hb h
    obtain rfl : k = 0 := by
      have levels := (ha.below h).unique hb
      omega
    cases h
    rfl
  exact fun k => ⟨fun h => other (same ha hb h), fun h => other (same hb ha h).symm⟩

theorem AtLevel.child (h : s.Linked known) (hn : s.AtLevel j n) (hc : c ∈ s.childrenOf n) :
    s.AtLevel (j + 1) c :=
  hn.below (.child .self (h.parent n c hc))

theorem nodup_labels_treeTo (h : s.Linked known) (level : s.AtLevel j n) :
    (s.treeTo d n).labels.Nodup := by
  induction d generalizing j n with
  | zero =>
    rw [treeTo, Tree.labels_node, Tree.labelsList_nil]
    exact List.nodup_singleton n
  | succ d ih =>
    have children : ∀ c ∈ (s.childrenOf n).toList, s.AtLevel (j + 1) c := fun c hc =>
      level.child h (Array.mem_toList_iff.1 hc)
    rw [treeTo, Tree.labels_node, labelsList_map_treeTo, List.nodup_cons, List.nodup_flatMap]
    refine ⟨fun hmem => ?_, fun c hc => ih (children c hc), ?_⟩
    · obtain ⟨c, hc, hm⟩ := List.mem_flatMap.1 hmem
      obtain ⟨k, hk⟩ := below_of_mem_labels h hm
      have levels := ((children c hc).below hk).unique level
      omega
    · exact (h.distinct n).imp_of_mem fun ha hb other =>
        disjoint_labels h ((children _ ha).apart (children _ hb) other)

/-- The trees of nodes that are apart have no node in common, and none has a node twice. -/
theorem nodup_labels (h : s.Linked known) (level : ∀ n ∈ ns, ∃ j, s.AtLevel j n)
    (apart : ns.Pairwise s.Apart) : (Tree.labelsList (ns.map (s.treeTo d))).Nodup := by
  rw [labelsList_map_treeTo, List.nodup_flatMap]
  refine ⟨fun n hn => ?_, apart.imp fun h' => disjoint_labels h h'⟩
  obtain ⟨j, hj⟩ := level n hn
  exact nodup_labels_treeTo h hj

theorem lt_of_mem_labels (h : s.Linked known) (hn : n < s.nodes.size)
    (hm : m ∈ (s.treeTo d n).labels) : m < s.nodes.size := by
  obtain ⟨k, hk⟩ := below_of_mem_labels h hm
  cases hk with
  | self => exact hn
  | child _ hp => exact lt_of_parentOf hp

/-! ## Topmost nodes -/

variable {first : Nat}

/-- What is below a node that is none of the first ones is none of them either. -/
theorem Below.le (h : s.Linked known) (hfirst : first ≤ known.first) (ha : first ≤ a)
    (hm : s.Below a k m) : first ≤ m := by
  induction hm with
  | self => exact ha
  | child _ hp ih =>
    refine Nat.le_of_not_lt fun hlt => ?_
    have earlier := h.first _ _ (Nat.lt_of_lt_of_le hlt hfirst) hp
    omega

theorem exists_atLevel_of_lt (h : s.Linked known) (hn : n < known.first) :
    ∃ j, s.AtLevel j n := by
  induction n using Nat.strong_induction_on with
  | _ n ih =>
    cases hp : s.parentOf n with
    | none => exact ⟨0, n, hp, .self⟩
    | some p =>
      have earlier := h.first n p hn hp
      obtain ⟨j, hj⟩ := ih p earlier (Nat.lt_trans earlier hn)
      exact ⟨j + 1, hj.below (.child .self hp)⟩

theorem exists_atLevel (h : s.Linked known) (hfirst : first ≤ known.first)
    (top : ∀ p, s.parentOf n = some p → p < first) : ∃ j, s.AtLevel j n := by
  cases hp : s.parentOf n with
  | none => exact ⟨0, n, hp, .self⟩
  | some p =>
    obtain ⟨j, hj⟩ := exists_atLevel_of_lt h (Nat.lt_of_lt_of_le (top p hp) hfirst)
    exact ⟨j + 1, hj.below (.child .self hp)⟩

/-- Two nodes that hang on some of the first ones, or on none, are apart. -/
theorem apart_of_topmost (h : s.Linked known) (hfirst : first ≤ known.first) (ha : first ≤ a)
    (hb : first ≤ b) (topa : ∀ p, s.parentOf a = some p → p < first)
    (topb : ∀ p, s.parentOf b = some p → p < first) (other : a ≠ b) : s.Apart a b := by
  have above : ∀ {a b k}, first ≤ a → (∀ p, s.parentOf b = some p → p < first) →
      s.Below a k b → a = b := by
    intro a b k ha top hab
    cases hab with
    | self => rfl
    | child hab hp => exact absurd (top _ hp) (Nat.not_lt.2 (hab.le h hfirst ha))
  exact fun k => ⟨fun hab => other (above ha topb hab), fun hba => other (above hb topa hba).symm⟩

end Html.Construction

namespace Tree

variable {α β : Type}

mutual

theorem labels_map (f : α → β) : ∀ t : Tree α, (map f t).labels = t.labels.map f
  | .node a ts => by
    rw [map, labels_node, labels_node, labelsList_mapList f ts, List.map_cons]

theorem labelsList_mapList (f : α → β) :
    ∀ ts : List (Tree α), labelsList (mapList f ts) = (labelsList ts).map f
  | [] => by
    rw [mapList, labelsList_nil, labelsList_nil, List.map_nil]
  | t :: ts => by
    rw [mapList, labelsList_cons, labelsList_cons, labels_map f t, labelsList_mapList f ts,
      List.map_append]

end

end Tree

namespace Document

open Html (Construction)

variable {s : Construction} {ns : List Nat}

/-- The identities of nodes that were read are their numbers. -/
theorem ids_map_treeOf (s : Construction) (ns : List Nat) :
    ids (ns.map (treeOf s)) = Tree.labelsList (ns.map s.treeAt) := by
  induction ns with
  | nil => rw [List.map_nil, List.map_nil, ids_nil, Tree.labelsList_nil]
  | cons n ns ih =>
    rw [List.map_cons, List.map_cons, Tree.labelsList_cons, ← ih, ids, ids, Tree.labelsList_cons,
      List.map_append, treeOf, Tree.labels_map, List.map_map]
    exact congrArg (· ++ _) (List.map_id' _)

theorem of_mem_topmost {first n : Nat} (hn : n ∈ topmost s first) :
    n < s.nodes.size ∧ first ≤ n ∧ ∀ p, s.parentOf n = some p → p < first := by
  obtain ⟨hrange, htop⟩ := List.mem_filter.1 hn
  rw [Bool.and_eq_true, decide_eq_true_eq] at htop
  refine ⟨List.mem_range.1 hrange, htop.1, fun p hp => ?_⟩
  have below := htop.2
  rw [hp] at below
  exact of_decide_eq_true below

/-- The nodes that were made have identities of their own. -/
theorem wellFormed_ofConstruction (h : s.Linked ⟨1, fun _ => False⟩) :
    (ofConstruction s).WellFormed := by
  let tops := Html.documentNode :: (topmost s 0).filter fun n => n != Html.documentNode
  have hids : ids ((ofConstruction s).tree :: (ofConstruction s).strays) =
      Tree.labelsList (tops.map s.treeAt) := by
    rw [← ids_map_treeOf, List.map_cons]
    rfl
  have htops : ∀ n ∈ tops, n < s.nodes.size ∧ ∀ p, s.parentOf n = some p → p < 0 := by
    refine List.forall_mem_cons.2 ⟨⟨h.size, fun p hp => h.first 0 p Nat.zero_lt_one hp⟩, ?_⟩
    intro n hn
    obtain ⟨hsize, -, htop⟩ := of_mem_topmost (List.mem_of_mem_filter hn)
    exact ⟨hsize, htop⟩
  have distinct : tops.Nodup := by
    refine List.nodup_cons.2 ⟨fun hmem => ?_, (List.nodup_range.filter _).filter _⟩
    exact absurd rfl (bne_iff_ne.1 (List.mem_filter.1 hmem).2)
  have apart : tops.Pairwise s.Apart := distinct.imp_of_mem fun ha hb other =>
    Construction.apart_of_topmost h (Nat.zero_le _) (Nat.zero_le _) (Nat.zero_le _) (htops _ ha).2
      (htops _ hb).2 other
  constructor
  · rw [hids]
    exact Construction.nodup_labels h
      (fun n hn => Construction.exists_atLevel h (Nat.zero_le _) (htops n hn).2) apart
  · rw [hids, show s.treeAt = s.treeTo s.nodes.size from rfl, Construction.labelsList_map_treeTo]
    intro id hid
    obtain ⟨n, hn, hid⟩ := List.mem_flatMap.1 hid
    exact Construction.lt_of_mem_labels h (htops n hn).1 hid

/-- The root of a page that was read is a document node. -/
theorem root_ofHtml (text : String) : (ofHtml text).tree.label.data = .document := by
  have rooted := (Construction.linked_ofDocument text).rooted
  obtain ⟨node, hnode, hdata⟩ := Option.map_eq_some_iff.1 rooted
  change (treeOf (.ofDocument text) Html.documentNode).label.data = .document
  rw [treeOf, Tree.label_map, Construction.treeAt, Construction.label_treeTo, entryOf,
    Construction.dataOf, hnode]
  exact hdata

/-- **The nodes of every page that is read** have identities of their own. -/
theorem wellFormed_ofHtml (text : String) : (ofHtml text).WellFormed :=
  wellFormed_ofConstruction (Construction.linked_ofDocument text)

end Document

end MarkupTemplate
