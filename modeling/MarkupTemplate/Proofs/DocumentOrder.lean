import Mathlib
import MarkupTemplate.XPath.Place

/-!
# Document order

The nodes of a document form one list: an element, its attributes, and then what is below it. A
list of nodes is in document order and free of repetitions exactly when it is a sublist of it.

* `Tree.mem_paths_iff`, `Tree.pairwise_paths` — `Tree.paths` lists the paths of a tree in
  ascending lexicographic order.
* `Scope.documentOrder` — the nodes of a document; `Node.Before` — the strict order they are in.
* `sublist_documentOrder_iff` — sublists of it are the lists that ascend and stay inside.
* `inOrder_sublist` — sorting gives such a list; `inOrder_eq_self` — and keeps one.
-/

namespace MarkupTemplate

/-! ## The paths of a tree -/

namespace Tree

variable {α : Type}

/-- The subtree at a path is that of the rest of the path below its first step. -/
theorem at?_cons (i : Nat) (p : Path) (t : Tree α) :
    at? (i :: p) t = t.children[i]?.bind (at? p) := by
  rw [at?]
  cases t.children[i]? <;> rfl

/-- Going down a path in two parts. -/
theorem at?_append (p q : Path) (t : Tree α) : at? (p ++ q) t = (at? p t).bind (at? q) := by
  induction p generalizing t with
  | nil => rfl
  | cons i p ih =>
    rw [List.cons_append, at?_cons, at?_cons]
    cases t.children[i]? with
    | none => rfl
    | some c => exact ih c

mutual

/-- The paths of a tree are those that lead to a subtree. -/
theorem mem_paths_iff (p : Path) : ∀ t : Tree α, p ∈ t.paths ↔ (at? p t).isSome
  | .node a ts => by
    cases p with
    | nil => simp [paths, at?]
    | cons i p =>
      rw [paths, List.mem_cons, mem_pathsList_iff i p 0 ts, at?_cons]
      simp [children]

/-- The paths in a run of siblings lead to a subtree of one of them. -/
theorem mem_pathsList_iff (i : Nat) (p : Path) : ∀ (k : Nat) (ts : List (Tree α)),
    (i :: p) ∈ pathsList k ts ↔ k ≤ i ∧ (ts[i - k]?.bind (at? p)).isSome
  | k, [] => by simp [pathsList]
  | k, t :: ts => by
    rw [pathsList, List.mem_append, mem_pathsList_iff i p (k + 1) ts]
    by_cases hi : i = k
    · subst hi
      simp [mem_paths_iff p t]
    · constructor
      · rintro (h | ⟨h, h'⟩)
        · simp [Ne.symm hi] at h
        · have e : i - k = (i - (k + 1)) + 1 := by omega
          exact ⟨by omega, by rw [e, List.getElem?_cons_succ]; exact h'⟩
      · rintro ⟨h, h'⟩
        have e : i - k = (i - (k + 1)) + 1 := by omega
        rw [e, List.getElem?_cons_succ] at h'
        exact .inr ⟨by omega, h'⟩

end

/-- Every path in a run of siblings starts with the index of one of them. -/
theorem exists_cons_of_mem_pathsList {q : Path} : ∀ {k : Nat} {ts : List (Tree α)},
    q ∈ pathsList k ts → ∃ i p, k ≤ i ∧ q = i :: p
  | _, [], h => by simp [pathsList] at h
  | k, t :: ts, h => by
    rw [pathsList, List.mem_append, List.mem_map] at h
    rcases h with ⟨p, -, rfl⟩ | h
    · exact ⟨k, p, Nat.le_refl k, rfl⟩
    · obtain ⟨i, p, hi, rfl⟩ := exists_cons_of_mem_pathsList h
      exact ⟨i, p, by omega, rfl⟩

mutual

/-- The paths of a tree ascend. -/
theorem pairwise_paths : ∀ t : Tree α, t.paths.Pairwise (· < ·)
  | .node a ts => by
    rw [paths, List.pairwise_cons]
    refine ⟨fun q hq => ?_, pairwise_pathsList 0 ts⟩
    obtain ⟨i, p, -, rfl⟩ := exists_cons_of_mem_pathsList hq
    exact List.nil_lt_cons i p

/-- The paths in a run of siblings ascend. -/
theorem pairwise_pathsList : ∀ (k : Nat) (ts : List (Tree α)), (pathsList k ts).Pairwise (· < ·)
  | k, [] => by simp [pathsList]
  | k, t :: ts => by
    rw [pathsList, List.pairwise_append]
    refine ⟨?_, pairwise_pathsList (k + 1) ts, ?_⟩
    · rw [List.pairwise_map]
      exact (pairwise_paths t).imp fun h => List.cons_lt_cons_iff.2 (.inr ⟨rfl, h⟩)
    · intro q hq r hr
      obtain ⟨p, -, rfl⟩ := List.mem_map.1 hq
      obtain ⟨i, p', hi, rfl⟩ := exists_cons_of_mem_pathsList hr
      exact List.cons_lt_cons_iff.2 (.inl (by omega))

end

end Tree

namespace XPath

/-! ## The nodes of a document -/

/-- A node and its attributes in order. -/
def Scope.ownNodes (s : Scope) (p : Place) : List Node :=
  .tree p :: (List.range (s.attributes p).length).map (.attribute p)

/-- All nodes of the document, each once: a node, its attributes, and then what is below it. -/
def Scope.documentOrder (s : Scope) : List Node :=
  (s.preorder .root).flatMap s.ownNodes

/-- The strict order that the nodes of a document are in. -/
def Node.Before (a b : Node) : Prop :=
  a.place.path < b.place.path ∨ a.place.path = b.place.path ∧ a.slot < b.slot

namespace Node.Before

variable {a b c : Node}

theorem irrefl (a : Node) : ¬ a.Before a := by
  rintro (h | ⟨-, h⟩)
  · exact List.lt_irrefl _ h
  · exact Nat.lt_irrefl _ h

theorem trans (hab : a.Before b) (hbc : b.Before c) : a.Before c := by
  rcases hab with hab | ⟨eab, hab⟩ <;> rcases hbc with hbc | ⟨ebc, hbc⟩
  · exact .inl (List.lt_trans hab hbc)
  · exact .inl (ebc ▸ hab)
  · exact .inl (eab ▸ hbc)
  · exact .inr ⟨eab.trans ebc, Nat.lt_trans hab hbc⟩

theorem asymm (hab : a.Before b) : ¬ b.Before a :=
  fun hba => irrefl a (hab.trans hba)

end Node.Before

/-- The place of a node and its rank there are all there is to a node. -/
theorem Node.ext_place_slot {a b : Node} (hp : a.place = b.place) (hs : a.slot = b.slot) :
    a = b := by
  cases a <;> cases b <;> simp_all [Node.place, Node.slot]

theorem Scope.mem_preorder_root {s : Scope} {p : Place} :
    p ∈ s.preorder .root ↔ p.astray = false ∧ (s.at? p).isSome := by
  have hat : s.at? .root = some s.document := rfl
  simp only [Scope.preorder, hat, List.mem_map, Tree.mem_paths_iff]
  constructor
  · rintro ⟨q, hq, rfl⟩
    exact ⟨rfl, by simpa [Scope.at?, Place.root] using hq⟩
  · rintro ⟨ha, hp⟩
    obtain ⟨astray, path⟩ := p
    subst ha
    exact ⟨path, by simpa [Scope.at?] using hp, rfl⟩

/-- A tree node belongs to the document if its path leads somewhere. -/
theorem Scope.mem_documentOrder_tree {s : Scope} {p : Place} :
    .tree p ∈ s.documentOrder ↔ p.astray = false ∧ (s.at? p).isSome := by
  simp [Scope.documentOrder, Scope.ownNodes, Scope.mem_preorder_root]

/-- An attribute belongs to the document if it is one of its owner's, which belongs to it. -/
theorem Scope.mem_documentOrder_attribute {s : Scope} {p : Place} {i : Nat} :
    .attribute p i ∈ s.documentOrder ↔
      .tree p ∈ s.documentOrder ∧ i < (s.attributes p).length := by
  rw [Scope.mem_documentOrder_tree]
  simp only [Scope.documentOrder, Scope.ownNodes, List.mem_flatMap, List.mem_cons, List.mem_map,
    List.mem_range, Scope.mem_preorder_root, reduceCtorEq, false_or, Node.attribute.injEq]
  constructor
  · rintro ⟨q, hq, j, hj, rfl, rfl⟩
    exact ⟨hq, hj⟩
  · rintro ⟨hq, hj⟩
    exact ⟨p, hq, i, hj, rfl, rfl⟩

/-- The nodes of the document are nowhere else. -/
theorem Scope.astray_of_mem {s : Scope} {n : Node} (h : n ∈ s.documentOrder) :
    n.place.astray = false := by
  rcases n with p | ⟨p, i⟩
  · exact (Scope.mem_documentOrder_tree.1 h).1
  · exact (Scope.mem_documentOrder_tree.1 (Scope.mem_documentOrder_attribute.1 h).1).1

/-- A node and its attributes are in order. -/
theorem Scope.pairwise_ownNodes (s : Scope) (p : Place) :
    (s.ownNodes p).Pairwise Node.Before := by
  rw [Scope.ownNodes, List.pairwise_cons]
  constructor
  · intro n hn
    obtain ⟨i, -, rfl⟩ := List.mem_map.1 hn
    exact .inr ⟨rfl, Nat.succ_pos i⟩
  · rw [List.pairwise_map]
    exact List.pairwise_lt_range.imp fun h => .inr ⟨rfl, Nat.succ_lt_succ h⟩

/-- Ascending lists of places, each replaced by the nodes there, are in order. -/
theorem Scope.pairwise_flatMap_ownNodes (s : Scope) {ps : List Place}
    (h : ps.Pairwise fun p q => p.path < q.path) :
    (ps.flatMap s.ownNodes).Pairwise Node.Before := by
  rw [List.pairwise_flatMap]
  refine ⟨fun p _ => s.pairwise_ownNodes p, h.imp fun {p q} hpq => ?_⟩
  have hplace : ∀ r, ∀ n ∈ s.ownNodes r, n.place = r := by
    intro r n hn
    rcases List.mem_cons.1 hn with rfl | hn
    · rfl
    · obtain ⟨i, -, rfl⟩ := List.mem_map.1 hn
      rfl
  intro m hm n hn
  exact .inl (by rw [hplace p m hm, hplace q n hn]; exact hpq)

/-- A node and all below it ascend. -/
theorem Scope.pairwise_preorder (s : Scope) (p : Place) :
    (s.preorder p).Pairwise fun q r => q.path < r.path := by
  rw [Scope.preorder]
  split
  · rename_i t _
    rw [List.pairwise_map]
    exact (Tree.pairwise_paths t).imp fun h => List.append_left_lt h
  · exact .nil

/-- The nodes of a document are in order. -/
theorem Scope.pairwise_documentOrder (s : Scope) : s.documentOrder.Pairwise Node.Before :=
  s.pairwise_flatMap_ownNodes (s.pairwise_preorder .root)

/-- No node occurs twice in document order. -/
theorem Scope.nodup_documentOrder (s : Scope) : s.documentOrder.Nodup :=
  s.pairwise_documentOrder.imp fun h => by
    rintro rfl
    exact h.irrefl

/-- A list of nodes is a sublist of the document exactly when it ascends and stays inside. -/
theorem sublist_documentOrder_iff {s : Scope} {ns : List Node} :
    ns.Sublist s.documentOrder ↔
      ns.Pairwise Node.Before ∧ ∀ n ∈ ns, n ∈ s.documentOrder := by
  refine ⟨fun h => ⟨s.pairwise_documentOrder.sublist h, fun n hn => h.subset hn⟩, ?_⟩
  rintro ⟨hp, hm⟩
  have hnodup : ns.Nodup := hp.imp fun h => by
    rintro rfl
    exact h.irrefl
  have : Std.Antisymm Node.Before := ⟨fun _ _ hab hba => absurd hba hab.asymm⟩
  exact List.sublist_of_subperm_of_pairwise (List.subperm_of_subset hnodup hm) hp
    s.pairwise_documentOrder

/-! ## Sorting -/

namespace Node

variable {a b c : Node}

/-- Inside of the document one node is not after another exactly when they are in order or the
same. -/
theorem le_iff (ha : a.place.astray = false) (hb : b.place.astray = false) :
    le a b = true ↔ a.Before b ∨ a = b := by
  unfold le Before
  rw [ha, hb]
  simp only
  split
  · rename_i hp
    have hplace : a.place = b.place := by
      cases hap : a.place; cases hbp : b.place
      simp_all
    constructor
    · intro h
      rcases Nat.lt_or_eq_of_le (by simpa using h) with h | h
      · exact .inl (.inr ⟨hp, h⟩)
      · exact .inr (ext_place_slot hplace h)
    · rintro ((h | ⟨-, h⟩) | rfl)
      · exact absurd (hp ▸ h) (List.lt_irrefl _)
      · simpa using Nat.le_of_lt h
      · simp
  · rename_i hp
    simp only [decide_eq_true_eq]
    constructor
    · exact fun h => .inl (.inl h)
    · rintro ((h | ⟨h, -⟩) | rfl)
      · exact h
      · exact absurd h hp
      · exact absurd rfl hp

theorem le_total (a b : Node) : (le a b || le b a) = true := by
  unfold le
  cases a.place.astray <;> cases b.place.astray <;> simp only [Bool.or_true, Bool.true_or]
  · by_cases h : a.place.path = b.place.path
    · simp [h, Nat.le_total]
    · simp only [h, Ne.symm h, if_false, Bool.or_eq_true, decide_eq_true_eq]
      exact lt_or_gt_of_ne h
  · simp [Nat.le_total]

theorem le_trans (hab : le a b = true) (hbc : le b c = true) : le a c = true := by
  unfold le at *
  cases ha : a.place.astray <;> cases hb : b.place.astray <;> cases hc : c.place.astray <;>
    simp only [ha, hb, hc, Bool.false_eq_true] at hab hbc ⊢
  · by_cases h₁ : a.place.path = b.place.path <;> by_cases h₂ : b.place.path = c.place.path
    · simp only [h₁, h₂, if_true, decide_eq_true_eq] at hab hbc ⊢
      omega
    · simp only [h₁, h₂, if_false] at hbc ⊢
      exact hbc
    · simp only [h₁, ← h₂, if_false] at hab ⊢
      exact hab
    · simp only [h₁, h₂, if_false, decide_eq_true_eq] at hab hbc
      have h := List.lt_trans hab hbc
      have hne : a.place.path ≠ c.place.path := by
        intro e
        exact List.lt_irrefl _ (e ▸ h)
      simp [hne, h]
  · simp only [decide_eq_true_eq] at hab hbc ⊢
    omega

end Node

theorem mem_distinct {n : Node} : ∀ {ns : List Node}, n ∈ distinct ns ↔ n ∈ ns
  | [] => by simp [distinct]
  | a :: rest => by
    have ih := @mem_distinct n rest
    rw [distinct]
    split
    · rename_i h
      rw [h] at ih
      simp [← ih]
    · rename_i b kept h
      rw [h] at ih
      split
      · rename_i hab
        subst hab
        rw [List.mem_cons (l := rest), ← ih]
        simp
      · rw [List.mem_cons, ih, List.mem_cons]

/-- Dropping repetitions from a sorted list leaves it strictly ascending. -/
theorem pairwise_distinct : ∀ {ns : List Node}, (∀ n ∈ ns, n.place.astray = false) →
    (ns.Pairwise fun a b => Node.le a b = true) → (distinct ns).Pairwise Node.Before
  | [], _, _ => .nil
  | a :: rest, hin, h => by
    rw [List.pairwise_cons] at h
    have ih := pairwise_distinct (fun n hn => hin n (List.mem_cons_of_mem _ hn)) h.2
    rw [distinct]
    split
    · exact List.pairwise_singleton _ _
    · rename_i b kept hd
      rw [hd] at ih
      split
      · exact ih
      · rename_i hab
        rw [List.pairwise_cons]
        refine ⟨fun n hn => ?_, ih⟩
        have hmem : ∀ m ∈ b :: kept, m ∈ rest := fun m hm => mem_distinct.1 (hd ▸ hm)
        have hle : ∀ m ∈ b :: kept, a.Before m ∨ a = m := fun m hm =>
          (Node.le_iff (hin a List.mem_cons_self) (hin m (List.mem_cons_of_mem _ (hmem m hm)))).1
            (h.1 m (hmem m hm))
        have hb : a.Before b := (hle b List.mem_cons_self).resolve_right hab
        rcases List.mem_cons.1 hn with rfl | hn
        · exact hb
        · exact hb.trans ((List.pairwise_cons.1 ih).1 n hn)

theorem mem_inOrder {n : Node} {ns : List Node} : n ∈ inOrder ns ↔ n ∈ ns := by
  rw [inOrder, mem_distinct, List.mem_mergeSort]

/-- **Sorting nodes of the document gives a sublist of document order.** -/
theorem inOrder_sublist {s : Scope} {ns : List Node} (h : ∀ n ∈ ns, n ∈ s.documentOrder) :
    (inOrder ns).Sublist s.documentOrder := by
  refine sublist_documentOrder_iff.2 ⟨?_, fun n hn => h n (mem_inOrder.1 hn)⟩
  refine pairwise_distinct (fun n hn => ?_) ?_
  · exact Scope.astray_of_mem (h n (List.mem_mergeSort.1 hn))
  · exact @List.pairwise_mergeSort _ Node.le (fun _ _ _ => Node.le_trans) Node.le_total ns

/-- Two lists in document order with the same nodes are equal. -/
theorem eq_of_sublist_documentOrder {s : Scope} {ms ns : List Node}
    (hm : ms.Sublist s.documentOrder) (hn : ns.Sublist s.documentOrder)
    (h : ∀ n, n ∈ ms ↔ n ∈ ns) : ms = ns := by
  have antisymm : Std.Antisymm Node.Before := ⟨fun _ _ hab hba => absurd hba hab.asymm⟩
  have hmp := sublist_documentOrder_iff.1 hm
  have hnp := sublist_documentOrder_iff.1 hn
  have hperm : ms.Perm ns :=
    (List.perm_ext_iff_of_nodup (s.nodup_documentOrder.sublist hm)
      (s.nodup_documentOrder.sublist hn)).2 h
  exact hperm.eq_of_pairwise (fun _ _ _ _ hab hba => absurd hba hab.asymm) hmp.1 hnp.1

/-- Sorting does nothing to a list that is in document order. -/
theorem inOrder_eq_self {s : Scope} {ns : List Node} (h : ns.Sublist s.documentOrder) :
    inOrder ns = ns :=
  eq_of_sublist_documentOrder (inOrder_sublist fun _ hn => h.subset hn) h fun _ => mem_inOrder

end XPath

end MarkupTemplate
