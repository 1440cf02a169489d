import MarkupTemplate.Proofs.Formulas

/-!
# Positions among siblings

A position is found in two ways: as the position in the list of nodes that a step finds, and by
counting the siblings on either side. Both find the same elements.

* `Scope.children_eq` — the children of a node around one of them.
* `isAt` — whether the siblings that are counted put a node at a position.
* `narrow_listPosition` — the predicate on the children that a step finds.
* `siblingPositionExpr_decides` — the predicate on a node itself.
-/

namespace MarkupTemplate.XPath

open Css

variable {s : Scope} {f : Focus} {p q : Place} {ps : List Place} {ns : List Node} {e : Expr}
  {test : Place → Bool}

/-! ## Sorting -/

theorem distinct_eq_self : ∀ {ns : List Node}, ns.Nodup → distinct ns = ns
  | [], _ => by rw [distinct]
  | [n], _ => by rw [distinct, distinct]
  | n :: m :: ns, h => by
    have ih := distinct_eq_self h.of_cons
    have hne : n ≠ m := by
      rintro rfl
      exact (List.nodup_cons.1 h).1 List.mem_cons_self
    rw [distinct, ih]
    exact if_neg hne

/-- Nothing is lost when different nodes are sorted. -/
theorem length_inOrder (h : ns.Nodup) : (inOrder ns).length = ns.length := by
  have hperm := List.mergeSort_perm ns Node.le
  rw [inOrder, distinct_eq_self (hperm.nodup_iff.2 h), hperm.length_eq]

/-! ## Siblings -/

theorem Scope.children_eq (h : q ∈ s.children p) :
    s.children p = q.earlierSiblings.reverse ++ q :: s.laterSiblings q := by
  obtain ⟨i, hi, rfl⟩ := List.mem_map.1 h
  rw [List.mem_range] at hi
  have hlength : i < (s.children p).length := by simpa [Scope.children] using hi
  have hearlier : (p.child i).earlierSiblings.reverse = (s.children p).take i := by
    simp only [Place.earlierSiblings, Place.child, List.getLast?_concat, List.dropLast_concat,
      Scope.children, ← List.map_reverse, List.reverse_reverse, ← List.map_take, List.take_range,
      Nat.min_eq_left (Nat.le_of_lt hi)]
    rfl
  have hlater : s.laterSiblings (p.child i) = (s.children p).drop (i + 1) := by
    simp only [Scope.laterSiblings, Place.child, List.getLast?_concat, List.dropLast_concat]
  have hget : (s.children p)[i] = p.child i := by simp [Scope.children]
  rw [hearlier, hlater, ← hget, List.getElem_cons_drop, List.take_append_drop]

theorem Scope.nodup_children (s : Scope) (p : Place) : (s.children p).Nodup := by
  refine (s.pairwise_children p).imp fun {x y} hxy => ?_
  rintro rfl
  exact absurd hxy (lt_irrefl _)

/-- The siblings that pass a test, in the list of the children that pass it. -/
theorem length_filter_children {before after : List Place} (hp : q ∈ s.children p)
    (h : (s.children p).filter test = before ++ q :: after) :
    before.length = q.earlierSiblings.countP test ∧
      after.length = (s.laterSiblings q).countP test := by
  have hnodup := s.nodup_children p
  have hq : test q = true := List.of_mem_filter (h ▸ List.mem_append_cons_self)
  have hsplit : (s.children p).filter test =
      q.earlierSiblings.reverse.filter test ++ q :: (s.laterSiblings q).filter test := by
    rw [Scope.children_eq hp, List.filter_append, List.filter_cons_of_pos hq]
  have hunique : (before ++ q :: after).Nodup := h ▸ hnodup.filter test
  rw [List.nodup_middle, List.nodup_cons, List.mem_append, not_or] at hunique
  obtain ⟨hbefore, -, hafter⟩ := (List.append_cons_inj_of_notMem hunique.1.1 hunique.1.2).1
    (h.symm.trans hsplit)
  rw [hbefore, hafter, ← List.countP_eq_length_filter, ← List.countP_eq_length_filter,
    List.countP_reverse]
  exact ⟨rfl, rfl⟩

/-! ## Lists of children -/

/-- A predicate leaves the nodes that it picks, each at its position in the list. -/
theorem keep_split {holds : Nat → Node → Except Fault Bool} {fit : Place → Bool} :
    ∀ done todo : List Place,
      (∀ before p after, done ++ todo = before ++ p :: after →
        holds (before.length + 1) (.tree p) = .ok (fit p)) →
      keep holds (done.length + 1) (todo.map .tree) = .ok ((todo.filter fit).map .tree)
  | _, [], _ => rfl
  | done, p :: todo, h => by
    have hp := h done p todo rfl
    have ih := keep_split (done ++ [p]) todo fun before q after hsplit =>
      h before q after (by rw [← hsplit, List.append_assoc, List.singleton_append])
    rw [List.length_append, List.length_singleton] at ih
    rw [List.map_cons, keep, hp, ok_bind, ih, ok_bind, List.filter_cons]
    cases fit p <;> rfl

theorem narrow_picks {fit : Place → Bool} (h : ∀ before p after, ps = before ++ p :: after →
      Picks ⟨f.scope, .tree p, before.length + 1, ps.length⟩ e (fit p = true)) :
    narrow f (ps.map .tree) [e] = .ok ((ps.filter fit).map .tree) := by
  have hkeep : keep (fun i n => do
      let v ← evaluate ⟨f.scope, n, i, (ps.map Node.tree).length⟩ e
      return holdsAt i v) 1 (ps.map .tree) = .ok ((ps.filter fit).map .tree) := by
    refine keep_split [] ps fun before p after hsplit => ?_
    obtain ⟨v, hv, hfit⟩ := h before p after hsplit
    rw [List.length_map, hv, ok_bind]
    exact congrArg Except.ok (Bool.eq_iff_iff.2 hfit)
  rw [narrow, hkeep, ok_bind, narrow]

end MarkupTemplate.XPath

namespace MarkupTemplate.Css

open XPath

variable {s : Scope} {f : Focus} {p q : Place} {test : Place → Bool} {type : String}

/-- The siblings that are counted put the node at a position. -/
def isAt (s : Scope) (counted : Place → Bool) (p : Place) (nth : Nth) : Bool :=
  nth.Admits (p.earlierSiblings.countP counted) ((s.laterSiblings p).countP counted)

/-- No node has more elements for its children than positions can be calculated with. -/
def HasFewSiblings (s : Scope) : Prop :=
  ∀ p, (s.children p).countP (isElement s) ≤ 2 ^ 52

/-- **Of the children that pass a test, the predicate leaves those at the positions.** -/
theorem narrow_listPosition {positions : List Nth} (hne : positions ≠ [])
    (hsmall : ∀ nth ∈ positions, nth.IsSmall) (hfew : (s.children p).countP test ≤ 2 ^ 52) :
    narrow f (((s.children p).filter test).map .tree) [listPositionExpr positions] =
      .ok ((((s.children p).filter test).filter fun q =>
        positions.all (isAt s test q)).map .tree) := by
  refine narrow_picks fun before q after hsplit => ?_
  have hq : q ∈ s.children p := List.mem_of_mem_filter (hsplit ▸ List.mem_append_cons_self)
  obtain ⟨hbefore, hafter⟩ := length_filter_children hq hsplit
  have hlength := congrArg List.length hsplit
  rw [← List.countP_eq_length_filter, List.length_append, List.length_cons] at hlength
  have hsize : ((s.children p).filter test).length = before.length + after.length + 1 := by
    rw [hsplit, List.length_append, List.length_cons, Nat.add_assoc]
  have hpicks : Picks ⟨f.scope, .tree q, before.length + 1, ((s.children p).filter test).length⟩
      (listPositionExpr positions)
      (∀ nth ∈ positions, nth.Admits before.length after.length) :=
    listPositionExpr_picks hne hsmall (by omega) rfl hsize
  refine hpicks.congr ?_
  rw [List.all_eq_true, hbefore, hafter]
  simp only [isAt, decide_eq_true_eq]

/-! ## Counted siblings -/

/-- There is an element of a type at a place, or of any type for the star. -/
def isOfType (s : Scope) (type : String) (p : Place) : Bool :=
  isElement s p && (type = "*" || Scope.sameName (s.name (.tree p)) type)

theorem passes_type {a : Axis} (ha : a ≠ .attribute) (hq : q.path ≠ []) :
    s.passes a (typeTest type) (.tree q) = isOfType s type q := by
  rw [isOfType, typeTest]
  by_cases htype : type = "*"
  · rw [if_pos htype, passes_any ha hq, decide_eq_true htype, Bool.true_or, Bool.and_true]
  · rw [if_neg htype, ← passes_any ha hq, decide_eq_false htype, Bool.false_or]
    rfl

/-- A path to siblings finds those of the type, on either side. -/
theorem axisPath_nodes {a : Axis} {on : List Place} (ha : a ≠ .attribute)
    (hon : s.treeAxis p a = on.map .tree) (hnodup : on.Nodup) (hne : ∀ q ∈ on, q.path ≠ []) :
    ∃ ns, (∀ i k, evaluate ⟨s, .tree p, i, k⟩ (axisPath a type) = .ok (.nodes ns)) ∧
      ns.length = on.countP (isOfType s type) := by
  have hfilter : (on.map Node.tree).filter (s.passes a (typeTest type)) =
      (on.filter (isOfType s type)).map .tree := by
    rw [List.filter_map]
    exact congrArg (List.map _) (List.filter_congr fun q hq => passes_type ha (hne q hq))
  have hdifferent : ((on.filter (isOfType s type)).map Node.tree).Nodup :=
    (hnodup.filter _).map fun p q h => Node.tree.inj h
  refine ⟨if a.isReverse then inOrder ((on.filter (isOfType s type)).map .tree)
    else (on.filter (isOfType s type)).map .tree, fun i k => ?_, ?_⟩
  · have hstep : stepAt ⟨s, .tree p, i, k⟩ a (typeTest type) [] (.tree p) =
        .ok ((on.filter (isOfType s type)).map .tree) := by
      rw [stepAt, narrow, ← hfilter, ← hon]
      rfl
    rw [axisPath, evaluate, evaluateStart, ok_bind, walk, stepFrom_eq, gather_singleton, hstep]
    simp only [Except.map, List.length_singleton, Nat.lt_irrefl, decide_false, Bool.false_or]
    rw [ok_bind, walk]
    rfl
  · rw [List.countP_eq_length_filter]
    split
    · rw [length_inOrder hdifferent, List.length_map]
    · rw [List.length_map]

theorem nodup_of_precedes {ps : List Place} (h : ps.Pairwise Place.Precedes) : ps.Nodup :=
  h.imp fun {x y} hxy => by
    rintro rfl
    exact Place.Precedes.irrefl _ hxy

theorem precedingSiblings_nodes (s : Scope) (p : Place) (type : String) :
    ∃ ns, (∀ i k, evaluate ⟨s, .tree p, i, k⟩ (axisPath .precedingSibling type) = .ok (.nodes ns)) ∧
      ns.length = p.earlierSiblings.countP (isOfType s type) := by
  refine axisPath_nodes (by decide) rfl ?_ fun q hq => ?_
  · rw [← List.nodup_reverse]
    refine nodup_of_precedes ?_
    rw [List.pairwise_reverse]
    exact p.precedes_earlierSiblings
  · obtain ⟨a, path, i, j, -, rfl, -⟩ := Place.mem_earlierSiblings_iff.1 hq
    simp

theorem followingSiblings_nodes (s : Scope) (p : Place) (type : String) :
    ∃ ns, (∀ i k, evaluate ⟨s, .tree p, i, k⟩ (axisPath .followingSibling type) = .ok (.nodes ns)) ∧
      ns.length = (s.laterSiblings p).countP (isOfType s type) :=
  axisPath_nodes (by decide) rfl (nodup_of_precedes (s.precedes_laterSiblings p))
    fun _ => path_ne_nil_of_mem_laterSiblings

/-- That no nodes are found says that there are none. -/
theorem not_sayNone {f : Focus} {e : Expr} {ns : List Node} (h : evaluate f e = .ok (.nodes ns)) :
    Says f (.call "not" [e]) (ns.length = 0) := by
  have hfind : Function.find "not" [e].length = .ok (.truth "not" Bool.not) := by rfl
  refine ⟨ns.isEmpty, ?_, by rw [List.isEmpty_iff_length_eq_zero]⟩
  rw [evaluate_call hfind (evaluateAll_cons h evaluateAll_nil)]
  change Except.ok (Value.atom (.boolean (!!ns.isEmpty))) = _
  rw [Bool.not_not]

theorem yields_count {f : Focus} {e : Expr} {ns : List Node} (h : evaluate f e = .ok (.nodes ns))
    (hsmall : ns.length < 2 ^ 53) : Yields f (.call "count" [e]) ns.length :=
  ⟨_, evaluate_count h, Number.isWhole_ofNat hsmall⟩

theorem siblingConjuncts_ne_nil (type : String) (nth : Nth) : siblingConjuncts type nth ≠ [] := by
  cases nth with
  | first | last => exact List.cons_ne_nil _ _
  | formula step offset =>
    unfold siblingConjuncts
    exact nthConjuncts_ne_nil _ _ _

/-- The conditions for a position among siblings say that the siblings put the node there. -/
theorem siblingConjuncts_sayAll (nth : Nth) (hsmall : nth.IsSmall)
    (hfew : p.earlierSiblings.countP (isOfType s type) +
      (s.laterSiblings p).countP (isOfType s type) < 2 ^ 52) (i k : Nat) :
    SayAll ⟨s, .tree p, i, k⟩ (siblingConjuncts type nth)
      (isAt s (isOfType s type) p nth = true) := by
  obtain ⟨ns, hns, hbefore⟩ := precedingSiblings_nodes s p type
  obtain ⟨ms, hms, hafter⟩ := followingSiblings_nodes s p type
  rw [isAt, decide_eq_true_eq, ← hbefore, ← hafter]
  rw [← hbefore, ← hafter] at hfew
  have hns := hns i k
  have hms := hms i k
  generalize hf : (⟨s, .tree p, i, k⟩ : Focus) = f at *
  cases nth with
  | first => exact (not_sayNone hns).all
  | last => exact (not_sayNone hms).all
  | formula step offset =>
    have hone := yields_natExpr f (n := 1) (by decide)
    have hcount := yields_count hns (by omega)
    have hcount' := yields_count hms (by omega)
    exact nthConjuncts_sayAll _ hsmall hfew (hcount.add hone (by omega))
      ((hcount.add hcount' (by omega)).add hone (by omega))

/-- **The predicate for positions among siblings decides whether the siblings put the node at all
of them.** -/
theorem siblingPositionExpr_decides {positions : List Nth} (hne : positions ≠ [])
    (hsmall : ∀ nth ∈ positions, nth.IsSmall)
    (hfew : p.earlierSiblings.countP (isOfType s type) +
      (s.laterSiblings p).countP (isOfType s type) < 2 ^ 52) :
    Decides s p (siblingPositionExpr type positions)
      (positions.all (isAt s (isOfType s type) p)) := by
  refine decides_boolean fun i k => ?_
  have hall : SayAll ⟨s, .tree p, i, k⟩ (positions.flatMap (siblingConjuncts type))
      (∀ nth ∈ positions, isAt s (isOfType s type) p nth = true) :=
    sayAll_flatMap fun nth hnth => siblingConjuncts_sayAll nth (hsmall nth hnth) hfew i k
  have hconjuncts : positions.flatMap (siblingConjuncts type) ≠ [] := by
    obtain ⟨nth, hnth⟩ := List.exists_mem_of_ne_nil positions hne
    obtain ⟨e, he⟩ := List.exists_mem_of_ne_nil _ (siblingConjuncts_ne_nil type nth)
    exact List.ne_nil_of_mem (List.mem_flatMap.2 ⟨nth, hnth, he⟩)
  obtain ⟨b, hb, hP⟩ := hall.folded hconjuncts
  rw [siblingPositionExpr, hb]
  congr 3
  rw [Bool.eq_iff_iff, hP, List.all_eq_true]

end MarkupTemplate.Css
