import MarkupTemplate.Proofs.Axes
import MarkupTemplate.XPath.Evaluation

/-!
# Node-sets

Every list of nodes that a query evaluates to is in document order and free of repetitions.

* `stepFrom_sublist`, `walk_sublist` — steps keep this, also the step that does not sort.
* `evaluate_sublist` — so every expression has it.
* `nodeSets_inDocumentOrder` — the invariant for values, for the step that is not sorted, and for
  the places that a query selects.
-/

namespace MarkupTemplate.XPath

variable {f : Focus} {ns ms : List Node}

theorem bind_eq_ok {ε α β : Type} {x : Except ε α} {g : α → Except ε β} {b : β} :
    (x >>= g) = .ok b ↔ ∃ a, x = .ok a ∧ g a = .ok b := by
  cases x <;> simp [bind, Except.bind]

theorem pure_eq_ok {ε α : Type} {a b : α} : (pure a : Except ε α) = .ok b ↔ a = b := by
  simp [pure, Except.pure]

/-! ## Predicates and steps -/

/-- A condition leaves some of the nodes, in their order. -/
theorem keep_sublist {holds : Nat → Node → Except Fault Bool} : ∀ {i : Nat} {ns ms : List Node},
    keep holds i ns = .ok ms → ms.Sublist ns
  | _, [], _, h => by simp [keep] at h; simp [← h]
  | i, n :: ns, ms, h => by
    rw [keep] at h
    obtain ⟨kept, -, h⟩ := bind_eq_ok.1 h
    obtain ⟨rest, hrest, h⟩ := bind_eq_ok.1 h
    have ih := keep_sublist hrest
    rw [pure_eq_ok] at h
    subst h
    cases kept with
    | false => exact ih.cons n
    | true => exact ih.cons_cons n

/-- Predicates leave some of the nodes, in their order. -/
theorem narrow_sublist : ∀ {ps : List Expr} {ns ms : List Node},
    narrow f ns ps = .ok ms → ms.Sublist ns
  | [], ns, ms, h => by
    rw [narrow, Except.ok.injEq] at h
    exact h ▸ .refl ns
  | p :: ps, ns, ms, h => by
    rw [narrow] at h
    obtain ⟨kept, hkept, h⟩ := bind_eq_ok.1 h
    exact (narrow_sublist h).trans (keep_sublist hkept)

/-- What is gathered was found from one of the nodes. -/
theorem exists_of_mem_gather {found : Node → Except Fault (List Node)} {m : Node} :
    ∀ {ns ms : List Node}, gather found ns = .ok ms → m ∈ ms →
      ∃ n ∈ ns, ∃ l, found n = .ok l ∧ m ∈ l
  | [], ms, h, hm => by
    rw [gather, Except.ok.injEq] at h
    simp [← h] at hm
  | n :: ns, ms, h, hm => by
    rw [gather] at h
    obtain ⟨first, hfirst, h⟩ := bind_eq_ok.1 h
    obtain ⟨rest, hrest, h⟩ := bind_eq_ok.1 h
    rw [pure_eq_ok] at h
    subst h
    rcases List.mem_append.1 hm with hm | hm
    · exact ⟨n, List.mem_cons_self, first, hfirst, hm⟩
    · obtain ⟨n', hn', l, hl, hml⟩ := exists_of_mem_gather hrest hm
      exact ⟨n', List.mem_cons_of_mem _ hn', l, hl, hml⟩

/-- From a single node nothing else is gathered than what is found there. -/
theorem gather_singleton {found : Node → Except Fault (List Node)} {n : Node} :
    gather found [n] = found n := by
  rw [gather, gather]
  cases found n <;> simp [bind, Except.bind, pure, Except.pure]

/-- The nodes that a step finds from one node. -/
def stepAt (f : Focus) (a : Axis) (test : NodeTest) (predicates : List Expr) (n : Node) :
    Except Fault (List Node) :=
  narrow f ((f.scope.axis a n).filter (f.scope.passes a test)) predicates

theorem stepFrom_eq (f : Focus) (ns : List Node) (a : Axis) (test : NodeTest)
    (predicates : List Expr) :
    stepFrom f ns (.mk a test predicates) =
      (gather (stepAt f a test predicates) ns).map fun found =>
        if 1 < ns.length || a.isReverse then inOrder found else found := by
  rw [stepFrom]
  change (gather (stepAt f a test predicates) ns >>= _) = _
  cases gather (stepAt f a test predicates) ns <;> rfl

/-- What a step finds from a node lies on its axis. -/
theorem stepAt_sublist {a : Axis} {test : NodeTest} {predicates : List Expr} {n : Node}
    (h : stepAt f a test predicates n = .ok ms) : ms.Sublist (f.scope.axis a n) :=
  (narrow_sublist h).trans List.filter_sublist

/-- A step that is not followed by sorting, from at most one node and forward, is in order. -/
theorem stepFrom_sublist_of_forward {n : Node} {a : Axis} {test : NodeTest}
    {predicates : List Expr} (ha : a.isReverse = false) (hn : n ∈ f.scope.documentOrder)
    (h : stepFrom f [n] (.mk a test predicates) = .ok ms) :
    ms.Sublist f.scope.documentOrder := by
  rw [stepFrom_eq, gather_singleton] at h
  cases hfound : stepAt f a test predicates n with
  | error e => simp [hfound, Except.map] at h
  | ok found =>
    simp only [hfound, Except.map, ha, List.length_singleton, Nat.lt_irrefl, decide_false,
      Bool.or_false, Bool.false_eq_true, if_false, Except.ok.injEq] at h
    subst h
    exact (stepAt_sublist hfound).trans (axis_sublist ha hn)

/-- **A step keeps nodes in document order.** -/
theorem stepFrom_sublist (hns : ns.Sublist f.scope.documentOrder) {t : Step}
    (h : stepFrom f ns t = .ok ms) : ms.Sublist f.scope.documentOrder := by
  obtain ⟨a, test, predicates⟩ := t
  by_cases hsingle : ns.length ≤ 1 ∧ a.isReverse = false
  · obtain ⟨hlen, ha⟩ := hsingle
    match ns, hlen with
    | [], _ =>
      rw [stepFrom_eq, gather] at h
      simp only [Except.map, List.length_nil, ha] at h
      simp_all
    | [n], _ => exact stepFrom_sublist_of_forward ha (hns.subset List.mem_cons_self) h
  · -- here the step sorts, so it is enough that no node leaves the document
    rw [stepFrom_eq] at h
    cases hfound : gather (stepAt f a test predicates) ns with
    | error e => simp [hfound, Except.map] at h
    | ok found =>
      have hsort : (1 < ns.length || a.isReverse) = true := by
        by_contra hno
        simp only [Bool.or_eq_true, decide_eq_true_eq, not_or, Bool.not_eq_true] at hno
        exact hsingle ⟨by omega, hno.2⟩
      simp only [hfound, Except.map, hsort, if_true, Except.ok.injEq] at h
      subst h
      refine inOrder_sublist fun m hm => ?_
      obtain ⟨n, hn, l, hl, hml⟩ := exists_of_mem_gather hfound hm
      exact axis_subset a (hns.subset hn) ((stepAt_sublist hl).subset hml)

/-- Steps one after another keep nodes in document order. -/
theorem walk_sublist : ∀ {steps : List Step} {ns ms : List Node},
    ns.Sublist f.scope.documentOrder → walk f ns steps = .ok ms →
      ms.Sublist f.scope.documentOrder
  | [], ns, ms, hns, h => by
    rw [walk, Except.ok.injEq] at h
    exact h ▸ hns
  | t :: steps, ns, ms, hns, h => by
    rw [walk] at h
    obtain ⟨reached, hreached, h⟩ := bind_eq_ok.1 h
    exact walk_sublist (stepFrom_sublist hns hreached) h

/-! ## Expressions -/

theorem expectNodes_eq_ok {what : String} {v : Result} :
    Function.expectNodes what v = .ok ns ↔ v = .nodes ns := by
  cases v <;> simp [Function.expectNodes]

theorem Function.aggregate_ne_nodes {name : String} {compute : List String → Float}
    {args : List Result} : (Function.aggregate name compute).apply f args ≠ .ok (.nodes ns) := by
  intro h
  obtain ⟨_, -, h⟩ := bind_eq_ok.1 h
  cases h

theorem Function.naming_ne_nodes {name : String} {args : List Result} :
    (Function.naming name).apply f args ≠ .ok (.nodes ns) := by
  intro h
  simp only [Function.naming] at h
  split at h
  · obtain ⟨_, -, h⟩ := bind_eq_ok.1 h
    cases h
  · cases h

/-- No function returns nodes. -/
theorem Function.apply_ne_nodes {g : Function} (hg : g ∈ Function.all) {args : List Result} :
    g.apply f args ≠ .ok (.nodes ns) := by
  simp only [Function.all, List.mem_cons, List.not_mem_nil, or_false] at hg
  rcases hg with rfl | rfl | rfl | rfl | rfl | rfl | rfl | rfl | rfl | rfl | rfl | rfl | rfl |
    rfl | rfl | rfl | rfl | rfl | rfl | rfl | rfl | rfl | rfl | rfl <;>
  first
  | exact Function.aggregate_ne_nodes
  | exact Function.naming_ne_nodes
  | exact fun h => nomatch h

/-- The function that a call finds is one of the list. -/
theorem Function.mem_of_find {called : String} {count : Nat} {g : Function}
    (h : Function.find called count = .ok g) : g ∈ Function.all := by
  rw [Function.find] at h
  split at h
  · cases h
  · rename_i g' hg'
    split at h
    · cases h
      exact List.mem_of_find?_eq_some hg'
    · cases h

mutual

/-- **An expression that evaluates to nodes evaluates to nodes in document order.** -/
theorem evaluate_sublist (hf : f.node ∈ f.scope.documentOrder) : ∀ (e : Expr) {ns : List Node},
    evaluate f e = .ok (.nodes ns) → ns.Sublist f.scope.documentOrder
  | .literal _, ns, h => by simp [evaluate] at h
  | .number _, ns, h => by simp [evaluate] at h
  | .path start steps, ns, h => by
    rw [evaluate] at h
    obtain ⟨ms, hms, h⟩ := bind_eq_ok.1 h
    obtain ⟨ns', hns', h⟩ := bind_eq_ok.1 h
    rw [pure_eq_ok, Value.nodes.injEq] at h
    exact h ▸ walk_sublist (evaluateStart_sublist hf start hms) hns'
  | .filter primary predicates, ns, h => by
    rw [evaluate] at h
    obtain ⟨v, hv, h⟩ := bind_eq_ok.1 h
    obtain ⟨ms, hms, h⟩ := bind_eq_ok.1 h
    obtain ⟨ns', hns', h⟩ := bind_eq_ok.1 h
    rw [pure_eq_ok, Value.nodes.injEq] at h
    rw [expectNodes_eq_ok] at hms
    exact h ▸ (narrow_sublist hns').trans (evaluate_sublist hf primary (hms ▸ hv))
  | .call name arguments, ns, h => by
    rw [evaluate] at h
    obtain ⟨g, hg, h⟩ := bind_eq_ok.1 h
    obtain ⟨args, -, h⟩ := bind_eq_ok.1 h
    exact absurd h (Function.apply_ne_nodes (Function.mem_of_find hg))
  | .binary .or left right, ns, h => by
    rw [evaluate] at h
    obtain ⟨l, -, h⟩ := bind_eq_ok.1 h
    split at h
    · cases h
    · obtain ⟨r, -, h⟩ := bind_eq_ok.1 h
      cases h
  | .binary .and left right, ns, h => by
    rw [evaluate] at h
    obtain ⟨l, -, h⟩ := bind_eq_ok.1 h
    split at h
    · obtain ⟨r, -, h⟩ := bind_eq_ok.1 h
      cases h
    · cases h
  | .binary .union left right, ns, h => by
    rw [evaluate] at h
    obtain ⟨v, hv, h⟩ := bind_eq_ok.1 h
    obtain ⟨l, hl, h⟩ := bind_eq_ok.1 h
    obtain ⟨w, hw, h⟩ := bind_eq_ok.1 h
    obtain ⟨r, hr, h⟩ := bind_eq_ok.1 h
    rw [pure_eq_ok, Value.nodes.injEq] at h
    rw [expectNodes_eq_ok] at hl hr
    have hleft := evaluate_sublist hf left (hl ▸ hv)
    have hright := evaluate_sublist hf right (hr ▸ hw)
    subst h
    refine inOrder_sublist fun n hn => ?_
    rcases List.mem_append.1 hn with hn | hn
    · exact hleft.subset hn
    · exact hright.subset hn
  | .binary (.comparison c) left right, ns, h => by
    rw [evaluate] at h
    obtain ⟨l, -, h⟩ := bind_eq_ok.1 h
    obtain ⟨r, -, h⟩ := bind_eq_ok.1 h
    cases h
  | .binary (.arithmetic a) left right, ns, h => by
    rw [evaluate] at h
    obtain ⟨l, -, h⟩ := bind_eq_ok.1 h
    obtain ⟨r, -, h⟩ := bind_eq_ok.1 h
    cases h
  | .negate operand, ns, h => by
    rw [evaluate] at h
    obtain ⟨v, -, h⟩ := bind_eq_ok.1 h
    cases h

/-- A location path starts at nodes in document order. -/
theorem evaluateStart_sublist (hf : f.node ∈ f.scope.documentOrder) :
    ∀ (start : Start) {ns : List Node},
      evaluateStart f start = .ok ns → ns.Sublist f.scope.documentOrder
  | .root, ns, h => by
    rw [evaluateStart, Except.ok.injEq] at h
    exact h ▸ List.singleton_sublist.2 (Scope.holds_tree.2 f.scope.holds_root)
  | .context, ns, h => by
    rw [evaluateStart, Except.ok.injEq] at h
    exact h ▸ List.singleton_sublist.2 hf
  | .nodes source, ns, h => by
    rw [evaluateStart] at h
    obtain ⟨v, hv, h⟩ := bind_eq_ok.1 h
    rw [expectNodes_eq_ok] at h
    exact evaluate_sublist hf source (h ▸ hv)

end

/-! ## Places -/

/-- The places of all nodes of a document are its places in order. -/
theorem places_documentOrder (s : Scope) : places s.documentOrder = s.preorder .root := by
  have own : ∀ p, places (s.ownNodes p) = [p] := by
    intro p
    simp [places, Scope.ownNodes, List.filterMap_map]
  have append : ∀ ps : List Place, places (ps.flatMap s.ownNodes) = ps := by
    intro ps
    induction ps with
    | nil => rfl
    | cons p ps ih =>
      have hp := own p
      simp only [places] at ih hp ⊢
      rw [List.flatMap_cons, List.filterMap_append, ih, hp]
      rfl
  exact append _

/-- Selecting gives the places of the nodes that an expression evaluates to. -/
theorem select_eq_ok {e : Expr} {query : String} {s : Scope} {context : Place}
    {ps : List Place} (h : e.select query s context = .ok ps) :
    ∃ ns, e.value s context = .ok (.nodes ns) ∧ ps = places ns := by
  rw [Expr.select] at h
  obtain ⟨v, hv, h⟩ := bind_eq_ok.1 h
  cases v with
  | nodes ns =>
    rw [pure_eq_ok] at h
    exact ⟨ns, hv, h.symm⟩
  | atom a => cases h

/-- **Every node-set is in document order and free of duplicates.** All nodes of a document are
listed once, an element before its attributes and these before what is below it. Whatever nodes an
expression evaluates to, in a context that belongs to the document, are a sublist of that list; a
forward step from one node is, although it is not sorted; and so are the places that a query
selects, among all places of the document. -/
theorem nodeSets_inDocumentOrder (s : Scope) :
    s.documentOrder.Nodup ∧ (s.preorder .root).Nodup ∧
      (∀ f : Focus, f.scope = s → f.node ∈ s.documentOrder → ∀ (e : Expr) (ns : List Node),
        evaluate f e = .ok (.nodes ns) → ns.Sublist s.documentOrder) ∧
      (∀ f : Focus, f.scope = s → ∀ n ∈ s.documentOrder, ∀ (a : Axis) (test : NodeTest)
        (predicates : List Expr) (ns : List Node), a.isReverse = false →
          stepFrom f [n] (.mk a test predicates) = .ok ns →
            ns.Sublist s.documentOrder ∧ inOrder ns = ns) ∧
      ∀ (e : Expr) (query : String) (context : Place) (ps : List Place),
        context ∈ s.preorder .root → e.select query s context = .ok ps →
          ps.Sublist (s.preorder .root) := by
  have nodup : (s.preorder .root).Nodup := (s.pairwise_preorder .root).imp fun h => by
    rintro rfl
    exact List.lt_irrefl _ h
  refine ⟨s.nodup_documentOrder, nodup, ?_, ?_, ?_⟩
  · rintro f rfl hf e ns h
    exact evaluate_sublist hf e h
  · rintro f rfl n hn a test predicates ns ha h
    have hsub := stepFrom_sublist_of_forward ha hn h
    exact ⟨hsub, inOrder_eq_self hsub⟩
  · intro e query context ps hcontext h
    obtain ⟨ns, hns, rfl⟩ := select_eq_ok h
    have hf : (Node.tree context) ∈ s.documentOrder :=
      Scope.holds_tree.2 (Scope.mem_preorder_root.1 hcontext)
    have hsub : ns.Sublist s.documentOrder :=
      evaluate_sublist (f := ⟨s, .tree context, 1, 1⟩) hf e hns
    rw [← places_documentOrder s]
    exact hsub.filterMap _

/-- A document of a list with two items, of which the first has an attribute. -/
def twoItems : Scope :=
  ⟨.node .document [.node (.element ⟨.html, "ul"⟩ [])
    [.node (.element ⟨.html, "li"⟩ [⟨.plain, "id", "a"⟩]) [.node (.text "one") []],
     .node (.element ⟨.html, "li"⟩ []) []]], none⟩

/-- The attributes above a node, and the elements after it. -/
def aboveAndAfter : Expr :=
  .binary .union (.path .context [.mk .following .any []])
    (.path .context [.mk .ancestor .any [], .mk .attribute .any []])

/-- From the text in the first item both are found, and are put in order; the two items come from
one step, and are in order as they are. -/
theorem nodeSets_inDocumentOrder_twoItems :
    (evaluate ⟨twoItems, .tree ⟨false, [0, 0, 0]⟩, 1, 1⟩ aboveAndAfter =
        .ok (.nodes [.attribute ⟨false, [0, 0]⟩ 0, .tree ⟨false, [0, 1]⟩]) ∧
      [Node.attribute ⟨false, [0, 0]⟩ 0, .tree ⟨false, [0, 1]⟩].Sublist twoItems.documentOrder) ∧
    (stepFrom ⟨twoItems, .tree .root, 1, 1⟩ [.tree ⟨false, [0]⟩] (.mk .child .any []) =
        .ok [.tree ⟨false, [0, 0]⟩, .tree ⟨false, [0, 1]⟩] ∧
      inOrder [.tree ⟨false, [0, 0]⟩, .tree ⟨false, [0, 1]⟩] =
        [.tree ⟨false, [0, 0]⟩, .tree ⟨false, [0, 1]⟩]) ∧
    aboveAndAfter.select "" twoItems ⟨false, [0, 0, 0]⟩ = .ok [⟨false, [0, 1]⟩] ∧
      [(⟨false, [0, 1]⟩ : Place)].Sublist (twoItems.preorder .root) := by
  obtain ⟨-, -, hvalue, hstep, hselect⟩ := nodeSets_inDocumentOrder twoItems
  have h₁ : evaluate ⟨twoItems, .tree ⟨false, [0, 0, 0]⟩, 1, 1⟩ aboveAndAfter =
      .ok (.nodes [.attribute ⟨false, [0, 0]⟩ 0, .tree ⟨false, [0, 1]⟩]) := by cbv
  have h₂ : stepFrom ⟨twoItems, .tree .root, 1, 1⟩ [.tree ⟨false, [0]⟩] (.mk .child .any []) =
      .ok [.tree ⟨false, [0, 0]⟩, .tree ⟨false, [0, 1]⟩] := by cbv
  have h₃ : aboveAndAfter.select "" twoItems ⟨false, [0, 0, 0]⟩ = .ok [⟨false, [0, 1]⟩] := by cbv
  exact ⟨⟨h₁, hvalue _ rfl (by decide) _ _ h₁⟩,
    ⟨h₂, (hstep _ rfl _ (by decide) _ _ _ _ rfl h₂).2⟩, h₃, hselect _ _ _ _ (by decide) h₃⟩

end MarkupTemplate.XPath
