import MarkupTemplate.Proofs.Safety

/-!
# Predicates that decide

A predicate that does not look at positions leaves the nodes that it holds of.

* `Decides` — at a place an expression holds or does not, whatever the position.
* `narrow_eq_filter` — such a predicate leaves the places at which it holds.
* `Finds` — the places that an expression evaluates to; `finds_folded` is about unions.
-/

namespace MarkupTemplate.XPath

variable {s : Scope} {p q : Place} {e e' : Expr} {es : List Expr} {f : Focus} {ns : List Node}

/-! ## Deciding -/

/-- At the place the expression has a value. As a truth value and as a predicate, at any position,
it is `b`. -/
def Decides (s : Scope) (p : Place) (e : Expr) (b : Bool) : Prop :=
  ∀ i k, ∃ v, evaluate ⟨s, .tree p, i, k⟩ e = .ok v ∧ v.toBoolean = b ∧ ∀ j, holdsAt j v = b

theorem decides_boolean {b : Bool}
    (h : ∀ i k, evaluate ⟨s, .tree p, i, k⟩ e = .ok (.atom (.boolean b))) : Decides s p e b :=
  fun i k => ⟨_, h i k, rfl, fun _ => rfl⟩

theorem decides_nodes (h : ∀ i k, evaluate ⟨s, .tree p, i, k⟩ e = .ok (.nodes ns)) :
    Decides s p e (!ns.isEmpty) :=
  fun i k => ⟨_, h i k, rfl, fun _ => rfl⟩

theorem Decides.and {b b' : Bool} (h : Decides s p e b) (h' : Decides s p e' b') :
    Decides s p (.binary .and e e') (b && b') := by
  refine decides_boolean fun i k => ?_
  obtain ⟨v, hv, hb, -⟩ := h i k
  obtain ⟨w, hw, hb', -⟩ := h' i k
  rw [evaluate, hv, ok_bind, hw, hb]
  cases b with
  | true =>
    rw [Bool.true_and, ← hb']
    rfl
  | false => rfl

theorem Decides.or {b b' : Bool} (h : Decides s p e b) (h' : Decides s p e' b') :
    Decides s p (.binary .or e e') (b || b') := by
  refine decides_boolean fun i k => ?_
  obtain ⟨v, hv, hb, -⟩ := h i k
  obtain ⟨w, hw, hb', -⟩ := h' i k
  rw [evaluate, hv, ok_bind, hw, hb]
  cases b with
  | true => rfl
  | false =>
    rw [Bool.false_or, ← hb']
    rfl

theorem Decides.not {b : Bool} (h : Decides s p e b) : Decides s p (.call "not" [e]) (!b) := by
  refine decides_boolean fun i k => ?_
  obtain ⟨v, hv, rfl, -⟩ := h i k
  have hfind : Function.find "not" [e].length = .ok (.truth "not" Bool.not) := by rfl
  rw [evaluate_call hfind (evaluateAll_cons hv evaluateAll_nil)]
  rfl

/-! ## Predicates -/

theorem keep_eq_filter {holds : Nat → Node → Except Fault Bool} (fit : Place → Bool) :
    ∀ {ps : List Place} (i : Nat), (∀ p ∈ ps, ∀ j, holds j (.tree p) = .ok (fit p)) →
      keep holds i (ps.map .tree) = .ok ((ps.filter fit).map .tree)
  | [], _, _ => rfl
  | p :: ps, i, h => by
    have hp := h p List.mem_cons_self i
    have ih := keep_eq_filter fit (i + 1) fun q hq => h q (List.mem_cons_of_mem p hq)
    rw [List.map_cons, keep, hp, ok_bind, ih, ok_bind, List.filter_cons]
    cases fit p <;> rfl

/-- A predicate leaves the places at which it holds. -/
theorem narrow_eq_filter {fit : Place → Bool} {ps : List Place}
    (h : ∀ p ∈ ps, Decides f.scope p e (fit p)) :
    narrow f (ps.map .tree) [e] = .ok ((ps.filter fit).map .tree) := by
  rw [narrow, keep_eq_filter fit 1, ok_bind, narrow]
  intro p hp j
  obtain ⟨v, hv, -, hholds⟩ := h p hp j (ps.map Node.tree).length
  rw [hv, ok_bind, hholds]
  rfl

theorem narrow_append (ns : List Node) : ∀ (es es' : List Expr),
    narrow f ns (es ++ es') = narrow f ns es >>= fun ms => narrow f ms es'
  | [], es' => by
    rw [List.nil_append, narrow]
    rfl
  | e :: es, es' => by
    rw [List.cons_append, narrow, narrow]
    cases keep (fun i n => do
      let v ← evaluate ⟨f.scope, n, i, ns.length⟩ e
      return holdsAt i v) 1 ns with
    | error => rfl
    | ok kept =>
      rw [ok_bind, ok_bind]
      exact narrow_append kept es es'

/-! ## Steps from the context node -/

/-- A forward step from the context node finds what is left of its axis. -/
theorem evaluate_step {a : Axis} {test : NodeTest} (ha : a.isReverse = false)
    (h : stepAt f a test es f.node = .ok ns) :
    evaluate f (.path .context [.mk a test es]) = .ok (.nodes ns) := by
  rw [evaluate, evaluateStart, ok_bind, walk, stepFrom_eq, gather_singleton, h]
  simp only [Except.map, ha, List.length_singleton, Nat.lt_irrefl, decide_false, Bool.or_false,
    Bool.false_eq_true, if_false]
  rw [ok_bind, walk]
  rfl

theorem evaluate_axis {a : Axis} {test : NodeTest} (ha : a.isReverse = false) :
    evaluate f (.path .context [.mk a test []]) =
      .ok (.nodes ((f.scope.axis a f.node).filter (f.scope.passes a test))) := by
  refine evaluate_step ha ?_
  rw [stepAt, narrow]

/-! ## Unions -/

/-- The nodes that the expression evaluates to are the places with the property. -/
def Finds (f : Focus) (e : Expr) (P : Place → Prop) : Prop :=
  ∃ qs : List Place, evaluate f e = .ok (.nodes (qs.map .tree)) ∧ ∀ q, q ∈ qs ↔ P q

/-- Whether places are found decides as a predicate. -/
theorem decides_of_finds {P : Place → Prop} {b : Bool}
    (h : ∀ i k, Finds ⟨s, .tree p, i, k⟩ e P) (hb : b = true ↔ ∃ q, P q) : Decides s p e b := by
  intro i k
  obtain ⟨qs, hqs, hP⟩ := h i k
  have hne : (!(qs.map Node.tree).isEmpty) = b := by
    rw [Bool.eq_iff_iff, hb, Bool.not_eq_true', List.isEmpty_eq_false_iff_exists_mem]
    constructor
    · rintro ⟨n, hn⟩
      obtain ⟨q, hq, -⟩ := List.mem_map.1 hn
      exact ⟨q, (hP q).1 hq⟩
    · rintro ⟨q, hq⟩
      exact ⟨.tree q, List.mem_map_of_mem ((hP q).2 hq)⟩
  exact ⟨_, hqs, hne, fun _ => hne⟩

/-- Sorting places gives places. -/
theorem exists_inOrder_map (ps : List Place) :
    ∃ qs : List Place, inOrder (ps.map .tree) = qs.map .tree ∧ ∀ q, q ∈ qs ↔ q ∈ ps := by
  have hmem (n : Node) (hn : n ∈ inOrder (ps.map .tree)) : ∃ p ∈ ps, .tree p = n :=
    List.mem_map.1 (mem_inOrder.1 hn)
  refine ⟨places (inOrder (ps.map .tree)), ?_, fun q => ?_⟩
  · rw [places, List.map_filterMap]
    refine Eq.symm (Eq.trans (List.filterMap_congr fun n hn => ?_) List.filterMap_some)
    obtain ⟨p, -, rfl⟩ := hmem n hn
    rfl
  · rw [places, List.mem_filterMap]
    constructor
    · rintro ⟨n, hn, hq⟩
      obtain ⟨p, hp, rfl⟩ := hmem n hn
      cases hq
      exact hp
    · intro hq
      exact ⟨.tree q, mem_inOrder.2 (List.mem_map_of_mem hq), rfl⟩

theorem Finds.union {P P' : Place → Prop} (h : Finds f e P) (h' : Finds f e' P') :
    Finds f (.binary .union e e') fun q => P q ∨ P' q := by
  obtain ⟨ps, hps, hP⟩ := h
  obtain ⟨qs, hqs, hP'⟩ := h'
  obtain ⟨rs, hrs, hmem⟩ := exists_inOrder_map (ps ++ qs)
  refine ⟨rs, ?_, fun q => ?_⟩
  · rw [evaluate, hps, hqs, ← hrs, List.map_append]
    rfl
  · rw [hmem, List.mem_append, hP, hP']

/-- A union finds what one of its operands finds. -/
theorem finds_folded {α : Type} {expr : α → Expr} {P : α → Place → Prop} {as : List α}
    (hne : as ≠ []) (h : ∀ a ∈ as, Finds f (expr a) (P a)) :
    Finds f (Css.folded .union (as.map expr)) fun q => ∃ a ∈ as, P a q := by
  induction as using List.reverseRecOn with
  | nil => exact absurd rfl hne
  | append_singleton as a ih =>
    have hlast : Finds f (expr a) (P a) := h a (by simp)
    by_cases has : as = []
    · subst has
      simpa [Css.folded] using hlast
    · have hinit := ih has fun b hb => h b (List.mem_append_left _ hb)
      rw [List.map_append, List.map_singleton,
        Css.folded_snoc .union (by simpa using has) (expr a)]
      simpa [or_and_right, exists_or] using hinit.union hlast

end MarkupTemplate.XPath
