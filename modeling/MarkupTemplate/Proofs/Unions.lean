import MarkupTemplate.Proofs.Steps

/-!
# Unions of paths

* `walk_congr` — where a walk leads depends on the trees and on where it starts alone.
* `mapM_pairs`, `mapM_map_result`, `mapM_mapError` — computing a list of lists, and changing what
  comes of it.
* `evaluate_union` — a union evaluates its members one after the other and sorts what they find.
* `evaluate_root`, `evaluate_context`, `evaluate_point` — paths from the root, from a node, and with
  the node itself as their first step.
-/

namespace MarkupTemplate.XPath

variable {f g : Focus} {s : Scope} {ns ms : List Node} {ss : List Step}

/-! ## Walks -/

theorem narrow_congr (h : f.scope = g.scope) : ∀ (ps : List Expr) (ns : List Node),
    narrow f ns ps = narrow g ns ps
  | [], ns => by rw [narrow, narrow]
  | p :: ps, ns => by
    rw [narrow, narrow, h]
    exact bind_congr fun kept => narrow_congr h ps kept

theorem stepFrom_congr (h : f.scope = g.scope) (ns : List Node) (t : Step) :
    stepFrom f ns t = stepFrom g ns t := by
  obtain ⟨a, test, es⟩ := t
  have hat : stepAt f a test es = stepAt g a test es := funext fun n => by
    rw [stepAt, stepAt, h]
    exact narrow_congr h es _
  rw [stepFrom_eq, stepFrom_eq, hat]

/-- **A walk depends on the trees alone**, not on the node that a query is evaluated for. -/
theorem walk_congr (h : f.scope = g.scope) : ∀ (steps : List Step) (ns : List Node),
    walk f ns steps = walk g ns steps
  | [], ns => by rw [walk, walk]
  | t :: steps, ns => by
    rw [walk, walk, stepFrom_congr h]
    exact bind_congr fun reached => walk_congr h steps reached

/-! ## Lists that are computed -/

section Lists

variable {ε ε' α β γ : Type}

/-- A list of pairs is computed like a list of lists. -/
theorem mapM_pairs (found : α → β → Except ε γ) (bs : List β) : ∀ as : List α,
    (as.flatMap fun a => bs.map fun b => (a, b)).mapM (fun ab => found ab.1 ab.2) =
      (as.mapM fun a => bs.mapM (found a)).map List.flatten
  | [] => rfl
  | a :: as => by
    have ih := mapM_pairs found bs as
    rw [List.flatMap_cons, List.mapM_append, List.mapM_cons, ih, List.mapM_map]
    change (bs.mapM (found a) >>= _) = _
    cases bs.mapM (found a) with
    | error => rfl
    | ok first => cases as.mapM fun a => bs.mapM (found a) <;> rfl

theorem mapM_congr {found found' : α → Except ε β} : ∀ {as : List α},
    (∀ a ∈ as, found a = found' a) → as.mapM found = as.mapM found'
  | [], _ => rfl
  | a :: as, h => by
    rw [List.mapM_cons, List.mapM_cons, h a List.mem_cons_self,
      mapM_congr fun b hb => h b (List.mem_cons_of_mem a hb)]

/-- Changing every result changes the results. -/
theorem mapM_map_result (found : α → Except ε β) (result : β → γ) : ∀ as : List α,
    as.mapM (fun a => (found a).map result) = (as.mapM found).map (List.map result)
  | [] => rfl
  | a :: as => by
    rw [List.mapM_cons, List.mapM_cons, mapM_map_result found result as]
    cases found a with
    | error => rfl
    | ok first => cases as.mapM found <;> rfl

/-- Changing every failure changes the first one. -/
theorem mapM_mapError (found : α → Except ε β) (failure : ε → ε') : ∀ as : List α,
    as.mapM (fun a => (found a).mapError failure) = (as.mapM found).mapError failure
  | [] => rfl
  | a :: as => by
    rw [List.mapM_cons, List.mapM_cons, mapM_mapError found failure as]
    cases found a with
    | error => rfl
    | ok first => cases as.mapM found <;> rfl

end Lists

/-! ## Unions -/

/-- Sorting takes only notice of which nodes there are. -/
theorem inOrder_congr (hms : ∀ n ∈ ms, n ∈ s.documentOrder) (h : ∀ n, n ∈ ms ↔ n ∈ ns) :
    inOrder ms = inOrder ns :=
  eq_of_sublist_documentOrder (inOrder_sublist hms)
    (inOrder_sublist fun n hn => hms n ((h n).2 hn)) fun n => by
      rw [mem_inOrder, mem_inOrder, h]

/-- **A union evaluates its members one after the other** and sorts what they find. -/
theorem evaluate_union {α : Type} {expr : α → Expr} {found : α → Except Fault (List Node)}
    {as : List α} (hf : f.node ∈ f.scope.documentOrder) (hne : as ≠ [])
    (h : ∀ a ∈ as, evaluate f (expr a) = (found a).map .nodes) :
    evaluate f (Css.folded .union (as.map expr)) =
      (as.mapM found).map fun lists => .nodes (inOrder lists.flatten) := by
  induction as using List.reverseRecOn with
  | nil => exact absurd rfl hne
  | append_singleton as a ih =>
    have hlast : evaluate f (expr a) = (found a).map .nodes := h a (by simp)
    by_cases has : as = []
    · subst has
      have hsingle : Css.folded .union ([a].map expr) = expr a := rfl
      rw [List.nil_append, hsingle, hlast, List.mapM_cons, List.mapM_nil]
      cases hfound : found a with
      | error => rfl
      | ok ns =>
        rw [hfound] at hlast
        change Except.ok (Value.nodes ns) = .ok (.nodes (inOrder [ns].flatten))
        rw [List.flatten_singleton, inOrder_eq_self (evaluate_sublist hf _ hlast)]
    · have hinit := ih has fun b hb => h b (List.mem_append_left _ hb)
      rw [List.map_append, List.map_singleton, Css.folded_snoc .union (by simpa using has),
        evaluate, hinit, hlast, List.mapM_append, List.mapM_cons, List.mapM_nil]
      cases hlists : as.mapM found with
      | error => rfl
      | ok lists =>
        rw [hlists] at hinit
        cases hfound : found a with
        | error => rfl
        | ok ns =>
          rw [hfound] at hlast
          have hsub := evaluate_sublist hf _ hinit
          have hsub' := evaluate_sublist hf _ hlast
          have hsame : inOrder (inOrder lists.flatten ++ ns) = inOrder (lists ++ [ns]).flatten :=
            inOrder_congr
              (fun n hn => (List.mem_append.1 hn).elim (hsub.subset ·) (hsub'.subset ·))
              (fun n => by simp [mem_inOrder])
          change Except.ok (Value.nodes (inOrder (inOrder lists.flatten ++ ns))) = _
          rw [hsame]
          rfl

/-! ## Paths -/

theorem evaluate_root : evaluate f (.path .root ss) = (walk f [.tree .root] ss).map .nodes := by
  rw [evaluate, evaluateStart, ok_bind]
  cases walk f [.tree .root] ss <;> rfl

theorem evaluate_context : evaluate f (.path .context ss) = (walk f [f.node] ss).map .nodes := by
  rw [evaluate, evaluateStart, ok_bind]
  cases walk f [f.node] ss <;> rfl

/-- A point stands for the node that it is evaluated for. -/
theorem evaluate_point : evaluate f (.path .context (.mk .self .node [] :: ss)) =
    evaluate f (.path .context ss) := by
  have haxis : f.scope.axis .self f.node = [f.node] := by
    cases f.node <;> rfl
  have hpasses : f.scope.passes .self .node f.node = true := by
    cases f.node <;> rfl
  have hself : stepFrom f [f.node] (.mk .self .node []) = .ok [f.node] := by
    rw [stepFrom_eq, gather_singleton, stepAt, haxis, List.filter_cons_of_pos hpasses,
      List.filter_nil, narrow]
    rfl
  rw [evaluate_context, evaluate_context, walk, hself, ok_bind]

end MarkupTemplate.XPath
