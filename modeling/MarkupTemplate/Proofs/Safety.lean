import MarkupTemplate.Proofs.BranchReading
import MarkupTemplate.Proofs.NodeSets

/-!
# Queries that never fail

* `Safe` — an expression has a value in every context; `Selects` — its value is a list of nodes.
* `walk_safe`, `safe_binary`, `safe_call` — how expressions with this property are put together.
* `selectorExpr_selects` — the queries of selectors have it.
-/

namespace MarkupTemplate.XPath

/-- The expression has a value in every context. -/
def Safe (e : Expr) : Prop :=
  ∀ f, ∃ v, evaluate f e = .ok v

/-- The expression has a list of nodes for its value in every context. -/
def Selects (e : Expr) : Prop :=
  ∀ f, ∃ ns, evaluate f e = .ok (.nodes ns)

/-- The predicates of the step have values in every context. -/
def StepSafe : Step → Prop
  | .mk _ _ predicates => ∀ p ∈ predicates, Safe p

variable {e e' : Expr} {es : List Expr} {f : Focus} {ns : List Node}

theorem Selects.safe (h : Selects e) : Safe e := by
  intro f
  obtain ⟨ns, hns⟩ := h f
  exact ⟨_, hns⟩

theorem ok_bind {ε α β : Type} (a : α) (g : α → Except ε β) :
    ((Except.ok a : Except ε α) >>= g) = g a :=
  rfl

/-! ## Steps -/

theorem keep_ok {holds : Nat → Node → Except Fault Bool}
    (h : ∀ i n, ∃ b, holds i n = .ok b) : ∀ (i : Nat) (ns : List Node),
      ∃ ms, keep holds i ns = .ok ms
  | _, [] => ⟨[], rfl⟩
  | i, n :: ns => by
    obtain ⟨b, hb⟩ := h i n
    obtain ⟨ms, hms⟩ := keep_ok h (i + 1) ns
    rw [keep, hb, hms]
    exact ⟨_, rfl⟩

theorem narrow_ok : ∀ (ps : List Expr), (∀ p ∈ ps, Safe p) → ∀ ns,
    ∃ ms, narrow f ns ps = .ok ms
  | [], _, ns => ⟨ns, rfl⟩
  | p :: ps, h, ns => by
    obtain ⟨kept, hkept⟩ : ∃ kept, keep (fun i n => do
        let v ← evaluate ⟨f.scope, n, i, ns.length⟩ p
        return holdsAt i v) 1 ns = .ok kept := by
      refine keep_ok (fun i n => ?_) 1 ns
      obtain ⟨v, hv⟩ := h p List.mem_cons_self ⟨f.scope, n, i, ns.length⟩
      rw [hv]
      exact ⟨_, rfl⟩
    rw [narrow, hkept]
    exact narrow_ok ps (fun q hq => h q (List.mem_cons_of_mem _ hq)) kept

theorem gather_ok {found : Node → Except Fault (List Node)} (h : ∀ n, ∃ l, found n = .ok l) :
    ∀ ns, ∃ ms, gather found ns = .ok ms
  | [] => ⟨[], rfl⟩
  | n :: ns => by
    obtain ⟨l, hl⟩ := h n
    obtain ⟨ms, hms⟩ := gather_ok h ns
    rw [gather, hl, hms]
    exact ⟨_, rfl⟩

theorem stepFrom_ok {s : Step} (h : StepSafe s) (ns : List Node) :
    ∃ ms, stepFrom f ns s = .ok ms := by
  obtain ⟨a, test, predicates⟩ := s
  have hfound : ∀ n, ∃ l, stepAt f a test predicates n = .ok l :=
    fun n => narrow_ok predicates h _
  obtain ⟨ms, hms⟩ := gather_ok hfound ns
  rw [stepFrom_eq, hms]
  exact ⟨_, rfl⟩

theorem walk_ok : ∀ (steps : List Step), (∀ s ∈ steps, StepSafe s) → ∀ ns,
    ∃ ms, walk f ns steps = .ok ms
  | [], _, ns => ⟨ns, rfl⟩
  | s :: steps, h, ns => by
    obtain ⟨reached, hreached⟩ := stepFrom_ok (h s List.mem_cons_self) ns (f := f)
    rw [walk, hreached]
    exact walk_ok steps (fun t ht => h t (List.mem_cons_of_mem _ ht)) reached

/-! ## Expressions -/

theorem selects_root {steps : List Step} (h : ∀ s ∈ steps, StepSafe s) :
    Selects (.path .root steps) := by
  intro f
  obtain ⟨ms, hms⟩ := walk_ok steps h [.tree .root] (f := f)
  rw [evaluate, evaluateStart, ok_bind, hms]
  exact ⟨ms, rfl⟩

theorem selects_context {steps : List Step} (h : ∀ s ∈ steps, StepSafe s) :
    Selects (.path .context steps) := by
  intro f
  obtain ⟨ms, hms⟩ := walk_ok steps h [f.node] (f := f)
  rw [evaluate, evaluateStart, ok_bind, hms]
  exact ⟨ms, rfl⟩

theorem selects_union (h : Selects e) (h' : Selects e') : Selects (.binary .union e e') := by
  intro f
  obtain ⟨ns, hns⟩ := h f
  obtain ⟨ms, hms⟩ := h' f
  rw [evaluate, hns, hms]
  exact ⟨_, rfl⟩

theorem safe_number (x : Float) : Safe (.number x) := by
  intro f
  rw [evaluate]
  exact ⟨_, rfl⟩

theorem safe_literal (s : String) : Safe (.literal s) := by
  intro f
  rw [evaluate]
  exact ⟨_, rfl⟩

theorem safe_negate (h : Safe e) : Safe (.negate e) := by
  intro f
  obtain ⟨v, hv⟩ := h f
  rw [evaluate, hv]
  exact ⟨_, rfl⟩

theorem safe_comparison (c : Comparison) (h : Safe e) (h' : Safe e') :
    Safe (.binary (.comparison c) e e') := by
  intro f
  obtain ⟨v, hv⟩ := h f
  obtain ⟨w, hw⟩ := h' f
  rw [evaluate, hv, hw]
  exact ⟨_, rfl⟩

theorem safe_arithmetic (a : Arithmetic) (h : Safe e) (h' : Safe e') :
    Safe (.binary (.arithmetic a) e e') := by
  intro f
  obtain ⟨v, hv⟩ := h f
  obtain ⟨w, hw⟩ := h' f
  rw [evaluate, hv, hw]
  exact ⟨_, rfl⟩

theorem safe_and (h : Safe e) (h' : Safe e') : Safe (.binary .and e e') := by
  intro f
  obtain ⟨v, hv⟩ := h f
  obtain ⟨w, hw⟩ := h' f
  rw [evaluate, hv, ok_bind, hw]
  split
  · exact ⟨_, rfl⟩
  · exact ⟨_, rfl⟩

theorem safe_or (h : Safe e) (h' : Safe e') : Safe (.binary .or e e') := by
  intro f
  obtain ⟨v, hv⟩ := h f
  obtain ⟨w, hw⟩ := h' f
  rw [evaluate, hv, ok_bind, hw]
  split
  · exact ⟨_, rfl⟩
  · exact ⟨_, rfl⟩

theorem evaluateAll_ok : ∀ (es : List Expr), (∀ e ∈ es, Safe e) →
    ∃ vs, evaluateAll f es = .ok vs
  | [], _ => ⟨[], rfl⟩
  | e :: es, h => by
    obtain ⟨v, hv⟩ := h e List.mem_cons_self f
    obtain ⟨vs, hvs⟩ := evaluateAll_ok es fun e' he => h e' (List.mem_cons_of_mem _ he)
    rw [evaluateAll, hv, hvs]
    exact ⟨_, rfl⟩

theorem evaluateAll_cons {v : Result} {vs : List Result} (h : evaluate f e = .ok v)
    (h' : evaluateAll f es = .ok vs) : evaluateAll f (e :: es) = .ok (v :: vs) := by
  rw [evaluateAll, h, h']
  rfl

theorem evaluateAll_nil : evaluateAll f [] = .ok [] := by
  rw [evaluateAll]

theorem evaluate_call {g : Function} {called : String} {vs : List Result}
    (hfind : Function.find called es.length = .ok g) (hargs : evaluateAll f es = .ok vs) :
    evaluate f (.call called es) = g.apply f vs := by
  rw [evaluate, hfind, ok_bind, hargs, ok_bind]

theorem evaluate_count (h : evaluate f e = .ok (.nodes ns)) :
    evaluate f (.call "count" [e]) = .ok (.atom (.number (Float.ofNat ns.length))) := by
  have hfind : Function.find "count" [e].length =
      .ok (Function.aggregate "count" fun texts => Float.ofNat texts.length) := by
    rfl
  rw [evaluate_call hfind (evaluateAll_cons h evaluateAll_nil)]
  change Except.ok (Value.atom (.number (Float.ofNat (ns.map f.scope.text).length))) = _
  rw [List.length_map]

/-- A function that has a value for all arguments. -/
def Function.IsTotal (g : Function) : Prop :=
  ∀ f args, ∃ v, g.apply f args = .ok v

theorem safe_call {g : Function} {called : String} (hg : g.IsTotal)
    (hfind : Function.find called es.length = .ok g) (h : ∀ e ∈ es, Safe e) :
    Safe (.call called es) := by
  intro f
  obtain ⟨vs, hvs⟩ := evaluateAll_ok es h (f := f)
  rw [evaluate_call hfind hvs]
  exact hg f vs

/-- Nodes can be counted. -/
theorem safe_count (h : Selects e) : Safe (.call "count" [e]) := by
  intro f
  obtain ⟨ns, hns⟩ := h f
  exact ⟨_, evaluate_count hns⟩

end MarkupTemplate.XPath

namespace MarkupTemplate.Css

open XPath

variable {e e' : Expr} {es : List Expr}

/-! ## Conditions -/

theorem natExpr_safe (n : Nat) : Safe (natExpr n) :=
  safe_number _

theorem intExpr_safe (i : Int) : Safe (intExpr i) := by
  cases i with
  | ofNat n => exact natExpr_safe n
  | negSucc n => exact safe_negate (natExpr_safe (n + 1))

theorem equation_safe (h : Safe e) (h' : Safe e') : Safe (equation e e') :=
  safe_comparison .equal h h'

theorem attributePath_selects (name : String) : Selects (attributePath name) :=
  selects_context (by simp [StepSafe])

theorem axisPath_selects (axis : Axis) (type : String) : Selects (axisPath axis type) :=
  selects_context (by simp [StepSafe])

theorem concat_total : Function.concat.IsTotal :=
  fun _ _ => ⟨_, rfl⟩

/-- There is no bound on the number of texts that are put together. -/
theorem find_concat {n : Nat} (h : 2 ≤ n) : Function.find "concat" n = .ok .concat := by
  have hall : Function.all.find? (fun f => f.name = "concat") = some .concat := by rfl
  rw [Function.find, hall]
  simp [Function.concat, h]

theorem pieceExprs_safe : ∀ pieces, ∀ e ∈ pieceExprs pieces, Safe e
  | [], e, he => by simp [pieceExprs] at he
  | [piece], e, he => by
    rw [pieceExprs, List.mem_singleton] at he
    exact he ▸ safe_literal _
  | piece :: next :: pieces, e, he => by
    simp only [pieceExprs, List.mem_cons] at he
    rcases he with rfl | rfl | he
    · exact safe_literal _
    · exact safe_literal _
    · exact pieceExprs_safe (next :: pieces) e he

theorem length_pieceExprs : ∀ {pieces : List (List Char)}, 2 ≤ pieces.length →
    2 ≤ (pieceExprs pieces).length
  | _ :: _ :: _, _ => by simp [pieceExprs]

theorem literalExpr_safe (s : String) : Safe (literalExpr s) := by
  rw [literalExpr]
  split
  · rename_i hquotes
    have hdouble : '"' ∈ s.toList := by
      rw [Bool.and_eq_true] at hquotes
      simpa using hquotes.1
    have hlength := length_pieceExprs (Text.length_splitOn hdouble)
    exact safe_call concat_total (find_concat hlength) (pieceExprs_safe _)
  · exact safe_literal s

theorem startsWith_safe (h : Safe e) (h' : Safe e') : Safe (.call "starts-with" [e, e']) := by
  refine safe_call ?_ rfl (by simpa using ⟨h, h'⟩)
  exact fun _ _ => ⟨_, rfl⟩

theorem contains_safe (h : Safe e) (h' : Safe e') : Safe (.call "contains" [e, e']) := by
  refine safe_call ?_ rfl (by simpa using ⟨h, h'⟩)
  exact fun _ _ => ⟨_, rfl⟩

theorem stringLength_safe (h : Safe e) : Safe (.call "string-length" [e]) := by
  refine safe_call ?_ rfl (by simpa using h)
  exact fun _ _ => ⟨_, rfl⟩

theorem substring_safe (h : Safe e) (h' : Safe e') : Safe (.call "substring" [e, e']) := by
  refine safe_call ?_ rfl (by simpa using ⟨h, h'⟩)
  exact fun _ _ => ⟨_, rfl⟩

theorem not_safe (h : Safe e) : Safe (.call "not" [e]) := by
  refine safe_call ?_ rfl (by simpa using h)
  exact fun _ _ => ⟨_, rfl⟩

theorem position_safe : Safe (.call "position" []) := by
  refine safe_call ?_ rfl (by simp)
  exact fun _ _ => ⟨_, rfl⟩

theorem last_safe : Safe (.call "last" []) := by
  refine safe_call ?_ rfl (by simp)
  exact fun _ _ => ⟨_, rfl⟩

theorem false_safe : Safe (.call "false" []) := by
  refine safe_call ?_ rfl (by simp)
  exact fun _ _ => ⟨_, rfl⟩

theorem wordTestExpr_safe (h : Safe e) (word : String) : Safe (wordTestExpr e word) := by
  have hwords : Safe (.call "normalize-space" [e]) := by
    refine safe_call ?_ rfl (by simpa using h)
    exact fun _ _ => ⟨_, rfl⟩
  have hblank := safe_literal " "
  have hconcat : Safe (.call "concat" [.literal " ", .call "normalize-space" [e],
      .literal " "]) :=
    safe_call concat_total (find_concat (by simp)) (by simpa using ⟨hblank, hwords, hblank⟩)
  exact contains_safe hconcat (literalExpr_safe _)

theorem attributeExpr_safe (name : String) (comparison : Comparison) (value : String) :
    Safe (attributeExpr name comparison value) := by
  have hstep := (attributePath_selects name).safe
  have hvalue := literalExpr_safe value
  have hequation := equation_safe hstep hvalue
  unfold attributeExpr
  dsimp only
  split
  · exact hequation
  split
  · exact false_safe
  cases comparison with
  | equal => exact hequation
  | beginning => exact startsWith_safe hstep hvalue
  | ending =>
    have hrest := safe_arithmetic .minus (stringLength_safe hstep) (stringLength_safe hvalue)
    have hstart := safe_arithmetic .plus hrest (natExpr_safe 1)
    exact equation_safe (substring_safe hstep hstart) hvalue
  | part => exact contains_safe hstep hvalue
  | dashed => exact safe_or hequation (startsWith_safe hstep (literalExpr_safe _))
  | word =>
    dsimp only
    split
    · exact false_safe
    · exact wordTestExpr_safe hstep value

/-! ## Positions -/

theorem nthConjuncts_safe {position count : Expr} (hp : Safe position) (hc : Safe count)
    (nth : Nth) : ∀ e ∈ nthConjuncts position count nth, Safe e := by
  have hmodulo (e : Expr) (n : Int) (h : Safe e) :
      Safe (.binary (.arithmetic .modulo) e (intExpr n)) :=
    safe_arithmetic .modulo h (intExpr_safe n)
  cases nth with
  | first => simpa [nthConjuncts] using equation_safe hp (natExpr_safe 1)
  | last => simpa [nthConjuncts] using equation_safe hp hc
  | formula step offset =>
    have hoffset := intExpr_safe offset
    unfold nthConjuncts
    dsimp only
    split
    · simpa using equation_safe hp hoffset
    split
    · simpa using equation_safe (hmodulo _ 2 hp) (natExpr_safe 1)
    split
    · simpa using equation_safe (hmodulo _ 2 hp) (natExpr_safe 0)
    split
    · have hshifted : Safe (if 0 ≤ offset then .binary (.arithmetic .minus) position
          (intExpr offset) else .binary (.arithmetic .plus) position (intExpr (-offset))) := by
        split
        · exact safe_arithmetic .minus hp hoffset
        · exact safe_arithmetic .plus hp (intExpr_safe (-offset))
      have hdivided := equation_safe (hmodulo _ step hshifted) (natExpr_safe 0)
      split
      · simpa using ⟨hdivided, safe_comparison .greaterEqual hp hoffset⟩
      · simpa using hdivided
    · have hrest := safe_arithmetic .minus hoffset hp
      have hdivided := equation_safe (hmodulo _ (-step) hrest) (natExpr_safe 0)
      simpa using ⟨safe_comparison .lessEqual hp hoffset, hdivided⟩

theorem conjunction_safe (h : ∀ e ∈ es, Safe e) : Safe (folded .and es) := by
  by_cases hne : es = []
  · subst hne
    refine safe_call ?_ rfl (by simp)
    exact fun _ _ => ⟨_, rfl⟩
  · exact folded_induction (fun _ _ => safe_and) hne h

theorem listPositionExpr_safe (positions : List Nth) : Safe (listPositionExpr positions) := by
  unfold listPositionExpr
  split
  · exact natExpr_safe 1
  · exact last_safe
  · split
    · exact intExpr_safe _
    · exact conjunction_safe (nthConjuncts_safe position_safe last_safe _)
  · refine conjunction_safe fun e he => ?_
    obtain ⟨nth, -, he⟩ := List.mem_flatMap.1 he
    exact nthConjuncts_safe position_safe last_safe nth e he

theorem siblingConjuncts_safe (type : String) (nth : Nth) :
    ∀ e ∈ siblingConjuncts type nth, Safe e := by
  have hpreceding := axisPath_selects .precedingSibling type
  have hfollowing := axisPath_selects .followingSibling type
  cases nth with
  | first => simpa [siblingConjuncts] using not_safe hpreceding.safe
  | last => simpa [siblingConjuncts] using not_safe hfollowing.safe
  | formula step offset =>
    have hbefore := safe_count hpreceding
    have hboth := safe_arithmetic .plus hbefore (safe_count hfollowing)
    exact nthConjuncts_safe (safe_arithmetic .plus hbefore (natExpr_safe 1))
      (safe_arithmetic .plus hboth (natExpr_safe 1)) (.formula step offset)

theorem siblingPositionExpr_safe (type : String) (positions : List Nth) :
    Safe (siblingPositionExpr type positions) := by
  refine conjunction_safe fun e he => ?_
  obtain ⟨nth, -, he⟩ := List.mem_flatMap.1 he
  exact siblingConjuncts_safe type nth e he

theorem positionExprs_safe {predicate : List Nth → Expr}
    (h : ∀ positions, Safe (predicate positions)) (positions : List Nth) : ∀ e ∈ positionExprs predicate positions, Safe e := by
  rw [positionExprs]
  split
  · simp
  · simpa using h positions

/-! ## Branches -/

theorem emptyExpr_safe : Safe emptyExpr := by
  have helements : Selects (.path .context [.mk .child .any []]) :=
    selects_context (by simp [StepSafe])
  have htexts : Selects (.path .context [.mk .child .text []]) :=
    selects_context (by simp [StepSafe])
  exact safe_and (equation_safe (safe_count helements) (natExpr_safe 0)) (not_safe htexts.safe)

mutual

theorem conditionExprs_safe : ∀ conditions : List Simple,
    conditionsAll isReadable conditions = true → (∀ c ∈ conditions, c.isFilled = true) →
      ∀ e ∈ conditionExprs conditions, Safe e
  | [], _, _, e, he => by simp [conditionExprs] at he
  | condition :: rest, h, hfilled, e, he => by
    rw [conditionsAll, Bool.and_eq_true] at h
    rw [conditionExprs, List.mem_append] at he
    rcases he with he | he
    · exact conditionExpr_safe condition h.1 (hfilled condition List.mem_cons_self) e he
    · exact conditionExprs_safe rest h.2 (fun c hc => hfilled c (List.mem_cons_of_mem _ hc)) e he

theorem conditionExpr_safe : ∀ condition : Simple, condition.all isReadable = true →
    condition.isFilled = true → ∀ e ∈ conditionExpr condition, Safe e
  | .id name, _, _, e, he => by
    rw [conditionExpr, List.mem_singleton] at he
    exact he ▸ equation_safe (attributePath_selects "id").safe (literalExpr_safe name)
  | .cls name, _, _, e, he => by
    rw [conditionExpr, List.mem_singleton] at he
    exact he ▸ wordTestExpr_safe (attributePath_selects "class").safe name
  | .present name, _, _, e, he => by
    rw [conditionExpr, List.mem_singleton] at he
    exact he ▸ (attributePath_selects name).safe
  | .attribute name comparison value, _, _, e, he => by
    rw [conditionExpr, List.mem_singleton] at he
    exact he ▸ attributeExpr_safe name comparison value
  | .empty, _, _, e, he => by
    rw [conditionExpr, List.mem_singleton] at he
    exact he ▸ emptyExpr_safe
  | .negation alternatives, h, hfilled, e, he => by
    have hne : alternatives ≠ [] := by simpa [Simple.isFilled] using hfilled
    rw [conditionExpr, List.mem_singleton] at he
    have hselects := selfPaths_select alternatives h
    have hpaths : selfPaths alternatives ≠ [] := by
      cases alternatives with
      | nil => exact absurd rfl hne
      | cons => simp [selfPaths]
    have hunion : Selects (folded .union (selfPaths alternatives)) :=
      folded_induction (fun _ _ => selects_union) hpaths hselects
    exact he ▸ not_safe hunion.safe
  | .childPosition _, _, _, e, he => by simp [conditionExpr] at he
  | .typePosition _, _, _, e, he => by simp [conditionExpr] at he

theorem selfPaths_select : ∀ compounds : List Compound, compoundsAll isReadable compounds = true →
    ∀ e ∈ selfPaths compounds, Selects e
  | [], _, e, he => by simp [selfPaths] at he
  | compound :: rest, h, e, he => by
    rw [compoundsAll, Bool.and_eq_true] at h
    rw [selfPaths, List.mem_cons] at he
    rcases he with rfl | he
    · exact selects_context (by simpa using testStep_safe .self compound h.1)
    · exact selfPaths_select rest h.2 e he

theorem testStep_safe (axis : Axis) : ∀ compound : Compound, compound.all isReadable = true →
    StepSafe (testStep axis compound)
  | .mk type conditions, h => by
    simp only [Compound.all, isReadable, isFilled, Compound.conditions, Bool.and_eq_true,
      List.all_eq_true] at h
    intro e he
    simp only [List.mem_append] at he
    rcases he with (he | he) | he
    · exact positionExprs_safe (siblingPositionExpr_safe "*") _ e he
    · exact positionExprs_safe (siblingPositionExpr_safe type) _ e he
    · exact conditionExprs_safe conditions h.2 h.1.2 e he

end

theorem childSteps_safe {compound : Compound} (h : compound.all isReadable = true) :
    ∀ s ∈ childSteps compound, StepSafe s := by
  have hwithout := testStep_safe .self _ (withoutChildPositions_readable h)
  obtain ⟨type, conditions⟩ := compound
  simp only [Compound.all, isReadable, isFilled, Compound.conditions, Bool.and_eq_true,
    List.all_eq_true] at h
  intro s hs
  unfold childSteps at hs
  dsimp only [Compound.conditions, Compound.type] at hs
  split at hs
  · rw [List.mem_singleton] at hs
    subst hs
    intro e he
    rcases List.mem_append.1 he with he | he
    · exact positionExprs_safe listPositionExpr_safe _ e he
    · exact conditionExprs_safe conditions h.2 h.1.2 e he
  · simp only [List.mem_cons, List.not_mem_nil, or_false] at hs
    rcases hs with rfl | rfl
    · intro e he
      rw [List.mem_singleton] at he
      exact he ▸ listPositionExpr_safe _
    · exact hwithout

theorem branchSteps_safe {branch : Branch} (h : BranchReadable branch) :
    ∀ s ∈ branchSteps branch, StepSafe s := by
  intro s hs
  obtain ⟨⟨combinator, compound⟩, hmem, hs⟩ := List.mem_flatMap.1 hs
  have hcompound := h.2 _ hmem
  cases combinator with
  | descendant =>
    rcases List.mem_cons.1 hs with rfl | hs
    · simp [StepSafe, Step.descendantOrSelf]
    · exact childSteps_safe hcompound s hs
  | child => exact childSteps_safe hcompound s hs
  | sibling =>
    obtain rfl := List.mem_singleton.1 hs
    exact testStep_safe .followingSibling compound hcompound
  | adjacent =>
    simp only [stepSteps, List.mem_cons, List.not_mem_nil, or_false] at hs
    rcases hs with rfl | rfl
    · intro e he
      rw [List.mem_singleton] at he
      exact he ▸ natExpr_safe 1
    · exact testStep_safe .self compound hcompound

/-- **The queries of a selector select nodes in every context.** -/
theorem selectorExpr_selects {branches : List Branch} (hne : branches ≠ [])
    (h : ∀ b ∈ branches, BranchReadable b) :
    Selects (folded .union (branches.map branchExpr)) ∧
      Selects (folded .union (branches.map branchExprWithin)) := by
  constructor
  · refine folded_induction (fun _ _ => selects_union) (by simpa using hne) fun e he => ?_
    obtain ⟨b, hb, rfl⟩ := List.mem_map.1 he
    exact selects_root (branchSteps_safe (h b hb))
  · refine folded_induction (fun _ _ => selects_union) (by simpa using hne) fun e he => ?_
    obtain ⟨b, hb, rfl⟩ := List.mem_map.1 he
    refine selects_context fun s hs => ?_
    rcases List.mem_cons.1 hs with rfl | hs
    · simp [StepSafe]
    · exact branchSteps_safe (h b hb) s hs

end MarkupTemplate.Css
