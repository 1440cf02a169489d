import MarkupTemplate.Proofs.AttributeTests
import MarkupTemplate.Proofs.Validation

/-!
# Values in queries

Ids, class names and the values of attributes get into a query as literals. A literal ends where it
was written to end, whatever is in it, and so no value has an influence on how the text around it
is read.

* `primary_literal_append` — the literal of a string, read off a text that it begins.
* `Expr.outline` — an expression, but for the strings in it.
* `Simple.outline`, `Branch.outline` — a selector, but for its values.
* `outline_branchExpr` — but for strings, what a selector asks for does not depend on its values.
* `values_enclosed` — values stay strings, and selectors keep their structure.
-/

namespace MarkupTemplate.XPath

/-! ## Outlines of expressions -/

/-- A literal, also a piece of a longer string. -/
def Expr.isLiteral : Expr → Bool
  | .literal _ => true
  | _ => false

mutual

/-- An expression with every string left empty. A string is a literal, or a call that puts literals
together. -/
def Expr.outline : Expr → Expr
  | .literal _ => .literal ""
  | .number x => .number x
  | .path start steps => .path start.outline (outlineSteps steps)
  | .filter primary predicates => .filter primary.outline (outlineExprs predicates)
  | .call name arguments =>
    if name = "concat" && arguments.all Expr.isLiteral then .literal ""
    else .call name (outlineExprs arguments)
  | .binary operator left right => .binary operator left.outline right.outline
  | .negate operand => .negate operand.outline

/-- The start of a path with every string in it left empty. -/
def Start.outline : Start → Start
  | .root => .root
  | .context => .context
  | .nodes source => .nodes source.outline

/-- A step with every string in its predicates left empty. -/
def Step.outline : Step → Step
  | .mk a test predicates => .mk a test (outlineExprs predicates)

/-- Several expressions with every string left empty. -/
def outlineExprs : List Expr → List Expr
  | [] => []
  | e :: es => e.outline :: outlineExprs es

/-- Several steps with every string left empty. -/
def outlineSteps : List Step → List Step
  | [] => []
  | s :: steps => s.outline :: outlineSteps steps

end

@[simp]
theorem outlineExprs_eq_map : ∀ es : List Expr, outlineExprs es = es.map Expr.outline
  | [] => rfl
  | e :: es => by rw [outlineExprs, outlineExprs_eq_map es, List.map_cons]

@[simp]
theorem outlineSteps_eq_map : ∀ steps : List Step, outlineSteps steps = steps.map Step.outline
  | [] => rfl
  | s :: steps => by rw [outlineSteps, outlineSteps_eq_map steps, List.map_cons]

/-- The outline of a call that puts no string together. -/
theorem outline_call {name : String} (h : name ≠ "concat") (es : List Expr) :
    (Expr.call name es).outline = .call name (es.map Expr.outline) := by
  simp [Expr.outline, h]

end MarkupTemplate.XPath

namespace MarkupTemplate.Css

open XPath

variable {o : Operator} {es es' : List Expr}

/-! ## Literals -/

/-- **Whatever follows it, the literal of a string is read as one primary expression.** What follows
is left as it is, or without the blanks in front of it. -/
theorem primary_literal_append (s : String) {depth : Nat}
    (hd : (literal s).toList.length ≤ depth) (rest : List Char) : ∃ r, Tail r rest ∧
      primary (expr depth) ((literal s).toList ++ rest) = some (literalExpr s, r) := by
  rcases literal_text s with ⟨q, hq, hmem, htext, hexpr⟩ | ⟨as, es, has, htext, hexpr⟩
  · rw [htext, hexpr]
    exact ⟨rest, .refl rest, primary_literal (expr depth) hq hmem rest⟩
  · rw [htext] at hd ⊢
    rw [hexpr]
    simp only [List.length_append, List.length_cons] at hd
    exact ⟨skip rest, .inr rfl, primary_call (by decide) (by decide) has (by omega) rest⟩

theorem isLiteral_pieceExprs : ∀ pieces : List (List Char),
    (pieceExprs pieces).all Expr.isLiteral = true
  | [] => rfl
  | [_] => rfl
  | _ :: next :: pieces => by
    simpa [pieceExprs, Expr.isLiteral] using isLiteral_pieceExprs (next :: pieces)

@[simp]
theorem outline_literalExpr (s : String) : (literalExpr s).outline = .literal "" := by
  rw [literalExpr]
  split
  · rw [Expr.outline, isLiteral_pieceExprs]
    rfl
  · rw [Expr.outline]

theorem outline_equation (e e' : Expr) :
    (equation e e').outline = equation e.outline e'.outline := by
  rw [equation, Expr.outline, equation]

/-- A test for a word does not show which word it is for. -/
theorem outline_wordTestExpr (value : Expr) (word word' : String) :
    (wordTestExpr value word).outline = (wordTestExpr value word').outline := by
  simp [wordTestExpr, outline_call]

/-! ## Outlines of selectors -/

/-- What there is of a value in the outline of a selector: whether anything can be found by it. By
an empty value nothing is found that is not equal to it, and no word has a blank in it; these tests
are false without looking at the attribute. -/
def Comparison.outline (comparison : Comparison) (value : String) : String :=
  if comparison = .equal || value.isEmpty then ""
  else if comparison = .word && value.toList.any Text.isBlank then " "
  else "-"

mutual

/-- A condition without its name, if that is an id or a class, and without its value. -/
def Simple.outline : Simple → Simple
  | .id _ => .id ""
  | .cls _ => .cls ""
  | .present name => .present name
  | .attribute name comparison value => .attribute name comparison (comparison.outline value)
  | .empty => .empty
  | .negation alternatives => .negation (outlineCompounds alternatives)
  | .childPosition nth => .childPosition nth
  | .typePosition nth => .typePosition nth

/-- A compound without ids, class names and values. -/
def Compound.outline : Compound → Compound
  | .mk type conditions => .mk type (outlineConditions conditions)

/-- Several conditions without ids, class names and values. -/
def outlineConditions : List Simple → List Simple
  | [] => []
  | condition :: rest => condition.outline :: outlineConditions rest

/-- Several compounds without ids, class names and values. -/
def outlineCompounds : List Compound → List Compound
  | [] => []
  | compound :: rest => compound.outline :: outlineCompounds rest

end

/-- A branch without ids, class names and values. -/
def Branch.outline (branch : Branch) : Branch :=
  branch.map fun part => (part.1, part.2.outline)

@[simp]
theorem outlineConditions_eq_map : ∀ conditions : List Simple,
    outlineConditions conditions = conditions.map Simple.outline
  | [] => rfl
  | c :: conditions => by
    rw [outlineConditions, outlineConditions_eq_map conditions, List.map_cons]

@[simp]
theorem Compound.type_outline : ∀ compound : Compound, compound.outline.type = compound.type
  | .mk _ _ => rfl

@[simp]
theorem Compound.conditions_outline : ∀ compound : Compound,
    compound.outline.conditions = compound.conditions.map Simple.outline
  | .mk _ conditions => outlineConditions_eq_map conditions

@[simp]
theorem childPositions_outline (conditions : List Simple) :
    childPositions (conditions.map Simple.outline) = childPositions conditions := by
  rw [childPositions, childPositions, List.filterMap_map]
  congr 1
  funext c
  cases c <;> rfl

@[simp]
theorem typePositions_outline (conditions : List Simple) :
    typePositions (conditions.map Simple.outline) = typePositions conditions := by
  rw [typePositions, typePositions, List.filterMap_map]
  congr 1
  funext c
  cases c <;> rfl

theorem withoutChildPositions_outline (compound : Compound) :
    withoutChildPositions compound.outline = (withoutChildPositions compound).outline := by
  rw [withoutChildPositions, withoutChildPositions, Compound.outline, Compound.type_outline,
    Compound.conditions_outline, outlineConditions_eq_map, List.filter_map]
  congr 3
  funext c
  cases c <;> rfl

/-! ## Expressions of selectors -/

theorem outline_folded (o : Operator) (es : List Expr) :
    (folded o es).outline = folded o (es.map Expr.outline) := by
  cases es with
  | nil => simp [folded, outline_call]
  | cons e es =>
    rw [List.map_cons, folded, folded]
    induction es generalizing e with
    | nil => rfl
    | cons e' es ih =>
      rw [List.foldl_cons, List.map_cons, List.foldl_cons, ih]
      rw [Expr.outline]

theorem outline_binary (o : Operator) (e e' : Expr) :
    (Expr.binary o e e').outline = .binary o e.outline e'.outline := by
  rw [Expr.outline]

/-- The test on an attribute shows of the value only whether anything can be found by it. -/
theorem outline_attributeExpr (name : String) (comparison : Comparison) (value : String) :
    (attributeExpr name comparison value).outline =
      (attributeExpr name comparison (comparison.outline value)).outline := by
  by_cases hempty : value.isEmpty = true
  · cases comparison <;>
      simp [attributeExpr, Comparison.outline, hempty, outline_equation]
  · cases comparison with
    | equal => simp [attributeExpr, Comparison.outline, outline_equation]
    | beginning | ending | part | dashed =>
      simp [attributeExpr, Comparison.outline, hempty, outline_equation, outline_call,
        outline_binary]
    | word =>
      have hspace : Text.isBlank ' ' = true := by decide
      have hdash : Text.isBlank '-' = false := by decide
      by_cases hblank : value.toList.any Text.isBlank = true
      · simp only [attributeExpr, Comparison.outline, hempty, hblank]
        simp [hspace]
      · simp only [attributeExpr, Comparison.outline, hempty, hblank]
        simpa [hdash] using outline_wordTestExpr (attributePath name) value "-"

mutual

/-- The predicates of conditions do not show what the values are. -/
theorem outline_conditionExprs : ∀ conditions : List Simple,
    (conditionExprs conditions).map Expr.outline =
      (conditionExprs (conditions.map Simple.outline)).map Expr.outline
  | [] => rfl
  | condition :: rest => by
    rw [List.map_cons, conditionExprs, conditionExprs, List.map_append, List.map_append,
      outline_conditionExpr condition, outline_conditionExprs rest]

theorem outline_conditionExpr : ∀ condition : Simple,
    (conditionExpr condition).map Expr.outline =
      (conditionExpr condition.outline).map Expr.outline
  | .id name => by simp [conditionExpr, Simple.outline, outline_equation]
  | .cls name => by
    simpa [conditionExpr, Simple.outline] using outline_wordTestExpr (attributePath "class") name ""
  | .present _ => rfl
  | .attribute name comparison value => by
    simpa [conditionExpr, Simple.outline] using outline_attributeExpr name comparison value
  | .empty => rfl
  | .negation alternatives => by
    simp [conditionExpr, Simple.outline, outline_call, outline_folded,
      outline_selfPaths alternatives]
  | .childPosition _ => rfl
  | .typePosition _ => rfl

theorem outline_selfPaths : ∀ compounds : List Compound,
    (selfPaths compounds).map Expr.outline =
      (selfPaths (outlineCompounds compounds)).map Expr.outline
  | [] => rfl
  | compound :: rest => by
    simp [outlineCompounds, selfPaths, Expr.outline, outline_testStep .self compound,
      outline_selfPaths rest]

theorem outline_testStep (a : Axis) : ∀ compound : Compound,
    (testStep a compound).outline = (testStep a compound.outline).outline
  | .mk type conditions => by
    simp [testStep, Compound.outline, Step.outline, outline_conditionExprs conditions]

end

theorem outline_childSteps (compound : Compound) :
    (childSteps compound).map Step.outline = (childSteps compound.outline).map Step.outline := by
  unfold childSteps
  simp only [Compound.conditions_outline, Compound.type_outline, childPositions_outline,
    typePositions_outline, withoutChildPositions_outline]
  split
  · simp [Step.outline, outline_conditionExprs compound.conditions]
  · simp [outline_testStep .self (withoutChildPositions compound)]

theorem outline_stepSteps (combinator : Combinator) (compound : Compound) :
    (stepSteps combinator compound).map Step.outline =
      (stepSteps combinator compound.outline).map Step.outline := by
  cases combinator with
  | descendant | child => simp [stepSteps, outline_childSteps compound]
  | sibling => simp [stepSteps, outline_testStep .followingSibling compound]
  | adjacent => simp [stepSteps, outline_testStep .self compound]

theorem outline_branchSteps (branch : Branch) :
    (branchSteps branch).map Step.outline =
      (branchSteps branch.outline).map Step.outline := by
  rw [branchSteps, branchSteps, Branch.outline, List.flatMap_map, List.map_flatMap,
    List.map_flatMap]
  congr 1
  funext part
  exact outline_stepSteps part.1 part.2

/-- **But for strings, what a branch asks for does not depend on its values.** -/
theorem outline_branchExpr (branch : Branch) :
    (branchExpr branch).outline = (branchExpr branch.outline).outline := by
  simp [branchExpr, Expr.outline, outline_branchSteps branch]

theorem outline_branchExprWithin (branch : Branch) :
    (branchExprWithin branch).outline = (branchExprWithin branch.outline).outline := by
  simp [branchExprWithin, Expr.outline, outline_branchSteps branch]

/-! ## Names in outlines -/

theorem isNamed_outline (condition : Simple) : condition.outline.isNamed = condition.isNamed := by
  cases condition <;> rfl

theorem isFilled_outline (condition : Simple) :
    condition.outline.isFilled = condition.isFilled := by
  cases condition with
  | negation alternatives => cases alternatives <;> rfl
  | _ => rfl

theorem isReadable_outline (compound : Compound) :
    isReadable compound.outline = isReadable compound := by
  simp [isReadable, isNamed, isFilled, List.all_map, Function.comp_def, isNamed_outline,
    isFilled_outline]

mutual

theorem Compound.all_outline : ∀ compound : Compound,
    compound.outline.all isReadable = compound.all isReadable
  | .mk type conditions => by
    have hreadable := isReadable_outline (.mk type conditions)
    rw [Compound.outline] at hreadable ⊢
    rw [Compound.all, Compound.all, hreadable, conditionsAll_outline conditions]

theorem conditionsAll_outline : ∀ conditions : List Simple,
    conditionsAll isReadable (outlineConditions conditions) = conditionsAll isReadable conditions
  | [] => rfl
  | condition :: rest => by
    rw [outlineConditions, conditionsAll, conditionsAll, Simple.all_outline condition,
      conditionsAll_outline rest]

theorem Simple.all_outline : ∀ condition : Simple,
    condition.outline.all isReadable = condition.all isReadable
  | .negation alternatives => by
    rw [Simple.outline, Simple.all, Simple.all, compoundsAll_outline alternatives]
  | .id _ | .cls _ | .present _ | .attribute _ _ _ | .empty | .childPosition _
  | .typePosition _ => rfl

theorem compoundsAll_outline : ∀ compounds : List Compound,
    compoundsAll isReadable (outlineCompounds compounds) = compoundsAll isReadable compounds
  | [] => rfl
  | compound :: rest => by
    rw [outlineCompounds, compoundsAll, compoundsAll, Compound.all_outline compound,
      compoundsAll_outline rest]

end

theorem branchReadable_outline (branch : Branch) :
    BranchReadable branch.outline ↔ BranchReadable branch := by
  simp only [BranchReadable, Branch.outline, ne_eq, List.map_eq_nil_iff, List.forall_mem_map,
    Compound.all_outline]

/-! ## Selectors -/

/-- Both queries are read, and as expressions that differ in nothing but strings. -/
def SameOutline (query query' : String) : Prop :=
  ∃ e e', Expr.read query = .ok e ∧ Expr.read query' = .ok e' ∧ e.outline = e'.outline

/-- What is asked for by branches with the same outlines has the same outline. -/
theorem outline_union {expr : Branch → Expr} {branches branches' : List Branch}
    (hexpr : ∀ b, (expr b).outline = (expr b.outline).outline)
    (heq : branches.map Branch.outline = branches'.map Branch.outline) :
    (folded .union (branches.map expr)).outline = (folded .union (branches'.map expr)).outline := by
  have houtlines (bs : List Branch) : (bs.map expr).map Expr.outline =
      (bs.map Branch.outline).map fun b => (expr b).outline := by
    rw [List.map_map, List.map_map]
    exact List.map_congr_left fun b _ => hexpr b
  rw [outline_folded, outline_folded, houtlines, houtlines, heq]

/-- Whether the queries of branches can be read is seen from their outlines. -/
theorem branchesReadable_of_outline {branches branches' : List Branch}
    (h : ∀ b ∈ branches, BranchReadable b)
    (heq : branches.map Branch.outline = branches'.map Branch.outline) :
    ∀ b ∈ branches', BranchReadable b := by
  intro b hb
  have hmem : b.outline ∈ branches.map Branch.outline := heq ▸ List.mem_map_of_mem hb
  obtain ⟨b', hb', houtline⟩ := List.mem_map.1 hmem
  exact (branchReadable_outline b).1 (houtline ▸ (branchReadable_outline b').2 (h b' hb'))

/-- **Values stay values.** Whatever text follows the literal of a string, it is read as one primary
expression, what follows is left but for blanks in front of it, and the value of the expression is
the string in every context. So selectors that differ in nothing but ids, class names and values of
attributes have queries, from the root and below a node, that are read as expressions which differ
in nothing but strings. (Of a value an outline shows only whether anything can be found by it.) -/
theorem values_enclosed :
    (∀ (s : String) (rest : List Char) (depth : Nat), (literal s).toList.length ≤ depth →
      ∃ e r, primary (expr depth) ((literal s).toList ++ rest) = some (e, r) ∧ Tail r rest ∧
        ∀ f : Focus, evaluate f e = .ok (.atom (.text s))) ∧
      ∀ branches branches' : List Branch, branches ≠ [] → (∀ b ∈ branches, BranchReadable b) →
        branches.map Branch.outline = branches'.map Branch.outline →
          SameOutline (String.intercalate " | " (branches.map branchQuery))
              (String.intercalate " | " (branches'.map branchQuery)) ∧
            SameOutline (String.intercalate " | " (branches.map fun b => "." ++ branchQuery b))
              (String.intercalate " | " (branches'.map fun b => "." ++ branchQuery b)) := by
  refine ⟨fun s rest depth hd => ?_, fun branches branches' hne hreadable heq => ?_⟩
  · obtain ⟨r, hr, hprimary⟩ := primary_literal_append s hd rest
    exact ⟨_, r, hprimary, hr, fun f => evaluate_literalExpr f s⟩
  · have hne' : branches' ≠ [] := by
      rintro rfl
      exact hne (List.map_eq_nil_iff.1 heq)
    have hreadable' := branchesReadable_of_outline hreadable heq
    exact ⟨⟨_, _, Selector.read_branches hne hreadable, Selector.read_branches hne' hreadable',
        outline_union outline_branchExpr heq⟩,
      ⟨_, _, Selector.read_branchesWithin hne hreadable,
        Selector.read_branchesWithin hne' hreadable',
        outline_union outline_branchExprWithin heq⟩⟩

/-- An id that would close the predicate and go on with another path stays an id. -/
theorem values_enclosed_bothQuotes :
    literal "'\"] | //*['" = "concat(\"'\", '\"', \"] | //*['\")" ∧
      (∃ e r, primary (expr 40) ((literal "'\"] | //*['").toList ++ " ]".toList) = some (e, r) ∧
        Tail r " ]".toList ∧ ∀ f : Focus, evaluate f e = .ok (.atom (.text "'\"] | //*['"))) ∧
      SameOutline "//*[@id=\"a\"]" "//*[@id=concat(\"'\", '\"', \"] | //*['\")]" := by
  obtain ⟨hliteral, hselectors⟩ := values_enclosed
  have hlength : (literal "'\"] | //*['").toList.length ≤ 40 := by decide
  have hreadable : ∀ b ∈ ([[(.descendant, .mk "*" [.id "a"])]] : List Branch),
      BranchReadable b := by
    simpa [BranchReadable] using (by decide :
      (Compound.mk "*" [.id "a"]).all isReadable = true)
  have hsame := (hselectors [[(.descendant, .mk "*" [.id "a"])]]
    [[(.descendant, .mk "*" [.id "'\"] | //*['"])]] (List.cons_ne_nil _ _) hreadable rfl).1
  exact ⟨by decide, hliteral _ _ 40 hlength, hsame⟩

end MarkupTemplate.Css
