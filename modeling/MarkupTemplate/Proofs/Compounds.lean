import MarkupTemplate.Proofs.AttributeTests
import MarkupTemplate.Proofs.Siblings

/-!
# The elements that compounds fit

What the conditions of compounds ask of an element, and that the steps and predicates which they
are compiled to leave the elements they fit.

* `Compound.fits` — whether a compound fits an element. Which siblings a position among siblings of
  a type counts is left open; `byTypeName` and `byOwnName` are two answers.
* `empty_decides` — the predicate for emptiness.
* `asksNoPosition` — a compound with positions is tested right only where siblings are few, and one
  without them everywhere.
* `Narrows` — predicates leave what passes a test.
* `Compound.isTested` — the node test and the predicates of a compound leave what it fits, by
  induction on the compounds inside its negations.
* `Compound.leads` — the steps of a combinator lead to what the compound behind it fits.
-/

namespace MarkupTemplate.Css

open XPath

variable {s : Scope} {p q : Place} {e : Expr} {es es' : List Expr} {fit fit' : Place → Bool}
  {type : String} {counted counted' : String → Place → Place → Bool}

/-! ## Fitting -/

mutual

/-- Whether a condition behind a type name holds of an element. `counted type p` says of a sibling
of `p` whether a position among siblings of the type counts it. -/
def Simple.fits (s : Scope) (counted : String → Place → Place → Bool) (type : String)
    (p : Place) : Simple → Bool
  | .id name => (attributeValues s p "id".toList).contains name.toList
  | .cls name => hasWord (firstValue (attributeValues s p "class".toList)) name.toList
  | .present name => !(attributesNamed s p name.toList).isEmpty
  | .attribute name comparison value =>
    valuesFit (attributeValues s p name.toList) comparison value.toList
  | .empty => (s.children p).all fun q => !isElement s q && !isText s q
  | .negation alternatives => !anyFits s counted p alternatives
  | .childPosition nth => isAt s (isElement s) p nth
  | .typePosition nth => isAt s (counted type p) p nth

/-- Whether a compound fits an element: it is of the type, and all conditions hold. -/
def Compound.fits (s : Scope) (counted : String → Place → Place → Bool) (p : Place) :
    Compound → Bool
  | .mk type conditions => isOfType s type p && allFit s counted type p conditions

/-- Whether all conditions hold. -/
def allFit (s : Scope) (counted : String → Place → Place → Bool) (type : String) (p : Place) :
    List Simple → Bool
  | [] => true
  | condition :: rest => condition.fits s counted type p && allFit s counted type p rest

/-- Whether one of the compounds fits. -/
def anyFits (s : Scope) (counted : String → Place → Place → Bool) (p : Place) :
    List Compound → Bool
  | [] => false
  | compound :: rest => compound.fits s counted p || anyFits s counted p rest

end

theorem allFit_eq_all (conditions : List Simple) : allFit s counted type p conditions =
    conditions.all fun condition => condition.fits s counted type p := by
  induction conditions with
  | nil => rfl
  | cons condition conditions ih => rw [allFit, List.all_cons, ih]

theorem anyFits_eq_any (compounds : List Compound) : anyFits s counted p compounds =
    compounds.any fun compound => compound.fits s counted p := by
  induction compounds with
  | nil => rfl
  | cons compound compounds ih => rw [anyFits, List.any_cons, ih]

theorem isElement_of_isOfType (h : isOfType s type p = true) : isElement s p = true := by
  rw [isOfType, Bool.and_eq_true] at h
  exact h.1

theorem Compound.isElement_of_fits {compound : Compound}
    (h : compound.fits s counted p = true) : isElement s p = true := by
  obtain ⟨type, conditions⟩ := compound
  rw [fits, Bool.and_eq_true] at h
  exact isElement_of_isOfType h.1

/-! ## Counting -/

/-- Behind a type name the siblings with that name are counted, and else all elements. -/
def byTypeName (s : Scope) (type : String) (_ q : Place) : Bool :=
  isOfType s type q

/-- The siblings with the name of the element itself are counted, whatever is in front of the
position. -/
def byOwnName (s : Scope) (_ : String) (p q : Place) : Bool :=
  isElement s q && Scope.sameName (s.name (.tree q)) (s.name (.tree p))

/-- Behind a type name the siblings with the name of the element itself are counted, and else all
elements. -/
def byOwnNameIfTyped (s : Scope) (type : String) (p q : Place) : Bool :=
  if type = "*" then isElement s q else byOwnName s type p q

/-- An element of a type has the name of the type. -/
theorem byTypeName_eq (h : isOfType s type p = true) :
    byTypeName s type p = byOwnNameIfTyped s type p := by
  funext q
  rw [isOfType, Bool.and_eq_true, Bool.or_eq_true, decide_eq_true_eq] at h
  rw [byTypeName, byOwnNameIfTyped, isOfType, byOwnName]
  split_ifs with htype
  · rw [decide_eq_true htype, Bool.true_or, Bool.and_true]
  · have hname := h.2.resolve_left htype
    rw [decide_eq_false htype, Bool.false_or]
    simp only [Scope.sameName, Text.sameLetters, beq_iff_eq] at hname ⊢
    rw [hname]

mutual

/-- Whether a compound fits depends only on what is counted for elements of its type. -/
theorem Compound.fits_congr
    (h : ∀ type p, isOfType s type p = true → counted type p = counted' type p) :
    ∀ (compound : Compound) (p : Place), compound.fits s counted p = compound.fits s counted' p
  | .mk type conditions, p => by
    rw [Compound.fits, Compound.fits]
    cases htype : isOfType s type p with
    | true => rw [allFit_congr h conditions type p htype]
    | false => rw [Bool.false_and, Bool.false_and]

theorem Simple.fits_congr
    (h : ∀ type p, isOfType s type p = true → counted type p = counted' type p) :
    ∀ (condition : Simple) (type : String) (p : Place), isOfType s type p = true →
      condition.fits s counted type p = condition.fits s counted' type p
  | .typePosition nth, type, p, htype => by
    rw [Simple.fits, Simple.fits, h type p htype]
  | .negation alternatives, type, p, htype => by
    rw [Simple.fits, Simple.fits, anyFits_congr h alternatives p]
  | .id _, _, _, _ | .cls _, _, _, _ | .present _, _, _, _ | .attribute _ _ _, _, _, _
  | .empty, _, _, _ | .childPosition _, _, _, _ => rfl

theorem allFit_congr
    (h : ∀ type p, isOfType s type p = true → counted type p = counted' type p) :
    ∀ (conditions : List Simple) (type : String) (p : Place), isOfType s type p = true →
      allFit s counted type p conditions = allFit s counted' type p conditions
  | [], _, _, _ => rfl
  | condition :: rest, type, p, htype => by
    rw [allFit, allFit, Simple.fits_congr h condition type p htype,
      allFit_congr h rest type p htype]

theorem anyFits_congr
    (h : ∀ type p, isOfType s type p = true → counted type p = counted' type p) :
    ∀ (compounds : List Compound) (p : Place),
      anyFits s counted p compounds = anyFits s counted' p compounds
  | [], _ => rfl
  | compound :: rest, p => by
    rw [anyFits, anyFits, Compound.fits_congr h compound p, anyFits_congr h rest p]

end

/-! ## Checks -/

instance : DecidablePred Nth.IsSmall
  | .first | .last => .isTrue trivial
  | .formula step offset =>
    inferInstanceAs (Decidable (step.natAbs < 2 ^ 52 ∧ offset.natAbs < 2 ^ 52))

/-- The numbers of a position are less than `2 ^ 52` in size. -/
def Simple.isSmall : Simple → Bool
  | .childPosition nth | .typePosition nth => decide nth.IsSmall
  | _ => true

/-- The numbers of every position are less than `2 ^ 52` in size. -/
def hasSmallPositions (compound : Compound) : Bool :=
  compound.conditions.all Simple.isSmall

/-- A condition that is a position. -/
def Simple.isPosition : Simple → Bool
  | .childPosition _ | .typePosition _ => true
  | _ => false

/-- No condition is a position. -/
def asksNoPosition (compound : Compound) : Bool :=
  compound.conditions.all fun c => !c.isPosition

/-- Every negation has something to negate, and the numbers of every position are small. -/
def isTestable (compound : Compound) : Bool :=
  isFilled compound && hasSmallPositions compound

theorem testable_iff {conditions : List Simple} :
    (Compound.mk type conditions).all isTestable = true ↔
      ∀ c ∈ conditions, c.isFilled = true ∧ c.isSmall = true ∧ c.all isTestable = true := by
  rw [Compound.all_iff, isTestable, isFilled, hasSmallPositions, Bool.and_eq_true,
    List.all_eq_true, List.all_eq_true, and_assoc]
  simp only [Compound.conditions, ← forall₂_and]

theorem asksNoPosition_iff {conditions : List Simple} :
    (Compound.mk type conditions).all asksNoPosition = true ↔
      (∀ c ∈ conditions, c.isPosition = false) ∧ ∀ c ∈ conditions, c.all asksNoPosition = true := by
  simp only [Compound.all_iff, asksNoPosition, List.all_eq_true, Compound.conditions,
    Bool.not_eq_true']

/-! ## Elements among siblings -/

theorem exists_parent (hp : isElement s p = true) : ∃ m, p ∈ s.children m := by
  have hne := path_ne_nil_of_isElement hp
  obtain ⟨m, hm⟩ : ∃ m, p.parent? = some m := by
    rw [Place.parent?]
    rw [if_neg (by simpa using hne)]
    exact ⟨_, rfl⟩
  exact ⟨m, (mem_children_iff hp).2 (by simp [hm])⟩

/-- Around an element there are fewer siblings to count than positions can be calculated with. -/
theorem few_around (hfew : HasFewSiblings s) (hp : isElement s p = true) (type : String) :
    p.earlierSiblings.countP (isOfType s type) + (s.laterSiblings p).countP (isOfType s type) <
      2 ^ 52 := by
  obtain ⟨m, hm⟩ := exists_parent hp
  have hchildren := hfew m
  rw [Scope.children_eq hm, List.countP_append, List.countP_reverse,
    List.countP_cons_of_pos hp] at hchildren
  have hsub (ps : List Place) : ps.countP (isOfType s type) ≤ ps.countP (isElement s) :=
    List.countP_mono_left fun q _ => isElement_of_isOfType
  have hearlier := hsub p.earlierSiblings
  have hlater := hsub (s.laterSiblings p)
  omega

/-! ## Elements without content -/

/-- Nothing on the child axis passes a test if none of the children does. -/
theorem childAxis_isEmpty (test : NodeTest) (holds : Place → Bool)
    (h : ∀ q ∈ s.children p, s.passes .child test (.tree q) = holds q) :
    ((s.axis .child (.tree p)).filter (s.passes .child test)).isEmpty =
      (s.children p).all fun q => !holds q := by
  rw [Bool.eq_iff_iff, List.isEmpty_iff, List.filter_eq_nil_iff, List.all_eq_true]
  constructor
  · intro hnone q hq
    rw [← h q hq, Bool.not_eq_true', ← Bool.not_eq_true]
    exact hnone _ (List.mem_map_of_mem hq)
  · intro hall n hn
    obtain ⟨q, hq, rfl⟩ := List.mem_map.1 hn
    rw [h q hq]
    simpa using hall q hq

/-- The count of elements among the children is zero if there are none. -/
theorem childCount_decides (s : Scope) (p : Place) :
    Decides s p (equation (.call "count" [.path .context [.mk .child .any []]]) (natExpr 0))
      ((s.children p).all fun q => !isElement s q) := by
  have hempty := childAxis_isEmpty (p := p) .any (isElement s) fun q hq =>
    passes_any (by decide) (path_ne_nil_of_mem_children hq)
  have hlength (ns : List Node) : decide (ns.length = 0) = ns.isEmpty := by cases ns <;> simp
  refine decides_boolean fun i k => ?_
  rw [equation, evaluate, evaluate_count (evaluate_axis rfl), natExpr, evaluate, ← hempty]
  change Except.ok (Value.atom (.boolean (Float.ofNat _ == Float.ofScientific 0 true 0))) = _
  rw [Number.ofNat_beq_zero, hlength]

theorem childTexts_decides (s : Scope) (p : Place) :
    Decides s p (.call "not" [.path .context [.mk .child .text []]])
      ((s.children p).all fun q => !isText s q) := by
  have hempty := childAxis_isEmpty (s := s) (p := p) .text (isText s) fun q _ => rfl
  have hnodes : Decides s p (.path .context [.mk .child .text []])
      (!((s.axis .child (.tree p)).filter (s.passes .child .text)).isEmpty) :=
    decides_nodes fun i k => evaluate_axis rfl
  have hnot := hnodes.not
  rwa [Bool.not_not, hempty] at hnot

/-- The condition `:empty` is that no child is an element and none is a text. -/
theorem empty_decides (s : Scope) (p : Place) :
    Decides s p emptyExpr ((s.children p).all fun q => !isElement s q && !isText s q) := by
  have hboth : ((s.children p).all fun q => !isElement s q && !isText s q) =
      ((s.children p).all (fun q => !isElement s q) &&
        (s.children p).all fun q => !isText s q) := by
    rw [Bool.eq_iff_iff]
    simp only [List.all_eq_true, Bool.and_eq_true]
    exact forall₂_and
  rw [hboth]
  exact (childCount_decides s p).and (childTexts_decides s p)

/-! ## Predicates -/

/-- Of elements the predicates leave those that pass. -/
def Narrows (s : Scope) (es : List Expr) (fit : Place → Bool) : Prop :=
  ∀ (f : Focus) (ps : List Place), f.scope = s → (∀ p ∈ ps, isElement s p = true) →
    narrow f (ps.map .tree) es = .ok ((ps.filter fit).map .tree)

theorem narrows_nil : Narrows s [] fun _ => true := by
  intro f ps _ _
  rw [narrow, List.filter_true]

theorem narrows_of_decides (h : ∀ p, isElement s p = true → Decides s p e (fit p)) :
    Narrows s [e] fit := by
  intro f ps hf hps
  subst hf
  exact narrow_eq_filter fun p hp => h p (hps p hp)

theorem Narrows.append (h : Narrows s es fit) (h' : Narrows s es' fit') :
    Narrows s (es ++ es') fun p => fit p && fit' p := by
  intro f ps hf hps
  rw [narrow_append, h f ps hf hps, ok_bind,
    h' f _ hf fun p hp => hps p (List.mem_of_mem_filter hp), List.filter_filter]
  simp only [Bool.and_comm]

/-- The predicate for positions leaves the elements at all of them. -/
theorem siblingPositions_narrow {positions : List Nth} (hfew : positions ≠ [] → HasFewSiblings s)
    (hsmall : ∀ nth ∈ positions, nth.IsSmall) (type : String) :
    Narrows s (positionExprs (siblingPositionExpr type) positions)
      fun p => positions.all (isAt s (isOfType s type) p) := by
  rw [positionExprs]
  by_cases hempty : positions.isEmpty = true
  · rw [if_pos hempty, List.isEmpty_iff.1 hempty]
    exact narrows_nil
  · rw [if_neg hempty]
    have hne : positions ≠ [] := by simpa using hempty
    exact narrows_of_decides fun p hp => siblingPositionExpr_decides hne hsmall
      (few_around (hfew hne) hp type)

/-! ## Compounds -/

theorem mem_childPositions {conditions : List Simple} {nth : Nth} :
    nth ∈ childPositions conditions ↔ .childPosition nth ∈ conditions := by
  rw [childPositions, List.mem_filterMap]
  constructor
  · rintro ⟨c, hc, hnth⟩
    cases c <;> simp_all
  · exact fun h => ⟨_, h, rfl⟩

theorem mem_typePositions {conditions : List Simple} {nth : Nth} :
    nth ∈ typePositions conditions ↔ .typePosition nth ∈ conditions := by
  rw [typePositions, List.mem_filterMap]
  constructor
  · rintro ⟨c, hc, hnth⟩
    cases c <;> simp_all
  · exact fun h => ⟨_, h, rfl⟩

/-- All conditions hold if the positions among all siblings do, those among siblings of the type,
and what is no position. -/
theorem allFit_eq (conditions : List Simple) : allFit s counted type p conditions =
    ((childPositions conditions).all (isAt s (isElement s) p) &&
      ((typePositions conditions).all (isAt s (counted type p) p) &&
        conditions.all fun c => c.isPosition || c.fits s counted type p)) := by
  rw [Bool.eq_iff_iff, allFit_eq_all]
  simp only [Bool.and_eq_true, Bool.or_eq_true, List.all_eq_true, mem_childPositions,
    mem_typePositions]
  constructor
  · exact fun h => ⟨fun nth hnth => h _ hnth, fun nth hnth => h _ hnth, fun c hc => .inr (h c hc)⟩
  · rintro ⟨hchild, htype, hother⟩ c hc
    cases c with
    | childPosition nth => exact hchild nth hc
    | typePosition nth => exact htype nth hc
    | id | cls | present | «attribute» | empty | negation =>
      exact (hother _ hc).resolve_left Bool.false_ne_true

theorem positions_small {conditions : List Simple}
    (h : (Compound.mk type conditions).all isTestable = true) :
    (∀ nth ∈ childPositions conditions, nth.IsSmall) ∧
      ∀ nth ∈ typePositions conditions, nth.IsSmall := by
  rw [testable_iff] at h
  refine ⟨fun nth hnth => ?_, fun nth hnth => ?_⟩
  · exact of_decide_eq_true (h _ (mem_childPositions.1 hnth)).2.1
  · exact of_decide_eq_true (h _ (mem_typePositions.1 hnth)).2.1

/-- Siblings are few wherever positions are asked for. -/
theorem few_of_positions {conditions : List Simple}
    (hfew : (Compound.mk type conditions).all asksNoPosition = true ∨ HasFewSiblings s) :
    (childPositions conditions ≠ [] → HasFewSiblings s) ∧
      (typePositions conditions ≠ [] → HasFewSiblings s) := by
  rw [asksNoPosition_iff] at hfew
  constructor
  · intro hne
    obtain ⟨nth, hnth⟩ := List.exists_mem_of_ne_nil _ hne
    exact hfew.resolve_left fun hnone => Bool.noConfusion (hnone.1 _ (mem_childPositions.1 hnth))
  · intro hne
    obtain ⟨nth, hnth⟩ := List.exists_mem_of_ne_nil _ hne
    exact hfew.resolve_left fun hnone => Bool.noConfusion (hnone.1 _ (mem_typePositions.1 hnth))

/-- The predicates of a node test. -/
def testExprs (compound : Compound) : List Expr :=
  positionExprs (siblingPositionExpr "*") (childPositions compound.conditions) ++
    positionExprs (siblingPositionExpr compound.type) (typePositions compound.conditions) ++
    conditionExprs compound.conditions

theorem testStep_eq (a : Axis) (compound : Compound) :
    testStep a compound = .mk a (typeTest compound.type) (testExprs compound) := by
  obtain ⟨type, conditions⟩ := compound
  rw [testStep]
  rfl

/-- Of places below a root, the node test and the predicates of the compound leave those that it
fits. -/
def Compound.IsTested (s : Scope) (compound : Compound) : Prop :=
  ∀ (a : Axis) (f : Focus) (ps : List Place), a ≠ .attribute → f.scope = s →
    (∀ p ∈ ps, p.path ≠ []) →
      narrow f ((ps.map .tree).filter (s.passes a (typeTest compound.type))) (testExprs compound) =
        .ok ((ps.filter (compound.fits s (byTypeName s))).map .tree)

theorem filter_passes {a : Axis} {ps : List Place} (ha : a ≠ .attribute)
    (hps : ∀ p ∈ ps, p.path ≠ []) (type : String) :
    (ps.map Node.tree).filter (s.passes a (typeTest type)) =
      (ps.filter (isOfType s type)).map .tree := by
  rw [List.filter_map]
  exact congrArg (List.map _) (List.filter_congr fun p hp => passes_type ha (hps p hp))

theorem isOfType_star : isOfType s "*" = isElement s := by
  funext p
  rw [isOfType, decide_eq_true rfl, Bool.true_or, Bool.and_true]

theorem isTested_of_conditions {conditions : List Simple}
    (hfew : (Compound.mk type conditions).all asksNoPosition = true ∨ HasFewSiblings s)
    (hsmall : (Compound.mk type conditions).all isTestable = true)
    (h : Narrows s (conditionExprs conditions)
      fun p => conditions.all fun c => c.isPosition || c.fits s (byTypeName s) type p) :
    (Compound.mk type conditions).IsTested s := by
  intro a f ps ha hf hps
  obtain ⟨hchild, htype⟩ := positions_small hsmall
  obtain ⟨hfewChild, hfewType⟩ := few_of_positions hfew
  have hnarrow := ((siblingPositions_narrow hfewChild hchild "*").append
    (siblingPositions_narrow hfewType htype type)).append h f (ps.filter (isOfType s type)) hf
    fun p hp => isElement_of_isOfType (List.of_mem_filter hp)
  have hexprs : testExprs (.mk type conditions) =
      positionExprs (siblingPositionExpr "*") (childPositions conditions) ++
        positionExprs (siblingPositionExpr type) (typePositions conditions) ++
        conditionExprs conditions := rfl
  rw [Compound.type, filter_passes ha hps, hexprs, hnarrow, List.filter_filter]
  refine congrArg (fun qs : List Place => Except.ok (qs.map Node.tree)) ?_
  refine List.filter_congr fun p _ => ?_
  rw [Compound.fits, allFit_eq, isOfType_star, ← Bool.and_assoc (List.all _ _), Bool.and_comm]
  rfl

/-- A compound as a step to the context node itself finds it, if the compound fits it. -/
theorem Compound.IsTested.finds {compound : Compound} (h : compound.IsTested s) (hp : p.path ≠ [])
    (i k : Nat) : Finds ⟨s, .tree p, i, k⟩ (.path .context [testStep .self compound])
      fun q => q = p ∧ compound.fits s (byTypeName s) p = true := by
  have hnarrow := h .self ⟨s, .tree p, i, k⟩ [p] (by decide) rfl (by simpa using hp)
  refine ⟨[p].filter (compound.fits s (byTypeName s)), ?_, fun q => ?_⟩
  · rw [testStep_eq]
    exact evaluate_step rfl hnarrow
  · rw [List.mem_filter, List.mem_singleton]
    exact and_congr_right fun hq => by rw [hq]

theorem selfPaths_eq (compounds : List Compound) : selfPaths compounds =
    compounds.map fun compound => .path .context [testStep .self compound] := by
  induction compounds with
  | nil => rfl
  | cons compound compounds ih => rw [selfPaths, List.map_cons, ih]

theorem noneFits_decides {alternatives : List Compound} (hne : alternatives ≠ [])
    (h : ∀ compound ∈ alternatives, compound.IsTested s) (hp : p.path ≠ []) :
    Decides s p (.call "not" [folded .union (selfPaths alternatives)])
      (!anyFits s (byTypeName s) p alternatives) := by
  refine (decides_of_finds (P := fun q => ∃ compound ∈ alternatives,
    q = p ∧ compound.fits s (byTypeName s) p = true) (fun i k => ?_) ?_).not
  · rw [selfPaths_eq]
    exact finds_folded hne fun compound hcompound => (h compound hcompound).finds hp i k
  · rw [anyFits_eq_any, List.any_eq_true]
    constructor
    · rintro ⟨compound, hcompound, hfits⟩
      exact ⟨p, compound, hcompound, rfl, hfits⟩
    · rintro ⟨q, compound, hcompound, -, hfits⟩
      exact ⟨compound, hcompound, hfits⟩

mutual

/-- The predicate of a condition leaves the elements of which it holds, and a position is left to
another predicate. -/
theorem Simple.narrows (type : String) : ∀ condition : Simple,
    condition.all asksNoPosition = true ∨ HasFewSiblings s → condition.isFilled = true →
      condition.all isTestable = true → Narrows s (conditionExpr condition)
        fun p => condition.isPosition || condition.fits s (byTypeName s) type p
  | .id name, _, _, _ => narrows_of_decides fun p _ => equation_decides s p "id" name
  | .cls name, _, _, _ => narrows_of_decides fun p _ => wordTest_decides s p "class" name
  | .present name, _, _, _ => narrows_of_decides fun p _ => attributePath_decides s p name
  | .attribute name comparison value, _, _, _ =>
    narrows_of_decides fun p _ => attributeExpr_decides s p name comparison value
  | .empty, _, _, _ => narrows_of_decides fun p _ => empty_decides s p
  | .negation alternatives, hfew, hfilled, hall => by
    rw [Simple.all] at hfew hall
    have hne : alternatives ≠ [] := by
      simpa [Simple.isFilled] using hfilled
    exact narrows_of_decides fun p hp =>
      noneFits_decides hne (areTested alternatives hfew hall) (path_ne_nil_of_isElement hp)
  | .childPosition _, _, _, _ | .typePosition _, _, _, _ => narrows_nil

theorem conditions_narrow (type : String) : ∀ conditions : List Simple,
    (∀ c ∈ conditions, c.all asksNoPosition = true) ∨ HasFewSiblings s →
      (∀ c ∈ conditions, c.isFilled = true ∧ c.isSmall = true ∧ c.all isTestable = true) →
      Narrows s (conditionExprs conditions)
        fun p => conditions.all fun c => c.isPosition || c.fits s (byTypeName s) type p
  | [], _, _ => narrows_nil
  | condition :: rest, hfew, h => by
    obtain ⟨hfilled, -, hall⟩ := h condition List.mem_cons_self
    rw [List.forall_mem_cons, and_or_right] at hfew
    have hfirst := Simple.narrows type condition hfew.1 hfilled hall
    have hrest := conditions_narrow type rest hfew.2 fun c hc => h c (List.mem_cons_of_mem _ hc)
    rw [conditionExprs]
    exact hfirst.append hrest

/-- **The node test and the predicates of a compound leave what the compound fits.** -/
theorem Compound.isTested : ∀ compound : Compound,
    compound.all asksNoPosition = true ∨ HasFewSiblings s → compound.all isTestable = true →
      compound.IsTested s
  | .mk type conditions, hfew, h =>
    isTested_of_conditions hfew h (conditions_narrow type conditions
      (hfew.imp_left fun hnone => (asksNoPosition_iff.1 hnone).2) (testable_iff.1 h))

theorem areTested : ∀ compounds : List Compound,
    compoundsAll asksNoPosition compounds = true ∨ HasFewSiblings s →
      compoundsAll isTestable compounds = true → ∀ compound ∈ compounds, compound.IsTested s
  | [], _, _, _, hmem => by cases hmem
  | compound :: rest, hfew, h, other, hmem => by
    rw [compoundsAll, Bool.and_eq_true, and_or_right] at hfew
    rw [compoundsAll, Bool.and_eq_true] at h
    rcases List.mem_cons.1 hmem with heq | hmem
    · exact heq ▸ compound.isTested hfew.1 h.1
    · exact areTested rest hfew.2 h.2 other hmem

end

/-! ## Steps -/

/-- A step along an axis leads to what on it the compound fits. -/
theorem Compound.IsTested.leads_axis {compound : Compound} (h : compound.IsTested s)
    {D : Place → Prop} {a : Axis} {on : Place → List Place} (ha : a ≠ .attribute)
    (haxis : ∀ p, s.treeAxis p a = (on p).map .tree) (hon : ∀ p, D p → ∀ q ∈ on p, q.path ≠ []) :
    Leads s D [testStep a compound]
      fun p q => q ∈ on p ∧ compound.fits s (byTypeName s) q = true := by
  rw [testStep_eq]
  refine (leads_step (fun p => (on p).filter (compound.fits s (byTypeName s)))
    fun f hf p hD => ?_).congr fun p q _ => List.mem_filter
  rw [stepAt, hf, Scope.axis, haxis]
  exact h a f (on p) ha hf (hon p hD)

/-- From a place below the root the step to the place itself leads to it if the compound fits. -/
theorem Compound.IsTested.leads_self {compound : Compound} (h : compound.IsTested s) :
    Leads s (fun p => p.path ≠ []) [testStep .self compound]
      fun p q => q ∈ [p] ∧ compound.fits s (byTypeName s) q = true :=
  h.leads_axis (by decide) (fun _ => rfl) fun _ hp _ hq => List.mem_singleton.1 hq ▸ hp

theorem Leads.self {D : Place → Prop} {steps : List Step} {on : Place → List Place}
    {compound : Compound} (h : compound.IsTested s) (hsteps : Leads s D steps fun p q => q ∈ on p)
    (hon : ∀ p, D p → ∀ q ∈ on p, q.path ≠ []) :
    Leads s D (steps ++ [testStep .self compound])
      fun p q => q ∈ on p ∧ compound.fits s (byTypeName s) q = true := by
  refine (hsteps.append h.leads_self fun p q hp hq => hon p hp q hq).congr fun p q _ => ?_
  constructor
  · rintro ⟨m, hm, hq, hfits⟩
    exact ⟨List.mem_singleton.1 hq ▸ hm, hfits⟩
  · rintro ⟨hq, hfits⟩
    exact ⟨q, hq, List.mem_singleton_self q, hfits⟩

/-- Of the children that pass a test, the predicate for positions leaves those at all of them. -/
theorem narrow_positions {f : Focus} {positions : List Nth}
    (hfew : positions ≠ [] → (s.children p).countP fit ≤ 2 ^ 52)
    (hsmall : ∀ nth ∈ positions, nth.IsSmall) :
    narrow f (((s.children p).filter fit).map .tree) (positionExprs listPositionExpr positions) =
      .ok ((((s.children p).filter fit).filter fun q =>
        positions.all (isAt s fit q)).map .tree) := by
  rw [positionExprs]
  by_cases hempty : positions.isEmpty = true
  · rw [if_pos hempty, List.isEmpty_iff.1 hempty, narrow]
    simp only [List.all_nil, List.filter_true]
  · rw [if_neg hempty]
    have hne : positions ≠ [] := by simpa using hempty
    exact narrow_listPosition hne hsmall (hfew hne)

theorem few_children (hfew : HasFewSiblings s) (p : Place) (type : String) :
    (s.children p).countP (isOfType s type) ≤ 2 ^ 52 :=
  (List.countP_mono_left fun _ _ => isElement_of_isOfType).trans (hfew p)

/-- A step to children counts positions in the list of those that are of the type. -/
theorem leads_positions {positions : List Nth} (hfew : positions ≠ [] → HasFewSiblings s)
    (hsmall : ∀ nth ∈ positions, nth.IsSmall) (hes : Narrows s es fit) (type : String)
    (D : Place → Prop) :
    Leads s D [.mk .child (typeTest type) (positionExprs listPositionExpr positions ++ es)]
      fun p q => q ∈ (s.children p).filter fun q =>
        isOfType s type q && (positions.all (isAt s (isOfType s type) q) && fit q) := by
  refine leads_step _ fun f hf p _ => ?_
  rw [stepAt, hf]
  change narrow f (((s.children p).map Node.tree).filter _) _ = _
  rw [filter_passes (by decide) fun q => path_ne_nil_of_mem_children, narrow_append,
    narrow_positions (fun hne => few_children (hfew hne) p type) hsmall, ok_bind,
    List.filter_filter, hes f _ hf fun q hq => ?_, List.filter_filter]
  · refine congrArg (fun qs : List Place => Except.ok (qs.map Node.tree)) ?_
    refine List.filter_congr fun q _ => ?_
    rw [Bool.and_comm, Bool.and_comm (List.all _ _), Bool.and_assoc]
  · have hq := List.of_mem_filter hq
    rw [Bool.and_eq_true] at hq
    exact isElement_of_isOfType hq.2

theorem withoutChildPositions_testable {compound : Compound}
    (h : compound.all isTestable = true) :
    (withoutChildPositions compound).all isTestable = true := by
  obtain ⟨type, conditions⟩ := compound
  rw [testable_iff] at h
  exact testable_iff.2 fun c hc => h c (List.mem_of_mem_filter hc)

/-- A compound fits if it does without the positions among all siblings, and these hold. -/
theorem fits_withoutChildPositions (compound : Compound) :
    ((childPositions compound.conditions).all (isAt s (isElement s) p) &&
      (withoutChildPositions compound).fits s counted p) = compound.fits s counted p := by
  obtain ⟨type, conditions⟩ := compound
  rw [withoutChildPositions, Compound.fits, Compound.fits, Compound.conditions, Compound.type,
    Bool.and_left_comm]
  refine congrArg _ ?_
  rw [Bool.eq_iff_iff, allFit_eq_all, allFit_eq_all]
  simp only [Bool.and_eq_true, List.all_eq_true, mem_childPositions, List.mem_filter]
  constructor
  · rintro ⟨hchild, hother⟩ c hc
    cases c with
    | childPosition nth => exact hchild nth hc
    | id | cls | present | «attribute» | empty | negation | typePosition =>
      exact hother _ ⟨hc, rfl⟩
  · exact fun h => ⟨fun nth hnth => h _ hnth, fun c hc => h c hc.1⟩

/-- **The steps to children lead to those that the compound fits**, whether positions are counted
in the list of the children or not. -/
theorem childSteps_lead {compound : Compound}
    (hfew : compound.all asksNoPosition = true ∨ HasFewSiblings s) (D : Place → Prop)
    (h : compound.all isTestable = true) : Leads s D (childSteps compound)
      fun p q => q ∈ s.children p ∧ compound.fits s (byTypeName s) q = true := by
  have hwithout (hfew : HasFewSiblings s) :=
    (withoutChildPositions compound).isTested (.inr hfew) (withoutChildPositions_testable h)
  obtain ⟨type, conditions⟩ := compound
  obtain ⟨hchild, htype⟩ := positions_small h
  obtain ⟨hfewChild, hfewType⟩ := few_of_positions hfew
  have hconditions := conditions_narrow type conditions
    (hfew.imp_left fun hnone => (asksNoPosition_iff.1 hnone).2) (testable_iff.1 h)
  rw [childSteps]
  split_ifs with hempty <;> rw [Compound.conditions] at hempty
  · refine (leads_positions hfewType htype hconditions type D).congr fun p q _ => ?_
    rw [List.mem_filter, Compound.fits, allFit_eq, List.isEmpty_iff.1 hempty, List.all_nil,
      Bool.true_and]
    rfl
  · have hlist := leads_positions hfewChild hchild narrows_nil "*" D
    rw [positionExprs, if_neg hempty, List.append_nil] at hlist
    have hany : typeTest "*" = .any := rfl
    rw [hany] at hlist
    have hsteps := Leads.self (hwithout (hfewChild (by simpa using hempty))) hlist fun p _ q hq =>
      path_ne_nil_of_mem_children (List.mem_of_mem_filter hq)
    refine hsteps.congr fun p q _ => ?_
    rw [← fits_withoutChildPositions (.mk type conditions), List.mem_filter, isOfType_star,
      Bool.and_eq_true, Bool.and_eq_true, Bool.and_eq_true]
    constructor
    · rintro ⟨⟨hq, -, hpositions, -⟩, hfits⟩
      exact ⟨hq, hpositions, hfits⟩
    · rintro ⟨hq, hpositions, hfits⟩
      exact ⟨⟨hq, Compound.isElement_of_fits hfits, hpositions, rfl⟩, hfits⟩

/-- **The steps of a combinator lead to what the compound fits**, of what the combinator leads
to. -/
theorem Compound.leads {compound : Compound}
    (hfew : compound.all asksNoPosition = true ∨ HasFewSiblings s)
    (h : compound.all isTestable = true) (D : Place → Prop) (combinator : Combinator) :
    Leads s D (stepSteps combinator compound)
      fun p q => q ∈ reached s combinator p ∧ compound.fits s (byTypeName s) q = true := by
  have htested := compound.isTested hfew h
  unfold stepSteps
  cases combinator with
  | descendant =>
    have hsteps := (leads_descendantOrSelf s D).append
      (childSteps_lead hfew (fun _ => True) h) fun _ _ _ _ => trivial
    refine hsteps.congr fun p q _ => ?_
    rw [reached, List.mem_flatMap]
    constructor
    · rintro ⟨m, hm, hq, hfits⟩
      exact ⟨⟨m, hm, hq⟩, hfits⟩
    · rintro ⟨⟨m, hm, hq⟩, hfits⟩
      exact ⟨m, hm, hq, hfits⟩
  | child => exact childSteps_lead hfew D h
  | adjacent =>
    exact Leads.self htested (leads_nextElement s D) fun p _ q hq =>
      path_ne_nil_of_mem_laterSiblings (List.mem_of_mem_filter (List.mem_of_mem_take hq))
  | sibling =>
    exact htested.leads_axis (by decide) (fun _ => rfl)
      fun _ _ _ => path_ne_nil_of_mem_laterSiblings

end MarkupTemplate.Css
