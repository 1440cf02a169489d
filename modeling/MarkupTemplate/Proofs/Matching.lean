import MarkupTemplate.Proofs.Selections

/-!
# The elements that a selector matches

The query that a selector list is compiled to selects the elements that the list matches.

* `Pattern.fits_compound`, `Chain.selects_branch`, `SelectorList.selects_branches` — what is written
  matches what the compounds and branches match that it is read as.
* `Pattern.all_of` — a check of all that is written here; names are names in queries too, negations
  have something to negate, and no position is asked for.
* `select_matching` — the query of a selector list.
-/

namespace MarkupTemplate.Css

open XPath

variable {s : Scope} {p : Place} {counted : String → Place → Place → Bool}
  {check : Compound → Bool}

/-! ## Matching -/

theorem TypeName.isOfType_type (s : Scope) (p : Place) (type : TypeName) :
    isOfType s type.type p = (isElement s p && type.fits s p) := by
  cases type with
  | star => rw [TypeName.type, isOfType_star, fits, Bool.and_true]
  | name n =>
    have hstar : String.ofList (Text.lower n.text) ≠ "*" := by
      intro h
      have hsimple := isSimpleName_lower n.isSimpleName
      rw [← String.toList_inj, String.toList_ofList] at h
      rw [h] at hsimple
      revert hsimple
      decide
    rw [TypeName.type, isOfType, decide_eq_false hstar, Bool.false_or, Scope.sameName,
      String.toList_ofList, sameLetters_lower, fits]

mutual

theorem Condition.fits_simple : ∀ (condition : Condition) (type : String),
    condition.simple.fits s counted type p = condition.fits s p
  | .id name, _ => by
    rw [Condition.simple, Simple.fits, contains_attributeValues,
      String.toList_ofList (l := Text.lower name.text), Condition.fits]
  | .cls name, _ => by
    have hne : Text.lower name.text ≠ [] := by
      simpa [Text.lower] using name.ne_nil
    rw [Condition.simple, Simple.fits, String.toList_ofList (l := Text.lower name.text),
      hasWord_eq hne (not_mem_lower name (by decide)), ← classWords_eq, Condition.fits]
  | .present name, _ => by
    rw [Condition.simple, Simple.fits, String.toList_ofList, attributesNamed_lower, Condition.fits]
  | .equal name value, _ => by
    rw [Condition.simple, Simple.fits, valuesFit, contains_attributeValues, String.toList_ofList,
      String.toList_ofList, attributesNamed_lower, Condition.fits]
  | .empty, _ => by
    rw [Condition.simple, Simple.fits, Condition.fits]
  | .negation alternatives, _ => by
    rw [Condition.simple, Simple.fits, alternatives.anyFits_compounds, Condition.fits]

theorem Alternatives.anyFits_compounds : ∀ alternatives : Alternatives,
    anyFits s counted p alternatives.compounds = alternatives.fits s p
  | .last _ pattern _ => by
    rw [Alternatives.compounds, anyFits, anyFits, pattern.fits_compound, Bool.or_false,
      Alternatives.fits]
  | .more _ pattern _ rest => by
    rw [Alternatives.compounds, anyFits, pattern.fits_compound, rest.anyFits_compounds,
      Alternatives.fits]

/-- A compound fits what the compound fits that it is read as. -/
theorem Pattern.fits_compound : ∀ pattern : Pattern,
    pattern.compound.fits s counted p = pattern.fits s p
  | .type type => by
    rw [Pattern.compound, Compound.fits, allFit, Bool.and_true, type.isOfType_type, Pattern.fits]
  | .first condition => by
    rw [Pattern.compound, Compound.fits, allFit, allFit, condition.fits_simple, Bool.and_true,
      isOfType_star, Pattern.fits]
  | .also pattern condition => by
    have ih := pattern.fits_compound
    rw [Pattern.compound]
    generalize pattern.compound = compound at ih ⊢
    obtain ⟨type, conditions⟩ := compound
    rw [Compound.fits, allFit_eq_all] at ih
    rw [Compound.fits, allFit_eq_all, Compound.type, Compound.conditions, List.all_append,
      List.all_cons, List.all_nil, condition.fits_simple, Bool.and_true, ← Bool.and_assoc, ih,
      Pattern.fits]

end

/-- A chain matches what the branch matches that it is read as. -/
theorem Chain.selects_branch : ∀ (chain : Chain) {p : Place}, p.astray = false →
    branchSelects s counted chain.branch p = chain.selects s p
  | .single pattern, p, ha => by
    rw [branch, branchSelects_single pattern.compound ha, pattern.fits_compound, selects]
  | .link chain l pattern, p, ha => by
    have hbefore : (related s l.combinator p).any (branchSelects s counted chain.branch) =
        (related s l.combinator p).any (chain.selects s) := by
      rw [Bool.eq_iff_iff, List.any_eq_true, List.any_eq_true]
      refine exists_congr fun m => and_congr_right fun hm => ?_
      rw [chain.selects_branch ((astray_of_mem_related hm).trans ha)]
    rw [branch, branchSelects_concat, pattern.fits_compound, hbefore, selects]

theorem SelectorList.selects_branches (ha : p.astray = false) : ∀ list : SelectorList,
    (list.branches.any fun branch => branchSelects s counted branch p) = list.selects s p
  | .last chain => by
    rw [branches, List.any_cons, List.any_nil, Bool.or_false, chain.selects_branch ha, selects]
  | .more chain _ _ rest => by
    rw [branches, List.any_cons, chain.selects_branch ha, rest.selects_branches ha, selects]

/-! ## Checks -/

/-- What holds of every condition that is written here holds of the conditions that a compound is
read with. -/
theorem Pattern.of_mem_conditions {P : Simple → Prop}
    (h : ∀ condition : Condition, P condition.simple) :
    ∀ pattern : Pattern, ∀ c ∈ pattern.compound.conditions, P c
  | .type _, _, hc => by cases hc
  | .first condition, _, hc => List.mem_singleton.1 hc ▸ h condition
  | .also pattern condition, _, hc => by
    rcases List.mem_append.1 hc with hc | hc
    · exact pattern.of_mem_conditions h _ hc
    · exact List.mem_singleton.1 hc ▸ h condition

mutual

theorem Condition.all_of (h : ∀ pattern : Pattern, check pattern.compound = true) :
    ∀ condition : Condition, condition.simple.all check = true
  | .negation alternatives => by
    rw [Condition.simple, Simple.all]
    exact alternatives.all_of h
  | .id _ | .cls _ | .present _ | .equal _ _ | .empty => rfl

theorem Alternatives.all_of (h : ∀ pattern : Pattern, check pattern.compound = true) :
    ∀ alternatives : Alternatives, compoundsAll check alternatives.compounds = true
  | .last _ pattern _ => by
    rw [Alternatives.compounds, compoundsAll, pattern.all_of h]
    rfl
  | .more _ pattern _ rest => by
    rw [Alternatives.compounds, compoundsAll, pattern.all_of h, rest.all_of h]
    rfl

/-- What holds of every compound that is written here holds of those in its negations too. -/
theorem Pattern.all_of (h : ∀ pattern : Pattern, check pattern.compound = true) :
    ∀ pattern : Pattern, pattern.compound.all check = true
  | .type type => Compound.all_iff.2 ⟨h (.type type), by simp⟩
  | .first condition => Compound.all_iff.2 ⟨h (.first condition), by simpa using condition.all_of h⟩
  | .also pattern condition => by
    have ih := pattern.all_of h
    have hhere := h (.also pattern condition)
    rw [Pattern.compound] at hhere ⊢
    generalize pattern.compound = compound at ih hhere ⊢
    obtain ⟨type, conditions⟩ := compound
    refine Compound.all_iff.2 ⟨hhere, fun c hc => ?_⟩
    rcases List.mem_append.1 hc with hc | hc
    · exact (Compound.all_iff.1 ih).2 c hc
    · exact List.mem_singleton.1 hc ▸ condition.all_of h

end

/-! ## Conditions -/

theorem TypeName.isTypeName (type : TypeName) : isTypeName type.type = true := by
  cases type with
  | star => rfl
  | name n =>
    rw [Css.isTypeName, TypeName.type, String.toList_ofList, isSimpleName_lower n.isSimpleName,
      Bool.or_true]

theorem Name.isName_lower (n : Name) :
    isName (String.ofList (Text.lower n.text)).toList = true := by
  rw [String.toList_ofList]
  exact isName_of_isSimpleName (isSimpleName_lower n.isSimpleName)

theorem Pattern.isTypeName : ∀ pattern : Pattern, Css.isTypeName pattern.compound.type = true
  | .type typeName => typeName.isTypeName
  | .first _ => rfl
  | .also pattern _ => pattern.isTypeName

theorem Condition.isNamed (condition : Condition) : condition.simple.isNamed = true := by
  cases condition with
  | present name => exact name.isName_lower
  | equal name value => exact name.isName_lower
  | id | cls | empty | negation => rfl

theorem Condition.isFilled (condition : Condition) : condition.simple.isFilled = true := by
  cases condition with
  | negation alternatives => cases alternatives <;> rfl
  | id | cls | present | equal | empty => rfl

theorem Condition.isNoPosition (condition : Condition) : condition.simple.isPosition = false := by
  cases condition <;> rfl

theorem Condition.isSmall (condition : Condition) : condition.simple.isSmall = true := by
  cases condition <;> rfl

theorem Pattern.isFilled (pattern : Pattern) : Css.isFilled pattern.compound = true :=
  List.all_eq_true.2 (pattern.of_mem_conditions Condition.isFilled)

/-- The names that are written here are names in queries too, and no negation is empty. -/
theorem Pattern.readable (pattern : Pattern) : pattern.compound.all isReadable = true := by
  refine Pattern.all_of (fun pattern => ?_) pattern
  have hnamed := List.all_eq_true.2 (pattern.of_mem_conditions Condition.isNamed)
  rw [isReadable, isNamed, pattern.isTypeName, hnamed, pattern.isFilled]
  rfl

theorem Pattern.testable (pattern : Pattern) : pattern.compound.all isTestable = true := by
  refine Pattern.all_of (fun pattern => ?_) pattern
  have hsmall := List.all_eq_true.2 (pattern.of_mem_conditions Condition.isSmall)
  rw [isTestable, hasSmallPositions, pattern.isFilled, hsmall]
  rfl

/-- No position is written here. -/
theorem Pattern.asksNoPosition (pattern : Pattern) :
    pattern.compound.all Css.asksNoPosition = true := by
  refine Pattern.all_of (fun pattern => ?_) pattern
  refine List.all_eq_true.2 (pattern.of_mem_conditions fun condition => ?_)
  rw [condition.isNoPosition]
  rfl

/-! ## Lists -/

theorem Chain.all_of (h : ∀ pattern : Pattern, pattern.compound.all check = true) :
    ∀ chain : Chain, ∀ part ∈ chain.branch, part.2.all check = true
  | .single pattern, _, hpart => List.mem_singleton.1 hpart ▸ h pattern
  | .link chain _ pattern, _, hpart => by
    rcases List.mem_append.1 hpart with hpart | hpart
    · exact chain.all_of h _ hpart
    · exact List.mem_singleton.1 hpart ▸ h pattern

theorem SelectorList.all_of (h : ∀ pattern : Pattern, pattern.compound.all check = true) :
    ∀ list : SelectorList, ∀ branch ∈ list.branches, ∀ part ∈ branch, part.2.all check = true
  | .last chain, _, hbranch => List.mem_singleton.1 hbranch ▸ chain.all_of h
  | .more chain _ _ rest, _, hbranch => by
    rcases List.mem_cons.1 hbranch with rfl | hbranch
    · exact chain.all_of h
    · exact rest.all_of h _ hbranch

theorem SelectorList.branches_ne_nil (list : SelectorList) : list.branches ≠ [] := by
  cases list <;> simp [branches]

/-- The query of a selector list is read as the union of what its chains ask for. -/
theorem SelectorList.read_eq (list : SelectorList) :
    Expr.read (String.intercalate " | " (list.branches.map branchQuery)) =
      .ok (folded .union (list.branches.map branchExpr)) := by
  obtain ⟨hne, hfilled⟩ := readBranches_filled (readBranches_eq list)
  exact Selector.read_branches hne fun branch hbranch =>
    ⟨(hfilled branch hbranch).1, list.all_of Pattern.readable branch hbranch⟩

/-- **The query of a selector list selects the elements that the list matches**, in document
order. -/
theorem SelectorList.select_eq (s : Scope) (list : SelectorList) (query : String) :
    (folded .union (list.branches.map branchExpr)).select query s .root =
      .ok ((s.preorder .root).filter (list.selects s)) := by
  rw [select_branches (.inl (list.all_of Pattern.asksNoPosition)) list.branches_ne_nil
    (list.all_of Pattern.testable)]
  refine congrArg Except.ok (List.filter_congr fun p hp => ?_)
  exact list.selects_branches (Scope.mem_preorder_root.1 hp).1

end MarkupTemplate.Css

namespace MarkupTemplate.Selector

open Css XPath

/-- **A selector list selects the elements that it matches.** Its text, with White_Space around it
and no marker in front of it, compiles; the query from the root is read; and in every document this
selects the elements that the list matches, each once and in document order. -/
theorem select_matching (list : SelectorList) (before after : Gap)
    (hmarked : isMarked list.text = false) : ∃ sel e,
      compile .css (String.ofList (before.text ++ (list.text ++ after.text))) = .ok sel ∧
        Expr.read sel.expression = .ok e ∧
          ∀ s : Scope, e.select sel.expression s .root =
            .ok ((s.preorder .root).filter (list.selects s)) :=
  ⟨_, _, compile_eq list before after hmarked, list.read_eq, fun s => list.select_eq s _⟩

/-- The selector `ul > li:not([id])`. -/
def itemWithoutId : SelectorList :=
  .last (.link (.single (.type (.name ⟨"ul".toList, by decide⟩)))
    (.child .space .space)
    (.also (.type (.name ⟨"li".toList, by decide⟩))
      (.negation (.last .none (.first (.present ⟨"id".toList, by decide⟩)) .none))))

/-- Of the two items of a list the one without an id is selected. -/
theorem select_matching_itemWithoutId : isMarked itemWithoutId.text = false ∧ ∃ sel e,
    compile .css "ul > li:not([id])" = .ok sel ∧ Expr.read sel.expression = .ok e ∧
      e.select sel.expression twoItems .root = .ok [⟨false, [0, 1]⟩] := by
  have hmarked : isMarked itemWithoutId.text = false := by decide
  have htext : String.ofList (Gap.none.text ++ (itemWithoutId.text ++ Gap.none.text)) =
      "ul > li:not([id])" := by decide
  have hmatching : (twoItems.preorder .root).filter (itemWithoutId.selects twoItems) =
      [⟨false, [0, 1]⟩] := by decide +kernel
  obtain ⟨sel, e, hcompile, hread, hselect⟩ := select_matching itemWithoutId .none .none hmarked
  exact ⟨hmarked, sel, e, htext ▸ hcompile, hread, hmatching ▸ hselect twoItems⟩

/-- The selector `css:empty`, for an empty element with the name `css`. -/
def emptyCss : SelectorList :=
  .last (.single (.also (.type (.name ⟨"css".toList, by decide⟩)) .empty))

/-- The selector `empty`, for elements with the name `empty`. -/
def namedEmpty : SelectorList :=
  .last (.single (.type (.name ⟨"empty".toList, by decide⟩)))

/-- A document with an empty element with the name `css`. -/
def documentOfCss : Scope :=
  ⟨.node .document [.node (.element ⟨.html, "css"⟩ []) []], none⟩

/-- With a marker in front of it a selector list need not select what it matches. The text of
`emptyCss` is taken for the marker `css:` with the selector `empty` behind it. -/
theorem not_select_matching_marked : ¬ ∀ list : SelectorList, ∃ sel e,
    compile .css (String.ofList list.text) = .ok sel ∧ Expr.read sel.expression = .ok e ∧
      ∀ s : Scope, e.select sel.expression s .root =
        .ok ((s.preorder .root).filter (list.selects s)) := by
  intro hall
  obtain ⟨sel, e, hcompile, hread, hselect⟩ := hall emptyCss
  have htext : String.ofList emptyCss.text = "css:empty" := by decide
  have hmarker : compile .css "css:empty" =
      .ok ⟨"css:empty", .css, none, namedEmpty.branches.map branchQuery⟩ := by decide +kernel
  rw [htext, hmarker] at hcompile
  obtain rfl := Except.ok.inj hcompile
  have hempty := namedEmpty.read_eq
  have hread : Expr.read (String.intercalate " | " (namedEmpty.branches.map branchQuery)) = .ok e :=
    hread
  rw [hempty] at hread
  obtain rfl := Except.ok.inj hread
  have hselect := hselect documentOfCss
  rw [SelectorList.select_eq] at hselect
  revert hselect
  decide +kernel

end MarkupTemplate.Selector
