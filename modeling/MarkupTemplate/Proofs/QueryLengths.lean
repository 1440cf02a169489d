import Mathlib
import MarkupTemplate.Proofs.Words
import MarkupTemplate.Selector.Css.Query

/-!
# Lengths of queries

What a selector asks for is written out in full, so a selector that asks for more has a longer query.

* `length_literal`, `length_literal_lt` — a literal, and that of a longer string.
* `length_conjunction_le`, `length_listPosition_le` — tests of positions.
* `Outgrows` — conditions that ask for more than others; `Lengthened.outgrows` — a longer name and further
  conditions do.
* `length_branchQuery_lt` — **the main result**: a branch whose last compound goes on has a longer query.
-/

namespace MarkupTemplate

namespace XPath

/-! ## Literals -/

theorem length_enclosed_lt (before after : String) {s t : String} (h : s.length < t.length) :
    (before ++ s ++ after).length < (before ++ t ++ after).length := by
  simp only [String.length_append]
  omega

theorem length_intercalate_cons {separator s t : String} {n : Nat} (texts : List String)
    (h : s.length = t.length + n) : (String.intercalate separator (s :: texts)).length =
      (String.intercalate separator (t :: texts)).length + n := by
  cases texts with
  | nil => simpa using h
  | cons u texts =>
    simp only [String.intercalate_cons_cons, String.length_append]
    omega

/-- Between the pieces of a text a double quote takes nine characters instead of one. -/
theorem length_pieces : ∀ cs : List Char,
    (String.intercalate ", '\"', " ((Text.splitOn '"' cs).map fun piece =>
      "\"" ++ String.ofList piece ++ "\"")).length = cs.length + 8 * cs.count '"' + 2
  | [] => by decide
  | c :: cs => by
    have ih := length_pieces cs
    obtain ⟨piece, pieces, hsplit⟩ := List.exists_cons_of_ne_nil (Text.splitOn_ne_nil '"' cs)
    rw [Text.splitOn]
    by_cases hc : c = '"'
    · have hempty : ("\"" ++ String.ofList [] ++ "\"").length = 2 := by decide
      have hseparator : (", '\"', ").length = 7 := by decide
      rw [if_pos hc, List.map_cons, String.intercalate_cons_of_ne_nil (by simp [hsplit]),
        String.length_append, String.length_append, ih, hc, List.count_cons_self, List.length_cons]
      omega
    · have hpiece : ("\"" ++ String.ofList (c :: piece) ++ "\"").length =
          ("\"" ++ String.ofList piece ++ "\"").length + 1 := by
        simp only [String.length_append, String.length_ofList, List.length_cons]
        omega
      rw [hsplit, List.map_cons] at ih
      rw [if_neg hc, hsplit]
      dsimp only
      rw [List.map_cons, length_intercalate_cons _ hpiece, ih, List.count_cons_of_ne hc,
        List.length_cons]
      omega

theorem length_literal (s : String) : (literal s).length =
    if '"' ∈ s.toList ∧ '\'' ∈ s.toList then s.length + 8 * s.toList.count '"' + 10
    else s.length + 2 := by
  have hquote : ("\"").length = 1 ∧ ("'").length = 1 := by decide
  have hcall : ("concat(").length = 7 ∧ (")").length = 1 := by decide
  unfold literal
  dsimp only
  by_cases hdouble : '"' ∈ s.toList
  · by_cases hsingle : '\'' ∈ s.toList
    · rw [if_neg (by simpa using hdouble), if_neg (by simpa using hsingle),
        if_pos ⟨hdouble, hsingle⟩, String.length_append, String.length_append, length_pieces,
        String.length_toList]
      omega
    · rw [if_neg (by simpa using hdouble), if_pos (by simpa using hsingle),
        if_neg fun h => hsingle h.2, String.length_append, String.length_append]
      omega
  · rw [if_pos (by simpa using hdouble), if_neg fun h => hdouble h.1, String.length_append,
      String.length_append]
    omega

/-- More in a string makes its literal longer. -/
theorem length_literal_lt (before after : String) {more : String} (h : more ≠ "") :
    (literal (before ++ after)).length < (literal (before ++ more ++ after)).length := by
  have hmore : 0 < more.length := Nat.pos_of_ne_zero fun hzero => h (by simpa using hzero)
  have hmem {c : Char} (hc : c ∈ (before ++ after).toList) :
      c ∈ (before ++ more ++ after).toList := by
    simp only [String.toList_append, List.mem_append] at hc ⊢
    tauto
  have hlength : (before ++ more ++ after).length = (before ++ after).length + more.length := by
    simp only [String.length_append]
    omega
  have hcount : (before ++ after).toList.count '"' ≤ (before ++ more ++ after).toList.count '"' := by
    simp only [String.toList_append, List.count_append]
    omega
  rw [length_literal, length_literal]
  by_cases hboth : '"' ∈ (before ++ after).toList ∧ '\'' ∈ (before ++ after).toList
  · rw [if_pos hboth, if_pos ⟨hmem hboth.1, hmem hboth.2⟩]
    omega
  · rw [if_neg hboth]
    split <;> omega

end XPath

namespace Css

open XPath

variable {positions : List Nth} {conditions conditions' : List Simple}

/-! ## Positions -/

theorem length_nthTest_le {position position' count count' : String}
    (hposition : position.length ≤ position'.length) (hcount : count.length ≤ count'.length)
    (nth : Nth) : (nthTest position count nth).length ≤ (nthTest position' count' nth).length := by
  cases nth with
  | first =>
    simp only [nthTest, String.length_append]
    omega
  | last =>
    simp only [nthTest, String.length_append]
    omega
  | formula step offset =>
    simp only [nthTest]
    split_ifs
    all_goals
      simp only [String.length_append]
      omega

/-- Tests that are each as long. -/
theorem length_conjunction_map_le {f g : Nth → String} : ∀ positions : List Nth,
    (∀ nth ∈ positions, (f nth).length ≤ (g nth).length) →
      (conjunction (positions.map f)).length ≤ (conjunction (positions.map g)).length
  | [], _ => Nat.le_refl _
  | [nth], h => by simpa [conjunction] using h nth
  | nth :: next :: positions, h => by
    have ih := length_conjunction_map_le (next :: positions) fun p hp =>
      h p (List.mem_cons_of_mem nth hp)
    have hnth := h nth List.mem_cons_self
    simp only [conjunction, List.map_cons] at ih ⊢
    rw [String.intercalate_cons_cons, String.intercalate_cons_cons]
    simp only [String.length_append]
    omega

/-- More tests. -/
theorem length_conjunction_append_le (tests more : List String) :
    (conjunction tests).length ≤ (conjunction (tests ++ more)).length := by
  by_cases htests : tests = []
  · simp [htests, conjunction]
  by_cases hmore : more = []
  · rw [hmore, List.append_nil]
  rw [conjunction, conjunction, String.intercalate_append_of_ne_nil htests hmore]
  simp only [String.length_append]
  omega

/-- One position is written shorter than as a test. -/
theorem length_listPosition_le (positions : List Nth) : (listPosition positions).length ≤
    (conjunction (positions.map (nthTest "position()" "last()"))).length := by
  match positions with
  | [] => exact Nat.le_refl _
  | [.first] => decide
  | [.last] => decide
  | [.formula step offset] =>
    simp only [listPosition, List.map_cons, List.map_nil, conjunction,
      String.intercalate_singleton]
    split_ifs with hstep
    · simp only [nthTest, if_pos hstep, String.length_append]
      omega
    · exact Nat.le_refl _
  | .first :: _ :: _ | .last :: _ :: _ | .formula _ _ :: _ :: _ => exact Nat.le_refl _

theorem length_listPosition_append_le (hne : positions ≠ []) (further : List Nth) :
    (listPosition positions).length ≤ (listPosition (positions ++ further)).length := by
  by_cases hfurther : further = []
  · rw [hfurther, List.append_nil]
  obtain ⟨nth, rest, rfl⟩ := List.exists_cons_of_ne_nil hne
  obtain ⟨next, others, hnext⟩ := List.exists_cons_of_ne_nil
    (List.append_ne_nil_of_right_ne_nil rest hfurther)
  have hlist : listPosition (nth :: (rest ++ further)) =
      conjunction ((nth :: (rest ++ further)).map (nthTest "position()" "last()")) := by
    rw [hnext]
    cases nth <;> rfl
  rw [List.cons_append, hlist, ← List.cons_append, List.map_append]
  exact (length_listPosition_le _).trans (length_conjunction_append_le _ _)

theorem length_siblingPosition_append_le (type : String) (positions further : List Nth) :
    (siblingPosition type positions).length ≤
      (siblingPosition type (positions ++ further)).length := by
  unfold siblingPosition
  dsimp only
  rw [List.map_append]
  exact length_conjunction_append_le _ _

/-- A position in a list of nodes is written shorter than one among siblings. -/
theorem length_listPosition_le_sibling (type : String) (positions : List Nth) :
    (listPosition positions).length ≤ (siblingPosition type positions).length := by
  have hposition : ("position()").length = 10 ∧ ("last()").length = 6 := by decide
  have hpreceding : ("not(preceding-sibling::").length = 23 := by decide
  have hfollowing : ("not(following-sibling::").length = 23 := by decide
  have hcount : ("count(preceding-sibling::").length = 25 := by decide
  refine (length_listPosition_le positions).trans ?_
  unfold siblingPosition
  dsimp only
  refine length_conjunction_map_le positions fun nth _ => ?_
  cases nth with
  | first =>
    have hfirst : (nthTest "position()" "last()" .first).length = 14 := by decide
    rw [hfirst]
    simp only [String.length_append]
    omega
  | last =>
    have hlast : (nthTest "position()" "last()" .last).length = 19 := by decide
    rw [hlast]
    simp only [String.length_append]
    omega
  | formula step offset =>
    refine length_nthTest_le ?_ ?_ _
    all_goals
      simp only [String.length_append]
      omega

theorem length_positionPredicate_le {f g : List Nth → String} (further : List Nth)
    (h : positions ≠ [] → (f positions).length ≤ (g (positions ++ further)).length) :
    (positionPredicate f positions).length ≤ (positionPredicate g (positions ++ further)).length := by
  by_cases hpositions : positions = []
  · simp [hpositions, positionPredicate]
  have hle := h hpositions
  have happend : positions ++ further ≠ [] := List.append_ne_nil_of_left_ne_nil hpositions further
  rw [positionPredicate, positionPredicate, if_neg (by simpa using hpositions),
    if_neg (by simpa using happend), bracketed, bracketed]
  simp only [String.length_append]
  omega

/-! ## Compounds -/

/-- The predicates of conditions, as they stand behind a node test. -/
def predicateText (conditions : List Simple) : String :=
  String.join ((predicates conditions).map bracketed)

theorem predicates_append : ∀ conditions further : List Simple,
    predicates (conditions ++ further) = predicates conditions ++ predicates further
  | [], _ => rfl
  | condition :: conditions, further => by
    rw [List.cons_append, predicates, predicates, predicates_append conditions further,
      List.append_assoc]

/-- The second conditions ask for more than the first ones: they have further positions at most, and
longer predicates. -/
structure Outgrows (conditions conditions' : List Simple) : Prop where
  children : childPositions conditions <+: childPositions conditions'
  types : typePositions conditions <+: typePositions conditions'
  predicates : (predicateText conditions).length < (predicateText conditions').length

theorem length_selfTest_lt (type : String) (h : Outgrows conditions conditions') :
    (selfTest (.mk type conditions)).length < (selfTest (.mk type conditions')).length := by
  obtain ⟨children, hchildren⟩ := h.children
  obtain ⟨types, htypes⟩ := h.types
  have hchild := length_positionPredicate_le children fun _ =>
    length_siblingPosition_append_le "*" (childPositions conditions) children
  have htype := length_positionPredicate_le types fun _ =>
    length_siblingPosition_append_le type (typePositions conditions) types
  have hpredicates := h.predicates
  rw [hchildren] at hchild
  rw [htypes] at htype
  rw [predicateText, predicateText] at hpredicates
  simp only [selfTest, String.length_append]
  omega

/-- A position among siblings has no predicate of its own. -/
theorem predicates_withoutChildPositions (type : String) : ∀ conditions : List Simple,
    predicates (withoutChildPositions (.mk type conditions)).conditions = predicates conditions
  | [] => rfl
  | condition :: conditions => by
    have ih := predicates_withoutChildPositions type conditions
    rw [withoutChildPositions, Compound.conditions, Compound.conditions] at ih ⊢
    cases condition with
    | childPosition nth =>
      rw [List.filter_cons_of_neg (by simp), predicates, predicate, ih, List.nil_append]
    | _ => rw [List.filter_cons_of_pos rfl, predicates, predicates, ih]

/-- Without the positions among all siblings, the other positions and the predicates are left. -/
theorem selfTest_withoutChildPositions (type : String) (conditions : List Simple) :
    selfTest (withoutChildPositions (.mk type conditions)) =
      type ++ positionPredicate (siblingPosition type) (typePositions conditions) ++
        predicateText conditions := by
  have hchild : childPositions (withoutChildPositions (.mk type conditions)).conditions = [] := by
    rw [withoutChildPositions, Compound.conditions, childPositions, List.filterMap_filter,
      List.filterMap_eq_nil_iff]
    intro condition _
    cases condition <;> rfl
  have htype : typePositions (withoutChildPositions (.mk type conditions)).conditions =
      typePositions conditions := by
    rw [withoutChildPositions, Compound.conditions, typePositions, List.filterMap_filter]
    refine List.filterMap_congr fun condition _ => ?_
    cases condition <;> rfl
  have hpredicates := predicates_withoutChildPositions type conditions
  rw [withoutChildPositions, Compound.conditions] at hchild htype hpredicates
  rw [withoutChildPositions, selfTest, Compound.type]
  rw [hchild, htype, hpredicates, predicateText]
  simp [positionPredicate]

theorem length_listStep_lt (axis type : String) (h : Outgrows conditions conditions') :
    (listStep axis (.mk type conditions)).length < (listStep axis (.mk type conditions')).length := by
  obtain ⟨children, hchildren⟩ := h.children
  obtain ⟨types, htypes⟩ := h.types
  have hpredicates := h.predicates
  have hlist := length_positionPredicate_le types fun (hne : typePositions conditions ≠ []) =>
    length_listPosition_append_le hne types
  have hsibling := length_positionPredicate_le types fun _ =>
    length_siblingPosition_append_le type (typePositions conditions) types
  have hturned := length_positionPredicate_le types fun _ =>
    (length_listPosition_le_sibling type (typePositions conditions)).trans
      (length_siblingPosition_append_le type (typePositions conditions) types)
  rw [htypes] at hlist hsibling hturned
  unfold listStep
  simp only [selfTest_withoutChildPositions, Compound.conditions, Compound.type]
  rw [← predicateText, ← predicateText]
  by_cases hnone' : childPositions conditions' = []
  · have hnone : childPositions conditions = [] := (List.append_eq_nil_iff.1 (hchildren ▸ hnone')).1
    rw [hnone, hnone']
    simp only [List.isEmpty_nil, if_true, String.length_append]
    omega
  have hsome' : (childPositions conditions').isEmpty = false := by simpa using hnone'
  by_cases hnone : childPositions conditions = []
  · have hstar : ("*").length = 1 := by decide
    rw [hnone, hsome']
    simp only [List.isEmpty_nil, if_true, Bool.false_eq_true, if_false, String.length_append]
    omega
  · have hsome : (childPositions conditions).isEmpty = false := by simpa using hnone
    have hchild := length_listPosition_append_le hnone children
    rw [hchildren] at hchild
    rw [hsome, hsome']
    simp only [Bool.false_eq_true, if_false, bracketed, String.length_append]
    omega

theorem length_stepQuery_lt (combinator : Combinator) (type : String)
    (h : Outgrows conditions conditions') :
    (stepQuery combinator (.mk type conditions)).length <
      (stepQuery combinator (.mk type conditions')).length := by
  have hself := length_selfTest_lt type h
  unfold stepQuery
  cases combinator with
  | descendant => exact length_listStep_lt "//" type h
  | child => exact length_listStep_lt "/" type h
  | adjacent | sibling =>
    simp only [String.length_append]
    exact Nat.add_lt_add_left hself _

/-! ## Longer names -/

/-- A condition on an id or a class, and the condition on a name that goes on. -/
inductive Lengthened : Simple → Simple → Prop
  | id (name : String) {more : String} : more ≠ "" → Lengthened (.id name) (.id (name ++ more))
  | cls (name : String) {more : String} : more ≠ "" → Lengthened (.cls name) (.cls (name ++ more))

/-- A longer name, and further conditions, make the predicates longer. -/
theorem Lengthened.outgrows {condition condition' : Simple} (h : Lengthened condition condition')
    (before after : List Simple) :
    Outgrows (before ++ [condition]) (before ++ condition' :: after) := by
  have hpredicate : ∃ test test', predicate condition = [test] ∧ predicate condition' = [test'] ∧
      test.length < test'.length := by
    cases h with
    | @id name more hmore =>
      have hliteral := length_literal_lt name "" hmore
      rw [String.append_empty, String.append_empty] at hliteral
      refine ⟨"@id=" ++ literal name, "@id=" ++ literal (name ++ more), by rw [predicate],
        by rw [predicate], ?_⟩
      rw [String.length_append, String.length_append]
      exact Nat.add_lt_add_left hliteral _
    | @cls name more hmore =>
      have hliteral := length_literal_lt (" " ++ name) " " hmore
      have hname : " " ++ name ++ more = " " ++ (name ++ more) := String.append_assoc
      rw [hname] at hliteral
      have htest := length_enclosed_lt ("contains(concat(\" \", normalize-space(" ++ "@class" ++
        "), \" \"), ") ")" hliteral
      refine ⟨wordTest "@class" name, wordTest "@class" (name ++ more), by rw [predicate],
        by rw [predicate], htest⟩
  obtain ⟨test, test', htest, htest', hlength⟩ := hpredicate
  have hpositions : childPositions [condition] = [] ∧ childPositions [condition'] = [] ∧
      typePositions [condition] = [] ∧ typePositions [condition'] = [] := by
    cases h <;> exact ⟨rfl, rfl, rfl, rfl⟩
  obtain ⟨hchild, hchild', htype, htype'⟩ := hpositions
  rw [List.append_cons before condition' after]
  refine ⟨?_, ?_, ?_⟩
  · rw [childPositions, childPositions, List.filterMap_append, List.filterMap_append,
      List.filterMap_append]
    rw [childPositions] at hchild hchild'
    rw [hchild, hchild', List.append_nil]
    exact List.prefix_append ..
  · rw [typePositions, typePositions, List.filterMap_append, List.filterMap_append,
      List.filterMap_append]
    rw [typePositions] at htype htype'
    rw [htype, htype', List.append_nil]
    exact List.prefix_append ..
  · rw [predicateText, predicateText, predicates_append, predicates_append, predicates_append,
      predicates, predicates, predicates, htest, htest']
    simp only [bracketed, List.map_append, List.map_cons, List.map_nil, List.append_nil,
      String.length_join, List.map_map, List.sum_append, List.sum_cons, List.sum_nil,
      String.length_append]
    omega

/-! ## Branches -/

/-- **A branch has a shorter query than one that goes on**, with the name at the end of its last compound
and perhaps with further conditions and compounds. -/
theorem length_branchQuery_lt {condition condition' : Simple} (h : Lengthened condition condition')
    (front more : Branch) (combinator : Combinator) (type : String) (before after : List Simple) :
    (branchQuery (front ++ [(combinator, .mk type (before ++ [condition]))])).length <
      (branchQuery (front ++ (combinator, .mk type (before ++ condition' :: after)) :: more)).length := by
  have hstep := length_stepQuery_lt combinator type (h.outgrows before after)
  rw [branchQuery, branchQuery]
  simp only [List.map_append, List.map_cons, List.map_nil, String.length_join, List.sum_append,
    List.sum_cons, List.sum_nil]
  omega

end Css

end MarkupTemplate
