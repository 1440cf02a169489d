import MarkupTemplate.Proofs.Deciding
import MarkupTemplate.Proofs.PatternReading
import MarkupTemplate.Proofs.Words

/-!
# Tests on attributes

The predicates for the attributes of an element say of the values of these attributes what the
selector asks for.

* `HasText` — the text of an expression, as functions of texts take it.
* `attributeValues`, `valuesFit` — the values of the attributes with a name, and what a comparison
  asks of them.
* `evaluate_literalExpr` — a string stands for itself, whatever quotes are in it.
* `wordTest_decides`, `attributeExpr_decides` — the tests decide.
-/

namespace MarkupTemplate.XPath

open Css

variable {s : Scope} {p : Place} {e e' : Expr} {f : Focus} {cs ds : List Char}

/-! ## Texts -/

/-- A string is the text it is written for, also if it is put together from pieces. -/
theorem evaluate_pieceExprs (f : Focus) : ∀ pieces : List (List Char), ∃ vs,
    evaluateAll f (pieceExprs pieces) = .ok vs ∧
      String.join (vs.map fun v => (v.map f.scope.text).toText) =
        String.ofList (Text.join ['"'] pieces)
  | [] => ⟨[], by rw [pieceExprs, evaluateAll], rfl⟩
  | [piece] => by
    refine ⟨[.atom (.text (String.ofList piece))], ?_, ?_⟩
    · exact evaluateAll_cons (by rw [evaluate]) evaluateAll_nil
    · rw [Text.join_singleton]
      change String.join [String.ofList piece] = _
      simp [String.join]
  | piece :: next :: pieces => by
    obtain ⟨vs, hvs, htext⟩ := evaluate_pieceExprs f (next :: pieces)
    refine ⟨.atom (.text (String.ofList piece)) :: .atom (.text "\"") :: vs, ?_, ?_⟩
    · exact evaluateAll_cons (by rw [evaluate]) (evaluateAll_cons (by rw [evaluate]) hvs)
    · rw [List.map_cons, List.map_cons, String.join_cons, String.join_cons, htext,
        Text.join_cons_cons, String.ofList_append, String.ofList_append]
      rfl

theorem evaluate_literalExpr (f : Focus) (s : String) :
    evaluate f (literalExpr s) = .ok (.atom (.text s)) := by
  rw [literalExpr]
  split
  · rename_i hquotes
    rw [Bool.and_eq_true, List.contains_iff_mem] at hquotes
    have hlength := length_pieceExprs (Text.length_splitOn hquotes.1)
    obtain ⟨vs, hvs, htext⟩ := evaluate_pieceExprs f (Text.splitOn '"' s.toList)
    rw [Text.join_splitOn, String.ofList_toList] at htext
    rw [evaluate_call (find_concat hlength) hvs]
    change Except.ok (Value.atom (.text (String.join _))) = _
    rw [htext]
  · rw [evaluate]

/-- The text of the expression, as functions of texts take it: of a list of nodes that of the
first. -/
def HasText (s : Scope) (p : Place) (e : Expr) (cs : List Char) : Prop :=
  ∀ i k, ∃ v, evaluate ⟨s, .tree p, i, k⟩ e = .ok v ∧ (v.map s.text).toText.toList = cs

theorem literalExpr_hasText (s : Scope) (p : Place) (t : String) :
    HasText s p (literalExpr t) t.toList :=
  fun _ _ => ⟨_, evaluate_literalExpr _ t, rfl⟩

/-- A test on two texts says what holds of them. -/
theorem HasText.decides (h : HasText s p e cs) (h' : HasText s p e' ds) {name : String}
    {holds : List Char → List Char → Bool}
    (hfind : Function.find name 2 = .ok (.textTest name holds)) :
    Decides s p (.call name [e, e']) (holds cs ds) := by
  refine decides_boolean fun i k => ?_
  obtain ⟨v, hv, rfl⟩ := h i k
  obtain ⟨w, hw, rfl⟩ := h' i k
  rw [evaluate_call hfind (evaluateAll_cons hv (evaluateAll_cons hw evaluateAll_nil))]
  rfl

theorem HasText.startsWith (h : HasText s p e cs) (h' : HasText s p e' ds) :
    Decides s p (.call "starts-with" [e, e']) (ds.isPrefixOf cs) := by
  have hfind : Function.find "starts-with" 2 =
      .ok (.textTest "starts-with" fun cs head => head.isPrefixOf cs) := by rfl
  exact h.decides h' hfind

theorem HasText.contains (h : HasText s p e cs) (h' : HasText s p e' ds) :
    Decides s p (.call "contains" [e, e']) (Text.occursIn ds cs) := by
  have hfind : Function.find "contains" 2 =
      .ok (.textTest "contains" fun cs needle => Text.occursIn needle cs) := by rfl
  exact h.decides h' hfind

theorem HasText.normalized (h : HasText s p e cs) :
    HasText s p (.call "normalize-space" [e]) (Text.join [' '] (Text.words cs)) := by
  intro i k
  obtain ⟨v, hv, rfl⟩ := h i k
  have hfind : Function.find "normalize-space" 1 = .ok (.textual "normalize-space" 0 1
      fun arg => Text.join [' '] (Text.words (arg 0))) := by rfl
  refine ⟨_, evaluate_call hfind (evaluateAll_cons hv evaluateAll_nil), ?_⟩
  exact String.toList_ofList

/-- A text with a space on either side. -/
theorem HasText.padded (h : HasText s p e cs) :
    HasText s p (.call "concat" [.literal " ", e, .literal " "]) (' ' :: (cs ++ [' '])) := by
  intro i k
  obtain ⟨v, hv, rfl⟩ := h i k
  have hblank : evaluate ⟨s, .tree p, i, k⟩ (.literal " ") = .ok (.atom (.text " ")) := by
    rw [evaluate]
  refine ⟨_, evaluate_call (find_concat (by simp)) (evaluateAll_cons hblank
    (evaluateAll_cons hv (evaluateAll_cons hblank evaluateAll_nil))), ?_⟩
  change (String.join [" ", (v.map s.text).toText, " "]).toList = _
  simp

theorem HasText.length (h : HasText s p e cs) (i k : Nat) :
    evaluate ⟨s, .tree p, i, k⟩ (.call "string-length" [e]) =
      .ok (.atom (.number (Float.ofNat cs.length))) := by
  obtain ⟨v, hv, rfl⟩ := h i k
  have hfind : Function.find "string-length" 1 = .ok .stringLength := by rfl
  rw [evaluate_call hfind (evaluateAll_cons hv evaluateAll_nil)]
  rfl

/-- What is left of a text from a position on. -/
theorem HasText.substring (h : HasText s p e cs) {i k : Nat} {x : Float}
    (hx : evaluate ⟨s, .tree p, i, k⟩ e' = .ok (.atom (.number x))) :
    evaluate ⟨s, .tree p, i, k⟩ (.call "substring" [e, e']) = .ok (.atom (.text (String.ofList
      (Function.charactersBetween (round x) Number.infinity cs)))) := by
  obtain ⟨v, hv, rfl⟩ := h i k
  have hfind : Function.find "substring" 2 = .ok .substring := by rfl
  rw [evaluate_call hfind (evaluateAll_cons hv (evaluateAll_cons hx evaluateAll_nil))]
  rfl

end MarkupTemplate.XPath

namespace MarkupTemplate.Css

open XPath

variable {s : Scope} {p : Place} {e e' : Expr} {f : Focus} {w : List Char} {c : Char}

/-! ## Attributes -/

/-- Filtering the indices of a list is filtering the list. -/
theorem map_filter_range {α β : Type} (P : Option α → Bool) (g : Option α → β) : ∀ l : List α,
    ((List.range l.length).filter fun i => P l[i]?).map (fun i => g l[i]?) =
      (l.filter fun a => P (some a)).map fun a => g (some a)
  | [] => rfl
  | a :: l => by
    have ih := map_filter_range P g l
    have htail : ((List.map Nat.succ (List.range l.length)).filter
        fun i => P (a :: l)[i]?).map (fun i => g (a :: l)[i]?) =
          (l.filter fun a => P (some a)).map fun a => g (some a) := by
      rw [← ih, List.filter_map, List.map_map]
      rfl
    rw [List.length_cons, List.range_succ_eq_map, List.filter_cons, List.filter_cons]
    by_cases ha : P (some a) = true
    · rw [if_pos (by simpa using ha), if_pos ha, List.map_cons, List.map_cons, htail]
      rfl
    · rw [if_neg (by simpa using ha), if_neg ha, htail]

/-- The path finds the attributes with the name. -/
theorem attributePath_nodes (s : Scope) (p : Place) (name : String) : ∃ ns,
    (∀ i k, evaluate ⟨s, .tree p, i, k⟩ (attributePath name) = .ok (.nodes ns)) ∧
      ns.map s.text = (attributesNamed s p name.toList).map Attribute.value := by
  refine ⟨(s.axis .attribute (.tree p)).filter (s.passes .attribute (.name name)),
    fun i k => evaluate_axis rfl, ?_⟩
  have hname (i : Nat) :
      s.name (.attribute p i) = ((s.attributes p)[i]?).elim "" Attribute.name := by
    rw [Scope.name]
    cases (s.attributes p)[i]? <;> rfl
  have htext (i : Nat) :
      s.text (.attribute p i) = ((s.attributes p)[i]?).elim "" Attribute.value := by
    rw [Scope.text]
    cases (s.attributes p)[i]? <;> rfl
  have hpasses (i : Nat) : s.passes .attribute (.name name) (.attribute p i) =
      Scope.sameName (((s.attributes p)[i]?).elim "" Attribute.name) name := by
    rw [← hname]
    rfl
  rw [Scope.axis, Scope.treeAxis, List.filter_map, List.map_map]
  simp only [Function.comp_def, hpasses, htext]
  exact map_filter_range (fun o => Scope.sameName (o.elim "" Attribute.name) name)
    (fun o => o.elim "" Attribute.value) (s.attributes p)

theorem attributesNamed_lower (s : Scope) (p : Place) (name : List Char) :
    attributesNamed s p (Text.lower name) = attributesNamed s p name := by
  simp [attributesNamed]

theorem attributePath_decides (s : Scope) (p : Place) (name : String) :
    Decides s p (attributePath name) (!(attributesNamed s p name.toList).isEmpty) := by
  obtain ⟨ns, hns, htexts⟩ := attributePath_nodes s p name
  have hempty : (attributesNamed s p name.toList).isEmpty = ns.isEmpty := by
    rw [← List.isEmpty_map, ← htexts, List.isEmpty_map]
  rw [hempty]
  exact decides_nodes hns

/-- The values of the attributes of a node with a name. -/
def attributeValues (s : Scope) (p : Place) (name : List Char) : List (List Char) :=
  (attributesNamed s p name).map fun a => a.value.toList

/-- The first of several values. Where there is none, it is empty. -/
def firstValue (values : List (List Char)) : List Char :=
  values.head?.getD []

theorem contains_attributeValues (s : Scope) (p : Place) (name value : List Char) :
    (attributeValues s p name).contains value =
      (attributesNamed s p name).any fun a => a.value.toList = value := by
  rw [Bool.eq_iff_iff, List.contains_iff_mem, attributeValues, List.mem_map, List.any_eq_true]
  simp only [decide_eq_true_eq]

theorem attributePath_hasText (s : Scope) (p : Place) (name : String) :
    HasText s p (attributePath name) (firstValue (attributeValues s p name.toList)) := by
  obtain ⟨ns, hns, htexts⟩ := attributePath_nodes s p name
  refine fun i k => ⟨_, hns i k, ?_⟩
  change (((ns.map s.text).head?).getD "").toList = _
  rw [htexts, firstValue, attributeValues, List.head?_map, List.head?_map]
  cases (attributesNamed s p name.toList).head? <;> rfl

/-- An attribute equals a value if one of those with its name has that value. -/
theorem equation_decides (s : Scope) (p : Place) (name value : String) :
    Decides s p (equation (attributePath name) (literalExpr value))
      ((attributeValues s p name.toList).contains value.toList) := by
  obtain ⟨ns, hns, htexts⟩ := attributePath_nodes s p name
  refine decides_boolean fun i k => ?_
  rw [equation, evaluate, hns, evaluate_literalExpr]
  change Except.ok (Value.atom (.boolean (((ns.map s.text).map Atom.text).any fun x =>
    Atom.compare .equal x (.text value)))) = _
  rw [htexts, List.any_map, List.any_map]
  rw [contains_attributeValues]
  congr 4
  funext a
  change (a.value == value) = _
  rw [Bool.eq_iff_iff, beq_iff_eq, decide_eq_true_eq, String.toList_inj]

/-! ## Words -/

/-- A word is found in a text, both with spaces around them, once the White_Space of the text is
brought down to single spaces. -/
def hasWord (cs w : List Char) : Bool :=
  Text.occursIn (' ' :: (w ++ [' '])) (' ' :: (Text.join [' '] (Text.words cs) ++ [' ']))

theorem hasWord_eq (hne : w ≠ []) (hspace : ' ' ∉ w) (cs : List Char) :
    hasWord cs w = (Text.words cs).contains w :=
  Text.occursIn_words hne hspace cs

/-- The test on a word finds it in the first of the attributes with a name. -/
theorem wordTest_decides (s : Scope) (p : Place) (name word : String) :
    Decides s p (wordTestExpr (attributePath name) word)
      (hasWord (firstValue (attributeValues s p name.toList)) word.toList) := by
  have hneedle := literalExpr_hasText s p (" " ++ word ++ " ")
  have htext : (" " ++ word ++ " ").toList = ' ' :: (word.toList ++ [' ']) := by simp
  rw [htext] at hneedle
  exact (attributePath_hasText s p name).normalized.padded.contains hneedle

theorem classWords_eq (s : Scope) (p : Place) :
    classWords s p = Text.words (firstValue (attributeValues s p "class".toList)) := by
  rw [classWords, firstValue, attributeValues, List.head?_map]
  cases (attributesNamed s p "class".toList).head? with
  | none => rfl
  | some a => rfl

theorem not_mem_lower (name : Word) (hc : isNameChar c = false) : c ∉ Text.lower name.text := by
  intro hmem
  obtain ⟨d, hd, rfl⟩ := List.mem_map.1 hmem
  have hlower : isNameChar d.toLower = true := toLower_induction (by decide) (name.isNameChar d hd)
  rw [hlower] at hc
  cases hc

/-! ## Comparisons -/

/-- The last `n` characters of a text, as queries count them. -/
def lastCharacters (n : Nat) (cs : List Char) : List Char :=
  Function.charactersBetween
    (round (Float.ofNat cs.length - Float.ofNat n + Float.ofScientific 1 true 0)) Number.infinity cs

/-- What a comparison asks of the values of the attributes with a name. It is asked of the first,
but for equality, which one of them has to have. No other comparison holds with an empty value. -/
def valuesFit (values : List (List Char)) (comparison : Comparison) (value : List Char) : Bool :=
  match comparison with
  | .equal => values.contains value
  | .beginning => !value.isEmpty && value.isPrefixOf (firstValue values)
  | .ending => !value.isEmpty && lastCharacters value.length (firstValue values) = value
  | .part => !value.isEmpty && Text.occursIn value (firstValue values)
  | .dashed =>
    !value.isEmpty && (values.contains value || (value ++ ['-']).isPrefixOf (firstValue values))
  | .word =>
    !value.isEmpty && (!value.any Text.isBlank && hasWord (firstValue values) value)

theorem false_decides (s : Scope) (p : Place) : Decides s p (.call "false" []) false := by
  have hfind : Function.find "false" 0 = .ok (.constant "false" false) := by rfl
  refine decides_boolean fun i k => ?_
  rw [evaluate_call hfind evaluateAll_nil]
  rfl

/-- The last characters of an attribute are compared with a value of the same length. -/
theorem ending_decides (s : Scope) (p : Place) (name value : String) :
    Decides s p
      (equation
        (.call "substring" [attributePath name,
          .binary (.arithmetic .plus)
            (.binary (.arithmetic .minus) (.call "string-length" [attributePath name])
              (.call "string-length" [literalExpr value]))
            (natExpr 1)])
        (literalExpr value))
      (lastCharacters value.toList.length (firstValue (attributeValues s p name.toList)) =
        value.toList) := by
  have hpath := attributePath_hasText s p name
  refine decides_boolean fun i k => ?_
  have hlength := hpath.length i k
  have hlength' := (literalExpr_hasText s p value).length i k
  have hone : natExpr 1 = .number (Float.ofScientific 1 true 0) := by rfl
  have hstart : evaluate ⟨s, .tree p, i, k⟩ (.binary (.arithmetic .plus)
      (.binary (.arithmetic .minus) (.call "string-length" [attributePath name])
        (.call "string-length" [literalExpr value])) (natExpr 1)) =
      .ok (.atom (.number (Float.ofNat (firstValue (attributeValues s p name.toList)).length -
        Float.ofNat value.toList.length + Float.ofScientific 1 true 0))) := by
    rw [evaluate, evaluate, hlength, hlength', hone, evaluate]
    rfl
  rw [equation, evaluate, hpath.substring hstart, evaluate_literalExpr]
  change Except.ok (Value.atom (.boolean (String.ofList (lastCharacters _ _) == value))) = _
  congr 3
  rw [Bool.eq_iff_iff, beq_iff_eq, decide_eq_true_eq, ← String.toList_inj, String.toList_ofList]

/-- **The test on an attribute decides whether its values are as the comparison asks.** -/
theorem attributeExpr_decides (s : Scope) (p : Place) (name : String) (comparison : Comparison)
    (value : String) : Decides s p (attributeExpr name comparison value)
      (valuesFit (attributeValues s p name.toList) comparison value.toList) := by
  have hpath := attributePath_hasText s p name
  have hequal := equation_decides s p name value
  have hliteral := literalExpr_hasText s p value
  have hempty : value.toList.isEmpty = value.isEmpty := by
    rw [Bool.eq_iff_iff, List.isEmpty_iff, String.toList_eq_nil_iff, String.isEmpty_iff]
  unfold attributeExpr
  by_cases hcomparison : comparison = .equal
  · subst hcomparison
    exact hequal
  rw [if_neg hcomparison]
  by_cases hvalue : value.isEmpty = true
  · rw [if_pos hvalue]
    rw [hvalue] at hempty
    cases comparison with
    | equal => exact absurd rfl hcomparison
    | beginning | ending | part | dashed | word =>
      rw [valuesFit, hempty]
      exact false_decides s p
  rw [if_neg hvalue]
  have hnonempty : (!value.toList.isEmpty) = true := by simpa [hempty] using hvalue
  cases comparison with
  | equal => exact absurd rfl hcomparison
  | beginning =>
    rw [valuesFit, hnonempty, Bool.true_and]
    exact hpath.startsWith hliteral
  | ending =>
    rw [valuesFit, hnonempty, Bool.true_and]
    exact ending_decides s p name value
  | part =>
    rw [valuesFit, hnonempty, Bool.true_and]
    exact hpath.contains hliteral
  | dashed =>
    have hdashed := hpath.startsWith (literalExpr_hasText s p (value ++ "-"))
    have htext : (value ++ "-").toList = value.toList ++ ['-'] := by simp
    rw [htext] at hdashed
    rw [valuesFit, hnonempty, Bool.true_and]
    exact hequal.or hdashed
  | word =>
    rw [valuesFit, hnonempty, Bool.true_and]
    dsimp only
    split_ifs with hblank
    · rw [hblank]
      exact false_decides s p
    · rw [Bool.not_eq_true] at hblank
      rw [hblank]
      exact wordTest_decides s p name value

end MarkupTemplate.Css
