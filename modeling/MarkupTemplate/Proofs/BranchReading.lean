import MarkupTemplate.Proofs.BranchExpr
import MarkupTemplate.Proofs.Paths

/-!
# Readings of selectors

The text that a selector is compiled to is read as the expression that `BranchExpr` says.

* `literal_text`, `literal_spells`, `intExpr_spells` — strings and integers.
* `Chained` — expressions with one operator between them.
* `nthTest_chained`, `attributeTest_spells` — conditions.
* `branchQuery_continues` — branches.
-/

namespace MarkupTemplate.Css

open XPath

variable {cs ds ps : List Char} {s t : String} {e e' : Expr} {es es' : List Expr} {o : Operator}
  {j k : Nat} {s' : Step}

/-- The text is read at a level as the expression, whatever follows. -/
abbrev Spells (k : Nat) (s : String) (e : Expr) : Prop :=
  Operand k s.toList e e

theorem operand_primary (h : PrimaryReads cs e e) : Operand 0 cs e e :=
  .of_reads (by simp [HasOperator]) (reads_primary h)

theorem operand_parens (h : Operand k cs e e) (hk : k ≤ 8) :
    Operand 0 ('(' :: (cs ++ [')'])) e e :=
  operand_primary (.parens (h.reads.mono hk))

/-! ## Strings and numbers -/

theorem operand_nat (n : Nat) : Operand 0 (Nat.toDigits 10 n) (natExpr n) (natExpr n) := by
  have hdigits : ∀ c ∈ Nat.toDigits 10 n ++ (none : Option (List Char)).getD [],
      Text.isDigit c = true := by
    intro c hc
    rw [Option.getD_none, List.append_nil] at hc
    exact Text.isDigit_of_mem_toDigits hc
  let numeral : Numeral := ⟨Nat.toDigits 10 n, none, hdigits, by simp [Nat.toDigits_ne_nil]⟩
  have hreads := PrimaryReads.number numeral
  have hend : numeral.valueAtEnd = numeral.value := numeral.valueAtEnd_eq_value (.inr rfl)
  have hvalue : Expr.number numeral.value = natExpr n := by
    simp [natExpr, Numeral.value, numeral]
  have htext : numeral.text = Nat.toDigits 10 n := by
    simp [Numeral.text, numeral]
  rw [hend, hvalue, htext] at hreads
  exact operand_primary hreads

theorem intExpr_spells (i : Int) : Spells 2 (toString i) (intExpr i) := by
  cases i with
  | ofNat n =>
    have htext : (toString (Int.ofNat n)).toList = Nat.toDigits 10 n := Nat.toList_repr
    have hreads := (operand_nat n).reads.mono (by decide : 0 ≤ 2)
    rw [← htext] at hreads
    exact .of_reads (by simp [HasOperator]) hreads
  | negSucc n =>
    have htext : (toString (Int.negSucc n)).toList = '-' :: Nat.toDigits 10 (n + 1) := by
      change ("-" ++ Nat.repr (n + 1)).toList = _
      rw [String.toList_append, Nat.toList_repr]
      rfl
    have hreads := ((operand_nat (n + 1)).reads.mono (by decide : 0 ≤ 1)).negate
    rw [← htext] at hreads
    exact .of_reads (by simp [HasOperator]) hreads

theorem literal_in_quotes {q : Char} (hq : isQuote q = true) (h : q ∉ cs) :
    Operand 0 (q :: (cs ++ [q])) (.literal (String.ofList cs)) (.literal (String.ofList cs)) := by
  have hreads := PrimaryReads.literal (s := String.ofList cs) hq (by simpa)
  rw [String.toList_ofList] at hreads
  exact operand_primary hreads

theorem ArgumentsRead.of_further (h : FurtherRead (',' :: ' ' :: cs) es) : ArgumentsRead cs es := by
  generalize hds : ',' :: ' ' :: cs = ds at h
  cases h with
  | nil => cases hds
  | cons he hes =>
    obtain rfl : cs = _ := (List.cons.inj (List.cons.inj hds).2).2
    exact .cons he hes

/-- The pieces of a string in double quotes, with a double quote in single ones between them. -/
def quotedPieces (pieces : List (List Char)) : List Char :=
  ", '\"', ".toList.intercalate (pieces.map fun piece => '"' :: (piece ++ ['"']))

theorem pieces_further : ∀ (piece : List Char) (pieces : List (List Char)),
    (∀ p ∈ piece :: pieces, '"' ∉ p) →
      FurtherRead (',' :: ' ' :: quotedPieces (piece :: pieces)) (pieceExprs (piece :: pieces))
  | piece, [], h => by
    have hpiece := (literal_in_quotes (by decide) (h piece (by simp))).reads
    have hfurther := FurtherRead.cons (hpiece.mono (Nat.zero_le 8)) .nil
    rw [List.append_nil] at hfurther
    simpa [quotedPieces, List.intercalate, pieceExprs] using hfurther
  | piece, next :: pieces, h => by
    have hpiece := (literal_in_quotes (by decide) (h piece (by simp))).reads
    have hsingle : '\'' ∉ ['"'] := by decide
    have hquote := (literal_in_quotes (by decide) hsingle).reads
    have ih := pieces_further next pieces fun p hp => h p (List.mem_cons_of_mem _ hp)
    have hfurther := FurtherRead.cons (hpiece.mono (Nat.zero_le 8))
      (FurtherRead.cons (hquote.mono (Nat.zero_le 8)) ih)
    simpa [quotedPieces, List.intercalate, pieceExprs] using hfurther

theorem operand_call {n : String} (hname : isName n.toList = true)
    (hkind : n ∉ ["text", "node", "comment"]) (h : ArgumentsRead cs es) :
    Operand 0 (n.toList ++ '(' :: (cs ++ [')'])) (.call n es) (.call n es) := by
  have hcall := PrimaryReads.call hname (by simpa using hkind) h
  rw [String.ofList_toList] at hcall
  exact operand_primary hcall

/-- A string is written in quotes that it does not hold, or as a call that puts it together. -/
theorem literal_text (s : String) :
    (∃ q, isQuote q = true ∧ q ∉ s.toList ∧ (literal s).toList = q :: (s.toList ++ [q]) ∧
        literalExpr s = .literal s) ∨
      ∃ as es, ArgumentsRead as es ∧
        (literal s).toList = "concat".toList ++ '(' :: (as ++ [')']) ∧
        literalExpr s = .call "concat" es := by
  rw [literal, literalExpr]
  cases hdouble : s.toList.contains '"' with
  | false => exact .inl ⟨'"', by decide, by simpa using hdouble, by simp, by simp⟩
  | true =>
    cases hsingle : s.toList.contains '\'' with
    | false => exact .inl ⟨'\'', by decide, by simpa using hsingle, by simp, by simp⟩
    | true =>
      obtain ⟨piece, pieces, hsplit⟩ := List.exists_cons_of_ne_nil
        (Text.splitOn_ne_nil '"' s.toList)
      have hpieces : ∀ p ∈ piece :: pieces, '"' ∉ p := fun p hp =>
        Text.not_mem_of_mem_splitOn (hsplit ▸ hp)
      have hmap : ((piece :: pieces).map fun p => "\"" ++ String.ofList p ++ "\"").map
          String.toList = (piece :: pieces).map fun p => '"' :: (p ++ ['"']) := by
        simp
      have htext : ("concat(" ++ String.intercalate ", '\"', " ((piece :: pieces).map fun p =>
          "\"" ++ String.ofList p ++ "\"") ++ ")").toList =
            "concat".toList ++ '(' :: (quotedPieces (piece :: pieces) ++ [')']) := by
        rw [String.toList_append, String.toList_append, String.toList_intercalate, hmap,
          quotedPieces]
        simp
      rw [hsplit]
      exact .inr ⟨_, _, ArgumentsRead.of_further (pieces_further piece pieces hpieces), htext, rfl⟩

theorem literal_spells (s : String) : Spells 0 (literal s) (literalExpr s) := by
  rcases literal_text s with ⟨q, hq, hmem, htext, hexpr⟩ | ⟨as, es, has, htext, hexpr⟩
  · rw [Spells, htext, hexpr]
    exact operand_primary (.literal hq hmem)
  · rw [Spells, htext, hexpr]
    exact operand_call (by decide) (by decide) has

/-! ## Chains -/

/-- The text of expressions with one operator between them. -/
inductive Chained (o : Operator) : List Char → List Expr → Prop
  | single {j : Nat} {cs : List Char} {e : Expr} : Operand j cs e e → j < o.level → Chained o cs [e]
  | snoc {j : Nat} {cs ds : List Char} {e : Expr} {es : List Expr} : Chained o cs es →
      Operand j ds e e → j < o.level →
      Chained o (cs ++ (' ' :: o.symbol ++ [' ']) ++ ds) (es ++ [e])

namespace Chained

theorem ne_nil (h : Chained o cs es) : es ≠ [] := by
  cases h <;> simp

theorem operand (h : Chained o cs es) :
    ∃ j ≤ o.level, Operand j cs (folded o es) (folded o es) := by
  induction h with
  | single he hj => exact ⟨_, Nat.le_of_lt hj, he⟩
  | snoc h he hj ih =>
    obtain ⟨i, hi, hes⟩ := ih
    rw [folded_snoc o h.ne_nil]
    exact ⟨_, Nat.le_refl _, hes.binary hi (he.reads.mono (Nat.le_sub_one_of_lt hj))⟩

theorem append (h : Chained o cs es) (h' : Chained o ds es') :
    Chained o (cs ++ (' ' :: o.symbol ++ [' ']) ++ ds) (es ++ es') := by
  induction h' with
  | single he hj => exact .snoc h he hj
  | snoc _ he hj ih =>
    rw [← List.append_assoc es, ← List.append_assoc, ← List.append_assoc]
    exact .snoc ih he hj

/-- Several texts with the operator between them. -/
theorem intercalate {α : Type} (text : α → List Char) (exprs : α → List Expr) :
    ∀ (as : List α), as ≠ [] → (∀ a ∈ as, Chained o (text a) (exprs a)) →
      Chained o ((' ' :: o.symbol ++ [' ']).intercalate (as.map text)) (as.flatMap exprs)
  | [], hne, _ => absurd rfl hne
  | [a], _, h => by simpa [List.intercalate] using h a (by simp)
  | a :: b :: as, _, h => by
    have ih := intercalate text exprs (b :: as) (by simp) fun c hc =>
      h c (List.mem_cons_of_mem _ hc)
    simpa [List.intercalate] using (h a (by simp)).append ih

end Chained

/-! ## Names -/

theorem typeTest_reads (h : isTypeName s = true) : TestReads s.toList (typeTest s) := by
  rw [isTypeName, Bool.or_eq_true, decide_eq_true_eq] at h
  rw [typeTest]
  split
  · rename_i hstar
    rw [hstar]
    exact .any
  · rename_i hstar
    have hsimple := h.resolve_left hstar
    have hname := TestReads.name (isName_of_isSimpleName hsimple)
    rw [String.ofList_toList] at hname
    exact hname

theorem operand_step (h : StepReads cs s') :
    Operand 0 cs (.path .context [s']) (.path .context [s']) := by
  have hreads := reads_relative h .nil
  rw [List.append_nil] at hreads
  exact .of_reads (by simp [HasOperator]) hreads

theorem operand_head {a : Axis} {test : NodeTest} (h : HeadReads cs a test) :
    Operand 0 cs (.path .context [.mk a test []]) (.path .context [.mk a test []]) := by
  have hstep := StepReads.mk h .nil
  rw [List.append_nil] at hstep
  exact operand_step hstep

theorem attributePath_spells (h : isName s.toList = true) :
    Spells 0 ("@" ++ s) (attributePath s) := by
  have hname := TestReads.name h
  rw [String.ofList_toList] at hname
  simpa [Spells, attributePath] using operand_head (HeadReads.attribute hname)

theorem axisPath_spells {w : String} {a : Axis} (hw : (w, a) ∈ axisNames)
    (h : isTypeName s = true) : Spells 0 (w ++ "::" ++ s) (axisPath a s) := by
  simpa [Spells, axisPath] using operand_head (HeadReads.axis hw (typeTest_reads h))

/-! ## Conditions -/

theorem spells_call₁ {n : String} (hname : isName n.toList = true)
    (hkind : n ∉ ["text", "node", "comment"]) (h : Spells j s e) (hj : j ≤ 8) :
    Spells 0 (n ++ "(" ++ s ++ ")") (.call n [e]) := by
  have hcall := operand_call hname hkind (.cons (h.reads.mono hj) .nil)
  simpa [Spells] using hcall

theorem spells_call₂ {n : String} (hname : isName n.toList = true)
    (hkind : n ∉ ["text", "node", "comment"]) (h : Spells j s e) (hj : j ≤ 8)
    (h' : Spells k t e') (hk : k ≤ 8) :
    Spells 0 (n ++ "(" ++ s ++ ", " ++ t ++ ")") (.call n [e, e']) := by
  have hcall := operand_call hname hkind
    (.cons (h.reads.mono hj) (.cons (h'.reads.mono hk) .nil))
  simpa [Spells] using hcall

theorem spells_nat (n : Nat) : Spells 0 (toString n) (natExpr n) := by
  have htext : (toString n).toList = Nat.toDigits 10 n := Nat.toList_repr
  rw [Spells, htext]
  exact operand_nat n

theorem spells_one : Spells 0 "1" (natExpr 1) :=
  spells_nat 1

theorem spells_binary (op : String) (hop : op.toList = ' ' :: o.symbol ++ [' '])
    (h : Spells j s e) (hj : j ≤ o.level) (h' : Spells k t e') (hk : k < o.level) :
    Spells o.level (s ++ op ++ t) (.binary o e e') := by
  have hbinary := h.binary hj (h'.reads.mono (Nat.le_sub_one_of_lt hk))
  rw [← hop] at hbinary
  simpa [Spells] using hbinary

/-- An equation without blanks. -/
theorem joins_equals : Joins 6 (.comparison .equal) ['='] := by
  intro t
  have hskip : skip ('=' :: t) = '=' :: t := skip_cons (by decide) t
  refine ⟨⟨⟨⟨.cons (by decide) (by decide) t, ?_⟩, ?_⟩, fun j hj => ?_⟩, [], by simp, ?_, ?_⟩
  · simp [hskip]
  · simp [hskip]
  · rw [List.cons_append, List.nil_append, hskip]
    match j, hj with
    | 0, _ | 1, _ | 2, _ | 3, _ | 4, _ | 5, _ => rfl
  · simp [hskip]
  · rw [List.cons_append, List.nil_append, hskip]
    rfl

theorem equation_spells (h : Spells 0 s e) (h' : Spells 0 t e') :
    Spells 6 (s ++ "=" ++ t) (equation e e') := by
  have hjoin := h.join (by decide) (.inr (by decide)) joins_equals
    (h'.reads.mono (by decide : 0 ≤ 6 - 1))
  simpa [Spells, equation] using hjoin

theorem wordTest_spells {value : String} (h : Spells 0 value e) (word : String) :
    Spells 0 (wordTest value word) (wordTestExpr e word) := by
  have hquote : '"' ∉ [' '] := by decide
  have hblank : Spells 0 "\" \"" (.literal " ") := by
    simpa [Spells] using literal_in_quotes (by decide) hquote
  have hwords := spells_call₁ (n := "normalize-space") (by decide) (by decide) h (Nat.zero_le 8)
  have hblank := hblank.reads.mono (Nat.zero_le 8)
  have hwords := hwords.reads.mono (Nat.zero_le 8)
  have hword := (literal_spells (" " ++ word ++ " ")).reads.mono (Nat.zero_le 8)
  have hpieces := ArgumentsRead.cons hblank (.cons hwords (.cons hblank .nil))
  have hconcat := operand_call (n := "concat") (by decide) (by decide) hpieces
  have hconcat := hconcat.reads.mono (Nat.zero_le 8)
  have harguments := ArgumentsRead.cons hconcat (.cons hword .nil)
  have hcall := operand_call (n := "contains") (by decide) (by decide) harguments
  unfold wordTest wordTestExpr
  generalize literal (" " ++ word ++ " ") = text at hcall ⊢
  simpa [Spells] using hcall

theorem spells_constant {n : String} (hname : isName n.toList = true)
    (hkind : n ∉ ["text", "node", "comment"]) : Spells 0 (n ++ "()") (.call n []) := by
  have hcall := operand_call hname hkind .nil
  simpa [Spells] using hcall

theorem attributeTest_spells {name : String} (h : isName name.toList = true)
    (comparison : Comparison) (value : String) :
    ∃ j ≤ 8, Spells j (attributeTest name comparison value)
      (attributeExpr name comparison value) := by
  have hstep := attributePath_spells h
  have hvalue := literal_spells value
  have hequation := equation_spells hstep hvalue
  have hfalse : Spells 0 "false()" (.call "false" []) :=
    spells_constant (n := "false") (by decide) (by decide)
  unfold attributeTest attributeExpr
  dsimp only
  split
  · exact ⟨6, by decide, hequation⟩
  · split
    · exact ⟨0, by decide, hfalse⟩
    · cases comparison with
      | equal => exact ⟨6, by decide, hequation⟩
      | beginning =>
        refine ⟨0, by decide, ?_⟩
        have hcall := spells_call₂ (n := "starts-with") (by decide) (by decide) hstep
          (Nat.zero_le 8) hvalue (Nat.zero_le 8)
        simpa [Spells] using hcall
      | ending =>
        have hlength := spells_call₁ (n := "string-length") (by decide) (by decide) hstep
          (Nat.zero_le 8)
        have hlength' := spells_call₁ (n := "string-length") (by decide) (by decide) hvalue
          (Nat.zero_le 8)
        have hrest := spells_binary (o := .arithmetic .minus) " - " rfl hlength (by decide)
          hlength' (by decide)
        have hstart := spells_binary (o := .arithmetic .plus) " + " rfl hrest (by decide)
          spells_one (by decide)
        have hending := spells_call₂ (n := "substring") (by decide) (by decide) hstep
          (Nat.zero_le 8) hstart (by decide)
        have hequal := spells_binary (o := .comparison .equal) " = " rfl hending (by decide)
          hvalue (by decide)
        refine ⟨6, by decide, ?_⟩
        simpa [Spells, equation, Operator.level] using hequal
      | part =>
        refine ⟨0, by decide, ?_⟩
        have hcall := spells_call₂ (n := "contains") (by decide) (by decide) hstep
          (Nat.zero_le 8) hvalue (Nat.zero_le 8)
        simpa [Spells] using hcall
      | dashed =>
        have hdashed := spells_call₂ (n := "starts-with") (by decide) (by decide) hstep
          (Nat.zero_le 8) (literal_spells (value ++ "-")) (Nat.zero_le 8)
        have hor := spells_binary (o := .or) " or " rfl hequation (by decide) hdashed (by decide)
        refine ⟨8, by decide, ?_⟩
        generalize literal (value ++ "-") = text at hor ⊢
        simpa [Spells, Operator.level] using hor
      | word =>
        refine ⟨0, by decide, ?_⟩
        dsimp only
        split
        · exact hfalse
        · exact wordTest_spells hstep value

/-! ## Positions -/

theorem spells_equation (h : Spells j s e) (hj : j ≤ 6) (h' : Spells k t e') (hk : k < 6) :
    Spells 6 (s ++ " = " ++ t) (equation e e') :=
  spells_binary (o := .comparison .equal) " = " rfl h hj h' hk

theorem modulo_spells (h : Spells 0 s e) (n : Int) :
    Spells 3 (s ++ " mod " ++ toString n) (.binary (.arithmetic .modulo) e (intExpr n)) :=
  spells_binary (o := .arithmetic .modulo) " mod " rfl h (by decide) (intExpr_spells n) (by decide)

theorem spells_parens (h : Spells j s e) (hj : j ≤ 8) : Spells 0 ("(" ++ s ++ ")") e := by
  simpa [Spells] using operand_parens h hj

theorem chained_equation (h : Spells 6 s e) : Chained .and s.toList [e] :=
  .single h (by decide)

theorem nthTest_chained {position count : String} {ep ec : Expr} (hp : Spells 0 position ep)
    (hc : Spells 0 count ec) (nth : Nth) :
    Chained .and (nthTest position count nth).toList (nthConjuncts ep ec nth) := by
  have hone : Spells 0 "1" (natExpr 1) := spells_nat 1
  have hzero : Spells 0 "0" (natExpr 0) := spells_nat 0
  cases nth with
  | first =>
    have hequation := spells_equation hp (by decide) hone (by decide)
    simpa [nthTest, nthConjuncts] using chained_equation hequation
  | last =>
    have hequation := spells_equation hp (by decide) hc (by decide)
    simpa [nthTest, nthConjuncts] using chained_equation hequation
  | formula step offset =>
    have hoffset := intExpr_spells offset
    have htwo : Spells 3 (position ++ " mod " ++ "2")
        (.binary (.arithmetic .modulo) ep (intExpr 2)) := modulo_spells hp 2
    unfold nthTest nthConjuncts
    dsimp only
    split
    · exact chained_equation (spells_equation hp (by decide) hoffset (by decide))
    split
    · have hodd := spells_equation htwo (by decide) hone (by decide)
      simpa using chained_equation hodd
    split
    · have heven := spells_equation htwo (by decide) hzero (by decide)
      simpa using chained_equation heven
    split
    · -- the position is counted from the offset on
      have hshifted : Spells 0
          (if 0 ≤ offset then "(" ++ position ++ " - " ++ toString offset ++ ")"
            else "(" ++ position ++ " + " ++ toString (-offset) ++ ")")
          (if 0 ≤ offset then .binary (.arithmetic .minus) ep (intExpr offset)
            else .binary (.arithmetic .plus) ep (intExpr (-offset))) := by
        split
        · have hminus := spells_binary (o := .arithmetic .minus) " - " rfl hp (by decide) hoffset
            (by decide)
          simpa [String.append_assoc] using spells_parens hminus (by decide)
        · have hplus := spells_binary (o := .arithmetic .plus) " + " rfl hp (by decide)
            (intExpr_spells (-offset)) (by decide)
          simpa [String.append_assoc] using spells_parens hplus (by decide)
      have hmodulo := modulo_spells hshifted step
      have hdivided := chained_equation (spells_equation hmodulo (by decide) hzero (by decide))
      split
      · have hbound := spells_binary (o := .comparison .greaterEqual) " >= " rfl hp (by decide)
          hoffset (by decide)
        have hchained := hdivided.snoc hbound (by decide)
        simpa [Operator.symbol] using hchained
      · simpa using hdivided
    · have hbound := spells_binary (o := .comparison .lessEqual) " <= " rfl hp (by decide) hoffset
        (by decide)
      have hrest := spells_binary (o := .arithmetic .minus) " - " rfl hoffset (by decide) hp
        (by decide)
      have hmodulo := modulo_spells (spells_parens hrest (by decide)) (-step)
      have hdivided := spells_equation hmodulo (by decide) hzero (by decide)
      have hchained := (Chained.single (o := .and) hbound (by decide)).snoc hdivided (by decide)
      simpa [Operator.symbol] using hchained

theorem conjunction_chained {α : Type} (test : α → String) (exprs : α → List Expr) {as : List α}
    (hne : as ≠ []) (h : ∀ a ∈ as, Chained .and (test a).toList (exprs a)) :
    Chained .and (conjunction (as.map test)).toList (as.flatMap exprs) := by
  have hchained := Chained.intercalate (fun a => (test a).toList) exprs as hne h
  rw [conjunction, String.toList_intercalate, List.map_map]
  exact hchained

theorem chained_spells (h : Chained .and s.toList es) :
    ∃ j ≤ 8, Spells j s (folded .and es) := by
  obtain ⟨j, hj, hspells⟩ := h.operand
  exact ⟨j, Nat.le_trans hj (by decide), hspells⟩

theorem listPosition_spells (positions : List Nth) (hne : positions ≠ []) :
    ∃ j ≤ 8, Spells j (listPosition positions) (listPositionExpr positions) := by
  have hposition : Spells 0 "position()" (.call "position" []) :=
    spells_constant (n := "position") (by decide) (by decide)
  have hlast : Spells 0 "last()" (.call "last" []) :=
    spells_constant (n := "last") (by decide) (by decide)
  match positions, hne with
  | [.first], _ => exact ⟨0, by decide, spells_nat 1⟩
  | [.last], _ => exact ⟨0, by decide, hlast⟩
  | [.formula step offset], _ =>
    simp only [listPosition, listPositionExpr]
    split
    · exact ⟨2, by decide, intExpr_spells offset⟩
    · exact chained_spells (nthTest_chained hposition hlast _)
  | nth :: next :: positions, _ =>
    have hspells := chained_spells (conjunction_chained _ _
      (List.cons_ne_nil nth (next :: positions)) fun nth _ => nthTest_chained hposition hlast nth)
    cases nth <;> exact hspells

theorem siblingPosition_spells (h : isTypeName s = true) (positions : List Nth)
    (hne : positions ≠ []) :
    ∃ j ≤ 8, Spells j (siblingPosition s positions) (siblingPositionExpr s positions) := by
  have hpreceding : Spells 0 ("preceding-sibling::" ++ s) (axisPath .precedingSibling s) :=
    axisPath_spells (w := "preceding-sibling") (by decide) h
  have hfollowing : Spells 0 ("following-sibling::" ++ s) (axisPath .followingSibling s) :=
    axisPath_spells (w := "following-sibling") (by decide) h
  have hbefore := spells_call₁ (n := "count") (by decide) (by decide) hpreceding (Nat.zero_le 8)
  have hafter := spells_call₁ (n := "count") (by decide) (by decide) hfollowing (Nat.zero_le 8)
  refine chained_spells (conjunction_chained _ _ hne fun nth _ => ?_)
  cases nth with
  | first =>
    have hnot := spells_call₁ (n := "not") (by decide) (by decide) hpreceding (Nat.zero_le 8)
    have hchained := Chained.single (o := .and) hnot (by decide)
    simpa [siblingConjuncts] using hchained
  | last =>
    have hnot := spells_call₁ (n := "not") (by decide) (by decide) hfollowing (Nat.zero_le 8)
    have hchained := Chained.single (o := .and) hnot (by decide)
    simpa [siblingConjuncts] using hchained
  | formula step offset =>
    have hplus := spells_binary (o := .arithmetic .plus) " + " rfl hbefore (by decide) spells_one
      (by decide)
    have hboth := spells_binary (o := .arithmetic .plus) " + " rfl hbefore (by decide) hafter
      (by decide)
    have htotal := spells_binary (o := .arithmetic .plus) " + " rfl hboth (by decide) spells_one
      (by decide)
    have hposition : Spells 0 ("(" ++ ("count(preceding-sibling::" ++ s ++ ")") ++ " + 1)")
        (.binary (.arithmetic .plus) (.call "count" [axisPath .precedingSibling s])
          (natExpr 1)) := by
      simpa [Spells] using spells_parens hplus (by decide)
    have hcount : Spells 0 ("(" ++ ("count(preceding-sibling::" ++ s ++ ")") ++ " + " ++
        ("count(following-sibling::" ++ s ++ ")") ++ " + 1)")
        (.binary (.arithmetic .plus) (.binary (.arithmetic .plus)
          (.call "count" [axisPath .precedingSibling s])
          (.call "count" [axisPath .followingSibling s])) (natExpr 1)) := by
      simpa [Spells] using spells_parens htotal (by decide)
    exact nthTest_chained hposition hcount (.formula step offset)

/-! ## Predicates -/

theorem PredicatesRead.append (h : PredicatesRead cs es) (h' : PredicatesRead ds es') :
    PredicatesRead (cs ++ ds) (es ++ es') := by
  induction h with
  | nil => exact h'
  | cons he _ ih =>
    rw [List.cons_append, List.append_assoc]
    exact .cons he ih

theorem bracketed_reads (h : ∃ j ≤ 8, Spells j s e) : PredicatesRead (bracketed s).toList [e] := by
  obtain ⟨j, hj, hspells⟩ := h
  simpa [bracketed] using PredicatesRead.cons (hspells.reads.mono hj) .nil

theorem positionPredicate_reads {text : List Nth → String} {expr : List Nth → Expr}
    (h : ∀ positions ≠ [], ∃ j ≤ 8, Spells j (text positions) (expr positions))
    (positions : List Nth) :
    PredicatesRead (positionPredicate text positions).toList (positionExprs expr positions) := by
  cases positions with
  | nil => exact .nil
  | cons nth positions => exact bracketed_reads (h _ (by simp))

/-! ## Compounds -/

/-- The names in a compound can be read, and its negations are not empty. -/
def isReadable (compound : Compound) : Bool :=
  isNamed compound && isFilled compound

theorem empty_spells : Spells 7 "count(*)=0 and not(text())" emptyExpr := by
  have hstar : Spells 0 "*" (.path .context [.mk .child .any []]) := by
    simpa [Spells] using operand_head .anyChild
  have htext : Spells 0 "text()" (.path .context [.mk .child .text []]) := by
    have hkind : HeadReads ("text".toList ++ ['(', ')']) .child .text := .kindChild (.head _)
    simpa [Spells] using operand_head hkind
  have hcount := spells_call₁ (n := "count") (by decide) (by decide) hstar (Nat.zero_le 8)
  have hnot := spells_call₁ (n := "not") (by decide) (by decide) htext (Nat.zero_le 8)
  have hzero : Spells 0 "0" (natExpr 0) := spells_nat 0
  have hequation := equation_spells hcount hzero
  have hand := spells_binary (o := .and) " and " rfl hequation (by decide) hnot (by decide)
  simpa [Spells, emptyExpr, Operator.level] using hand

mutual

theorem conditions_read : ∀ conditions : List Simple,
    (∀ c ∈ conditions, c.isNamed = true ∧ c.isFilled = true) →
      conditionsAll isReadable conditions = true →
        PredicatesRead (String.join ((predicates conditions).map bracketed)).toList
          (conditionExprs conditions)
  | [], _, _ => by simpa [predicates, conditionExprs] using PredicatesRead.nil
  | condition :: rest, h, hall => by
    rw [conditionsAll, Bool.and_eq_true] at hall
    have hhere := h condition (by simp)
    have hfirst := condition_reads condition hhere.1 hhere.2 hall.1
    have hrest := conditions_read rest (fun c hc => h c (List.mem_cons_of_mem _ hc)) hall.2
    rw [predicates, conditionExprs, List.map_append, String.join_append, String.toList_append]
    exact PredicatesRead.append hfirst hrest

theorem condition_reads : ∀ condition : Simple, condition.isNamed = true →
    condition.isFilled = true → condition.all isReadable = true →
      PredicatesRead (String.join ((predicate condition).map bracketed)).toList
        (conditionExpr condition)
  | .id name, _, _, _ => by
    have hid := equation_spells (attributePath_spells (s := "id") (by decide))
      (literal_spells name)
    simpa [predicate, conditionExpr] using bracketed_reads ⟨6, by decide, hid⟩
  | .cls name, _, _, _ => by
    have hclass := wordTest_spells (attributePath_spells (s := "class") (by decide)) name
    simpa [predicate, conditionExpr] using bracketed_reads ⟨0, by decide, hclass⟩
  | .present name, h, _, _ => by
    have hname := attributePath_spells h
    simpa [predicate, conditionExpr] using bracketed_reads ⟨0, by decide, hname⟩
  | .attribute name comparison value, h, _, _ => by
    have htest := attributeTest_spells h comparison value
    simpa [predicate, conditionExpr] using bracketed_reads htest
  | .empty, _, _, _ => by
    simpa [predicate, conditionExpr] using bracketed_reads ⟨7, by decide, empty_spells⟩
  | .negation alternatives, _, hne, hall => by
    have hne : alternatives ≠ [] := by simpa [Simple.isFilled] using hne
    obtain ⟨j, hj, hunion⟩ := (selfSteps_chained alternatives hne hall).operand
    have hnot := spells_call₁ (n := "not") (by decide) (by decide) hunion
      (Nat.le_trans hj (by decide))
    simpa [predicate, conditionExpr] using bracketed_reads ⟨0, by decide, hnot⟩
  | .childPosition _, _, _, _ => by simpa [predicate, conditionExpr] using PredicatesRead.nil
  | .typePosition _, _, _, _ => by simpa [predicate, conditionExpr] using PredicatesRead.nil

theorem selfSteps_chained : ∀ compounds : List Compound, compounds ≠ [] →
    compoundsAll isReadable compounds = true →
      Chained .union (String.intercalate " | " (selfSteps compounds)).toList (selfPaths compounds)
  | [], hne, _ => absurd rfl hne
  | [compound], _, hall => by
    rw [compoundsAll, Bool.and_eq_true] at hall
    have hstep := testStep_reads (w := "self") (a := .self) (by decide) compound hall.1
    have hchained := Chained.single (o := .union) (operand_step hstep) (by decide)
    simpa [selfSteps, selfPaths] using hchained
  | compound :: next :: rest, _, hall => by
    rw [compoundsAll, Bool.and_eq_true] at hall
    have hstep := testStep_reads (w := "self") (a := .self) (by decide) compound hall.1
    have hfirst := Chained.single (o := .union) (operand_step hstep) (by decide)
    have hrest := selfSteps_chained (next :: rest) (by simp) hall.2
    have hchained := hfirst.append hrest
    rw [selfSteps] at hchained
    rw [selfSteps, selfSteps, String.intercalate_cons_cons]
    simpa [selfPaths, Operator.symbol] using hchained

theorem testStep_reads {w : String} {a : Axis} (hw : (w, a) ∈ axisNames) :
    ∀ compound : Compound, compound.all isReadable = true →
      StepReads (w ++ "::" ++ selfTest compound).toList (testStep a compound)
  | .mk type conditions, hall => by
    rw [Compound.all, isReadable, isNamed, isFilled] at hall
    simp only [Compound.type, Compound.conditions, Bool.and_eq_true, List.all_eq_true] at hall
    obtain ⟨⟨⟨htype, hnamed⟩, hfilled⟩, hinside⟩ := hall
    have hhead := HeadReads.axis hw (typeTest_reads htype)
    have hchild := positionPredicate_reads (siblingPosition_spells (s := "*") (by decide))
      (childPositions conditions)
    have htypes := positionPredicate_reads (siblingPosition_spells htype)
      (typePositions conditions)
    have hconditions := conditions_read conditions
      (fun c hc => ⟨hnamed c hc, hfilled c hc⟩) hinside
    have hpredicates := PredicatesRead.append (PredicatesRead.append hchild htypes) hconditions
    have hstep := StepReads.mk hhead hpredicates
    simpa [selfTest, testStep] using hstep

end

/-! ## Branches -/

theorem conditionsAll_iff {check : Compound → Bool} {conditions : List Simple} :
    conditionsAll check conditions = true ↔ ∀ c ∈ conditions, c.all check = true := by
  induction conditions with
  | nil => simp [conditionsAll]
  | cons c conditions ih => simp [conditionsAll, ih]

theorem Compound.all_iff {check : Compound → Bool} {type : String} {conditions : List Simple} :
    (Compound.mk type conditions).all check = true ↔
      check (.mk type conditions) = true ∧ ∀ c ∈ conditions, c.all check = true := by
  rw [Compound.all, Bool.and_eq_true, conditionsAll_iff]

theorem withoutChildPositions_readable {compound : Compound}
    (h : compound.all isReadable = true) :
    (withoutChildPositions compound).all isReadable = true := by
  obtain ⟨type, conditions⟩ := compound
  simp only [Compound.all, isReadable, isNamed, isFilled, Compound.type, Compound.conditions,
    Bool.and_eq_true, List.all_eq_true, conditionsAll_iff] at h
  obtain ⟨⟨⟨htype, hnamed⟩, hfilled⟩, hinside⟩ := h
  simp only [withoutChildPositions, Compound.all, isReadable, isNamed, isFilled, Compound.type,
    Compound.conditions, Bool.and_eq_true, List.all_eq_true, conditionsAll_iff, List.mem_filter]
  exact ⟨⟨⟨htype, fun c hc => hnamed c hc.1⟩, fun c hc => hfilled c hc.1⟩,
    fun c hc => hinside c hc.1⟩

theorem typeHead_reads (h : isTypeName s = true) : HeadReads s.toList .child (typeTest s) := by
  rw [isTypeName, Bool.or_eq_true, decide_eq_true_eq] at h
  rw [typeTest]
  split
  · rename_i hstar
    rw [hstar]
    exact .anyChild
  · rename_i hstar
    have hname := HeadReads.child (isName_of_isSimpleName (h.resolve_left hstar))
    rw [String.ofList_toList] at hname
    exact hname

/-- Without its slashes, the text of a step along an axis is that of a first step and of what
continues it. -/
theorem listStep_reads {compound : Compound} (h : compound.all isReadable = true) :
    ∃ cs ds s' ss, StepReads cs s' ∧ Continues ds ss ∧ childSteps compound = s' :: ss ∧
      ∀ axis, (listStep axis compound).toList = axis.toList ++ (cs ++ ds) := by
  have hwithout := testStep_reads (w := "self") (a := .self) (by decide) _
    (withoutChildPositions_readable h)
  obtain ⟨type, conditions⟩ := compound
  simp only [Compound.all, isReadable, isNamed, isFilled, Compound.type, Compound.conditions,
    Bool.and_eq_true, List.all_eq_true] at h
  obtain ⟨⟨⟨htype, hnamed⟩, hfilled⟩, hinside⟩ := h
  by_cases hpositions : childPositions conditions = []
  · have htypes := positionPredicate_reads listPosition_spells (typePositions conditions)
    have hconditions := conditions_read conditions
      (fun c hc => ⟨hnamed c hc, hfilled c hc⟩) hinside
    have hstep := StepReads.mk (typeHead_reads htype) (PredicatesRead.append htypes hconditions)
    refine ⟨_, [], _, [], hstep, .nil, ?_, fun axis => ?_⟩
    · simp [childSteps, hpositions, Compound.conditions, Compound.type]
    · simp [listStep, hpositions, Compound.conditions, Compound.type]
  · have hlist := bracketed_reads (listPosition_spells _ hpositions)
    have hstep := StepReads.mk .anyChild hlist
    refine ⟨_, _, _, _, hstep, .step hwithout .nil, ?_, fun axis => ?_⟩
    · simp [childSteps, hpositions, Compound.conditions]
    · simp [listStep, hpositions, Compound.conditions]

theorem Continues.append {ss ss' : List Step} (h : Continues cs ss) (h' : Continues ds ss') :
    Continues (cs ++ ds) (ss ++ ss') := by
  induction h with
  | nil => exact h'
  | step hs _ ih =>
    rw [List.cons_append, List.append_assoc]
    exact .step hs ih
  | deep hs _ ih =>
    rw [List.cons_append, List.cons_append, List.append_assoc]
    exact .deep hs ih

theorem stepQuery_continues {compound : Compound} (h : compound.all isReadable = true)
    (combinator : Combinator) :
    Continues (stepQuery combinator compound).toList (stepSteps combinator compound) := by
  obtain ⟨cs, ds, s', ss, hs, hss, heq, htext⟩ := listStep_reads h
  cases combinator with
  | descendant =>
    have hslashes : "//".toList ++ (cs ++ ds) = '/' :: '/' :: (cs ++ ds) := rfl
    change Continues (listStep "//" compound).toList (.descendantOrSelf :: childSteps compound)
    rw [heq, htext, hslashes]
    exact .deep hs hss
  | child =>
    have hslash : "/".toList ++ (cs ++ ds) = '/' :: (cs ++ ds) := rfl
    change Continues (listStep "/" compound).toList (childSteps compound)
    rw [heq, htext, hslash]
    exact .step hs hss
  | sibling =>
    have hstep := testStep_reads (w := "following-sibling") (a := .followingSibling) (by decide)
      _ h
    change Continues ("/following-sibling::" ++ selfTest compound).toList
      [testStep .followingSibling compound]
    simpa using Continues.step hstep .nil
  | adjacent =>
    have hself := testStep_reads (w := "self") (a := .self) (by decide) _ h
    have hone : Spells 0 "1" (natExpr 1) := spells_nat 1
    have hfirst := StepReads.mk (HeadReads.axis (w := "following-sibling")
      (a := .followingSibling) (by decide) .any) (bracketed_reads ⟨0, by decide, hone⟩)
    change Continues ("/following-sibling::*[1]/self::" ++ selfTest compound).toList
      [.mk .followingSibling .any [natExpr 1], testStep .self compound]
    simpa [bracketed] using Continues.step hfirst (.step hself .nil)

theorem branchQuery_continues : ∀ branch : Branch,
    (∀ part ∈ branch, part.2.all isReadable = true) →
      Continues (branchQuery branch).toList (branchSteps branch)
  | [], _ => by simpa [branchQuery, branchSteps] using Continues.nil
  | (combinator, compound) :: branch, h => by
    have hfirst := stepQuery_continues (h _ List.mem_cons_self) combinator
    have hrest := branchQuery_continues branch fun p hp => h p (List.mem_cons_of_mem _ hp)
    simpa [branchQuery, branchSteps] using Continues.append hfirst hrest

theorem branchSteps_ne_nil {branch : Branch} (h : branch ≠ []) : branchSteps branch ≠ [] := by
  obtain ⟨⟨combinator, compound⟩, rest, rfl⟩ := List.exists_cons_of_ne_nil h
  have hchild : childSteps compound ≠ [] := by
    unfold childSteps
    dsimp only
    split <;> simp
  cases combinator <;> simp [branchSteps, stepSteps, hchild]

/-- A branch that can be compiled to the text of a query. -/
def BranchReadable (branch : Branch) : Prop :=
  branch ≠ [] ∧ ∀ part ∈ branch, part.2.all isReadable = true

theorem branch_operand {branch : Branch} (h : BranchReadable branch) :
    Operand 0 (branchQuery branch).toList (branchExpr branch) (branchExpr branch) :=
  .of_reads (by simp [HasOperator])
    (reads_root (branchQuery_continues branch h.2) (branchSteps_ne_nil h.1))

theorem branchWithin_operand {branch : Branch} (h : BranchReadable branch) :
    Operand 0 ("." ++ branchQuery branch).toList (branchExprWithin branch)
      (branchExprWithin branch) := by
  have hpoint := StepReads.mk .point .nil
  have hreads := reads_relative hpoint (branchQuery_continues branch h.2)
  refine .of_reads (by simp [HasOperator]) ?_
  simpa [branchExprWithin] using hreads

theorem branchQuery_ends {branch : Branch} (h : BranchReadable branch) :
    Begins (branchQuery branch).toList ∧ Finishes (branchQuery branch).toList := by
  obtain ⟨ds, heq, hds⟩ :=
    (branchQuery_continues branch h.2).finishes (branchSteps_ne_nil h.1)
  rw [heq]
  exact ⟨⟨'/', ds, rfl, by decide⟩, hds.cons '/'⟩

theorem intercalate_ends (separator : List Char) : ∀ (texts : List (List Char)), texts ≠ [] →
    (∀ t ∈ texts, Begins t ∧ Finishes t) →
      Begins (separator.intercalate texts) ∧ Finishes (separator.intercalate texts)
  | [], hne, _ => absurd rfl hne
  | [t], _, h => by simpa [List.intercalate] using h t (by simp)
  | t :: next :: texts, _, h => by
    have ih := intercalate_ends separator (next :: texts) (by simp)
      fun u hu => h u (List.mem_cons_of_mem _ hu)
    have heq : separator.intercalate (t :: next :: texts) =
        t ++ (separator ++ separator.intercalate (next :: texts)) := by
      simp [List.intercalate]
    rw [heq]
    exact ⟨(h t (by simp)).1.append _, (ih.2.append separator).append t⟩

/-- The texts of several paths are read as the union of what they are read as. -/
theorem read_union {α : Type} {as : List α} (hne : as ≠ []) (text : α → String) (expr : α → Expr)
    (h : ∀ a ∈ as, Operand 0 (text a).toList (expr a) (expr a) ∧
      Begins (text a).toList ∧ Finishes (text a).toList) :
    Expr.read (String.intercalate " | " (as.map text)) =
      .ok (folded .union (as.map expr)) := by
  have hchained := Chained.intercalate (o := .union) (fun a => (text a).toList)
    (fun a => [expr a]) as hne fun a ha => .single (h a ha).1 (by decide)
  obtain ⟨j, hj, hunion⟩ := hchained.operand
  have hends := intercalate_ends " | ".toList (as.map fun a => (text a).toList)
    (by simpa using hne) (by simpa using fun a ha => (h a ha).2)
  have hreads := hunion.reads.mono (Nat.le_trans hj (by decide : Operator.union.level ≤ 8))
  have hread := read_of_reads hreads hends.1 hends.2
  rw [← List.map_eq_flatMap] at hread
  have htext : String.intercalate " | " (as.map text) =
      String.ofList (" | ".toList.intercalate (as.map fun a => (text a).toList)) := by
    rw [← String.ofList_toList (s := String.intercalate _ _), String.toList_intercalate,
      List.map_map]
    rfl
  rw [htext]
  exact hread

end MarkupTemplate.Css
