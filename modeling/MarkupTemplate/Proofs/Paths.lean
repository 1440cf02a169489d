import MarkupTemplate.Proofs.Precedence

/-!
# Readings of paths

* `PrimaryReads`, `HeadReads` — what a primary expression or the head of a step is read as.
* `PredicatesRead`, `StepReads`, `Continues`, `ArgumentsRead` — the texts of lists of predicates, of
  steps and of arguments, with what they are read as.
* `Extends` — what is read as further steps behind a path.
* `reads_relative`, `reads_root`, `reads_slash`, `reads_filtered` — the readings of paths.
* `read_of_reads` — the reading of a whole text.
-/

namespace MarkupTemplate.XPath

variable {cs ds ps rest r : List Char} {e last : Expr} {es : List Expr} {s : Step} {ss : List Step}
  {a : Axis} {test : NodeTest}

/-- The text begins with something else than a blank. -/
def Visible (cs : List Char) : Prop :=
  ∃ c t, cs = c :: t ∧ isSpace c = false

theorem Visible.skip_append (h : Visible cs) (rest : List Char) :
    skip (cs ++ rest) = cs ++ rest := by
  obtain ⟨c, t, rfl, hc⟩ := h
  exact skip_cons hc _

theorem Visible.ne_nil (h : Visible cs) : cs ≠ [] := by
  obtain ⟨c, t, rfl, -⟩ := h
  exact List.cons_ne_nil c t

theorem Runs.ended {α : Type} {p : Parser α} {as : List α} (h : Runs p as cs r) : p r = none := by
  induction h with
  | done h => exact h
  | next _ _ _ ih => exact ih

/-! ## Predicates -/

/-- The text of a list of predicates. -/
inductive PredicatesRead : List Char → List Expr → Prop
  | nil : PredicatesRead [] []
  | cons {cs ps : List Char} {e last : Expr} {es : List Expr} : Reads 8 cs e last →
      PredicatesRead ps es → PredicatesRead ('[' :: (cs ++ ']' :: ps)) (e :: es)

theorem ends_closer {c : Char} (hc : c = ')' ∨ c = ']' ∨ c = ',') (cs : List Char) (k : Nat) :
    Ends k (c :: cs) := by
  have hs : isSpace c = false := by rcases hc with rfl | rfl | rfl <;> decide
  refine ⟨.closer hc cs, fun j _ => ?_⟩
  rw [skip_cons hs]
  match j with
  | 0 | 1 | 2 | 3 | 4 | 5 | 6 | 7 | 8 => rcases hc with rfl | rfl | rfl <;> rfl
  | j + 9 => rfl

namespace PredicatesRead

theorem tokenEnds (h : PredicatesRead ps es) (hr : Stops rest) : TokenEnds (ps ++ rest) := by
  cases h with
  | nil => exact hr.toTokenEnds
  | cons => exact .bracket _

theorem runs (h : PredicatesRead ps es) {depth : Nat} (hd : ps.length ≤ depth) (hr : Stops rest)
    (ht : Tail r (ps ++ rest)) :
    ∃ r', Tail r' rest ∧ Runs (predicate (expr depth)) es r r' := by
  induction h generalizing r with
  | nil =>
    refine ⟨r, ht, .done ?_⟩
    rw [predicate, sign?_tail ht, List.nil_append, sign?_eq_none hr.no_predicate]
  | @cons cs ps e last es he _ ih =>
    simp only [List.length_cons, List.length_append] at hd
    have hbracket : isSpace '[' = false := by decide
    obtain rfl := ht.eq_of_head (by simpa using hbracket)
    have hnested : expr depth (skip (cs ++ ']' :: (ps ++ rest))) =
        some (e, ']' :: (ps ++ rest)) := by
      rw [expr_skip, he.nested (by omega) (ends_closer (.inr (.inl rfl)) _ 8) (by simp),
        skip_cons (by decide)]
    obtain ⟨r', htail, hruns⟩ := @ih (skip (ps ++ rest)) (by omega) (.inr rfl)
    refine ⟨r', htail, .next ?_ ?_ hruns⟩
    · simp only [List.cons_append, List.append_assoc]
      simp only [predicate, sign?_self (c := '[') (by decide), hnested,
        sign?_self (c := ']') (by decide), Option.map_some]
    · have := length_skip_le (ps ++ rest)
      simp only [List.length_append, List.length_cons] at this ⊢
      omega

theorem finishes (h : PredicatesRead ps es) (hne : es ≠ []) : Finishes ps := by
  induction h with
  | nil => exact absurd rfl hne
  | @cons cs ps e last es _ hrest ih =>
    have hclosed : Finishes (']' :: ps) := by
      cases hrest with
      | nil => exact ⟨[], ']', rfl, by decide⟩
      | cons => exact (ih (by simp)).cons _
    exact (hclosed.append cs).cons '['

end PredicatesRead

/-! ## Steps -/

/-- The text of an axis and a node test. It is no primary expression, which would go first. -/
structure HeadReads (cs : List Char) (a : Axis) (test : NodeTest) : Prop where
  visible : Visible cs
  finishes : Finishes cs
  no_slash : ∀ c ∈ cs.head?, c ≠ '/'
  not_primary : ∀ nested rest, TokenEnds rest → primary nested (cs ++ rest) = none
  reads : ∀ rest, TokenEnds rest → stepHead (cs ++ rest) = some ((a, test), rest)

/-- The text of a step. -/
inductive StepReads : List Char → Step → Prop
  | mk {cs ps : List Char} {a : Axis} {test : NodeTest} {es : List Expr} :
      HeadReads cs a test → PredicatesRead ps es → StepReads (cs ++ ps) (.mk a test es)

namespace StepReads

theorem visible (h : StepReads cs s) : Visible cs := by
  obtain ⟨hhead, -⟩ := h
  obtain ⟨c, t, rfl, hc⟩ := hhead.visible
  exact ⟨c, _, rfl, hc⟩

theorem append_ne_slash (h : StepReads cs s) (ds t : List Char) : cs ++ ds ≠ '/' :: t := by
  obtain ⟨hhead, -⟩ := h
  obtain ⟨c, t, rfl, -⟩ := hhead.visible
  intro heq
  exact hhead.no_slash c (by simp) (List.cons.inj heq).1

theorem finishes (h : StepReads cs s) : Finishes cs := by
  obtain ⟨hhead, hps⟩ := h
  cases hps with
  | nil =>
    rw [List.append_nil]
    exact hhead.finishes
  | cons he hps => exact (PredicatesRead.cons he hps).finishes (by simp) |>.append _

theorem not_primary (h : StepReads cs s) (nested : Parser Expr) (hr : Stops rest) :
    primary nested (cs ++ rest) = none := by
  obtain ⟨hhead, hps⟩ := h
  rw [List.append_assoc]
  exact hhead.not_primary nested _ (hps.tokenEnds hr)

theorem step_eq (h : StepReads cs s) {depth : Nat} (hd : cs.length ≤ depth) (hr : Stops rest) :
    ∃ r, Tail r rest ∧ step (expr depth) (cs ++ rest) = some (s, r) := by
  obtain @⟨hs, ps, a, test, es, hhead, hps⟩ := h
  rw [List.length_append] at hd
  obtain ⟨r, htail, hruns⟩ := hps.runs (by omega : ps.length ≤ depth) hr (.refl _)
  refine ⟨r, htail, ?_⟩
  rw [step, List.append_assoc, hhead.reads _ (hps.tokenEnds hr)]
  simp only [many_of_runs hruns]

end StepReads

/-- The text of steps, each behind its slash or slashes. -/
inductive Continues : List Char → List Step → Prop
  | nil : Continues [] []
  | step {cs ds : List Char} {s : Step} {ss : List Step} : StepReads cs s → Continues ds ss →
      Continues ('/' :: (cs ++ ds)) (s :: ss)
  | deep {cs ds : List Char} {s : Step} {ss : List Step} : StepReads cs s → Continues ds ss →
      Continues ('/' :: '/' :: (cs ++ ds)) (.descendantOrSelf :: s :: ss)

theorem furtherStep_step (nested : Parser Expr) (h : ∀ t, cs ≠ '/' :: t) :
    furtherStep nested ('/' :: cs) =
      (step nested cs).map fun (s, rest) => ([s], rest) := by
  unfold furtherStep
  split
  · rename_i heq
    exact absurd (List.cons.inj heq).2 (h _)
  · rename_i heq
    rw [(List.cons.inj heq).2]
  · rename_i hnot
    exact absurd rfl (hnot cs)

theorem furtherStep_eq_none (nested : Parser Expr) (h : ∀ c ∈ cs.head?, c ≠ '/') :
    furtherStep nested cs = none := by
  unfold furtherStep
  split
  · exact absurd rfl (h '/' (by simp))
  · exact absurd rfl (h '/' (by simp))
  · rfl

/-- A further step begins with a slash. -/
theorem slash_of_furtherStep {nested : Parser Expr} (h : furtherStep nested cs = some (ss, r)) :
    ∃ u, cs = '/' :: u := by
  by_contra hslash
  rw [furtherStep_eq_none] at h
  · cases h
  · rintro c hc rfl
    exact hslash ⟨_, List.eq_cons_of_mem_head? hc⟩

/-- Behind a path the text is read as further steps, whatever ends the path. -/
structure Extends (cs : List Char) (ss : List Step) : Prop where
  stops : ∀ rest, PathEnds rest → Stops (cs ++ rest)
  runs : ∀ depth, cs.length ≤ depth → ∀ rest, PathEnds rest → ∀ r, Tail r (cs ++ rest) →
    ∃ lists r', skip r' = skip rest ∧ Runs (furtherStep (expr depth)) lists r r' ∧
      lists.flatten = ss

theorem Extends.nil : Extends [] [] := by
  refine ⟨fun rest hr => hr.toStops, fun depth _ rest hr r ht => ?_⟩
  rw [List.nil_append] at ht
  refine ⟨[], r, ht.skipped, .done (furtherStep_eq_none _ ?_), rfl⟩
  rintro c hc rfl
  have hskip : skip r = r := skip_of_head fun d hd => by
    rw [Option.mem_unique hd hc]
    decide
  rw [← hskip, ht.skipped] at hc
  exact hr.no_step '/' hc rfl

/-- A step behind its slashes, in front of what extends a path. -/
theorem Extends.behind (w : List Char) (before : List Step) (hw : ∃ u, w = '/' :: u)
    (hfurther : ∀ nested t, (∀ u, t ≠ '/' :: u) →
      furtherStep nested (w ++ t) = (step nested t).map fun (s, rest) => (before ++ [s], rest))
    (hs : StepReads cs s) (h : Extends ds ss) :
    Extends (w ++ (cs ++ ds)) (before ++ s :: ss) := by
  have hslash : isSpace '/' = false := by decide
  obtain ⟨u, rfl⟩ := hw
  refine ⟨fun rest _ => .slash _, fun depth hlen rest hr r ht => ?_⟩
  simp only [List.length_append, List.length_cons] at hlen
  obtain rfl := ht.eq_of_head (by simpa using hslash)
  obtain ⟨r₁, htail, heq⟩ := hs.step_eq (by omega : cs.length ≤ depth) (h.stops rest hr)
  obtain ⟨lists, r', hskip, hruns, hflat⟩ := h.runs depth (by omega) rest hr r₁ htail
  refine ⟨(before ++ [s]) :: lists, r', hskip, .next ?_ ?_ hruns, by simp [hflat]⟩
  · rw [List.append_assoc, List.append_assoc, hfurther _ _ (hs.append_ne_slash _), heq]
    rfl
  · have := htail.length_le
    simp only [List.length_append, List.length_cons] at this ⊢
    omega

namespace Continues

/-- Steps in front of what extends a path extend it. -/
theorem append_extends {ss' : List Step} (h : Continues cs ss) (hd : Extends ds ss') :
    Extends (cs ++ ds) (ss ++ ss') := by
  induction h with
  | nil => exact hd
  | step hs _ ih =>
    have hbehind := ih.behind ['/'] [] ⟨[], rfl⟩
      (fun nested t ht => furtherStep_step nested ht) hs
    simpa using hbehind
  | deep hs _ ih =>
    have hbehind := ih.behind ['/', '/'] [.descendantOrSelf] ⟨_, rfl⟩
      (fun _ _ _ => rfl) hs
    simpa using hbehind

theorem toExtends (h : Continues cs ss) : Extends cs ss := by
  have happend := h.append_extends .nil
  rwa [List.append_nil, List.append_nil] at happend

theorem finishes (h : Continues cs ss) (hne : ss ≠ []) : ∃ ds, cs = '/' :: ds ∧ Finishes ds := by
  have hstep {cs ds : List Char} {s : Step} {ss : List Step} (hs : StepReads cs s)
      (hss : Continues ds ss) (ih : ss ≠ [] → ∃ es, ds = '/' :: es ∧ Finishes es) :
      Finishes (cs ++ ds) := by
    cases ss with
    | nil =>
      cases hss
      rw [List.append_nil]
      exact hs.finishes
    | cons =>
      obtain ⟨es, rfl, hes⟩ := ih (by simp)
      exact (hes.cons '/').append cs
  induction h with
  | nil => exact absurd rfl hne
  | step hs hss ih => exact ⟨_, rfl, hstep hs hss ih⟩
  | deep hs hss ih => exact ⟨_, rfl, (hstep hs hss ih).cons '/'⟩

end Continues

/-! ## Arguments -/

/-- The text of further arguments. -/
inductive FurtherRead : List Char → List Expr → Prop
  | nil : FurtherRead [] []
  | cons {cs ds : List Char} {e last : Expr} {es : List Expr} : Reads 8 cs e last →
      FurtherRead ds es → FurtherRead (',' :: ' ' :: (cs ++ ds)) (e :: es)

/-- The text of a list of arguments. -/
inductive ArgumentsRead : List Char → List Expr → Prop
  | nil : ArgumentsRead [] []
  | cons {cs ds : List Char} {e last : Expr} {es : List Expr} : Reads 8 cs e last →
      FurtherRead ds es → ArgumentsRead (cs ++ ds) (e :: es)

theorem FurtherRead.ends (h : FurtherRead cs es) (t : List Char) : Ends 8 (cs ++ ')' :: t) := by
  cases h with
  | nil => exact ends_closer (.inl rfl) t 8
  | cons => exact ends_closer (.inr (.inr rfl)) _ 8

theorem FurtherRead.runs (h : FurtherRead cs es) {depth : Nat} (hd : cs.length < depth)
    {t : List Char} (ht : Tail r (cs ++ ')' :: t)) :
    Runs (furtherArgument (expr depth)) es r (')' :: t) := by
  have hcomma : isSpace ',' = false := by decide
  have hparen : isSpace ')' = false := by decide
  induction h generalizing r with
  | nil =>
    obtain rfl := ht.eq_of_head (by simpa using hparen)
    refine .done ?_
    have hsign : sign? ',' (')' :: t) = none := sign?_eq_none (by simp [skip_cons hparen])
    rw [furtherArgument, List.nil_append, hsign]
    rfl
  | @cons cs ds e last es he hds ih =>
    simp only [List.length_cons, List.length_append] at hd
    obtain rfl := ht.eq_of_head (by simpa using hcomma)
    have hnested : expr depth (skip (' ' :: (cs ++ (ds ++ ')' :: t)))) =
        some (e, skip (ds ++ ')' :: t)) := by
      rw [skip_space, expr_skip, he.nested (by omega) (hds.ends t) (by simp)]
    refine .next ?_ ?_ (ih (by omega) (.inr rfl))
    · simp only [List.cons_append, List.append_assoc]
      rw [furtherArgument, sign?_self hcomma, Option.bind_some, hnested]
    · have := length_skip_le (ds ++ ')' :: t)
      simp only [List.length_append, List.length_cons] at this ⊢
      omega

theorem ArgumentsRead.eq (h : ArgumentsRead cs es) {depth : Nat} (hd : cs.length < depth)
    (t : List Char) :
    callArguments (expr depth) (skip (cs ++ ')' :: t)) = (es, ')' :: t) := by
  cases h with
  | nil =>
    rw [List.nil_append, skip_cons (by decide), callArguments, expr_closer]
  | @cons cs ds e last es he hds =>
    rw [List.length_append] at hd
    have hruns := hds.runs (by omega : ds.length < depth) (.inr rfl : Tail _ (ds ++ ')' :: t))
    rw [callArguments, expr_skip, List.append_assoc, he.nested (by omega) (hds.ends t) (by simp)]
    simp only [many_of_runs hruns]

/-! ## Primary expressions -/

/-- The text is read as a primary expression, as `last` if nothing follows. -/
structure PrimaryReads (cs : List Char) (e last : Expr) : Prop where
  visible : Visible cs
  reads : ∀ depth, cs.length ≤ depth → ∀ rest, TokenEnds rest →
    ∃ r, Tail r rest ∧
      primary (expr depth) (cs ++ rest) = some (if rest = [] then last else e, r)

theorem isNameChar_of_digit_or_point {c : Char} (h : Text.isDigit c = true ∨ c = '.') :
    isSpace c = false := by
  rcases h with h | rfl
  · exact isSpace_of_isNameChar (isNameChar_of_isDigit h)
  · decide

theorem PrimaryReads.number (n : Numeral) :
    PrimaryReads n.text (.number n.value) (.number n.valueAtEnd) := by
  refine ⟨?_, fun depth _ rest hr => ⟨rest, .refl rest, ?_⟩⟩
  · obtain ⟨c, t, heq, hc⟩ := n.text_cons
    exact ⟨c, t, heq, isNameChar_of_digit_or_point hc⟩
  · have hend : ∀ c ∈ rest.head?, Text.isDigit c = false ∧ c ≠ '.' := fun c hc =>
      ⟨hr.no_digit c hc, (hr.head c hc).2.1⟩
    rw [primary, number_append n hend]
    simp only
    split <;> rfl

/-- A literal is read off whatever text it begins. -/
theorem primary_literal (nested : Parser Expr) {q : Char} {s : String} (hq : isQuote q = true)
    (hs : q ∉ s.toList) (rest : List Char) :
    primary nested (q :: (s.toList ++ [q]) ++ rest) = some (.literal s, rest) := by
  have hq' : Text.isDigit q = false ∧ q ≠ '.' := by
    simp only [isQuote, Bool.or_eq_true, decide_eq_true_eq] at hq
    rcases hq with rfl | rfl <;> decide
  have hnumber : XPath.number (q :: (s.toList ++ [q]) ++ rest) = none :=
    number_eq_none (by simpa using hq')
  have hliteral : literalText (q :: (s.toList ++ [q]) ++ rest) = some (s, rest) := by
    simpa using literalText_append hq hs rest
  simp only [primary, hnumber, hliteral]

theorem PrimaryReads.literal {q : Char} {s : String} (hq : isQuote q = true)
    (hs : q ∉ s.toList) :
    PrimaryReads (q :: (s.toList ++ [q])) (.literal s) (.literal s) := by
  have hspace : isSpace q = false := by
    simp only [isQuote, Bool.or_eq_true, decide_eq_true_eq] at hq
    rcases hq with rfl | rfl <;> decide
  refine ⟨⟨q, _, rfl, hspace⟩, fun depth _ rest _ => ⟨rest, .refl rest, ?_⟩⟩
  rw [ite_self]
  exact primary_literal (expr depth) hq hs rest

/-- A text that begins with a name is neither a number nor a literal. -/
theorem primary_of_name (nested : Parser Expr) {c : Char} (hc : isNameStart c = true)
    (t : List Char) : primary nested (c :: t) = functionCall nested (c :: t) := by
  have hne : ∀ d, isNameStart d = false → c ≠ d := fun d => ne_of_isNameStart hc
  have hnumber : number (c :: t) = none := by
    refine number_eq_none ?_
    simp only [List.head?_cons, Option.mem_def, Option.some.injEq]
    rintro _ rfl
    exact ⟨isDigit_of_isNameStart hc, hne '.' (by decide)⟩
  have hliteral : literalText (c :: t) = none := by
    refine literalText_eq_none ?_
    simp only [List.head?_cons, Option.mem_def, Option.some.injEq]
    rintro _ rfl
    simp [isQuote, hne '\'' (by decide), hne '"' (by decide)]
  have hparen : parenthesized nested (c :: t) = none := by
    have hsign : sign? '(' (c :: t) = none := by
      refine sign?_eq_none ?_
      rw [skip_cons (isSpace_of_isNameChar (isNameChar_of_isNameStart hc))]
      simpa using hne '(' (by decide)
    rw [parenthesized, hsign]
  simp only [primary, hnumber, hliteral, hparen]
  cases functionCall nested (c :: t) <;> rfl

/-- A call is read off whatever text it begins, with the blanks behind it. -/
theorem primary_call {n as : List Char} (hn : isName n = true)
    (hkind : String.ofList n ∉ ["text", "node", "comment"]) (h : ArgumentsRead as es)
    {depth : Nat} (hd : as.length < depth) (rest : List Char) :
    primary (expr depth) (n ++ '(' :: (as ++ [')']) ++ rest) =
      some (.call (String.ofList n) es, skip rest) := by
  obtain ⟨c, t, heq, hc, -⟩ := isName_cons hn
  have htext : n ++ '(' :: (as ++ [')']) ++ rest = n ++ '(' :: (as ++ ')' :: rest) := by simp
  have hname : name (n ++ '(' :: (as ++ ')' :: rest)) =
      some (String.ofList n, '(' :: (as ++ ')' :: rest)) := by
    refine name_append hn ?_
    simp only [List.head?_cons, Option.mem_def, Option.some.injEq]
    rintro _ rfl
    decide
  have hcall : functionCall (expr depth) (n ++ '(' :: (as ++ ')' :: rest)) =
      some (.call (String.ofList n) es, skip rest) := by
    have hnot : ["text", "node", "comment"].contains (String.ofList n) = false := by
      simpa using hkind
    simp only [functionCall, hname, hnot, sign?_self (c := '(') (by decide), h.eq hd rest,
      sign?_self (c := ')') (by decide)]
    rfl
  rw [htext, ← hcall, heq]
  exact primary_of_name (expr depth) hc _

theorem PrimaryReads.call {n as : List Char} (hn : isName n = true)
    (hkind : String.ofList n ∉ ["text", "node", "comment"]) (h : ArgumentsRead as es) :
    PrimaryReads (n ++ '(' :: (as ++ [')'])) (.call (String.ofList n) es)
      (.call (String.ofList n) es) := by
  obtain ⟨c, t, heq, hc, -⟩ := isName_cons hn
  have hspace := isSpace_of_isNameChar (isNameChar_of_isNameStart hc)
  refine ⟨⟨c, _, by rw [heq]; rfl, hspace⟩, fun depth hd rest _ => ⟨skip rest, .inr rfl, ?_⟩⟩
  simp only [List.length_append, List.length_cons] at hd
  rw [ite_self]
  exact primary_call hn hkind h (by omega) rest

theorem PrimaryReads.parens (h : Reads 8 cs e last) : PrimaryReads ('(' :: (cs ++ [')'])) e e := by
  refine ⟨⟨'(', _, rfl, by decide⟩, fun depth hd rest _ => ⟨skip rest, .inr rfl, ?_⟩⟩
  simp only [List.length_cons, List.length_append, List.length_nil] at hd
  have htext : '(' :: (cs ++ [')']) ++ rest = '(' :: (cs ++ ')' :: rest) := by simp
  have hnumber : XPath.number ('(' :: (cs ++ ')' :: rest)) = none :=
    number_eq_none (by simp; decide)
  have hliteral : literalText ('(' :: (cs ++ ')' :: rest)) = none :=
    literalText_eq_none (by simp; decide)
  have hname : name ('(' :: (cs ++ ')' :: rest)) = none :=
    name_eq_none (by simp; decide)
  have hnested : expr depth (skip (cs ++ ')' :: rest)) = some (e, ')' :: rest) := by
    rw [expr_skip, h.nested (by omega) (ends_closer (.inl rfl) rest 8) (by simp),
      skip_cons (by decide)]
  rw [htext]
  simp only [primary, hnumber, hliteral, functionCall, hname, parenthesized,
    sign?_self (c := '(') (by decide), hnested, sign?_self (c := ')') (by decide),
    Option.map_some, ite_self]

/-! ## Heads of steps -/

/-- The text is read as a node test. -/
structure TestReads (cs : List Char) (test : NodeTest) : Prop where
  finishes : Finishes cs
  reads : ∀ rest, TokenEnds rest → nodeTest (cs ++ rest) = some (test, rest)

theorem TestReads.any : TestReads ['*'] .any :=
  ⟨⟨[], '*', rfl, by decide⟩, fun _ _ => rfl⟩

theorem TestReads.name {n : List Char} (hn : isName n = true) :
    TestReads n (.name (String.ofList n)) := by
  refine ⟨finishes_of_isName hn, fun rest hr => ?_⟩
  obtain ⟨c, t, heq, hc, -⟩ := isName_cons hn
  have hstar : ∀ d ∈ (n ++ rest).head?, d ≠ '*' := by
    rw [heq, List.cons_append]
    simp only [List.head?_cons, Option.mem_def, Option.some.injEq]
    rintro _ rfl rfl
    revert hc
    decide
  rw [nodeTest_of_head hstar, kindTest_name hn hr,
    name_append hn hr.no_name]
  rfl

/-- The words of the tests for the kind of a node. -/
def kindNames : List (List Char × NodeTest) :=
  [("text".toList, .text), ("node".toList, .node), ("comment".toList, .comment)]

theorem TestReads.kind {w : List Char} {test : NodeTest} (h : (w, test) ∈ kindNames) :
    TestReads (w ++ ['(', ')']) test := by
  refine ⟨⟨w ++ ['('], ')', by simp, by decide⟩, fun rest _ => ?_⟩
  simp only [kindNames, List.mem_cons, Prod.mk.injEq, List.not_mem_nil, or_false] at h
  rcases h with ⟨rfl, rfl⟩ | ⟨rfl, rfl⟩ | ⟨rfl, rfl⟩ <;> rfl

/-- A name that no parenthesis follows is no function call. -/
theorem functionCall_eq_none (nested : Parser Expr) {n : String} (h : name cs = some (n, rest))
    (hparen : sign? '(' rest = none) : functionCall nested cs = none := by
  rw [functionCall, h]
  simp only [hparen, ite_self]

/-- An axis with its colons in front of a node test. -/
theorem HeadReads.axis {w : String} (hw : (w, a) ∈ axisNames) (ht : TestReads cs test) :
    HeadReads (w.toList ++ ':' :: ':' :: cs) a test := by
  have hword : ∀ entry ∈ axisNames, isSimpleName entry.1.toList = true := by decide
  have hsimple := hword (w, a) hw
  obtain ⟨c, t, heq, hc, -⟩ := isSimpleName_cons hsimple
  have hne : ∀ d, isNameStart d = false → c ≠ d := fun d => ne_of_isNameStart hc
  refine ⟨⟨c, _, by rw [heq]; rfl, isSpace_of_isNameChar (isNameChar_of_isNameStart hc)⟩,
    ((ht.finishes.cons ':').cons ':').append _, ?_, ?_, ?_⟩
  · rw [heq]
    simpa using hne '/' (by decide)
  · intro nested rest _
    have hname := name_axis hsimple (cs ++ rest)
    have hsign : sign? '(' (':' :: ':' :: (cs ++ rest)) = none :=
      sign?_eq_none (by rw [skip_cons (by decide)]; simp)
    have hcall := functionCall_eq_none nested hname hsign
    simp only [List.append_assoc, List.cons_append]
    rw [heq] at hcall ⊢
    exact (primary_of_name nested hc _).trans hcall
  · intro rest hr
    have hhead : ∀ d ∈ (w.toList ++ ':' :: ':' :: (cs ++ rest)).head?, d ≠ '.' ∧ d ≠ '@' := by
      rw [heq]
      simpa using ⟨hne '.' (by decide), hne '@' (by decide)⟩
    simp only [List.append_assoc, List.cons_append]
    rw [stepHead_of_head hhead, axis_append hw]
    simp only [ht.reads rest hr]
    rfl

/-- An `@` in front of a node test. -/
theorem HeadReads.attribute (ht : TestReads cs test) : HeadReads ('@' :: cs) .attribute test := by
  refine ⟨⟨'@', cs, rfl, by decide⟩, ht.finishes.cons '@', by simp, fun nested rest _ => ?_,
    fun rest hr => ?_⟩
  · exact primary_eq_none nested (by decide) (cs ++ rest)
  · rw [List.cons_append, stepHead, ht.reads rest hr]
    rfl

/-- A star for the elements below. -/
theorem HeadReads.anyChild : HeadReads ['*'] .child .any := by
  refine ⟨⟨'*', [], rfl, by decide⟩, ⟨[], '*', rfl, by decide⟩, by simp,
    fun nested rest _ => ?_, fun rest hr => ?_⟩
  · exact primary_eq_none nested (by decide) rest
  · rfl

/-- A point for the node itself. -/
theorem HeadReads.point : HeadReads ['.'] .self .node := by
  refine ⟨⟨'.', [], rfl, by decide⟩, ⟨[], '.', rfl, by decide⟩, by simp,
    fun nested rest hr => ?_, fun rest hr => ?_⟩
  · have hnumber : number ('.' :: rest) = none := number_point hr.no_digit
    have hliteral : literalText ('.' :: rest) = none := literalText_eq_none (by simp; decide)
    have hname : name ('.' :: rest) = none := name_eq_none (by simp; decide)
    have hsign : sign? '(' ('.' :: rest) = none :=
      sign?_eq_none (by rw [skip_cons (by decide)]; simp)
    simp only [List.cons_append, List.nil_append, primary, hnumber, hliteral, functionCall, hname,
      parenthesized, hsign]
  · cases rest with
    | nil => rfl
    | cons c rest =>
      have hpoint := (hr.head c (by simp)).2.1
      simp only [List.cons_append, List.nil_append]
      unfold stepHead
      split
      · rename_i heq
        exact absurd (List.cons.inj (List.cons.inj heq).2).1 hpoint
      · rename_i heq
        rw [(List.cons.inj heq).2]
      · rename_i heq
        exact absurd (List.cons.inj heq).1 (by decide)
      · rename_i hnot _
        exact absurd rfl (hnot _)

/-- A name for the elements below that have it. -/
theorem HeadReads.child {n : List Char} (hn : isName n = true) :
    HeadReads n .child (.name (String.ofList n)) := by
  obtain ⟨c, t, heq, hc, -⟩ := isName_cons hn
  have hne : ∀ d, isNameStart d = false → c ≠ d := fun d => ne_of_isNameStart hc
  refine ⟨⟨c, t, heq, isSpace_of_isNameChar (isNameChar_of_isNameStart hc)⟩,
    finishes_of_isName hn, ?_, ?_, ?_⟩
  · rw [heq]
    simpa using hne '/' (by decide)
  · intro nested rest hr
    have hname := name_append hn hr.no_name
    have hcall := functionCall_eq_none nested hname (sign?_eq_none hr.no_call)
    rw [heq] at hcall ⊢
    exact (primary_of_name nested hc _).trans hcall
  · intro rest hr
    have hhead : ∀ d ∈ (n ++ rest).head?, d ≠ '.' ∧ d ≠ '@' := by
      rw [heq]
      simpa using ⟨hne '.' (by decide), hne '@' (by decide)⟩
    rw [stepHead_of_head hhead, axis_name hn hr]
    simp only [(TestReads.name hn).reads rest hr]
    rfl

/-- A test for the kind of the nodes below. -/
theorem HeadReads.kindChild {w : List Char} (h : (w, test) ∈ kindNames) :
    HeadReads (w ++ ['(', ')']) .child test := by
  have hnames : ∀ entry ∈ kindNames, isName entry.1 = true := by decide
  have hkinds : ∀ entry ∈ kindNames,
      ["text", "node", "comment"].contains (String.ofList entry.1) = true := by decide
  have hn : isName w = true := hnames _ h
  obtain ⟨c, t, heq, hc, -⟩ := isName_cons hn
  have hne : ∀ d, isNameStart d = false → c ≠ d := fun d => ne_of_isNameStart hc
  refine ⟨⟨c, _, by rw [heq]; rfl, isSpace_of_isNameChar (isNameChar_of_isNameStart hc)⟩,
    (TestReads.kind h).finishes, ?_, ?_, ?_⟩
  · rw [heq]
    simpa using hne '/' (by decide)
  · intro nested rest _
    have hname : name (w ++ (['(', ')'] ++ rest)) =
        some (String.ofList w, ['(', ')'] ++ rest) :=
      name_append hn (by simp; decide)
    have hcall : functionCall nested (w ++ (['(', ')'] ++ rest)) = none := by
      rw [functionCall, hname]
      exact if_pos (hkinds _ h)
    rw [List.append_assoc]
    rw [heq] at hcall ⊢
    exact (primary_of_name nested hc _).trans hcall
  · intro rest hr
    have hhead : ∀ d ∈ (w ++ ['(', ')'] ++ rest).head?, d ≠ '.' ∧ d ≠ '@' := by
      rw [heq]
      simpa using ⟨hne '.' (by decide), hne '@' (by decide)⟩
    have haxis : XPath.axis (w ++ ['(', ')'] ++ rest) = (.child, w ++ ['(', ')'] ++ rest) := by
      simp only [kindNames, List.mem_cons, Prod.mk.injEq, List.not_mem_nil, or_false] at h
      rcases h with ⟨rfl, -⟩ | ⟨rfl, -⟩ | ⟨rfl, -⟩ <;> rfl
    rw [stepHead_of_head hhead, haxis]
    simp only [(TestReads.kind h).reads rest hr]
    rfl

/-! ## Paths -/

theorem furtherSteps_eq {nested : Parser Expr} {lists : List (List Step)}
    (h : Runs (furtherStep nested) lists cs r) :
    furtherSteps nested cs = (lists.flatten, r) := by
  rw [furtherSteps, many_of_runs h]

theorem furtherSteps_ended {nested : Parser Expr} {lists : List (List Step)}
    (h : Runs (furtherStep nested) lists cs r) : furtherSteps nested r = ([], r) :=
  furtherSteps_eq (.done h.ended)

theorem spacedPathExpr_eq {nested : Parser Expr} {cs : List Char} (hv : Visible cs)
    (hskip : skip r = skip rest) (h : pathExpr nested (cs ++ rest) = some (e, r)) :
    spacedPathExpr nested (cs ++ rest) = some (e, skip rest) := by
  rw [spacedPathExpr, hv.skip_append, h, ← hskip]
  rfl

/-- A text that is no primary expression is read as a location path. -/
theorem pathExpr_of_locationPath {nested : Parser Expr} (hp : primary nested cs = none) :
    pathExpr nested cs =
      (locationPath nested cs).map fun (e, rest) =>
        let (steps, rest) := furtherSteps nested rest
        (continued e steps, rest) := by
  simp only [pathExpr, filtered, hp]
  cases locationPath nested cs <;> rfl

/-- A path from the context node. -/
theorem Extends.reads_relative (hc : Extends ds ss) (h : StepReads cs s) :
    Reads 0 (cs ++ ds) (.path .context (s :: ss)) (.path .context (s :: ss)) := by
  intro depth hd rest hr
  rw [List.length_append] at hd
  have hstops := hc.stops rest hr.toPathEnds
  obtain ⟨r₁, htail₁, hstep⟩ := h.step_eq (by omega : cs.length ≤ depth) hstops
  obtain ⟨lists, r₂, hskip, hruns, hflat⟩ :=
    hc.runs depth (by omega) rest hr.toPathEnds r₁ htail₁
  have hhead : pathHead (expr depth) (cs ++ (ds ++ rest)) = some ((.context, [s]), r₁) := by
    unfold pathHead
    split
    · rename_i heq
      exact absurd heq (h.append_ne_slash _ _)
    · rename_i heq
      exact absurd heq (h.append_ne_slash _ _)
    · rw [hstep]
      rfl
  have hpath : pathExpr (expr depth) (cs ++ (ds ++ rest)) =
      some (.path .context (s :: ss), r₂) := by
    rw [pathExpr_of_locationPath (h.not_primary _ hstops), locationPath, hhead]
    simp only [furtherSteps_eq hruns, Option.map_some, furtherSteps_ended hruns, hflat]
    rfl
  have hvisible : Visible (cs ++ ds) := by
    obtain ⟨c, t, rfl, hc⟩ := h.visible
    exact ⟨c, _, rfl, hc⟩
  rw [ite_self]
  exact spacedPathExpr_eq hvisible hskip (by rw [List.append_assoc, hpath])

theorem reads_relative (h : StepReads cs s) (hc : Continues ds ss) :
    Reads 0 (cs ++ ds) (.path .context (s :: ss)) (.path .context (s :: ss)) :=
  hc.toExtends.reads_relative h

/-- No step begins with what ends a path. -/
theorem stepHead_of_pathEnds (hr : PathEnds rest) : stepHead rest = none := by
  refine stepHead_eq_none fun c hc => ?_
  obtain ⟨hname, hpoint, -, hstar, hat⟩ := hr.head c hc
  refine ⟨?_, hstar, hpoint, hat⟩
  cases hstart : isNameStart c with
  | false => rfl
  | true =>
    rw [isNameChar_of_isNameStart hstart] at hname
    cases hname

/-- A slash alone is the root. -/
theorem reads_slash : Reads 0 ['/'] (.path .root []) (.path .root []) := by
  intro depth _ rest hr
  have hstep : step (expr depth) rest = none := by
    rw [step, stepHead_of_pathEnds hr.toPathEnds]
  have hslash : ∀ c ∈ rest.head?, c ≠ '/' := by
    rintro c hc rfl
    have hskip : skip rest = rest := skip_of_head fun d hd => by
      rw [Option.mem_unique hd hc]
      decide
    exact hr.no_step '/' (by rw [hskip]; exact hc) rfl
  have hhead : pathHead (expr depth) ('/' :: rest) = some ((.root, []), rest) := by
    unfold pathHead
    split
    · rename_i heq
      obtain rfl := (List.cons.inj heq).2
      exact absurd rfl (hslash '/' (by simp))
    · rename_i heq
      rw [← (List.cons.inj heq).2, hstep]
    · rename_i hnot
      exact absurd rfl (hnot rest)
  have hnone : Runs (furtherStep (expr depth)) [] rest rest :=
    .done (furtherStep_eq_none _ hslash)
  have hpath : pathExpr (expr depth) ('/' :: rest) = some (.path .root [], rest) := by
    rw [pathExpr_of_locationPath (primary_eq_none _ (by decide) rest), locationPath, hhead]
    simp only [furtherSteps_eq hnone, Option.map_some]
    rfl
  rw [ite_self]
  exact spacedPathExpr_eq ⟨'/', [], rfl, by decide⟩ rfl hpath

/-- The first step from the root is read like a further one. -/
theorem pathHead_of_furtherStep {nested : Parser Expr} (h : furtherStep nested cs = some (ss, r)) :
    pathHead nested cs = some ((.root, ss), r) := by
  unfold furtherStep at h
  split at h
  · obtain ⟨⟨s, r'⟩, hs, heq⟩ := Option.map_eq_some_iff.1 h
    simp only [Prod.mk.injEq] at heq
    obtain ⟨rfl, rfl⟩ := heq
    rw [pathHead, hs]
    rfl
  · rename_i t hnot
    obtain ⟨⟨s, r'⟩, hs, heq⟩ := Option.map_eq_some_iff.1 h
    simp only [Prod.mk.injEq] at heq
    obtain ⟨rfl, rfl⟩ := heq
    unfold pathHead
    split
    · rename_i heq
      exact absurd (List.cons.inj heq).2 (hnot _)
    · rename_i heq
      rw [← (List.cons.inj heq).2, hs]
    · rename_i hnot'
      exact absurd rfl (hnot' t)
  · cases h

/-- What extends a path by steps begins with a slash. -/
theorem Extends.slash (hc : Extends cs ss) (hne : ss ≠ []) : ∃ t, cs = '/' :: t := by
  obtain ⟨lists, r, -, hruns, hflat⟩ := hc.runs cs.length (Nat.le_refl _) [] .nil _ (.refl _)
  rw [List.append_nil] at hruns
  cases hruns with
  | done => exact absurd hflat.symm hne
  | next hfirst => exact slash_of_furtherStep hfirst

/-- A path from the root. -/
theorem Extends.reads_root (hc : Extends cs ss) (hne : ss ≠ []) :
    Reads 0 cs (.path .root ss) (.path .root ss) := by
  intro depth hd rest hr
  obtain ⟨lists, r, hskip, hruns, hflat⟩ := hc.runs depth hd rest hr.toPathEnds _ (.refl _)
  obtain ⟨t, rfl⟩ := hc.slash hne
  cases hruns with
  | done => exact absurd hflat.symm hne
  | @next first lists _ r₁ _ hfirst _ hruns =>
    rw [List.cons_append] at hfirst
    have hpath : pathExpr (expr depth) ('/' :: (t ++ rest)) = some (.path .root ss, r) := by
      rw [pathExpr_of_locationPath (primary_eq_none _ (by decide) _), locationPath,
        pathHead_of_furtherStep hfirst]
      simp only [furtherSteps_eq hruns, Option.map_some, furtherSteps_ended hruns]
      rw [← hflat]
      rfl
    rw [ite_self]
    exact spacedPathExpr_eq ⟨'/', t, rfl, by decide⟩ hskip hpath

theorem reads_root (hc : Continues cs ss) (hne : ss ≠ []) :
    Reads 0 cs (.path .root ss) (.path .root ss) :=
  hc.toExtends.reads_root hne

/-- An expression with predicates, if there are any. -/
def narrowed (e : Expr) (es : List Expr) : Expr :=
  if es.isEmpty then e else .filter e es

/-- A primary expression with predicates and with steps behind them. -/
theorem reads_filtered (h : PrimaryReads cs e last) (hp : PredicatesRead ps es)
    (hc : Continues ds ss) :
    Reads 0 (cs ++ (ps ++ ds)) (continued (narrowed e es) ss)
      (continued (narrowed (if ps ++ ds = [] then last else e) es) ss) := by
  intro depth hd rest hr
  simp only [List.length_append] at hd
  have hstops := hc.toExtends.stops rest hr.toPathEnds
  obtain ⟨r₁, htail₁, hprimary⟩ :=
    h.reads depth (by omega) _ (hp.tokenEnds hstops)
  obtain ⟨r₂, htail₂, hruns₂⟩ := hp.runs (by omega : ps.length ≤ depth) hstops htail₁
  obtain ⟨lists, r₃, hskip, hruns₃, hflat⟩ :=
    hc.toExtends.runs depth (by omega) rest hr.toPathEnds r₂ htail₂
  have hpath : pathExpr (expr depth) (cs ++ (ps ++ (ds ++ rest))) =
      some (continued (narrowed (if ps ++ (ds ++ rest) = [] then last else e) es) ss, r₃) := by
    simp only [pathExpr, filtered, hprimary, many_of_runs hruns₂, furtherSteps_eq hruns₃, hflat]
    rfl
  have hvisible : Visible (cs ++ (ps ++ ds)) := by
    obtain ⟨c, t, rfl, hc⟩ := h.visible
    exact ⟨c, _, rfl, hc⟩
  have htext : pathExpr (expr depth) (cs ++ (ps ++ ds) ++ rest) =
      some (continued (narrowed (if ps ++ (ds ++ rest) = [] then last else e) es) ss, r₃) := by
    rw [List.append_assoc, List.append_assoc, hpath]
  have hspaced := spacedPathExpr_eq hvisible hskip htext
  rw [parserAt, hspaced]
  by_cases hrest : rest = []
  · simp [hrest]
  · simp [hrest]

/-- A primary expression alone. -/
theorem reads_primary (h : PrimaryReads cs e last) : Reads 0 cs e last := by
  have hreads := reads_filtered h .nil .nil
  rw [List.append_nil, List.append_nil, if_pos rfl] at hreads
  exact hreads

/-! ## Whole texts -/

theorem ends_nil (k : Nat) : Ends k [] := by
  refine ⟨.nil, fun j _ => ?_⟩
  match j with
  | 0 | 1 | 2 | 3 | 4 | 5 | 6 | 7 | 8 => rfl
  | j + 9 => rfl

theorem read_of_reads (h : Reads 8 cs e last) (hb : Begins cs) (hf : Finishes cs) :
    Expr.read (String.ofList cs) = .ok last := by
  have hexpr : expr (cs.length + 1) cs = some (last, []) := by
    have hreads := h cs.length (Nat.le_refl _) [] (ends_nil 8)
    rw [List.append_nil, if_pos rfl] at hreads
    exact hreads
  simp only [Expr.read, String.toList_ofList, trim_eq_self hb hf, hexpr]

end MarkupTemplate.XPath
