import MarkupTemplate.Proofs.Enclosed

/-!
# Readings of nested expressions

An expression inside of brackets is read alike whatever follows the brackets, and however deep
expressions may nest in it, as long as they may nest as deep as the text is long.

* `many_local`, `chain_local` — repetitions and chains of operands.
* `predicate_local`, `step_local`, `locationPath_local`, `primary_local`, `parserAt_local` — the
  levels of the grammar.
* `expr_local` — nested expressions.
-/

namespace MarkupTemplate.XPath

variable {cs rest r t : List Char} {α β : Type} {p p' : Parser α}

/-! ## Repetition -/

/-- All values that there are, as the value of a parser that never fails. -/
def all (p : Parser α) : Parser (List α) :=
  fun cs => some (many p cs)

/-- A repetition ends at the same place in a longer text. -/
theorem runs_local (n : Nat) : ∀ cs : List Char, cs.length ≤ n →
    (∀ ds, ds.length ≤ cs.length → Local p p' ds ∧ Shrinks p ds) →
      ∃ as r, Runs p as cs r ∧ closings r = closings cs ∧ r.length ≤ cs.length ∧
        (Enclosed cs → ∀ t, Runs p' as (cs ++ t) (r ++ t)) := by
  induction n with
  | zero =>
    intro cs hn hp
    obtain ⟨hlocal, hshrinks⟩ := hp cs (Nat.le_refl _)
    cases hlocal with
    | fails h h' => exact ⟨[], cs, .done h, rfl, Nat.le_refl _, fun he t => .done (h' he t)⟩
    | takes h => exact absurd (hshrinks _ _ h) (by omega)
  | succ n ih =>
    intro cs hn hp
    obtain ⟨hlocal, hshrinks⟩ := hp cs (Nat.le_refl _)
    cases hlocal with
    | fails h h' => exact ⟨[], cs, .done h, rfl, Nat.le_refl _, fun he t => .done (h' he t)⟩
    | @takes a r h hc hl h' =>
      have hlt := hshrinks _ _ h
      obtain ⟨as, r', hruns, hc', hl', hruns'⟩ :=
        ih r (by omega) fun ds hds => hp ds (Nat.le_trans hds hl)
      refine ⟨a :: as, r', .next h hlt hruns, hc'.trans hc, Nat.le_trans hl' hl, fun he t => ?_⟩
      refine .next (h' he t) ?_ (hruns' (he.of_eq hc) t)
      simpa using hlt

theorem all_local (hp : ∀ ds, ds.length ≤ cs.length → Local p p' ds ∧ Shrinks p ds) :
    Local (all p) (all p') cs := by
  obtain ⟨as, r, hruns, hc, hl, hruns'⟩ := runs_local cs.length cs (Nat.le_refl _) hp
  exact .takes (congrArg some (many_of_runs hruns)) hc hl fun he t =>
    congrArg some (many_of_runs (hruns' he t))

/-! ## Chains -/

section Chains

variable {operand operand' : Parser Expr} {operator : Parser Operator}

/-- The operands that follow a first one, with more than enough fuel for the second parser. -/
theorem chainWithin_local (hoperator : ∀ ds, Local operator operator ds ∧ Shrinks operator ds)
    (fuel : Nat) : ∀ (cs : List Char) (left : Expr), cs.length ≤ fuel →
      (∀ ds, ds.length ≤ cs.length → Local operand operand' ds) → ∀ k,
        Local (chainWithin operand operator fuel left)
          (fun ds => chainWithin operand' operator (ds.length + k) left ds) cs := by
  induction fuel with
  | zero =>
    intro cs left hfuel _ k
    obtain rfl := List.length_eq_zero_iff.1 (Nat.le_zero.1 hfuel)
    exact .takes rfl rfl (Nat.le_refl _) fun he => absurd rfl he.ne_nil
  | succ fuel ih =>
    intro cs left hfuel hoperand k
    obtain ⟨hlocal, hshrinks⟩ := hoperator (skip cs)
    have hskip := length_skip_le cs
    -- The fuel of the second parser is positive, as the text is not empty.
    have hmore (he : Enclosed cs) (t : List Char) :
        ∃ m, (cs ++ t).length + k = m + 1 ∧ (cs ++ t).length ≤ m + 1 := by
      have := List.length_pos_iff.2 he.ne_nil
      simp only [List.length_append]
      exact ⟨cs.length + t.length + k - 1, by omega, by omega⟩
    cases hlocal with
    | fails h h' =>
      refine .takes (by rw [chainWithin, h]) rfl (Nat.le_refl _) fun he t => ?_
      obtain ⟨m, hm, -⟩ := hmore he t
      rw [hm, chainWithin, he.skip_append, h' he.skip]
    | @takes o r h hc hl h' =>
      rw [closings_skip] at hc
      have hlt := hshrinks _ _ h
      cases hoperand r (by omega) with
      | fails hr hr' =>
        refine .fails (by rw [chainWithin, h]; simp only [hr]) fun he t => ?_
        obtain ⟨m, hm, -⟩ := hmore he t
        rw [hm, chainWithin, he.skip_append, h' he.skip]
        simp only [hr' (he.of_eq hc)]
      | @takes right r₂ hr hc₂ hl₂ hr' =>
        have hc₂' := hc₂.trans hc
        have hfirst : chainWithin operand operator (fuel + 1) left cs =
            chainWithin operand operator fuel (.binary o left right) r₂ := by
          rw [chainWithin, h]
          simp only [hr]
        have hsecond (he : Enclosed cs) (t : List Char) :
            ∃ j, chainWithin operand' operator ((cs ++ t).length + k) left (cs ++ t) =
              chainWithin operand' operator ((r₂ ++ t).length + j) (.binary o left right)
                (r₂ ++ t) := by
          obtain ⟨m, hm, hle⟩ := hmore he t
          have hlen : (r₂ ++ t).length ≤ m := by
            simp only [List.length_append] at hle ⊢
            omega
          obtain ⟨j, rfl⟩ := Nat.exists_eq_add_of_le hlen
          refine ⟨j, ?_⟩
          rw [hm, chainWithin, he.skip_append, h' he.skip]
          simp only [hr' (he.of_eq hc)]
        have hshort : ∀ ds, ds.length ≤ r₂.length → Local operand operand' ds :=
          fun ds hds => hoperand ds (by omega)
        have hrest := fun j => ih r₂ (.binary o left right) (by omega) hshort j
        refine (hrest 0).continued hc₂' (by omega) hfirst fun he t => ?_
        obtain ⟨j, hj⟩ := hsecond he t
        exact ⟨_, hrest j, hj⟩

theorem chain_local (hoperand : ∀ ds, ds.length ≤ cs.length → Local operand operand' ds)
    (hoperator : ∀ ds, Local operator operator ds ∧ Shrinks operator ds) :
    Local (chain operand operator) (chain operand' operator) cs := by
  have hchain (operand : Parser Expr) : chain operand operator =
      andThen operand fun left ds => chainWithin operand operator (ds.length + 0) left ds := by
    funext ds
    rw [chain, andThen]
    cases operand ds <;> rfl
  rw [hchain, hchain]
  refine (hoperand cs (Nat.le_refl _)).andThen fun left r _ hl => ?_
  have hrest := chainWithin_local hoperator r.length r left (Nat.le_refl _)
    (fun ds hds => hoperand ds (Nat.le_trans hds hl)) 0
  exact hrest.congr rfl fun _ t => rfl

end Chains

/-! ## Operators -/

theorem Shrinks.wordIn? {table : List (String × α)}
    (h : (table.all fun entry => !entry.1.isEmpty) = true) (cs : List Char) :
    Shrinks (wordIn? table) cs := by
  intro a r hword
  obtain ⟨w, hmem, rfl⟩ := eq_append_of_wordIn? hword
  have hne := List.all_eq_true.1 h _ hmem
  have : w.toList ≠ [] := by simpa using hne
  have := List.length_pos_iff.2 this
  simp only [List.length_append]
  omega

theorem dropHead?_length {w : List Char} (h : Text.dropHead? w cs = some r) :
    cs.length = w.length + r.length := by
  rw [← Text.dropHead?_eq_some.1 h, List.length_append]

theorem Shrinks.keyword {word : String} (h : word.toList ≠ []) (o : Operator) (cs : List Char) :
    Shrinks (keyword word o) cs := by
  intro a r hword
  rw [XPath.keyword] at hword
  split at hword
  · rename_i rest hrest
    split at hword
    · cases hword
    · obtain ⟨-, rfl⟩ := Prod.mk.inj (Option.some.inj hword)
      have := dropHead?_length hrest
      have := List.length_pos_iff.2 h
      omega
  · cases hword

theorem multiplicativeOperator_eq : multiplicativeOperator =
    orElse (wordIn? [("*", .arithmetic .times)])
      (orElse (keyword "div" (.arithmetic .divide)) (keyword "mod" (.arithmetic .modulo))) := by
  funext cs
  rw [multiplicativeOperator, orElse, wordIn?, List.findSome?_cons]
  dsimp only
  have hstar : "*".toList = ['*'] := rfl
  rw [hstar]
  cases Text.dropHead? ['*'] cs <;> rfl

theorem Shrinks.orElse {q : Parser α} (hp : Shrinks p cs) (hq : Shrinks q cs) :
    Shrinks (orElse p q) cs := by
  intro a r h
  rw [XPath.orElse, Option.or_eq_some_iff] at h
  rcases h with h | ⟨-, h⟩
  · exact hp a r h
  · exact hq a r h

theorem operatorAt_local (k : Nat) (cs : List Char) :
    Local (operatorAt k) (operatorAt k) cs ∧ Shrinks (operatorAt k) cs := by
  have hword {w : String} (h : w.toList.all isPlain = true) (hne : w.toList ≠ [])
      (o : Operator) : Local (keyword w o) (keyword w o) cs ∧ Shrinks (keyword w o) cs :=
    ⟨keyword_local (List.all_eq_true.1 h) o cs, .keyword hne o cs⟩
  match k with
  | 1 => exact ⟨wordIn?_local _ (by decide) cs, .wordIn? (by decide) cs⟩
  | 3 =>
    have hstar := wordIn?_local [("*", Operator.arithmetic .times)] (by decide) cs
    obtain ⟨hdiv, hdiv'⟩ := hword (w := "div") (by decide) (by decide) (.arithmetic .divide)
    obtain ⟨hmod, hmod'⟩ := hword (w := "mod") (by decide) (by decide) (.arithmetic .modulo)
    rw [operatorAt, multiplicativeOperator_eq]
    exact ⟨hstar.orElse (hdiv.orElse hmod), (Shrinks.wordIn? (by decide) cs).orElse
      (hdiv'.orElse hmod')⟩
  | 4 => exact ⟨wordIn?_local _ (by decide) cs, .wordIn? (by decide) cs⟩
  | 5 => exact ⟨wordIn?_local _ (by decide) cs, .wordIn? (by decide) cs⟩
  | 6 => exact ⟨wordIn?_local _ (by decide) cs, .wordIn? (by decide) cs⟩
  | 7 => exact hword (w := "and") (by decide) (by decide) .and
  | 8 => exact hword (w := "or") (by decide) (by decide) .or
  | 0 | 2 | _ + 9 => exact ⟨.fails rfl fun _ _ => rfl, nofun⟩

/-! ## Steps -/

/-- One parser behind two slashes, another behind one, and a third without. -/
def behindSlashes (deep next first : Parser α) : Parser α
  | '/' :: '/' :: rest => deep rest
  | '/' :: rest => next rest
  | cs => first cs

theorem behindSlashes_next (deep next first : Parser α) (h : ∀ t, cs ≠ '/' :: t) :
    behindSlashes deep next first ('/' :: cs) = next cs := by
  unfold behindSlashes
  split
  · rename_i heq
    exact absurd (List.cons.inj heq).2 (h _)
  · rename_i heq
    rw [(List.cons.inj heq).2]
  · rename_i hnot
    exact absurd rfl (hnot cs)

theorem behindSlashes_first (deep next first : Parser α) (h : ∀ t, cs ≠ '/' :: t) :
    behindSlashes deep next first cs = first cs := by
  unfold behindSlashes
  split
  · exact absurd rfl (h _)
  · exact absurd rfl (h _)
  · rfl

theorem behindSlashes_local {deep deep' next next' first first' : Parser α}
    (hdeep : ∀ ds, ds.length ≤ cs.length → Local deep deep' ds)
    (hnext : ∀ ds, ds.length ≤ cs.length → Local next next' ds) (hfirst : Local first first' cs) :
    Local (behindSlashes deep next first) (behindSlashes deep' next' first') cs := by
  have hslash := closings_plain (c := '/') (by decide)
  by_cases hdouble : ∃ ds, cs = '/' :: '/' :: ds
  · obtain ⟨ds, rfl⟩ := hdouble
    have hw : closings (['/', '/'] ++ ds) = closings ds := (hslash _).trans (hslash ds)
    exact (hdeep ds (by simp only [List.length_cons]; omega)).behind hw rfl fun _ t => rfl
  · by_cases hsingle : ∃ ds, cs = '/' :: ds
    · obtain ⟨ds, rfl⟩ := hsingle
      have hnot : ∀ t, ds ≠ '/' :: t := fun t heq => hdouble ⟨t, congrArg _ heq⟩
      refine (hnext ds (by simp)).behind (w := ['/']) (hslash ds) (behindSlashes_next _ _ _ hnot)
        fun he t => behindSlashes_next _ _ _ fun u heq => ?_
      obtain ⟨es, rfl⟩ := he.eq_cons_of_append heq
      exact hnot es rfl
    · have hnot : ∀ t, cs ≠ '/' :: t := fun t heq => hsingle ⟨t, heq⟩
      have happend (he : Enclosed cs) (t : List Char) : ∀ u, cs ++ t ≠ '/' :: u := by
        intro u heq
        obtain ⟨es, rfl⟩ := he.eq_cons_of_append heq
        exact hnot es rfl
      refine hfirst.behind (w := []) rfl (behindSlashes_first _ _ _ hnot) fun he t =>
        behindSlashes_first _ _ _ (happend he t)

/-! ## The parsers put together -/

theorem predicate_eq (nested : Parser Expr) :
    predicate nested = inBrackets '[' ']' nested := by
  funext cs
  unfold predicate inBrackets
  cases sign? '[' cs with
  | none => rfl
  | some rest =>
    dsimp only
    cases nested rest <;> rfl

theorem furtherStep_eq (nested : Parser Expr) : furtherStep nested =
    behindSlashes (mapped (fun s => [.descendantOrSelf, s]) (step nested))
      (mapped (fun s => [s]) (step nested)) fun _ => none := by
  funext cs
  unfold furtherStep
  split
  · rfl
  · rename_i hnot
    rw [behindSlashes_next _ _ _ hnot]
    rfl
  · rename_i hnot
    rw [behindSlashes_first _ _ _ hnot]

theorem pathHead_eq (nested : Parser Expr) : pathHead nested =
    behindSlashes (mapped (fun s => (.root, [.descendantOrSelf, s])) (step nested))
      (orElse (mapped (fun s => (.root, [s])) (step nested)) fun cs => some ((.root, []), cs))
      (mapped (fun s => (.context, [s])) (step nested)) := by
  funext cs
  unfold pathHead
  split
  · rfl
  · rename_i rest hnot
    rw [behindSlashes_next _ _ _ hnot]
    unfold orElse mapped
    cases step nested rest <;> rfl
  · rename_i hnot
    rw [behindSlashes_first _ _ _ hnot]
    rfl

theorem step_eq (nested : Parser Expr) : step nested =
    andThen stepHead fun head => mapped (.mk head.1 head.2) (all (predicate nested)) := by
  funext cs
  rw [step, andThen]
  cases stepHead cs <;> rfl

theorem furtherSteps_mapped (nested : Parser Expr) :
    (fun cs => some (furtherSteps nested cs)) = mapped List.flatten (all (furtherStep nested)) :=
  rfl

theorem locationPath_eq (nested : Parser Expr) : locationPath nested =
    andThen (pathHead nested) fun head => mapped (fun further => .path head.1 (head.2 ++ further))
      fun cs => some (furtherSteps nested cs) := by
  funext cs
  rw [locationPath, andThen]
  cases pathHead nested cs <;> rfl

theorem callArguments_eq (nested : Parser Expr) :
    (fun cs => some (callArguments nested cs)) =
      orElse (andThen nested fun first => mapped (first :: ·) (all (furtherArgument nested)))
        fun cs => some ([], cs) := by
  funext cs
  rw [callArguments, orElse, andThen]
  cases nested cs <;> rfl

theorem functionCall_eq (nested : Parser Expr) : functionCall nested =
    andThen name fun called cs =>
      if ["text", "node", "comment"].contains called then none
      else mapped (.call called)
        (inBrackets '(' ')' fun cs => some (callArguments nested cs)) cs := by
  funext cs
  rw [functionCall, andThen]
  cases name cs with
  | none => rfl
  | some found =>
    dsimp only [Option.bind_some]
    split
    · rfl
    · rw [mapped, inBrackets]
      cases sign? '(' found.2 with
      | none => rfl
      | some rest =>
        dsimp only
        cases sign? ')' (callArguments nested rest).2 <;> rfl

theorem parenthesized_eq (nested : Parser Expr) :
    parenthesized nested = inBrackets '(' ')' nested := by
  funext cs
  unfold parenthesized inBrackets
  cases sign? '(' cs with
  | none => rfl
  | some rest =>
    dsimp only
    cases nested rest <;> rfl

theorem primary_eq (nested : Parser Expr) : primary nested =
    orElse (mapped Expr.number number) (orElse (mapped Expr.literal literalText)
      (orElse (functionCall nested) (parenthesized nested))) := by
  funext cs
  unfold primary orElse mapped
  cases number cs with
  | some found => rfl
  | none =>
    cases literalText cs with
    | some found => rfl
    | none => cases functionCall nested cs <;> rfl

theorem filtered_eq (nested : Parser Expr) : filtered nested =
    andThen (primary nested) fun e =>
      mapped (fun predicates => if predicates.isEmpty then e else .filter e predicates)
        (all (predicate nested)) := by
  funext cs
  rw [filtered, andThen]
  cases primary nested cs <;> rfl

theorem pathExpr_eq (nested : Parser Expr) : pathExpr nested =
    andThen (orElse (filtered nested) (locationPath nested)) fun e =>
      mapped (continued e) fun cs => some (furtherSteps nested cs) := by
  funext cs
  rw [pathExpr, andThen, orElse]
  cases filtered nested cs with
  | some found => rfl
  | none => cases locationPath nested cs <;> rfl

section Nested

variable {nested nested' : Parser Expr} {N : Nat}
  (hn : ∀ ds : List Char, ds.length < N → Local nested nested' ds)
include hn

theorem predicate_local (h : cs.length ≤ N) :
    Local (predicate nested) (predicate nested') cs ∧ Shrinks (predicate nested) cs := by
  rw [predicate_eq, predicate_eq]
  exact inBrackets_local (by decide) (by decide) fun ds hds => hn ds (Nat.lt_of_lt_of_le hds h)

theorem predicates_local (h : cs.length ≤ N) :
    Local (all (predicate nested)) (all (predicate nested')) cs :=
  all_local fun _ hds => predicate_local hn (Nat.le_trans hds h)

theorem step_local (h : cs.length ≤ N) : Local (step nested) (step nested') cs := by
  rw [step_eq, step_eq]
  exact (stepHead_local cs).andThen fun head r _ hr =>
    (predicates_local hn (Nat.le_trans hr h)).mapped _

theorem furtherStep_local (h : cs.length ≤ N) :
    Local (furtherStep nested) (furtherStep nested') cs ∧ Shrinks (furtherStep nested) cs := by
  have hstep (ds : List Char) (hds : ds.length ≤ cs.length) :=
    step_local hn (Nat.le_trans hds h)
  refine ⟨?_, fun lists r hfound => ?_⟩
  · rw [furtherStep_eq, furtherStep_eq]
    exact behindSlashes_local (fun ds hds => (hstep ds hds).mapped _)
      (fun ds hds => (hstep ds hds).mapped _) (.fails rfl fun _ _ => rfl)
  · have hshort {ds : List Char} (hds : ds.length < cs.length) {s : Step} {u : List Char}
        (hs : step nested ds = some (s, u)) : u.length < cs.length :=
      Nat.lt_of_le_of_lt ((hstep ds (Nat.le_of_lt hds)).length_le hs) hds
    unfold furtherStep at hfound
    split at hfound
    · obtain ⟨⟨s, u⟩, hs, heq⟩ := Option.map_eq_some_iff.1 hfound
      obtain ⟨-, rfl⟩ := Prod.mk.inj heq
      exact hshort (by simp only [List.length_cons]; omega) hs
    · obtain ⟨⟨s, u⟩, hs, heq⟩ := Option.map_eq_some_iff.1 hfound
      obtain ⟨-, rfl⟩ := Prod.mk.inj heq
      exact hshort (by simp only [List.length_cons]; omega) hs
    · cases hfound

theorem furtherSteps_local (h : cs.length ≤ N) :
    Local (fun cs => some (furtherSteps nested cs))
      (fun cs => some (furtherSteps nested' cs)) cs := by
  rw [furtherSteps_mapped, furtherSteps_mapped]
  exact (all_local fun ds hds => furtherStep_local hn (Nat.le_trans hds h)).mapped _

theorem pathHead_local (h : cs.length ≤ N) :
    Local (pathHead nested) (pathHead nested') cs := by
  have hstep (ds : List Char) (hds : ds.length ≤ cs.length) :=
    step_local hn (Nat.le_trans hds h)
  rw [pathHead_eq, pathHead_eq]
  refine behindSlashes_local (fun ds hds => (hstep ds hds).mapped _) (fun ds hds => ?_)
    ((hstep cs (Nat.le_refl _)).mapped _)
  exact ((hstep ds hds).mapped _).orElse (.takes rfl rfl (Nat.le_refl _) fun _ t => rfl)

theorem locationPath_local (h : cs.length ≤ N) :
    Local (locationPath nested) (locationPath nested') cs := by
  rw [locationPath_eq, locationPath_eq]
  exact (pathHead_local hn h).andThen fun head r _ hr =>
    (furtherSteps_local hn (Nat.le_trans hr h)).mapped _

/-! ## Primary expressions -/

theorem furtherArgument_local (h : cs.length ≤ N) :
    Local (furtherArgument nested) (furtherArgument nested') cs ∧
      Shrinks (furtherArgument nested) cs := by
  rcases sign?_cases ',' cs with ⟨hs, hs'⟩ | ⟨r, hs, hc, hl, hs'⟩
  · have hnone : furtherArgument nested cs = none := by rw [furtherArgument, hs]; rfl
    refine ⟨.fails hnone fun he t => by rw [furtherArgument, hs' he]; rfl, fun e r hsome => ?_⟩
    rw [hnone] at hsome
    cases hsome
  · rw [closings_plain (by decide)] at hc
    have hle := length_skip_le r
    have hinside (he : Enclosed cs) : Enclosed r := he.of_eq hc
    have hfound : furtherArgument nested cs = nested (skip r) := by rw [furtherArgument, hs]; rfl
    have hfound' (he : Enclosed cs) (t : List Char) :
        furtherArgument nested' (cs ++ t) = nested' (skip r ++ t) := by
      rw [furtherArgument, hs' he, (hinside he).skip_append]
      rfl
    cases hn (skip r) (by omega) with
    | fails hnone hnone' =>
      refine ⟨.fails (hfound.trans hnone) fun he t =>
        (hfound' he t).trans (hnone' (hinside he).skip t), fun e r hsome => ?_⟩
      rw [hfound, hnone] at hsome
      cases hsome
    | takes hsome hc₂ hl₂ hsome' =>
      rw [closings_skip] at hc₂
      refine ⟨.takes (hfound.trans hsome) (hc₂.trans hc) (by omega) fun he t =>
        (hfound' he t).trans (hsome' (hinside he).skip t), fun e r heq => ?_⟩
      rw [hfound, hsome] at heq
      cases heq
      omega

theorem callArguments_local (h : cs.length < N) :
    Local (fun cs => some (callArguments nested cs)) (fun cs => some (callArguments nested' cs))
      cs := by
  rw [callArguments_eq, callArguments_eq]
  refine Local.orElse ((hn cs h).andThen fun first r _ hr => Local.mapped _ ?_)
    (.takes rfl rfl (Nat.le_refl _) fun _ t => rfl)
  exact all_local fun ds hds => furtherArgument_local hn (by omega)

theorem functionCall_local (h : cs.length ≤ N) :
    Local (functionCall nested) (functionCall nested') cs := by
  rw [functionCall_eq, functionCall_eq]
  refine (name_local cs).andThen fun called r _ hr => ?_
  by_cases hkind : ["text", "node", "comment"].contains called = true
  · exact .fails (if_pos hkind) fun _ _ => if_pos hkind
  · have hcall : Local (inBrackets '(' ')' fun cs => some (callArguments nested cs))
        (inBrackets '(' ')' fun cs => some (callArguments nested' cs)) r :=
      (inBrackets_local (by decide) (by decide) fun ds hds => callArguments_local hn (by omega)).1
    exact (hcall.mapped (.call called)).congr (if_neg hkind) fun _ _ => if_neg hkind

theorem primary_local (h : cs.length ≤ N) : Local (primary nested) (primary nested') cs := by
  rw [primary_eq, primary_eq]
  refine ((number_local cs).mapped _).orElse (((literalText_local cs).mapped _).orElse
    ((functionCall_local hn h).orElse ?_))
  rw [parenthesized_eq, parenthesized_eq]
  exact (inBrackets_local (by decide) (by decide) fun ds hds => hn ds (by omega)).1

/-! ## Levels -/

theorem pathExpr_local (h : cs.length ≤ N) : Local (pathExpr nested) (pathExpr nested') cs := by
  have hfiltered : Local (filtered nested) (filtered nested') cs := by
    rw [filtered_eq, filtered_eq]
    exact (primary_local hn h).andThen fun e r _ hr =>
      (predicates_local hn (Nat.le_trans hr h)).mapped _
  rw [pathExpr_eq, pathExpr_eq]
  exact (hfiltered.orElse (locationPath_local hn h)).andThen fun e r _ hr =>
    (furtherSteps_local hn (Nat.le_trans hr h)).mapped _

theorem spacedPathExpr_local (h : cs.length ≤ N) :
    Local (spacedPathExpr nested) (spacedPathExpr nested') cs := by
  have hle := length_skip_le cs
  cases pathExpr_local hn (Nat.le_trans hle h) with
  | fails hp hp' =>
    refine .fails (by rw [spacedPathExpr, hp]; rfl) fun he t => ?_
    rw [spacedPathExpr, he.skip_append, hp' he.skip]
    rfl
  | @takes e r hp hc hl hp' =>
    rw [closings_skip] at hc
    have hle₂ := length_skip_le r
    refine .takes (by rw [spacedPathExpr, hp]; rfl) ((closings_skip r).trans hc) (by omega)
      fun he t => ?_
    rw [spacedPathExpr, he.skip_append, hp' he.skip]
    exact congrArg (fun r => some (e, r)) ((he.of_eq hc).skip_append t)

theorem parserAt_local (k : Nat) : ∀ cs : List Char, cs.length ≤ N →
    Local (parserAt nested k) (parserAt nested' k) cs := by
  have hunion (cs : List Char) (h : cs.length ≤ N) :
      Local (unionExpr nested) (unionExpr nested') cs :=
    chain_local (fun ds hds => spacedPathExpr_local hn (Nat.le_trans hds h)) (operatorAt_local 1)
  match k with
  | 0 => exact fun cs h => spacedPathExpr_local hn h
  | 1 => exact hunion
  | 2 =>
    intro cs h
    rcases sign?_cases '-' cs with ⟨hs, hs'⟩ | ⟨r, hs, hc, hl, hs'⟩
    · refine (hunion cs h).behind (w := []) rfl ?_ fun he t => ?_
      · simp only [parserAt, unaryExpr, List.nil_append, hs]
      · simp only [parserAt, unaryExpr, List.nil_append, hs' he]
    · rw [closings_plain (by decide)] at hc
      have hle := length_skip_le r
      have hinside (he : Enclosed cs) : Enclosed r := he.of_eq hc
      have hnegated := (hunion (skip r) (by omega)).mapped Expr.negate
      have hfound : parserAt nested 2 cs = mapped Expr.negate (unionExpr nested) (skip r) := by
        simp only [parserAt, unaryExpr, hs]
        rfl
      have hfound' (he : Enclosed cs) (t : List Char) : parserAt nested' 2 (cs ++ t) =
          mapped Expr.negate (unionExpr nested') (skip r ++ t) := by
        simp only [parserAt, unaryExpr, hs' he, (hinside he).skip_append]
        rfl
      cases hnegated with
      | fails hnone hnone' =>
        exact .fails (hfound.trans hnone) fun he t =>
          (hfound' he t).trans (hnone' (hinside he).skip t)
      | takes hsome hc₂ hl₂ hsome' =>
        rw [closings_skip] at hc₂
        exact .takes (hfound.trans hsome) (hc₂.trans hc) (by omega) fun he t =>
          (hfound' he t).trans (hsome' (hinside he).skip t)
  | k + 3 =>
    exact fun cs h => chain_local
      (fun ds hds => parserAt_local (k + 2) ds (Nat.le_trans hds h)) (operatorAt_local (k + 3))

end Nested

/-- **Nested expressions are read alike** inside of brackets, whatever follows the brackets, by all
parsers that let expressions nest as deep as the text is long. -/
theorem expr_local (n : Nat) : ∀ {depth depth' : Nat}, n < depth → n < depth' →
    ∀ {cs : List Char}, cs.length ≤ n → Local (expr depth) (expr depth') cs := by
  induction n with
  | zero =>
    intro depth depth' hd hd' cs hcs
    obtain ⟨d, rfl⟩ := Nat.exists_eq_add_of_lt hd
    obtain ⟨d', rfl⟩ := Nat.exists_eq_add_of_lt hd'
    exact parserAt_local (N := 0) (fun ds hds => absurd hds (Nat.not_lt_zero _)) 8 cs hcs
  | succ n ih =>
    intro depth depth' hd hd' cs hcs
    obtain ⟨d, rfl⟩ : ∃ d, depth = d + 1 := ⟨depth - 1, by omega⟩
    obtain ⟨d', rfl⟩ : ∃ d', depth' = d' + 1 := ⟨depth' - 1, by omega⟩
    refine parserAt_local (N := n + 1) (fun ds hds => ?_) 8 cs hcs
    exact ih (Nat.lt_of_succ_lt_succ hd) (Nat.lt_of_succ_lt_succ hd') (Nat.le_of_lt_succ hds)

/-- The hypothesis on nested expressions, for texts that are not longer than they may nest. -/
theorem nested_local {depth depth' : Nat} {N : Nat} (h : N ≤ depth) (h' : N ≤ depth') :
    ∀ ds : List Char, ds.length < N → Local (expr depth) (expr depth') ds :=
  fun ds hds => expr_local ds.length (Nat.lt_of_lt_of_le hds h) (Nat.lt_of_lt_of_le hds h')
    (Nat.le_refl _)

end MarkupTemplate.XPath
