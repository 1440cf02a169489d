import Mathlib.Tactic.IntervalCases
import MarkupTemplate.Proofs.Tokens

/-!
# Levels of precedence

The grammar has a level for paths, one for negations and one for each kind of operator, from the
tightest to the loosest.

* `parserAt` — the parser of a level, and `operatorAt` the operators that join its operands.
* `Reads` — a text is read at a level as an expression, whatever follows that ends the level.
* `Reads.negate` — a minus sign in front of an operand.
* `Operand.binary` — operands with an operator between them.
-/

namespace MarkupTemplate.XPath

variable {cs ds op rest r : List Char} {e e' last last' : Expr} {o : Operator} {k j : Nat}

/-! ## Levels -/

/-- The operators of a level. Level 0 is that of paths and level 2 that of negations. -/
def operatorAt : Nat → Parser Operator
  | 1 => unionOperator
  | 3 => multiplicativeOperator
  | 4 => additiveOperator
  | 5 => relationalOperator
  | 6 => equalityOperator
  | 7 => keyword "and" .and
  | 8 => keyword "or" .or
  | _ => fun _ => none

/-- The parser of a level. -/
def parserAt (nested : Parser Expr) : Nat → Parser Expr
  | 0 => spacedPathExpr nested
  | 1 => unionExpr nested
  | 2 => unaryExpr nested
  | k + 3 => chain (parserAt nested (k + 2)) (operatorAt (k + 3))

/-- The loosest level is that of whole expressions. -/
theorem expr_succ (depth : Nat) : expr (depth + 1) = parserAt (expr depth) 8 :=
  rfl

/-- The levels that have operators between their operands. -/
def HasOperator (k : Nat) : Prop :=
  k = 1 ∨ 3 ≤ k

theorem parserAt_hasOperator (hk : HasOperator k) (nested : Parser Expr) :
    parserAt nested k = chain (parserAt nested (k - 1)) (operatorAt k) := by
  rcases hk with rfl | hk
  · rfl
  · obtain ⟨j, rfl⟩ : ∃ j, k = j + 3 := ⟨k - 3, by omega⟩
    rfl

theorem chain_skip (operand : Parser Expr) (operator : Parser Operator)
    (h : ∀ cs, operand (skip cs) = operand cs) (cs : List Char) :
    chain operand operator (skip cs) = chain operand operator cs := by
  rw [chain, chain, h]

/-- Blanks in front of an expression do not count. -/
theorem parserAt_skip (nested : Parser Expr) (k : Nat) (cs : List Char) :
    parserAt nested k (skip cs) = parserAt nested k cs := by
  have hpath : ∀ cs, spacedPathExpr nested (skip cs) = spacedPathExpr nested cs := by
    intro cs
    rw [spacedPathExpr, spacedPathExpr, skip_skip]
  have hunion := chain_skip (spacedPathExpr nested) unionOperator hpath
  match k with
  | 0 => exact hpath cs
  | 1 => exact hunion cs
  | 2 =>
    simp only [parserAt, unaryExpr, sign?_skip]
    split
    · rfl
    · exact hunion cs
  | k + 3 => exact chain_skip _ _ (parserAt_skip nested (k + 2)) cs

theorem expr_skip (depth : Nat) (cs : List Char) : expr depth (skip cs) = expr depth cs := by
  cases depth with
  | zero => rfl
  | succ depth => exact parserAt_skip (expr depth) 8 cs

/-! ## Readings -/

/-- Nothing of a level goes on with what follows. -/
structure Ends (k : Nat) (rest : List Char) : Prop extends PathEnds rest where
  no_operator : ∀ j ≤ k, operatorAt j (skip rest) = none

theorem Ends.mono (h : Ends k rest) (hj : j ≤ k) : Ends j rest :=
  ⟨h.toPathEnds, fun i hi => h.no_operator i (Nat.le_trans hi hj)⟩

/-- The text is read at a level as `e`, whatever follows that ends the level, and as `last` if
nothing follows. The two differ only where a text ends with a number. -/
def Reads (k : Nat) (cs : List Char) (e last : Expr) : Prop :=
  ∀ depth, cs.length ≤ depth → ∀ rest, Ends k rest →
    parserAt (expr depth) k (cs ++ rest) = some (if rest = [] then last else e, skip rest)

/-- An expression that is nested in another one is read as it is. -/
theorem Reads.nested (h : Reads 8 cs e last) {depth : Nat} (hd : cs.length < depth)
    (hr : Ends 8 rest) (hne : rest ≠ []) : expr depth (cs ++ rest) = some (e, skip rest) := by
  obtain ⟨d, rfl⟩ : ∃ d, depth = d + 1 := ⟨depth - 1, by omega⟩
  rw [expr_succ, h d (by omega) rest hr, if_neg hne]

/-! ## Chains -/

/-- The text is the beginning of a chain: it is read as the operand that the chain goes on from. -/
def Chains (k : Nat) (cs : List Char) (e last : Expr) : Prop :=
  ∀ depth, cs.length ≤ depth → ∀ rest, Ends (k - 1) rest →
    ∃ fuel, (skip rest).length ≤ fuel ∧
      parserAt (expr depth) k (cs ++ rest) =
        chainWithin (parserAt (expr depth) (k - 1)) (operatorAt k) fuel
          (if rest = [] then last else e) (skip rest)

/-- A first operand. -/
theorem Chains.first (hk : HasOperator k) (h : Reads (k - 1) cs e last) : Chains k cs e last := by
  intro depth hd rest hr
  refine ⟨(skip rest).length, Nat.le_refl _, ?_⟩
  rw [parserAt_hasOperator hk, chain, h depth hd rest hr]

/-- A chain that does not go on. -/
theorem Chains.reads (h : Chains k cs e last) : Reads k cs e last := by
  intro depth hd rest hr
  obtain ⟨fuel, -, heq⟩ := h depth hd rest (hr.mono (Nat.sub_le k 1))
  rw [heq]
  cases fuel with
  | zero => rfl
  | succ fuel => rw [chainWithin, skip_skip, hr.no_operator k (Nat.le_refl k)]

/-- The text ends an operand, and is read as an operator with blanks around it. -/
def Joins (k : Nat) (o : Operator) (op : List Char) : Prop :=
  ∀ t, Ends (k - 1) (op ++ t) ∧
    ∃ v, (∀ c ∈ v, isSpace c = true) ∧ (v ++ t).length < (skip (op ++ t)).length ∧
      operatorAt k (skip (op ++ t)) = some (o, v ++ t)

/-- One more operand behind an operator. -/
theorem Chains.join (hl : Chains k cs e last) (hop : Joins k o op)
    (hr : Reads (k - 1) ds e' last') :
    Chains k (cs ++ op ++ ds) (.binary o e e') (.binary o e last') := by
  intro depth hd rest hrest
  simp only [List.length_append] at hd
  obtain ⟨hends, v, hv, hlt, hfound⟩ := hop (ds ++ rest)
  obtain ⟨fuel, hfuel, heq⟩ := hl depth (by omega) _ hends
  have hne : op ++ (ds ++ rest) ≠ [] := by
    intro hnil
    simp [hnil, skip] at hlt
  obtain ⟨fuel, rfl⟩ : ∃ n, fuel = n + 1 := ⟨fuel - 1, by omega⟩
  have hoperand : parserAt (expr depth) (k - 1) (v ++ (ds ++ rest)) =
      some (if rest = [] then last' else e', skip rest) := by
    rw [← parserAt_skip, skip_blanks hv, parserAt_skip]
    exact hr depth (by omega) rest hrest
  have hlen : (skip rest).length ≤ (v ++ (ds ++ rest)).length := by
    have := length_skip_le rest
    simp only [List.length_append]
    omega
  refine ⟨fuel, by omega, ?_⟩
  rw [List.append_assoc, List.append_assoc, heq, if_neg hne, chainWithin, skip_skip, hfound]
  simp only [hoperand]
  split <;> rfl

/-! ## What begins no path -/

/-- A character that a primary expression begins with, or a blank. -/
def beginsPrimary (c : Char) : Bool :=
  isNameStart c || Text.isDigit c || isQuote c || isSpace c || c = '.' || c = '('

theorem primary_eq_none (nested : Parser Expr) {c : Char} (hc : beginsPrimary c = false)
    (cs : List Char) : primary nested (c :: cs) = none := by
  simp only [beginsPrimary, Bool.or_eq_false_iff, decide_eq_false_iff_not] at hc
  obtain ⟨⟨⟨⟨⟨hstart, hdigit⟩, hquote⟩, hspace⟩, hpoint⟩, hparen⟩ := hc
  have hnumber : number (c :: cs) = none :=
    number_eq_none (by simpa using ⟨hdigit, hpoint⟩)
  have hliteral : literalText (c :: cs) = none :=
    literalText_eq_none (by simpa using hquote)
  have hname : name (c :: cs) = none := name_eq_none (by simpa using hstart)
  have hsign : sign? '(' (c :: cs) = none :=
    sign?_eq_none (by simpa [skip_cons hspace] using hparen)
  simp only [primary, hnumber, hliteral, functionCall, hname, parenthesized, hsign]

/-- A character that no path begins with. -/
def isIdle (c : Char) : Bool :=
  !(beginsPrimary c || ['*', '@', '/'].contains c)

theorem isSpace_of_isIdle {c : Char} (hc : isIdle c = true) : isSpace c = false := by
  simp only [isIdle, beginsPrimary, Bool.not_eq_true', Bool.or_eq_false_iff] at hc
  exact hc.1.1.1.2

theorem pathExpr_idle (nested : Parser Expr) {c : Char} (hc : isIdle c = true) (cs : List Char) :
    pathExpr nested (c :: cs) = none := by
  simp only [isIdle, Bool.not_eq_true', Bool.or_eq_false_iff, List.contains_eq_mem,
    decide_eq_false_iff_not, List.mem_cons, List.not_mem_nil, or_false, not_or] at hc
  obtain ⟨hbegins, hstar, hat, hslash⟩ := hc
  have hprimary := primary_eq_none nested hbegins cs
  simp only [beginsPrimary, Bool.or_eq_false_iff, decide_eq_false_iff_not] at hbegins
  have hstart := hbegins.1.1.1.1.1
  have hpoint := hbegins.1.2
  have hstep : stepHead (c :: cs) = none :=
    stepHead_eq_none (by simpa using ⟨hstart, hstar, hpoint, hat⟩)
  have hpath : locationPath nested (c :: cs) = none := by
    unfold locationPath pathHead
    split
    · rfl
    · rename_i heq
      split at heq
      · rename_i hcons
        exact absurd (List.cons.inj hcons).1 hslash
      · rename_i hcons
        exact absurd (List.cons.inj hcons).1 hslash
      · simp [step, hstep] at heq
  simp only [pathExpr, filtered, hprimary, hpath]

theorem parserAt_idle (nested : Parser Expr) {c : Char} (hc : isIdle c = true) (hminus : c ≠ '-')
    (cs : List Char) (k : Nat) : parserAt nested k (c :: cs) = none := by
  have hspace := isSpace_of_isIdle hc
  have hpath : spacedPathExpr nested (c :: cs) = none := by
    rw [spacedPathExpr, skip_cons hspace, pathExpr_idle nested hc]
    rfl
  have hunion : unionExpr nested (c :: cs) = none := by rw [unionExpr, chain, hpath]
  have hsign : sign? '-' (c :: cs) = none :=
    sign?_eq_none (by simpa [skip_cons hspace] using hminus)
  match k with
  | 0 => exact hpath
  | 1 => exact hunion
  | 2 => simp only [parserAt, unaryExpr, hsign, hunion]
  | k + 3 => rw [parserAt, chain, parserAt_idle nested hc hminus cs (k + 2)]

/-- Nothing is read in front of what closes a list of arguments. -/
theorem expr_closer (depth : Nat) (cs : List Char) : expr depth (')' :: cs) = none := by
  cases depth with
  | zero => rfl
  | succ depth => exact parserAt_idle (expr depth) (by decide) (by decide) cs 8

/-! ## Between the levels -/

/-- No path or union begins with a minus sign. -/
theorem unionExpr_minus (nested : Parser Expr) (h : sign? '-' cs = some r) :
    unionExpr nested cs = none := by
  have hpath : spacedPathExpr nested cs = none := by
    unfold sign? at h
    split at h
    · rename_i c t hskip
      split at h
      · rename_i hc
        rw [spacedPathExpr, hskip, hc, pathExpr_idle nested (by decide)]
        rfl
      · cases h
    · cases h
  rw [unionExpr, chain, hpath]

/-- What is read at a level is read the same at the next looser level. -/
theorem Reads.succ (h : Reads k cs e last) : Reads (k + 1) cs e last := by
  match k with
  | 0 => exact (Chains.first (.inl rfl) h).reads
  | 1 =>
    intro depth hd rest hr
    have hunion := h depth hd rest (hr.mono (by omega))
    rw [parserAt] at hunion
    rw [parserAt, unaryExpr]
    split
    · rename_i hsign
      rw [unionExpr_minus _ hsign] at hunion
      cases hunion
    · exact hunion
  | k + 2 => exact (Chains.first (.inr (by omega)) h).reads

theorem Reads.mono (h : Reads j cs e last) (hj : j ≤ k) : Reads k cs e last := by
  induction hj with
  | refl => exact h
  | step _ ih => exact ih.succ

/-- A minus sign in front of an operand. -/
theorem Reads.negate (h : Reads 1 cs e last) : Reads 2 ('-' :: cs) (.negate e) (.negate last) := by
  intro depth hd rest hr
  rw [List.length_cons] at hd
  have hunion := h depth (by omega) rest (hr.mono (by omega))
  rw [← parserAt_skip, parserAt] at hunion
  rw [parserAt, unaryExpr, List.cons_append, sign?_self (by decide)]
  simp only [hunion, Option.map_some]
  split <;> rfl

/-! ## Operators -/

/-- The level of an operator. -/
def Operator.level : Operator → Nat
  | .union => 1
  | .arithmetic .times | .arithmetic .divide | .arithmetic .modulo => 3
  | .arithmetic .plus | .arithmetic .minus => 4
  | .comparison .equal | .comparison .notEqual => 6
  | .comparison _ => 5
  | .and => 7
  | .or => 8

/-- The text of an operator. -/
def Operator.symbol : Operator → List Char
  | .union => ['|']
  | .arithmetic .times => ['*']
  | .arithmetic .divide => ['d', 'i', 'v']
  | .arithmetic .modulo => ['m', 'o', 'd']
  | .arithmetic .plus => ['+']
  | .arithmetic .minus => ['-']
  | .comparison .equal => ['=']
  | .comparison .notEqual => ['!', '=']
  | .comparison .less => ['<']
  | .comparison .lessEqual => ['<', '=']
  | .comparison .greater => ['>']
  | .comparison .greaterEqual => ['>', '=']
  | .and => ['a', 'n', 'd']
  | .or => ['o', 'r']

theorem Operator.level_le (o : Operator) : o.level ≤ 8 := by
  rcases o with _ | _ | c | a | _
  · decide
  · decide
  · cases c <;> decide
  · cases a <;> decide
  · decide

theorem Operator.hasOperator_level (o : Operator) : HasOperator o.level := by
  unfold HasOperator
  rcases o with _ | _ | c | a | _
  · exact .inr (by decide)
  · exact .inr (by decide)
  · cases c <;> exact .inr (by decide)
  · cases a <;> exact .inr (by decide)
  · exact .inl rfl

/-- A text that begins with no character of a token, and with no bracket or slash behind its
blanks, ends paths. -/
theorem pathEnds_space {c : Char} (hc : isSpace c = false)
    (hp : c ≠ '(' ∧ c ≠ '[' ∧ c ≠ '/') (cs : List Char) : PathEnds (' ' :: c :: cs) := by
  have hskip : skip (' ' :: c :: cs) = c :: cs := by rw [skip_space, skip_cons hc]
  refine ⟨⟨⟨?_, ?_⟩, ?_⟩, ?_⟩
  · simp only [List.head?_cons, Option.mem_def, Option.some.injEq]
    rintro _ rfl
    decide
  · simpa [hskip] using hp.1
  · simpa [hskip] using hp.2.1
  · simpa [hskip] using hp.2.2

theorem joins_spaced {c : Char} (hc : isSpace c = false) (hp : c ≠ '(' ∧ c ≠ '[' ∧ c ≠ '/')
    (hnone : ∀ t, ∀ j < k, operatorAt j (c :: cs ++ t) = none)
    (hsome : ∀ t, operatorAt k (c :: cs ++ ' ' :: t) = some (o, ' ' :: t)) :
    Joins k o (' ' :: c :: cs ++ [' ']) := by
  intro t
  have hskip : skip (' ' :: c :: cs ++ [' '] ++ t) = c :: cs ++ ' ' :: t := by
    rw [List.append_assoc, List.cons_append, skip_space, List.cons_append, skip_cons hc]
    rfl
  refine ⟨⟨?_, ?_⟩, [' '], List.all_eq_true.1 (by decide), ?_, ?_⟩
  · simpa using pathEnds_space hc hp _
  · intro j hj
    rw [hskip]
    cases k with
    | zero =>
      obtain rfl := Nat.le_zero.1 hj
      rfl
    | succ k => exact hnone _ j (Nat.lt_succ_of_le hj)
  · rw [hskip]
    simp only [List.cons_append, List.nil_append, List.length_cons, List.length_append]
    omega
  · rw [hskip]
    exact hsome t

/-- An operator between blanks joins the operands of its level. -/
theorem Operator.joins (o : Operator) : Joins o.level o (' ' :: o.symbol ++ [' ']) := by
  cases o with
  | or =>
    refine joins_spaced (by decide) (by decide) (fun t j (hj : j < 8) => ?_) fun t => rfl
    interval_cases j <;> rfl
  | and =>
    refine joins_spaced (by decide) (by decide) (fun t j (hj : j < 7) => ?_) fun t => rfl
    interval_cases j <;> rfl
  | comparison c =>
    cases c with
    | equal | notEqual =>
      refine joins_spaced (by decide) (by decide) (fun t j (hj : j < 6) => ?_) fun t => rfl
      interval_cases j <;> rfl
    | less | lessEqual | greater | greaterEqual =>
      refine joins_spaced (by decide) (by decide) (fun t j (hj : j < 5) => ?_) fun t => rfl
      interval_cases j <;> rfl
  | arithmetic a =>
    cases a with
    | plus | minus =>
      refine joins_spaced (by decide) (by decide) (fun t j (hj : j < 4) => ?_) fun t => rfl
      interval_cases j <;> rfl
    | times | divide | modulo =>
      refine joins_spaced (by decide) (by decide) (fun t j (hj : j < 3) => ?_) fun t => rfl
      interval_cases j <;> rfl
  | union =>
    refine joins_spaced (by decide) (by decide) (fun t j (hj : j < 1) => ?_) fun t => rfl
    interval_cases j
    rfl

/-! ## Operands -/

/-- The text is read at a level and, where the level has operators, chains go on from it. -/
structure Operand (k : Nat) (cs : List Char) (e last : Expr) : Prop where
  reads : Reads k cs e last
  chains : HasOperator k → Chains k cs e last

namespace Operand

theorem of_reads (hk : ¬ HasOperator k) (h : Reads k cs e last) : Operand k cs e last :=
  ⟨h, fun hj => absurd hj hk⟩

/-- Chains of every looser level go on from an operand as well. -/
theorem chain (h : Operand k cs e last) (hj : HasOperator j) (hkj : k ≤ j) :
    Chains j cs e last := by
  rcases Nat.eq_or_lt_of_le hkj with rfl | hlt
  · exact h.chains hj
  · exact .first hj (h.reads.mono (by omega))

/-- Two operands with an operator between them. Operators join to the left. -/
theorem join (hl : Operand k cs e last) (hkj : k ≤ j) (hj : HasOperator j) (hop : Joins j o op)
    (hr : Reads (j - 1) ds e' last') :
    Operand j (cs ++ op ++ ds) (.binary o e e') (.binary o e last') := by
  have hchain := (hl.chain hj hkj).join hop hr
  exact ⟨hchain.reads, fun _ => hchain⟩

theorem binary (hl : Operand k cs e last) (hk : k ≤ o.level)
    (hr : Reads (o.level - 1) ds e' last') :
    Operand o.level (cs ++ (' ' :: o.symbol ++ [' ']) ++ ds) (.binary o e e')
      (.binary o e last') :=
  hl.join hk o.hasOperator_level o.joins hr

end Operand

end MarkupTemplate.XPath
