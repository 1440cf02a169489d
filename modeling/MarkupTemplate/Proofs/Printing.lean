import MarkupTemplate.Proofs.Paths

/-!
# Printing queries

* `written` — an expression as text: steps in full, one blank around operators, and parentheses
  where they are needed.
* `isCanonical` — the expressions that a text can be written for.
* `read_written` — what is read of such a text. It is the expression, but that a number at the very
  end of the text loses the digits behind its point.
-/

namespace MarkupTemplate.XPath

/-! ## The text of an expression -/

/-- A string in the kind of quotes that it does not hold. -/
def quoted (s : String) : List Char :=
  let q := if s.toList.contains '"' then '\'' else '"'
  q :: (s.toList ++ [q])

/-- The name of an axis. -/
def Axis.word : Axis → String
  | .child => "child"
  | .descendant => "descendant"
  | .descendantOrSelf => "descendant-or-self"
  | .attribute => "attribute"
  | .parent => "parent"
  | .ancestor => "ancestor"
  | .ancestorOrSelf => "ancestor-or-self"
  | .self => "self"
  | .followingSibling => "following-sibling"
  | .precedingSibling => "preceding-sibling"
  | .following => "following"
  | .preceding => "preceding"

/-- A node test as text. -/
def NodeTest.written : NodeTest → List Char
  | .name n => n.toList
  | .any => ['*']
  | .text => "text".toList ++ ['(', ')']
  | .node => "node".toList ++ ['(', ')']
  | .comment => "comment".toList ++ ['(', ')']

namespace Expr

/-- The level of the grammar that an expression is of. -/
def level : Expr → Nat
  | .binary o _ _ => o.level
  | .negate _ => 2
  | _ => 0

/-- A literal, a number or a call. -/
def isPrimary : Expr → Bool
  | .literal _ | .number _ | .call _ _ => true
  | _ => false

/-- A filtered expression. -/
def isFilter : Expr → Bool
  | .filter _ _ => true
  | _ => false

/-- A location path. -/
def isPath : Expr → Bool
  | .path _ _ => true
  | _ => false

end Expr

/-- A text, in parentheses if they are needed. -/
def grouped (needed : Bool) (cs : List Char) : List Char :=
  if needed then '(' :: (cs ++ [')']) else cs

section Texts

variable (numeral : Float → Numeral)

mutual

/-- An expression as text. The numerals for its numbers are a parameter. -/
def written : Expr → List Char
  | .literal s => quoted s
  | .number x => (numeral x).text
  | .path start steps => startWritten start steps.isEmpty (stepsWritten steps)
  | .filter primary predicates =>
    grouped (!primary.isPrimary) (written primary) ++ predicatesWritten predicates
  | .call name arguments => name.toList ++ '(' :: (argumentsWritten arguments ++ [')'])
  | .binary o left right =>
    grouped (o.level < left.level) (written left) ++ (' ' :: o.symbol ++ [' ']) ++
      grouped (o.level ≤ right.level) (written right)
  | .negate operand => '-' :: grouped (1 < operand.level) (written operand)

/-- The text of a path from that of its steps, which has a slash in front of each. -/
def startWritten (start : Start) (noSteps : Bool) (steps : List Char) : List Char :=
  match start with
  | .root => if noSteps then ['/'] else steps
  | .context => steps.tail
  | .nodes source => grouped (!(source.isPrimary || source.isFilter)) (written source) ++ steps

/-- Steps, with a slash in front of each. -/
def stepsWritten : List Step → List Char
  | [] => []
  | s :: steps => '/' :: (stepWritten s ++ stepsWritten steps)

/-- A step in full. -/
def stepWritten : Step → List Char
  | .mk a test predicates =>
    a.word.toList ++ ':' :: ':' :: test.written ++ predicatesWritten predicates

/-- Predicates in brackets. -/
def predicatesWritten : List Expr → List Char
  | [] => []
  | p :: predicates => '[' :: (written p ++ ']' :: predicatesWritten predicates)

/-- Arguments with commas between them. -/
def argumentsWritten : List Expr → List Char
  | [] => []
  | e :: arguments => written e ++ furtherWritten arguments

/-- Further arguments, each behind a comma. -/
def furtherWritten : List Expr → List Char
  | [] => []
  | e :: arguments => ',' :: ' ' :: (written e ++ furtherWritten arguments)

end

/-! ## Canonical expressions -/

/-- The name of a test is a name. -/
def NodeTest.isCanonical : NodeTest → Bool
  | .name n => isName n.toList
  | _ => true

mutual

/-- The expressions that a text can be written for. -/
def isCanonical : Expr → Bool
  | .literal s => !(s.toList.contains '"' && s.toList.contains '\'')
  | .number x => decide ((numeral x).value = x)
  | .path start steps => startCanonical start steps.isEmpty && stepsCanonical steps
  | .filter primary predicates =>
    !predicates.isEmpty && isCanonical primary && allCanonical predicates
  | .call name arguments =>
    isName name.toList && !(["text", "node", "comment"].contains name) && allCanonical arguments
  | .binary _ left right => isCanonical left && isCanonical right
  | .negate operand => isCanonical operand

/-- Only a path from the root can be without steps, and a path goes on from what is none. -/
def startCanonical : Start → Bool → Bool
  | .root, _ => true
  | .context, noSteps => !noSteps
  | .nodes source, noSteps => !noSteps && !source.isPath && isCanonical source

def stepsCanonical : List Step → Bool
  | [] => true
  | s :: steps => stepCanonical s && stepsCanonical steps

def stepCanonical : Step → Bool
  | .mk _ test predicates => test.isCanonical && allCanonical predicates

def allCanonical : List Expr → Bool
  | [] => true
  | e :: es => isCanonical e && allCanonical es

end

/-- The expression that is read where its text ends: a number that the text ends with has lost the
digits behind its point. -/
def asRead : Expr → Expr
  | .number x => .number (numeral x).valueAtEnd
  | .binary o left right =>
    .binary o left (if o.level ≤ right.level then right else asRead right)
  | .negate operand => .negate (if 1 < operand.level then operand else asRead operand)
  | e => e

end Texts

/-- The number that the text of an expression ends with. -/
def lastNumber? : Expr → Option Float
  | .number x => some x
  | .binary o _ right => if o.level ≤ right.level then none else lastNumber? right
  | .negate operand => if 1 < operand.level then none else lastNumber? operand
  | _ => none

variable {numeral : Float → Numeral} {e last : Expr} {cs : List Char} {k : Nat}

theorem asRead_eq_self_iff : ∀ e,
    asRead numeral e = e ↔ ∀ x ∈ lastNumber? e, (numeral x).valueAtEnd = x
  | .literal _ | .path _ _ | .filter _ _ | .call _ _ | .number _ => by
    simp [asRead, lastNumber?]
  | .binary o left right => by
    rw [asRead, lastNumber?]
    split
    · simp
    · simpa using asRead_eq_self_iff right
  | .negate operand => by
    rw [asRead, lastNumber?]
    split
    · simp
    · simpa using asRead_eq_self_iff operand

/-! ## Readings of the texts -/

theorem quoted_eq {s : String} (h : isCanonical numeral (.literal s) = true) :
    ∃ q, isQuote q = true ∧ q ∉ s.toList ∧ quoted s = q :: (s.toList ++ [q]) := by
  rw [isCanonical, Bool.not_eq_true', Bool.and_eq_false_iff] at h
  rw [quoted]
  split
  · rename_i hdouble
    refine ⟨'\'', by decide, ?_, rfl⟩
    have hsingle := h.resolve_left (by simpa using hdouble)
    simpa using hsingle
  · rename_i hdouble
    exact ⟨'"', by decide, by simpa using hdouble, rfl⟩

theorem Axis.word_mem (a : Axis) : (a.word, a) ∈ axisNames := by
  cases a <;> decide

theorem NodeTest.written_reads {test : NodeTest} (h : test.isCanonical = true) :
    TestReads test.written test := by
  cases test with
  | name n =>
    have hname := TestReads.name h
    rw [String.ofList_toList] at hname
    exact hname
  | any => exact .any
  | text => exact TestReads.kind (w := "text".toList) (.head _)
  | node => exact TestReads.kind (w := "node".toList) (.tail _ (.head _))
  | comment => exact TestReads.kind (w := "comment".toList) (.tail _ (.tail _ (.head _)))

/-- A text in parentheses is a primary expression. -/
theorem grouped_primary (h : Reads 8 cs e last) {needed : Bool} (hneeded : needed = true) :
    PrimaryReads (grouped needed cs) e e := by
  rw [grouped, if_pos hneeded]
  exact .parens h

/-- An operand of a chain, in parentheses if it is looser than its place allows. -/
theorem Operand.grouped {j : Nat} (h : Operand j cs e last) (hj : j ≤ 8) (b : Bool)
    (hk : b = false → j ≤ k) :
    ∃ i ≤ k, Operand i (grouped b cs) e (if b then e else last) := by
  cases b with
  | true =>
    have hprimary := grouped_primary (h.reads.mono hj) rfl
    exact ⟨0, Nat.zero_le k, .of_reads (by simp [HasOperator]) (reads_primary hprimary)⟩
  | false => exact ⟨j, hk rfl, h⟩

theorem Expr.level_le (e : Expr) : e.level ≤ 8 := by
  match e with
  | .literal _ | .number _ | .path _ _ | .filter _ _ | .call _ _ => exact Nat.zero_le 8
  | .negate _ => exact (by decide : 2 ≤ 8)
  | .binary o _ _ => exact o.level_le

/-- What a text of an expression is read as. Where it stands in front of predicates or steps, it has
to be read as a primary expression, or as one with predicates. -/
structure Readable (numeral : Float → Numeral) (e : Expr) : Prop where
  operand : Operand e.level (written numeral e) e (asRead numeral e)
  primary : e.isPrimary = true → PrimaryReads (written numeral e) e (asRead numeral e)
  filtered : e.isFilter = true → ∃ cs ps e' es last, written numeral e = cs ++ ps ∧
    e = narrowed e' es ∧ es ≠ [] ∧ PrimaryReads cs e' last ∧ PredicatesRead ps es

namespace Readable

theorem of_primary (hp : e.isPrimary = true)
    (h : PrimaryReads (written numeral e) e (asRead numeral e)) : Readable numeral e := by
  have hkind : e.level = 0 ∧ e.isFilter = false := by
    cases e <;> first | exact ⟨rfl, rfl⟩ | cases hp
  refine ⟨?_, fun _ => h, fun hf => ?_⟩
  · rw [hkind.1]
    exact .of_reads (by simp [HasOperator]) (reads_primary h)
  · rw [hkind.2] at hf
    cases hf

theorem of_path {start : Start} {steps : List Step}
    (h : Reads 0 (written numeral (.path start steps)) (.path start steps) (.path start steps)) :
    Readable numeral (.path start steps) :=
  ⟨Operand.of_reads (k := 0) (by simp [HasOperator]) h, nofun, nofun⟩

theorem reads (h : Readable numeral e) : Reads 8 (written numeral e) e (asRead numeral e) :=
  h.operand.reads.mono e.level_le

theorem grouped_primary (h : Readable numeral e) :
    ∃ last, PrimaryReads (grouped (!e.isPrimary) (written numeral e)) e last := by
  cases hp : e.isPrimary with
  | true => exact ⟨_, h.primary hp⟩
  | false => exact ⟨_, XPath.grouped_primary h.reads rfl⟩

end Readable

mutual

theorem written_reads : ∀ e, isCanonical numeral e = true → Readable numeral e
  | .literal s, h => by
    obtain ⟨q, hq, hs, heq⟩ := quoted_eq h
    refine .of_primary rfl ?_
    rw [written, heq]
    exact .literal hq hs
  | .number x, h => by
    have hx : (numeral x).value = x := of_decide_eq_true h
    have hnumber := PrimaryReads.number (numeral x)
    rw [hx] at hnumber
    exact .of_primary rfl hnumber
  | .call name arguments, h => by
    simp only [isCanonical, Bool.and_eq_true, Bool.not_eq_true'] at h
    obtain ⟨⟨hname, hkind⟩, harguments⟩ := h
    have hcall := PrimaryReads.call hname (by simpa using hkind)
      (arguments_read arguments harguments)
    rw [String.ofList_toList] at hcall
    exact .of_primary rfl hcall
  | .filter primary predicates, h => by
    simp only [isCanonical, Bool.and_eq_true, Bool.not_eq_true'] at h
    obtain ⟨⟨hne, hprimary⟩, hpredicates⟩ := h
    obtain ⟨last, hp⟩ := (written_reads primary hprimary).grouped_primary
    have hps := predicates_read predicates hpredicates
    have hreads := reads_filtered hp hps .nil
    have hnarrowed (e : Expr) : narrowed e predicates = .filter e predicates := by
      rw [narrowed, hne]
      rfl
    have htext : predicatesWritten numeral predicates ≠ [] := by
      cases predicates with
      | nil => cases hne
      | cons => simp [predicatesWritten]
    refine ⟨Operand.of_reads (k := 0) (by simp [HasOperator]) ?_, nofun, fun _ => ?_⟩
    · rw [written, asRead]
      · simpa [continued, hnarrowed, htext] using hreads
      all_goals nofun
    · exact ⟨_, _, primary, predicates, last, rfl, (hnarrowed primary).symm, by simpa using hne,
        hp, hps⟩
  | .path .root [], _ => .of_path reads_slash
  | .path .root (s :: steps), h => by
    have hsteps : stepsCanonical numeral (s :: steps) = true := by
      simpa [isCanonical, startCanonical] using h
    exact .of_path (reads_root (steps_continue (s :: steps) hsteps) (by simp))
  | .path .context [], h => by simp [isCanonical, startCanonical] at h
  | .path .context (s :: steps), h => by
    simp only [isCanonical, startCanonical, stepsCanonical, Bool.and_eq_true] at h
    obtain ⟨-, hs, hsteps⟩ := h
    exact .of_path (reads_relative (step_reads s hs) (steps_continue steps hsteps))
  | .path (.nodes source) steps, h => by
    simp only [isCanonical, startCanonical, Bool.and_eq_true, Bool.not_eq_true'] at h
    obtain ⟨⟨⟨hne, hpath⟩, hsource⟩, hsteps⟩ := h
    have hcontinues := steps_continue steps hsteps
    have hsource := written_reads source hsource
    have htext : stepsWritten numeral steps ≠ [] := by
      cases steps with
      | nil => cases hne
      | cons => simp [stepsWritten]
    have hcontinued : continued source steps = .path (.nodes source) steps := by
      cases source with
      | path => cases hpath
      | _ => simp [continued, hne]
    refine .of_path ?_
    rw [written, startWritten]
    cases hfilter : source.isFilter with
    | false =>
      obtain ⟨last, hprimary⟩ := hsource.grouped_primary
      have hreads := reads_filtered hprimary .nil hcontinues
      simpa [narrowed, htext, hcontinued, hfilter] using hreads
    | true =>
      obtain ⟨cs, ps, e, es, last, heq, rfl, hes, hprimary, hps⟩ := hsource.filtered hfilter
      have hreads := reads_filtered hprimary hps hcontinues
      simpa [htext, hcontinued, hfilter, grouped, heq] using hreads
  | .binary o left right, h => by
    simp only [isCanonical, Bool.and_eq_true] at h
    have hlevel : 1 ≤ o.level := by
      rcases o.hasOperator_level with h | h <;> omega
    obtain ⟨i, hi, hleft⟩ := (written_reads left h.1).operand.grouped left.level_le
      (o.level < left.level) (k := o.level) (by simp)
    obtain ⟨j, hj, hright⟩ := (written_reads right h.2).operand.grouped right.level_le
      (o.level ≤ right.level) (k := o.level - 1) (by simp; omega)
    have hbinary := hleft.binary hi (hright.reads.mono hj)
    refine ⟨?_, nofun, nofun⟩
    rw [written, asRead, Expr.level]
    simpa using hbinary
  | .negate operand, h => by
    obtain ⟨i, hi, hoperand⟩ := (written_reads operand h).operand.grouped operand.level_le
      (1 < operand.level) (k := 1) (by simp)
    have hnegate := (hoperand.reads.mono hi).negate
    refine ⟨Operand.of_reads (k := 2) (by simp [HasOperator]) ?_, nofun, nofun⟩
    rw [written, asRead]
    simpa using hnegate

theorem steps_continue : ∀ steps, stepsCanonical numeral steps = true →
    Continues (stepsWritten numeral steps) steps
  | [], _ => .nil
  | s :: steps, h => by
    rw [stepsCanonical, Bool.and_eq_true] at h
    exact .step (step_reads s h.1) (steps_continue steps h.2)

theorem step_reads : ∀ s, stepCanonical numeral s = true → StepReads (stepWritten numeral s) s
  | .mk a test predicates, h => by
    rw [stepCanonical, Bool.and_eq_true] at h
    exact .mk (.axis a.word_mem (NodeTest.written_reads h.1)) (predicates_read predicates h.2)

theorem predicates_read : ∀ predicates, allCanonical numeral predicates = true →
    PredicatesRead (predicatesWritten numeral predicates) predicates
  | [], _ => .nil
  | e :: predicates, h => by
    rw [allCanonical, Bool.and_eq_true] at h
    exact .cons (written_reads e h.1).reads (predicates_read predicates h.2)

theorem arguments_read : ∀ arguments, allCanonical numeral arguments = true →
    ArgumentsRead (argumentsWritten numeral arguments) arguments
  | [], _ => .nil
  | e :: arguments, h => by
    rw [allCanonical, Bool.and_eq_true] at h
    exact .cons (written_reads e h.1).reads (further_read arguments h.2)

theorem further_read : ∀ arguments, allCanonical numeral arguments = true →
    FurtherRead (furtherWritten numeral arguments) arguments
  | [], _ => .nil
  | e :: arguments, h => by
    rw [allCanonical, Bool.and_eq_true] at h
    exact .cons (written_reads e h.1).reads (further_read arguments h.2)

end

/-! ## Ends of the texts -/

theorem begins_grouped (h : Begins cs) (b : Bool) : Begins (grouped b cs) := by
  cases b with
  | true => exact ⟨'(', _, rfl, by decide⟩
  | false => exact h

theorem finishes_grouped (h : Finishes cs) (b : Bool) : Finishes (grouped b cs) := by
  cases b with
  | true => exact ⟨'(' :: cs, ')', rfl, by decide⟩
  | false => exact h

theorem begins_step {s : Step} : Begins (stepWritten numeral s) := by
  obtain ⟨a, test, predicates⟩ := s
  have hword : Begins a.word.toList := by
    cases a <;> exact ⟨_, _, rfl, by decide⟩
  rw [stepWritten, List.append_assoc]
  exact hword.append _

theorem begins_written : ∀ e, isCanonical numeral e = true → Begins (written numeral e)
  | .literal s, h => by
    obtain ⟨q, hq, -, heq⟩ := quoted_eq h
    refine ⟨q, _, heq, ?_⟩
    simp only [isQuote, Bool.or_eq_true, decide_eq_true_eq] at hq
    rcases hq with rfl | rfl <;> decide
  | .number x, _ => (numeral x).begins
  | .call name arguments, h => by
    simp only [isCanonical, Bool.and_eq_true] at h
    exact (begins_of_isName h.1.1).append _
  | .filter primary predicates, h => by
    simp only [isCanonical, Bool.and_eq_true] at h
    exact (begins_grouped (begins_written primary h.1.2) _).append _
  | .path .root [], _ => ⟨'/', [], rfl, by decide⟩
  | .path .root (s :: steps), _ => ⟨'/', _, rfl, by decide⟩
  | .path .context [], h => by simp [isCanonical, startCanonical] at h
  | .path .context (s :: steps), _ => begins_step.append _
  | .path (.nodes source) steps, h => by
    simp only [isCanonical, startCanonical, Bool.and_eq_true] at h
    exact (begins_grouped (begins_written source h.1.2) _).append _
  | .binary o left right, h => by
    simp only [isCanonical, Bool.and_eq_true] at h
    rw [written, List.append_assoc]
    exact (begins_grouped (begins_written left h.1) _).append _
  | .negate operand, _ => ⟨'-', _, rfl, by decide⟩

theorem finishes_written : ∀ e, isCanonical numeral e = true → Finishes (written numeral e)
  | .literal s, h => by
    obtain ⟨q, hq, -, heq⟩ := quoted_eq h
    refine ⟨q :: s.toList, q, heq, ?_⟩
    simp only [isQuote, Bool.or_eq_true, decide_eq_true_eq] at hq
    rcases hq with rfl | rfl <;> decide
  | .number x, _ => (numeral x).finishes
  | .call name arguments, _ =>
    ⟨name.toList ++ '(' :: argumentsWritten numeral arguments, ')', by simp [written], by decide⟩
  | .filter primary predicates, h => by
    simp only [isCanonical, Bool.and_eq_true] at h
    exact ((predicates_read predicates h.2).finishes (by simpa using h.1.1)).append _
  | .path .root [], _ => ⟨[], '/', rfl, by decide⟩
  | .path .root (s :: steps), h => by
    simp only [isCanonical, Bool.and_eq_true] at h
    obtain ⟨cs, heq, hcs⟩ := (steps_continue (s :: steps) h.2).finishes (by simp)
    have htext : written numeral (.path .root (s :: steps)) = '/' :: cs := heq
    rw [htext]
    exact hcs.cons _
  | .path .context [], h => by simp [isCanonical, startCanonical] at h
  | .path .context (s :: steps), h => by
    simp only [isCanonical, Bool.and_eq_true] at h
    obtain ⟨cs, heq, hcs⟩ := (steps_continue (s :: steps) h.2).finishes (by simp)
    rw [written, startWritten, heq]
    exact hcs
  | .path (.nodes source) steps, h => by
    simp only [isCanonical, startCanonical, Bool.and_eq_true, Bool.not_eq_true'] at h
    obtain ⟨cs, heq, hcs⟩ := (steps_continue steps h.2).finishes (by simpa using h.1.1.1)
    rw [written, startWritten, heq]
    exact (hcs.cons _).append _
  | .binary o left right, h => by
    simp only [isCanonical, Bool.and_eq_true] at h
    exact (finishes_grouped (finishes_written right h.2) _).append _
  | .negate operand, h =>
    (finishes_grouped (finishes_written operand h) _).cons _

/-! ## Round trip -/

theorem read_written (h : isCanonical numeral e = true) :
    Expr.read (String.ofList (written numeral e)) = .ok (asRead numeral e) :=
  read_of_reads (written_reads e h).reads (begins_written e h) (finishes_written e h)

/-- **Reading inverts writing.** The text of a canonical expression is read as the expression,
exactly if its text does not end with a number that loses something at the end of a text. If it
does, the number is read without the digits behind its point, and all else as it is. -/
theorem read_written_eq_self_iff (numeral : Float → Numeral) (e : Expr)
    (h : isCanonical numeral e = true) :
    Expr.read (String.ofList (written numeral e)) = .ok (asRead numeral e) ∧
      (asRead numeral e = e ↔ ∀ x ∈ lastNumber? e, (numeral x).valueAtEnd = x) :=
  ⟨read_written h, asRead_eq_self_iff e⟩

/-- One and a half, as it is written. -/
def oneAndHalf : Numeral :=
  ⟨['1'], some ['5'], List.all_eq_true.1 (by decide), by decide⟩

/-- The elements named `a` at a position, counted from the same number. -/
def nestedNumbers : Expr :=
  .binary (.arithmetic .minus) (.number oneAndHalf.value)
    (.path .context [.mk .child (.name "a") [.number oneAndHalf.value]])

theorem read_written_eq_self_iff_nestedNumbers :
    isCanonical (fun _ => oneAndHalf) nestedNumbers = true ∧
      Expr.read (String.ofList (written (fun _ => oneAndHalf) nestedNumbers)) =
        .ok nestedNumbers := by
  have hcanonical : isCanonical (fun _ => oneAndHalf) nestedNumbers = true := by decide
  obtain ⟨hread, hiff⟩ := read_written_eq_self_iff _ nestedNumbers hcanonical
  have hself := hiff.2 nofun
  rw [hself] at hread
  exact ⟨hcanonical, hread⟩

/-- A number that stands alone ends its text, and is read as one instead of one and a half. -/
theorem read_oneAndHalf :
    isCanonical (fun _ => oneAndHalf) (.number oneAndHalf.value) = true ∧
      String.ofList (written (fun _ => oneAndHalf) (.number oneAndHalf.value)) = "1.5" ∧
      Expr.read "1.5" = .ok (.number (Number.ofDecimal ['1'] 0)) ∧
      Number.ofDecimal ['1'] 0 ≠ oneAndHalf.value := by
  have hcanonical : isCanonical (fun _ => oneAndHalf) (.number oneAndHalf.value) = true := by
    decide
  have htext : String.ofList (written (fun _ => oneAndHalf) (.number oneAndHalf.value)) =
      "1.5" := by
    decide
  have hread := read_written hcanonical
  rw [htext] at hread
  exact ⟨hcanonical, htext, hread, by decide⟩

end MarkupTemplate.XPath
