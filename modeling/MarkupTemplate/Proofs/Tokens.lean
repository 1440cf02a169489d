import MarkupTemplate.Proofs.Words
import MarkupTemplate.XPath.Reading

/-!
# Tokens of queries

What the parsers for single tokens take off a text, and what has to follow for them to stop there.

* `TokenEnds`, `Stops`, `PathEnds` — what follows does not lengthen a token, a step or a path.
* `Runs` — a repetition that ends; `many_of_runs`.
* `name_append`, `axis_append`, `number_append`, `literalText_append` — the tokens.
* `Numeral` — the text of a number.
* `trim_eq_self` — texts that begin and finish with something else than a blank.
-/

namespace MarkupTemplate.XPath

variable {cs rest r : List Char} {c : Char}

/-! ## Blanks -/

theorem skip_of_head (h : ∀ c ∈ cs.head?, isSpace c = false) : skip cs = cs := by
  cases cs with
  | nil => rfl
  | cons c cs =>
    have hc : isSpace c = false := h c (by simp)
    exact List.dropWhile_cons_of_neg (by simp [hc])

theorem skip_cons (hc : isSpace c = false) (cs : List Char) : skip (c :: cs) = c :: cs :=
  skip_of_head (by simpa using hc)

theorem skip_space (cs : List Char) : skip (' ' :: cs) = skip cs :=
  rfl

theorem skip_blanks {v : List Char} (hv : ∀ c ∈ v, isSpace c = true) (cs : List Char) :
    skip (v ++ cs) = skip cs := by
  induction v with
  | nil => rfl
  | cons c v ih =>
    rw [List.cons_append, skip, List.dropWhile_cons_of_pos (hv c List.mem_cons_self)]
    exact ih fun d hd => hv d (List.mem_cons_of_mem _ hd)

theorem isSpace_head_skip (h : c ∈ (skip cs).head?) : isSpace c = false := by
  have hnot := List.head?_dropWhile_not isSpace cs
  rw [Option.mem_def] at h
  rw [skip] at h
  rw [h] at hnot
  simpa using hnot

theorem skip_skip (cs : List Char) : skip (skip cs) = skip cs :=
  skip_of_head fun _ h => isSpace_head_skip h

theorem length_skip_le (cs : List Char) : (skip cs).length ≤ cs.length :=
  (List.dropWhile_sublist _).length_le

/-- The text that starts behind the blanks, or with them. -/
def Tail (r rest : List Char) : Prop :=
  r = rest ∨ r = skip rest

namespace Tail

theorem refl (rest : List Char) : Tail rest rest :=
  .inl rfl

theorem skipped (h : Tail r rest) : skip r = skip rest := by
  rcases h with rfl | rfl
  · rfl
  · exact skip_skip rest

theorem eq_of_head (h : Tail r rest) (hc : ∀ c ∈ rest.head?, isSpace c = false) : r = rest := by
  rcases h with rfl | rfl
  · rfl
  · exact skip_of_head hc

theorem length_le (h : Tail r rest) : r.length ≤ rest.length := by
  rcases h with rfl | rfl
  · exact Nat.le_refl _
  · exact length_skip_le rest

end Tail

theorem sign?_skip (c : Char) (cs : List Char) : sign? c (skip cs) = sign? c cs := by
  rw [sign?, sign?, skip_skip]

theorem sign?_tail (h : Tail r rest) : sign? c r = sign? c rest := by
  rw [sign?, sign?, h.skipped]

theorem sign?_self (hc : isSpace c = false) (cs : List Char) :
    sign? c (c :: cs) = some (skip cs) := by
  rw [sign?, skip_cons hc]
  simp

theorem sign?_eq_none (h : ∀ d ∈ (skip cs).head?, d ≠ c) : sign? c cs = none := by
  rw [sign?]
  cases hs : skip cs with
  | nil => rfl
  | cons d t => simp [h d (by simp [hs])]

/-! ## What follows -/

/-- No token goes on with what follows. -/
structure TokenEnds (rest : List Char) : Prop where
  head : ∀ c ∈ rest.head?, isNameChar c = false ∧ c ≠ '.' ∧ c ≠ ':' ∧ c ≠ '*' ∧ c ≠ '@'
  no_call : ∀ c ∈ (skip rest).head?, c ≠ '('

/-- Neither a token nor a list of predicates goes on with what follows. -/
structure Stops (rest : List Char) : Prop extends TokenEnds rest where
  no_predicate : ∀ c ∈ (skip rest).head?, c ≠ '['

/-- No path goes on with what follows. -/
structure PathEnds (rest : List Char) : Prop extends Stops rest where
  no_step : ∀ c ∈ (skip rest).head?, c ≠ '/'

theorem PathEnds.nil : PathEnds [] :=
  ⟨⟨⟨by simp, by simp [skip]⟩, by simp [skip]⟩, by simp [skip]⟩

/-- A character that no token holds ends tokens. -/
theorem TokenEnds.cons (hc : isNameChar c = false ∧ c ≠ '.' ∧ c ≠ ':' ∧ c ≠ '*' ∧ c ≠ '@' ∧ c ≠ '(')
    (hs : isSpace c = false) (cs : List Char) : TokenEnds (c :: cs) := by
  refine ⟨?_, ?_⟩
  · simpa using ⟨hc.1, hc.2.1, hc.2.2.1, hc.2.2.2.1, hc.2.2.2.2.1⟩
  · simpa [skip_cons hs] using hc.2.2.2.2.2

/-- A slash ends steps. -/
theorem Stops.slash (cs : List Char) : Stops ('/' :: cs) :=
  ⟨TokenEnds.cons (by decide) (by decide) cs, by simp [skip_cons (c := '/') (by decide)]⟩

/-- A bracket ends tokens. -/
theorem TokenEnds.bracket (cs : List Char) : TokenEnds ('[' :: cs) :=
  TokenEnds.cons (by decide) (by decide) cs

/-- What ends a parenthesis, a predicate or an argument ends paths. -/
theorem PathEnds.closer (hc : c = ')' ∨ c = ']' ∨ c = ',') (cs : List Char) :
    PathEnds (c :: cs) := by
  have hs : isSpace c = false := by rcases hc with rfl | rfl | rfl <;> decide
  refine ⟨⟨TokenEnds.cons ?_ hs cs, ?_⟩, ?_⟩
  · rcases hc with rfl | rfl | rfl <;> decide
  · rcases hc with rfl | rfl | rfl <;> simp [skip_cons hs]
  · rcases hc with rfl | rfl | rfl <;> simp [skip_cons hs]

/-! ## Repetition -/

/-- The parser takes the values one after another, and then stops. -/
inductive Runs {α : Type} (p : Parser α) : List α → List Char → List Char → Prop
  | done {r : List Char} : p r = none → Runs p [] r r
  | next {a : α} {as : List α} {cs r r' : List Char} : p cs = some (a, r) → r.length < cs.length →
      Runs p as r r' → Runs p (a :: as) cs r'

theorem manyWithin_of_runs {α : Type} {p : Parser α} {as : List α} {cs r : List Char}
    (h : Runs p as cs r) : ∀ {fuel : Nat}, cs.length ≤ fuel → manyWithin p fuel cs = (as, r) := by
  induction h with
  | done h =>
    rintro (_ | fuel) -
    · rfl
    · simp [manyWithin, h]
  | next h hlt _ ih =>
    rintro (_ | fuel) hfuel
    · omega
    · have hrest := @ih fuel (by omega)
      simp [manyWithin, h, hrest]

theorem many_of_runs {α : Type} {p : Parser α} {as : List α} {cs r : List Char}
    (h : Runs p as cs r) : many p cs = (as, r) :=
  manyWithin_of_runs h (Nat.le_refl _)

/-! ## Words -/

/-- A word that is found stands in front of the text. -/
theorem eq_append_of_wordIn? {α : Type} {table : List (String × α)} {a : α}
    (h : wordIn? table cs = some (a, r)) : ∃ w, (w, a) ∈ table ∧ cs = w.toList ++ r := by
  rw [wordIn?] at h
  obtain ⟨⟨w, b⟩, hmem, hfound⟩ := List.exists_of_findSome?_eq_some h
  obtain ⟨t, ht, he⟩ := Option.map_eq_some_iff.1 hfound
  simp only [Prod.mk.injEq] at he
  obtain ⟨rfl, rfl⟩ := he
  exact ⟨w, hmem, (Text.dropHead?_eq_some.1 ht).symm⟩

/-! ## Names -/

theorem isNameChar_of_isNameStart (h : isNameStart c = true) : isNameChar c = true := by
  simp only [isNameStart, isNameChar, Bool.or_eq_true, decide_eq_true_eq] at h ⊢
  rcases h with h | h
  · exact .inl (.inl (Text.isAlphanumeric_of_isAlphabetic h))
  · exact .inl (.inr h)

theorem isNameChar_of_isDigit (h : Text.isDigit c = true) : isNameChar c = true := by
  simp [isNameChar, Text.isAlphanumeric, Text.isNumeric, h]

theorem TokenEnds.no_digit (h : TokenEnds rest) : ∀ c ∈ rest.head?, Text.isDigit c = false := by
  intro c hc
  cases hdigit : Text.isDigit c with
  | false => rfl
  | true =>
    have hnot := (h.head c hc).1
    rw [isNameChar_of_isDigit hdigit] at hnot
    cases hnot

theorem TokenEnds.no_name (h : TokenEnds rest) :
    ∀ c ∈ rest.head?, isNameChar c = false ∧ c ≠ ':' :=
  fun c hc => ⟨(h.head c hc).1, (h.head c hc).2.2.1⟩

/-- No digit begins a name. -/
theorem isDigit_of_isNameStart (h : isNameStart c = true) : Text.isDigit c = false := by
  cases hd : Text.isDigit c with
  | false => rfl
  | true =>
    exfalso
    simp only [Text.isDigit, Bool.and_eq_true, decide_eq_true_eq, Char.le_def,
      UInt32.le_iff_toNat_le] at hd
    simp only [isNameStart, Text.isAlphabetic, Text.isAsciiAlpha, Bool.or_eq_true,
      Bool.and_eq_true, decide_eq_true_eq, Char.le_def, UInt32.le_iff_toNat_le] at h
    have h9 : '9'.val.toNat = 57 := rfl
    have ha : 'a'.val.toNat = 97 := rfl
    have hA : 'A'.val.toNat = 65 := rfl
    rcases h with (h | h) | rfl
    · omega
    · have : c.toNat = c.val.toNat := rfl
      omega
    · revert hd
      decide

/-- A name without a colon. -/
def isSimpleName : List Char → Bool
  | [] => false
  | c :: cs => isNameStart c && cs.all isNameChar

/-- A name, perhaps of two parts with a colon between them. -/
def isName (cs : List Char) : Bool :=
  match Text.splitOn ':' cs with
  | [n] => isSimpleName n
  | [n, m] => isSimpleName n && isSimpleName m
  | _ => false

theorem isName_cases (h : isName cs = true) : isSimpleName cs = true ∨
    ∃ n m, cs = n ++ ':' :: m ∧ isSimpleName n = true ∧ isSimpleName m = true := by
  have hjoin := Text.join_splitOn ':' cs
  rw [isName] at h
  split at h
  · rename_i n hn
    rw [hn] at hjoin
    exact .inl (by rw [← hjoin]; simpa [Text.join] using h)
  · rename_i n m hn
    rw [hn] at hjoin
    rw [Bool.and_eq_true] at h
    exact .inr ⟨n, m, by rw [← hjoin]; simp [Text.join], h.1, h.2⟩
  · cases h

theorem isSimpleName_cons (h : isSimpleName cs = true) :
    ∃ c t, cs = c :: t ∧ isNameStart c = true ∧ ∀ d ∈ t, isNameChar d = true := by
  match cs, h with
  | c :: t, h =>
    rw [isSimpleName, Bool.and_eq_true, List.all_eq_true] at h
    exact ⟨c, t, rfl, h.1, h.2⟩

theorem isNameChar_of_mem_simpleName (h : isSimpleName cs = true) (hc : c ∈ cs) :
    isNameChar c = true := by
  obtain ⟨d, t, rfl, hd, ht⟩ := isSimpleName_cons h
  rcases List.mem_cons.1 hc with rfl | hc
  · exact isNameChar_of_isNameStart hd
  · exact ht c hc

/-- A simple name is a name. -/
theorem isName_of_isSimpleName (h : isSimpleName cs = true) : isName cs = true := by
  have hcolon : ':' ∉ cs := by
    intro hmem
    have hchar := isNameChar_of_mem_simpleName h hmem
    revert hchar
    decide
  have hsplit : Text.splitOn ':' cs = [cs] := Text.splitOn_of_not_mem hcolon
  rw [isName, hsplit]
  exact h

theorem isName_cons (h : isName cs = true) :
    ∃ c t, cs = c :: t ∧ isNameStart c = true ∧ ∀ d ∈ t, isNameChar d = true ∨ d = ':' := by
  rcases isName_cases h with h | ⟨n, m, rfl, hn, hm⟩
  · obtain ⟨c, t, rfl, hc, ht⟩ := isSimpleName_cons h
    exact ⟨c, t, rfl, hc, fun d hd => .inl (ht d hd)⟩
  · obtain ⟨c, t, rfl, hc, ht⟩ := isSimpleName_cons hn
    refine ⟨c, t ++ ':' :: m, rfl, hc, fun d hd => ?_⟩
    rcases List.mem_append.1 hd with hd | hd
    · exact .inl (ht d hd)
    · rcases List.mem_cons.1 hd with rfl | hd
      · exact .inr rfl
      · exact .inl (isNameChar_of_mem_simpleName hm hd)

/-- Of the characters after a run of a class the first is outside of the class. -/
theorem takeWhile_append_stop {p : Char → Bool} {t : List Char} (ht : ∀ c ∈ t, p c = true)
    (hr : ∀ c ∈ rest.head?, p c = false) :
    (t ++ rest).takeWhile p = t ∧ (t ++ rest).dropWhile p = rest := by
  have hrest : rest.takeWhile p = [] ∧ rest.dropWhile p = rest := by
    cases rest with
    | nil => exact ⟨rfl, rfl⟩
    | cons c rest => simp [hr c (by simp)]
  rw [List.takeWhile_append_of_pos ht, List.dropWhile_append_of_pos ht, hrest.1, hrest.2]
  simp

theorem simpleName_append (h : isSimpleName cs = true)
    (hr : ∀ c ∈ rest.head?, isNameChar c = false) :
    simpleName (cs ++ rest) = some (cs, rest) := by
  obtain ⟨c, t, rfl, hc, ht⟩ := isSimpleName_cons h
  obtain ⟨h₁, h₂⟩ := takeWhile_append_stop ht hr
  simp [simpleName, hc, h₁, h₂]

theorem simpleName_colon (cs : List Char) : simpleName (':' :: cs) = none := by
  rw [simpleName, if_neg (by decide)]

theorem name_append (h : isName cs = true)
    (hr : ∀ c ∈ rest.head?, isNameChar c = false ∧ c ≠ ':') :
    name (cs ++ rest) = some (String.ofList cs, rest) := by
  have hend : ∀ c ∈ rest.head?, isNameChar c = false := fun c hc => (hr c hc).1
  rcases isName_cases h with h | ⟨n, m, rfl, hn, hm⟩
  · rw [name, simpleName_append h hend]
    split
    · contradiction
    · rename_i heq
      simp only [Option.some.injEq, Prod.mk.injEq] at heq
      exact absurd rfl (hr ':' (by simp [heq.2])).2
    · rename_i heq
      simp only [Option.some.injEq, Prod.mk.injEq] at heq
      simp [heq]
  · have hcolon : isNameChar ':' = false := by decide
    rw [List.append_assoc, name, simpleName_append hn (by simpa using hcolon)]
    simp only [List.cons_append]
    rw [simpleName_append hm hend]

/-- A name before the colons of an axis ends there. -/
theorem name_axis (h : isSimpleName cs = true) (t : List Char) :
    name (cs ++ ':' :: ':' :: t) = some (String.ofList cs, ':' :: ':' :: t) := by
  have hcolon : isNameChar ':' = false := by decide
  rw [name, simpleName_append h (by simpa using hcolon)]
  simp [simpleName_colon]

/-! ## Words in front of names -/

/-- What follows a word that a name starts with belongs to the name, or is what follows the name. -/
theorem after_word {n w r : List Char} (hr : TokenEnds rest)
    (hw : ∀ c ∈ w, isNameChar c = true) (h : n ++ rest = w ++ r) :
    r = rest ∨ ∃ c t, r = c :: t ++ rest ∧ n = w ++ c :: t := by
  rcases List.append_eq_append_iff.1 h with ⟨u, hwn, hru⟩ | ⟨u, hnw, hru⟩
  · cases u with
    | nil => exact .inl (by simpa using hru.symm)
    | cons c u =>
      have hc : isNameChar c = true := hw c (by simp [hwn])
      have := (hr.head c (by simp [hru])).1
      simp [hc] at this
  · cases u with
    | nil => exact .inl (by simpa using hru)
    | cons c u => exact .inr ⟨c, u, hru, hnw⟩

theorem isSpace_of_isNameChar (h : isNameChar c = true) : isSpace c = false := by
  cases hs : isSpace c with
  | false => rfl
  | true =>
    simp only [isSpace, Bool.or_eq_true, decide_eq_true_eq] at hs
    rcases hs with ((rfl | rfl) | rfl) | rfl <;> revert h <;> decide

theorem ne_of_isNameStart {d : Char} (h : isNameStart c = true) (hd : isNameStart d = false) :
    c ≠ d := by
  rintro rfl
  rw [h] at hd
  cases hd

/-- A name is no test for the kind of a node, also where it begins like one. -/
theorem kindTest_name (h : isName cs = true) (hr : TokenEnds rest) :
    kindTest (cs ++ rest) = none := by
  rw [kindTest]
  split
  · rfl
  · rename_i test r hword
    obtain ⟨w, hw, heq⟩ := eq_append_of_wordIn? hword
    have hletters : ∀ c ∈ w.toList, isNameChar c = true := by
      simp only [List.mem_cons, Prod.mk.injEq, List.not_mem_nil, or_false] at hw
      rcases hw with ⟨rfl, -⟩ | ⟨rfl, -⟩ | ⟨rfl, -⟩ <;> exact List.all_eq_true.1 (by decide)
    have hsign : sign? '(' r = none := by
      rcases after_word hr hletters heq with rfl | ⟨c, t, rfl, hn⟩
      · exact sign?_eq_none hr.no_call
      · have hc : isNameChar c = true ∨ c = ':' := by
          obtain ⟨c', t', he, hc', ht'⟩ := isName_cons h
          have hmem : c ∈ cs := by simp [hn]
          rw [he] at hmem
          rcases List.mem_cons.1 hmem with rfl | hmem
          · exact .inl (isNameChar_of_isNameStart hc')
          · exact ht' c hmem
        have hspace : isSpace c = false := by
          rcases hc with hc | rfl
          · exact isSpace_of_isNameChar hc
          · decide
        apply sign?_eq_none
        rw [List.cons_append, skip_cons hspace]
        rintro d hd rfl
        simp only [List.head?_cons, Option.mem_def, Option.some.injEq] at hd
        subst hd
        rcases hc with hc | hc
        · revert hc
          decide
        · revert hc
          decide
    simp [hsign]

/-- A name is no axis, also where it begins like one. -/
theorem axis_name (h : isName cs = true) (hr : TokenEnds rest) :
    axis (cs ++ rest) = (.child, cs ++ rest) := by
  rw [axis]
  split
  · rename_i a t hword
    obtain ⟨w, hw, heq⟩ := eq_append_of_wordIn? hword
    have hletters : ∀ c ∈ w.toList, isNameChar c = true := by
      simp only [axisNames, List.mem_cons, Prod.mk.injEq, List.not_mem_nil, or_false] at hw
      rcases hw with ⟨rfl, -⟩ | ⟨rfl, -⟩ | ⟨rfl, -⟩ | ⟨rfl, -⟩ | ⟨rfl, -⟩ | ⟨rfl, -⟩ | ⟨rfl, -⟩ |
        ⟨rfl, -⟩ | ⟨rfl, -⟩ | ⟨rfl, -⟩ | ⟨rfl, -⟩ | ⟨rfl, -⟩ <;>
      exact List.all_eq_true.1 (by decide)
    exfalso
    rcases after_word hr hletters heq with he | ⟨c, t', he, hn⟩
    · exact (hr.head ':' (by simp [← he])).2.2.1 rfl
    · -- a name has no two colons in a row, and none at its end
      simp only [List.cons_append, List.cons.injEq] at he
      obtain ⟨rfl, he⟩ := he
      have hcolon : isNameChar ':' = false := by decide
      rcases isName_cases h with h | ⟨n, m, hnm, hn', hm⟩
      · have := isNameChar_of_mem_simpleName h (c := ':') (by simp [hn])
        simp [hcolon] at this
      · rw [hn] at hnm
        have hm' : ∀ d ∈ m, isNameChar d = true := fun d => isNameChar_of_mem_simpleName hm
        obtain ⟨d, u, rfl, -, -⟩ := isSimpleName_cons hm
        rcases List.append_eq_append_iff.1 hnm with ⟨v, hv, hv'⟩ | ⟨v, hv, hv'⟩
        · cases v with
          | nil =>
            simp only [List.nil_append, List.cons.injEq, true_and] at hv'
            subst hv'
            simp only [List.cons_append, List.cons.injEq] at he
            have := hm' ':' (List.mem_cons.2 (.inl he.1))
            simp [hcolon] at this
          | cons e v =>
            simp only [List.cons_append, List.cons.injEq] at hv'
            obtain ⟨rfl, rfl⟩ := hv'
            have := isNameChar_of_mem_simpleName hn' (c := ':') (by simp [hv])
            simp [hcolon] at this
        · cases v with
          | nil =>
            simp only [List.nil_append, List.cons.injEq, true_and] at hv'
            subst hv'
            simp only [List.cons_append, List.cons.injEq] at he
            have := hm' ':' (List.mem_cons.2 (.inl he.1))
            simp [hcolon] at this
          | cons e v =>
            simp only [List.cons_append, List.cons.injEq] at hv'
            obtain ⟨rfl, hv'⟩ := hv'
            have := hletters ':' (by simp [hv])
            simp [hcolon] at this
  · rfl

/-! ## What begins no step -/

/-- A table of words that begin with letters has no word of a text that begins otherwise. -/
theorem wordIn?_eq_none {α : Type} {table : List (String × α)}
    (htable : ∀ entry ∈ table, entry.1.toList.head?.any isNameStart = true)
    (h : ∀ c ∈ cs.head?, isNameStart c = false) : wordIn? table cs = none := by
  cases hword : wordIn? table cs with
  | none => rfl
  | some found =>
    obtain ⟨a, r⟩ := found
    obtain ⟨w, hmem, rfl⟩ := eq_append_of_wordIn? hword
    obtain ⟨c, hc, hstart⟩ := (Option.any_eq_true _ _).1 (htable (w, a) hmem)
    have := h c (by rw [List.head?_append, hc]; rfl)
    simp [hstart] at this

theorem simpleName_eq_none (h : ∀ c ∈ cs.head?, isNameStart c = false) : simpleName cs = none := by
  cases cs with
  | nil => rfl
  | cons c cs => rw [simpleName, h c (by simp)]; rfl

theorem name_eq_none (h : ∀ c ∈ cs.head?, isNameStart c = false) : name cs = none := by
  rw [name, simpleName_eq_none h]

theorem nodeTest_of_head (h : ∀ c ∈ cs.head?, c ≠ '*') :
    nodeTest cs = (kindTest cs).or ((name cs).map fun (n, rest) => (.name n, rest)) := by
  unfold nodeTest
  split
  · exact absurd rfl (h '*' (by simp))
  · cases kindTest cs <;> rfl

theorem stepHead_of_head (h : ∀ c ∈ cs.head?, c ≠ '.' ∧ c ≠ '@') :
    stepHead cs =
      (nodeTest (axis cs).2).map fun (test, rest) => (((axis cs).1, test), rest) := by
  unfold stepHead
  split
  · exact absurd rfl (h '.' (by simp)).1
  · exact absurd rfl (h '.' (by simp)).1
  · exact absurd rfl (h '@' (by simp)).2
  · rfl

/-- A step begins with a name, a star, a point or an `@`. -/
theorem stepHead_eq_none
    (h : ∀ c ∈ cs.head?, isNameStart c = false ∧ c ≠ '*' ∧ c ≠ '.' ∧ c ≠ '@') :
    stepHead cs = none := by
  have hstart : ∀ c ∈ cs.head?, isNameStart c = false := fun c hc => (h c hc).1
  have haxis : axis cs = (.child, cs) := by
    rw [axis, wordIn?_eq_none (by decide) hstart]
  have hkind : kindTest cs = none := by
    rw [kindTest, wordIn?_eq_none (by decide) hstart]
  rw [stepHead_of_head fun c hc => (h c hc).2.2, haxis,
    nodeTest_of_head fun c hc => (h c hc).2.1, hkind, name_eq_none hstart]
  rfl

/-! ## Axes -/

theorem axis_append {w : String} {a : Axis} (h : (w, a) ∈ axisNames) (rest : List Char) :
    axis (w.toList ++ ':' :: ':' :: rest) = (a, rest) := by
  simp only [axisNames, List.mem_cons, Prod.mk.injEq, List.not_mem_nil, or_false] at h
  rcases h with ⟨rfl, rfl⟩ | ⟨rfl, rfl⟩ | ⟨rfl, rfl⟩ | ⟨rfl, rfl⟩ | ⟨rfl, rfl⟩ | ⟨rfl, rfl⟩ |
    ⟨rfl, rfl⟩ | ⟨rfl, rfl⟩ | ⟨rfl, rfl⟩ | ⟨rfl, rfl⟩ | ⟨rfl, rfl⟩ | ⟨rfl, rfl⟩ <;> rfl

/-! ## Numbers -/

/-- The text of a number: digits, perhaps with a point among them. -/
structure Numeral where
  whole : List Char
  /-- The digits behind the point, if there is one. -/
  fraction : Option (List Char)
  isDigit_of_mem : ∀ c ∈ whole ++ fraction.getD [], Text.isDigit c = true
  digits_ne_nil : whole ++ fraction.getD [] ≠ []

namespace Numeral

/-- The numeral as text. -/
def text (n : Numeral) : List Char :=
  n.whole ++ (n.fraction.map ('.' :: ·)).getD []

/-- The number that a numeral stands for. -/
def value (n : Numeral) : Float :=
  Number.ofDecimal (n.whole ++ n.fraction.getD []) (n.fraction.getD []).length

/-- The number that is read when the text ends with the numeral. -/
def valueAtEnd (n : Numeral) : Float :=
  if n.whole = [] then n.value else Number.ofDecimal n.whole 0

/-- Nothing of a numeral is lost at the end of a text, unless it has digits before its point and
behind it. -/
theorem valueAtEnd_eq_value {n : Numeral} (h : n.whole = [] ∨ n.fraction.getD [] = []) :
    n.valueAtEnd = n.value := by
  unfold valueAtEnd
  split
  · rfl
  · rename_i hwhole
    have hfraction := h.resolve_left hwhole
    simp [value, hfraction]

theorem isDigit_of_mem_whole (n : Numeral) (h : c ∈ n.whole) : Text.isDigit c = true :=
  n.isDigit_of_mem c (List.mem_append_left _ h)

theorem isDigit_of_mem_fraction (n : Numeral) (h : c ∈ n.fraction.getD []) :
    Text.isDigit c = true :=
  n.isDigit_of_mem c (List.mem_append_right _ h)

/-- A numeral begins with a digit or with its point. -/
theorem text_cons (n : Numeral) :
    ∃ c t, n.text = c :: t ∧ (Text.isDigit c = true ∨ c = '.') := by
  cases hw : n.whole with
  | cons c t =>
    exact ⟨c, _, by rw [text, hw]; rfl, .inl (n.isDigit_of_mem_whole (by simp [hw]))⟩
  | nil =>
    cases hf : n.fraction with
    | none => exact absurd (by simp [hw, hf]) n.digits_ne_nil
    | some f => exact ⟨'.', f, by simp [text, hw, hf], .inr rfl⟩

end Numeral

/-- A numeral is read as its number, but at the end of the text only up to its point. -/
theorem number_append (n : Numeral)
    (hr : ∀ c ∈ rest.head?, Text.isDigit c = false ∧ c ≠ '.') :
    number (n.text ++ rest) = some (if rest = [] then n.valueAtEnd else n.value, rest) := by
  have hend : ∀ c ∈ rest.head?, Text.isDigit c = false := fun c hc => (hr c hc).1
  have hwhole : ∀ c ∈ n.whole, Text.isDigit c = true := fun c => n.isDigit_of_mem_whole
  cases hf : n.fraction with
  | none =>
    have hne : n.whole ≠ [] := by simpa [hf] using n.digits_ne_nil
    have hvalue : n.valueAtEnd = n.value := n.valueAtEnd_eq_value (.inr (by simp [hf]))
    obtain ⟨htake, hdrop⟩ := takeWhile_append_stop hwhole hend
    rw [number, Numeral.text, hf, Option.map_none, Option.getD_none, List.append_nil, htake, hdrop]
    split
    · exact absurd rfl (hr '.' (by simp)).2
    · simp [hne, hvalue, Numeral.value, hf]
  | some f =>
    have hfraction : ∀ c ∈ f, Text.isDigit c = true := fun c hc =>
      n.isDigit_of_mem_fraction (by simpa [hf] using hc)
    have hpoint : ∀ c ∈ ('.' :: f ++ rest).head?, Text.isDigit c = false := by
      simp only [List.cons_append, List.head?_cons, Option.mem_def, Option.some.injEq]
      rintro c rfl
      decide
    obtain ⟨htake, hdrop⟩ := takeWhile_append_stop hwhole hpoint
    obtain ⟨htake', hdrop'⟩ := takeWhile_append_stop hfraction hend
    rw [number, Numeral.text, hf, Option.map_some, Option.getD_some, List.append_assoc, htake,
      hdrop]
    simp only [List.cons_append, htake', hdrop']
    by_cases hw : n.whole = []
    · have hne : f ≠ [] := by simpa [hw, hf] using n.digits_ne_nil
      simp [hw, hne, Numeral.valueAtEnd, Numeral.value, hf]
    · by_cases hrest : rest = []
      · simp [hw, hrest, Numeral.valueAtEnd]
      · simp [hw, hrest, Numeral.value, hf]

theorem number_eq_none (h : ∀ c ∈ cs.head?, Text.isDigit c = false ∧ c ≠ '.') :
    number cs = none := by
  cases cs with
  | nil => rfl
  | cons c cs =>
    obtain ⟨hdigit, hpoint⟩ := h c (by simp)
    simp only [number, List.takeWhile_cons, List.dropWhile_cons, hdigit]
    split
    · rename_i heq
      simp only [Bool.false_eq_true, if_false, List.cons.injEq] at heq
      exact absurd heq.1 hpoint
    · simp

/-- A point that no digit follows is no number. -/
theorem number_point (h : ∀ c ∈ rest.head?, Text.isDigit c = false) :
    number ('.' :: rest) = none := by
  have hpoint : Text.isDigit '.' = false := by decide
  have hrest : rest.takeWhile Text.isDigit = [] := by
    simpa using (takeWhile_append_stop (p := Text.isDigit) (t := []) (by simp) h).1
  simp [number, hpoint, hrest]

/-! ## Literals -/

/-- A quotation mark. -/
def isQuote (c : Char) : Bool :=
  c = '\'' || c = '"'

theorem literalText_append {q : Char} {s : String} (hq : isQuote q = true) (hs : q ∉ s.toList)
    (rest : List Char) : literalText (q :: s.toList ++ q :: rest) = some (s, rest) := by
  have hs : ∀ c ∈ s.toList, (c != q) = true := by
    intro c hc
    simp only [bne_iff_ne, ne_eq]
    rintro rfl
    exact hs hc
  have hstop : ∀ c ∈ (q :: rest).head?, (c != q) = false := by simp
  obtain ⟨htake, hdrop⟩ := takeWhile_append_stop hs hstop
  rw [isQuote] at hq
  rw [List.cons_append, literalText, if_pos hq, htake, hdrop]
  simp

theorem literalText_eq_none (h : ∀ c ∈ cs.head?, isQuote c = false) : literalText cs = none := by
  cases cs with
  | nil => rfl
  | cons c cs =>
    have hc := h c (by simp)
    rw [isQuote] at hc
    rw [literalText, hc]
    rfl

/-! ## Ends of texts -/

/-- The code points with the property White_Space. -/
def blankCodes : List Nat :=
  [9, 10, 11, 12, 13, 0x20, 0x85, 0xA0, 0x1680, 0x2000, 0x2001, 0x2002, 0x2003, 0x2004, 0x2005,
    0x2006, 0x2007, 0x2008, 0x2009, 0x200A, 0x2028, 0x2029, 0x202F, 0x205F, 0x3000]

theorem toNat_mem_blankCodes (h : Text.isBlank c = true) : c.toNat ∈ blankCodes := by
  simp only [Text.isBlank, Bool.or_eq_true, Bool.and_eq_true, decide_eq_true_eq] at h
  simp only [blankCodes, List.mem_cons, List.not_mem_nil, or_false]
  omega

theorem isBlank_of_isNameChar (h : isNameChar c = true) : Text.isBlank c = false := by
  have hcodes : ∀ n ∈ blankCodes, isNameChar (Char.ofNat n) = false := by decide +kernel
  cases hblank : Text.isBlank c with
  | false => rfl
  | true =>
    have hnot := hcodes _ (toNat_mem_blankCodes hblank)
    rw [Char.ofNat_toNat, h] at hnot
    cases hnot

/-- The text begins with something that is not trimmed off. -/
def Begins (cs : List Char) : Prop :=
  ∃ c t, cs = c :: t ∧ Text.isBlank c = false

/-- The text finishes with something that is not trimmed off. -/
def Finishes (cs : List Char) : Prop :=
  ∃ t c, cs = t ++ [c] ∧ Text.isBlank c = false

theorem Begins.append (h : Begins cs) (ds : List Char) : Begins (cs ++ ds) := by
  obtain ⟨c, t, rfl, hc⟩ := h
  exact ⟨c, t ++ ds, rfl, hc⟩

theorem Finishes.append (h : Finishes cs) (ds : List Char) : Finishes (ds ++ cs) := by
  obtain ⟨t, c, rfl, hc⟩ := h
  exact ⟨ds ++ t, c, (List.append_assoc ds t [c]).symm, hc⟩

theorem Finishes.cons (h : Finishes cs) (c : Char) : Finishes (c :: cs) :=
  h.append [c]

theorem finishes_of_forall (hne : cs ≠ []) (h : ∀ c ∈ cs, Text.isBlank c = false) :
    Finishes cs :=
  ⟨cs.dropLast, cs.getLast hne, (List.dropLast_concat_getLast hne).symm,
    h _ (List.getLast_mem hne)⟩

theorem trim_eq_self (hb : Begins cs) (hf : Finishes cs) : Text.trim cs = cs := by
  have hstart : Text.trimStart cs = cs := by
    obtain ⟨c, t, rfl, hc⟩ := hb
    exact List.dropWhile_cons_of_neg (by simp [hc])
  obtain ⟨t, c, rfl, hc⟩ := hf
  rw [Text.trim, hstart, Text.trimEnd, Text.dropEndWhile, List.reverse_append]
  have hdrop : ([c].reverse ++ t.reverse).dropWhile Text.isBlank = [c].reverse ++ t.reverse :=
    List.dropWhile_cons_of_neg (by simp [hc])
  rw [hdrop, ← List.reverse_append, List.reverse_reverse]

theorem begins_of_isName (h : isName cs = true) : Begins cs := by
  obtain ⟨c, t, rfl, hc, -⟩ := isName_cons h
  exact ⟨c, t, rfl, isBlank_of_isNameChar (isNameChar_of_isNameStart hc)⟩

theorem finishes_of_isName (h : isName cs = true) : Finishes cs := by
  obtain ⟨c, t, rfl, hc, ht⟩ := isName_cons h
  refine finishes_of_forall (List.cons_ne_nil c t) fun d hd => ?_
  rcases List.mem_cons.1 hd with rfl | hd
  · exact isBlank_of_isNameChar (isNameChar_of_isNameStart hc)
  · rcases ht d hd with hd | rfl
    · exact isBlank_of_isNameChar hd
    · decide

namespace Numeral

theorem isBlank_of_mem_text (n : Numeral) (h : c ∈ n.text) : Text.isBlank c = false := by
  have hdigit (h : Text.isDigit c = true) : Text.isBlank c = false :=
    isBlank_of_isNameChar (isNameChar_of_isDigit h)
  rw [text, List.mem_append] at h
  rcases h with h | h
  · exact hdigit (n.isDigit_of_mem_whole h)
  · cases hf : n.fraction with
    | none => simp [hf] at h
    | some f =>
      rw [hf, Option.map_some, Option.getD_some, List.mem_cons] at h
      rcases h with rfl | h
      · decide
      · exact hdigit (n.isDigit_of_mem_fraction (by simpa [hf] using h))

theorem begins (n : Numeral) : Begins n.text := by
  obtain ⟨c, t, heq, -⟩ := n.text_cons
  exact ⟨c, t, heq, n.isBlank_of_mem_text (by simp [heq])⟩

theorem finishes (n : Numeral) : Finishes n.text := by
  obtain ⟨c, t, heq, -⟩ := n.text_cons
  exact finishes_of_forall (by simp [heq]) fun d hd => n.isBlank_of_mem_text hd

end Numeral

end MarkupTemplate.XPath
