import MarkupTemplate.Proofs.PatternReading
import MarkupTemplate.Proofs.Words

/-!
# Spellings of positions

The argument of a position is read as a formula exactly if it is one of the spellings of formulas.

* `Integral` — the integers that are read; `readSigned?_eq_some`.
* `Spelled` — the spellings of a formula, in lower case and without blanks; `nth?_eq_some`.
* `IsSpelling` — the spellings as they are written; `readNth_eq_ok`.
* `IsSpelling.reads_childPosition`, `IsSpelling.reads_typePosition` — such an argument in a
  compound; `reads_typePseudo` — positions without an argument.
-/

namespace MarkupTemplate.Css

open XPath

variable {cs ds argument rest : List Char} {c : Char} {a b z : Int} {nth : Nth} {source : String}

/-! ## Integers -/

/-- Decimal digits, at least one. -/
def IsNumeral (cs : List Char) : Prop :=
  cs ≠ [] ∧ ∀ c ∈ cs, Text.isDigit c = true

/-- Decimal digits with a sign in front of them or not, for an integer of 64 bits. -/
inductive Integral : List Char → Int → Prop
  | plain {digits : List Char} : IsNumeral digits → Number.ofDigits digits < 2 ^ 63 →
      Integral digits (Number.ofDigits digits)
  | plus {digits : List Char} : IsNumeral digits → Number.ofDigits digits < 2 ^ 63 →
      Integral ('+' :: digits) (Number.ofDigits digits)
  | minus {digits : List Char} : IsNumeral digits → Number.ofDigits digits ≤ 2 ^ 63 →
      Integral ('-' :: digits) (-Number.ofDigits digits)

theorem readDigits?_eq_some {n : Nat} :
    Number.readDigits? cs = some n ↔ IsNumeral cs ∧ Number.ofDigits cs = n := by
  rw [Number.readDigits?, IsNumeral, ← List.all_eq_true]
  cases cs with
  | nil => simp
  | cons c cs =>
    cases (c :: cs).all Text.isDigit <;> simp

/-- A numeral begins with a digit, and so with no sign. -/
theorem IsNumeral.head (h : IsNumeral (c :: cs)) : c ≠ '+' ∧ c ≠ '-' := by
  have hdigit := h.2 c List.mem_cons_self
  constructor <;> (rintro rfl; revert hdigit; decide)

theorem bounded_eq_some {bounded : Nat → Prop} [DecidablePred bounded] {value : Nat → Int} :
    ((Number.readDigits? cs).bind fun n => if bounded n then some (value n) else none) = some z ↔
      IsNumeral cs ∧ bounded (Number.ofDigits cs) ∧ value (Number.ofDigits cs) = z := by
  rw [Option.bind_eq_some_iff]
  simp only [readDigits?_eq_some, Option.ite_none_right_eq_some, Option.some.injEq]
  constructor
  · rintro ⟨n, ⟨hnumeral, rfl⟩, h⟩
    exact ⟨hnumeral, h⟩
  · rintro ⟨hnumeral, h⟩
    exact ⟨_, ⟨hnumeral, rfl⟩, h⟩

theorem readSigned?_eq_some : Number.readSigned? cs = some z ↔ Integral cs z := by
  constructor
  · intro h
    unfold Number.readSigned? at h
    split at h <;> obtain ⟨hnumeral, hsmall, rfl⟩ := bounded_eq_some.1 h
    · exact .minus hnumeral hsmall
    · exact .plus hnumeral hsmall
    · exact .plain hnumeral hsmall
  · rintro (⟨hnumeral, hsmall⟩ | ⟨hnumeral, hsmall⟩ | ⟨hnumeral, hsmall⟩)
    · obtain ⟨c, cs, rfl⟩ := List.exists_cons_of_ne_nil hnumeral.1
      unfold Number.readSigned?
      split
      · rename_i heq
        exact absurd (List.cons.inj heq).1 hnumeral.head.2
      · rename_i heq
        exact absurd (List.cons.inj heq).1 hnumeral.head.1
      · exact bounded_eq_some.2 ⟨hnumeral, hsmall, rfl⟩
    · exact bounded_eq_some.2 ⟨hnumeral, hsmall, rfl⟩
    · exact bounded_eq_some.2 ⟨hnumeral, hsmall, rfl⟩

/-- A sign in front of an integer or a digit. -/
def isNumeric (c : Char) : Bool :=
  Text.isDigit c || c = '+' || c = '-'

theorem Integral.isNumeric (h : Integral cs z) : ∀ c ∈ cs, isNumeric c = true := by
  have hnumeral {digits : List Char} (h : IsNumeral digits) :
      ∀ c ∈ digits, Css.isNumeric c = true := fun c hc => by
    rw [Css.isNumeric, h.2 c hc]
    rfl
  cases h with
  | plain h _ => exact hnumeral h
  | plus h _ => exact List.forall_mem_cons.2 ⟨by decide, hnumeral h⟩
  | minus h _ => exact List.forall_mem_cons.2 ⟨by decide, hnumeral h⟩

/-- What is left of an integer without a plus in front of it. -/
theorem Integral.withoutPlus (h : Integral cs z) : Integral (cs.dropWhile fun c => c = '+') z := by
  have hnumeral {digits : List Char} (h : IsNumeral digits) :
      (digits.dropWhile fun c => c = '+') = digits := by
    obtain ⟨c, cs, rfl⟩ := List.exists_cons_of_ne_nil h.1
    exact List.dropWhile_cons_of_neg (by simpa using h.head.1)
  cases h with
  | plain h hsmall =>
    rw [hnumeral h]
    exact .plain h hsmall
  | plus h hsmall =>
    rw [List.dropWhile_cons_of_pos (by decide), hnumeral h]
    exact .plain h hsmall
  | minus h hsmall =>
    rw [List.dropWhile_cons_of_neg (by decide)]
    exact .minus h hsmall

/-! ## Formulas -/

/-- What stands in front of the variable of a formula. -/
inductive Coefficient : List Char → Int → Prop
  | one : Coefficient [] 1
  | plus : Coefficient ['+'] 1
  | minus : Coefficient ['-'] (-1)
  | integer {cs : List Char} {a : Int} : Integral cs a → Coefficient cs a

/-- What stands behind the variable of a formula. -/
inductive Offset : List Char → Int → Prop
  | zero : Offset [] 0
  | integer {cs : List Char} {b : Int} (pluses : Nat) : Integral cs b →
      Offset (List.replicate pluses '+' ++ cs) b

/-- The spellings of the formula `a * n + b`, in lower case and without blanks. -/
inductive Spelled : List Char → Int → Int → Prop
  | odd : Spelled "odd".toList 2 1
  | even : Spelled "even".toList 2 0
  | number {cs : List Char} {b : Int} : Integral cs b → Spelled cs 0 b
  | formula {cs ds : List Char} {a b : Int} : Coefficient cs a → Offset ds b →
      Spelled (cs ++ 'n' :: ds) a b

theorem Coefficient.isNumeric (h : Coefficient cs a) : ∀ c ∈ cs, isNumeric c = true := by
  cases h with
  | one | plus | minus => exact List.all_eq_true.1 (by decide)
  | integer h => exact h.isNumeric

theorem Offset.isNumeric (h : Offset cs b) : ∀ c ∈ cs, isNumeric c = true := by
  cases h with
  | zero => exact List.all_eq_true.1 (by decide)
  | integer pluses h =>
    intro c hc
    rcases List.mem_append.1 hc with hc | hc
    · rw [List.eq_of_mem_replicate hc]
      decide
    · exact h.isNumeric c hc

theorem not_mem_of_isNumeric (h : ∀ c ∈ cs, isNumeric c = true) (hc : isNumeric c = false) :
    c ∉ cs := fun hmem => by
  rw [h c hmem] at hc
  cases hc

/-- The coefficient of a formula as it is read. -/
def coefficient? (cs : List Char) : Option Int :=
  if cs.isEmpty || cs = ['+'] then some 1
  else if cs = ['-'] then some (-1)
  else Number.readSigned? cs

/-- The offset of a formula as it is read. -/
def offset? (cs : List Char) : Option Int :=
  if cs.isEmpty then some 0
  else Number.readSigned? (cs.dropWhile fun c => c = '+')

theorem coefficient?_eq_some : coefficient? cs = some a ↔ Coefficient cs a := by
  unfold coefficient?
  constructor
  · intro h
    split_ifs at h with hone hminus
    · rw [Bool.or_eq_true, List.isEmpty_iff, decide_eq_true_eq] at hone
      obtain rfl := Option.some.inj h
      rcases hone with rfl | rfl
      · exact .one
      · exact .plus
    · obtain rfl := Option.some.inj h
      exact hminus ▸ .minus
    · exact .integer (readSigned?_eq_some.1 h)
  · intro h
    cases h with
    | one | plus | minus => rfl
    | integer h =>
      have hread := readSigned?_eq_some.2 h
      rw [if_neg, if_neg, hread]
      · rintro rfl
        cases hread
      · rw [Bool.or_eq_true, List.isEmpty_iff, decide_eq_true_eq]
        rintro (rfl | rfl) <;> cases hread

theorem offset?_eq_some : offset? cs = some b ↔ Offset cs b := by
  unfold offset?
  constructor
  · intro h
    split_ifs at h with hzero
    · obtain rfl := Option.some.inj h
      rw [List.isEmpty_iff.1 hzero]
      exact .zero
    · have hpluses : cs.takeWhile (fun c => c = '+') =
          List.replicate (cs.takeWhile fun c => c = '+').length '+' := by
        refine List.eq_replicate_iff.2 ⟨rfl, fun c hc => ?_⟩
        simpa using List.mem_takeWhile_imp hc
      rw [← List.takeWhile_append_dropWhile (p := fun c => c = '+') (l := cs), hpluses]
      exact .integer _ (readSigned?_eq_some.1 h)
  · intro h
    cases h with
    | zero => rfl
    | @integer ds b pluses h =>
      have hne : ds ≠ [] := by
        rintro rfl
        cases readSigned?_eq_some.2 h
      rw [if_neg (by simp [hne]), List.dropWhile_append_of_pos fun c hc => by
        simp [List.eq_of_mem_replicate hc]]
      exact readSigned?_eq_some.2 h.withoutPlus

/-- The words begin with a letter that is not the variable of a formula. -/
def IsWord (word : List Char) : Prop :=
  ∃ c t, word = c :: t ∧ c ≠ 'n' ∧ isNumeric c = false

theorem isWord_odd : IsWord "odd".toList :=
  ⟨'o', _, rfl, by decide, by decide⟩

theorem isWord_even : IsWord "even".toList :=
  ⟨'e', _, rfl, by decide, by decide⟩

theorem IsWord.ne_number {word : List Char} (h : IsWord word)
    (hcs : ∀ c ∈ cs, isNumeric c = true) : cs ≠ word := by
  rintro rfl
  obtain ⟨c, t, rfl, -, hc⟩ := h
  rw [hcs c List.mem_cons_self] at hc
  cases hc

theorem IsWord.ne_formula {word : List Char} (h : IsWord word)
    (hcs : ∀ c ∈ cs, isNumeric c = true) : cs ++ 'n' :: ds ≠ word := by
  obtain ⟨c, t, rfl, hn, hc⟩ := h
  intro heq
  cases cs with
  | nil => exact hn (List.cons.inj heq).1.symm
  | cons d cs =>
    rw [← (List.cons.inj heq).1, hcs d List.mem_cons_self] at hc
    cases hc

/-- With the variable of a formula in it a text is read in two parts. -/
theorem nth?_formula {before after : List Char} (hodd : cs ≠ "odd".toList)
    (heven : cs ≠ "even".toList) (hcut : Text.cutAt? ['n'] cs = some (before, after)) :
    nth? cs = (coefficient? before).bind fun step =>
      (offset? after).map fun offset => .formula step offset := by
  unfold nth? coefficient? offset?
  rw [if_neg hodd, if_neg heven, hcut]
  dsimp only
  split_ifs
  · rfl
  · cases Number.readSigned? (after.dropWhile fun c => c = '+') <;> rfl
  · rfl
  · cases Number.readSigned? (after.dropWhile fun c => c = '+') <;> rfl
  · cases Number.readSigned? before <;> rfl
  · cases Number.readSigned? before <;>
      cases Number.readSigned? (after.dropWhile fun c => c = '+') <;> rfl

/-- **A text is read as the formula that it spells**, and as none if it spells none. -/
theorem nth?_eq_some : nth? cs = some nth ↔ ∃ a b, nth = .formula a b ∧ Spelled cs a b := by
  constructor
  · intro h
    by_cases hodd : cs = "odd".toList
    · subst hodd
      exact ⟨2, 1, (Option.some.inj h).symm, .odd⟩
    by_cases heven : cs = "even".toList
    · subst heven
      exact ⟨2, 0, (Option.some.inj h).symm, .even⟩
    cases hcut : Text.cutAt? ['n'] cs with
    | none =>
      unfold nth? at h
      rw [if_neg hodd, if_neg heven, hcut] at h
      obtain ⟨b, hb, rfl⟩ := Option.map_eq_some_iff.1 h
      exact ⟨0, b, rfl, .number (readSigned?_eq_some.1 hb)⟩
    | some parts =>
      obtain ⟨before, after⟩ := parts
      rw [nth?_formula hodd heven hcut] at h
      obtain ⟨a, ha, h⟩ := Option.bind_eq_some_iff.1 h
      obtain ⟨b, hb, rfl⟩ := Option.map_eq_some_iff.1 h
      rw [Text.cutAt?_eq_some hcut]
      exact ⟨a, b, rfl, .formula (coefficient?_eq_some.1 ha) (offset?_eq_some.1 hb)⟩
  · rintro ⟨a, b, rfl, h⟩
    cases h with
    | odd | even => rfl
    | number h =>
      have hnumeric := h.isNumeric
      unfold nth?
      rw [if_neg (isWord_odd.ne_number hnumeric), if_neg (isWord_even.ne_number hnumeric),
        Text.cutAt?_eq_none (not_mem_of_isNumeric hnumeric (by decide))]
      dsimp only
      rw [readSigned?_eq_some.2 h]
      rfl
    | formula hcoefficient hoffset =>
      have hnumeric := hcoefficient.isNumeric
      rw [nth?_formula (isWord_odd.ne_formula hnumeric) (isWord_even.ne_formula hnumeric)
        (Text.cutAt?_append (not_mem_of_isNumeric hnumeric (by decide)) _),
        coefficient?_eq_some.2 hcoefficient, offset?_eq_some.2 hoffset]
      rfl

/-! ## Arguments -/

/-- The argument spells a formula. Case and White_Space do not count. -/
def IsSpelling (argument : List Char) (a b : Int) : Prop :=
  Spelled (Text.lower (argument.filter fun c => !Text.isBlank c)) a b

/-- An argument is read as the formula that it spells, and as none if it spells none. -/
theorem readNth_eq_ok : readNth source argument = .ok nth ↔
    ∃ a b, nth = .formula a b ∧ IsSpelling argument a b := by
  unfold readNth IsSpelling
  rw [← nth?_eq_some]
  cases nth? (Text.lower (argument.filter fun c => !Text.isBlank c)) <;> simp

theorem Spelled.isPlain (h : Spelled cs a b) : ∀ c ∈ cs, isPlain c = true := by
  have hnumeric {cs : List Char} (h : ∀ c ∈ cs, isNumeric c = true) (c : Char) (hc : c ∈ cs) :
      Css.isPlain c = true := by
    have hdigit := h c hc
    rw [isNumeric, Bool.or_eq_true, Bool.or_eq_true, decide_eq_true_eq, decide_eq_true_eq] at hdigit
    rcases hdigit with (hdigit | rfl) | rfl
    · refine isPlain_of_isNameChar ?_
      rw [isNameChar_eq]
      exact isNameChar_of_isDigit hdigit
    · decide
    · decide
  cases h with
  | odd | even => exact List.all_eq_true.1 (by decide)
  | number h => exact hnumeric h.isNumeric
  | formula hcoefficient hoffset =>
    intro c hc
    rcases List.mem_append.1 hc with hc | hc
    · exact hnumeric hcoefficient.isNumeric c hc
    · rcases List.mem_cons.1 hc with rfl | hc
      · decide
      · exact hnumeric hoffset.isNumeric c hc

/-- In a spelling there are no brackets, parentheses or quotes. -/
theorem IsSpelling.nested (h : IsSpelling argument a b) : Nested (fun _ => true) argument := by
  refine .of_forall fun c hc => ⟨?_, rfl⟩
  cases hblank : Text.isBlank c with
  | true => exact (isPlain_of_isBlank hblank).1
  | false =>
    have hmem : c ∈ argument.filter fun c => !Text.isBlank c :=
      List.mem_filter.2 ⟨hc, by rw [hblank]; rfl⟩
    exact of_toLower (by decide) (Spelled.isPlain h _ (List.mem_map_of_mem hmem))

variable {compound : List Char → Except Error Compound}

theorem readPseudo_childPosition (argument : List Char) :
    readPseudo source compound "nth-child" (some argument) =
      (fun nth => [.childPosition nth]) <$> readNth source argument := by
  unfold readPseudo
  dsimp only
  rw [if_neg (by decide), if_neg (by decide), if_neg (by decide), if_pos rfl, ok_bind]
  rfl

theorem readPseudo_typePosition (argument : List Char) :
    readPseudo source compound "nth-of-type" (some argument) =
      (fun nth => [.typePosition nth]) <$> readNth source argument := by
  unfold readPseudo
  dsimp only
  rw [if_neg (by decide), if_neg (by decide), if_neg (by decide), if_neg (by decide),
    if_neg (by decide), if_neg (by decide), if_neg (by decide), if_pos rfl, ok_bind]
  rfl

/-- Where a compound goes on with a position, the formula is read that the argument spells. -/
theorem IsSpelling.reads {name : List Char} {position : Nth → Simple}
    (h : IsSpelling argument a b) (hname : ∀ c ∈ name, isNameChar c = true)
    (hpseudo : readPseudo source compound (String.ofList (Text.lower name)) (some argument) =
      (fun nth => [position nth]) <$> readNth source argument) (rest : List Char) :
    readSimple source compound ':' (name ++ '(' :: (argument ++ ')' :: rest)) =
      .ok ([position (.formula a b)], rest) := by
  have hread : readNth source argument = .ok (.formula a b) := readNth_eq_ok.2 ⟨a, b, rfl, h⟩
  have hhead : name.head? ≠ some ':' := fun hhead =>
    ne_of_isNameChar (hname ':' (List.mem_of_mem_head? hhead)) (by decide) rfl
  rw [readSimple_argument hname hhead h.nested, hpseudo, hread]
  rfl

theorem IsSpelling.reads_childPosition (h : IsSpelling argument a b) (rest : List Char) :
    readSimple source compound ':' ("nth-child".toList ++ '(' :: (argument ++ ')' :: rest)) =
      .ok ([.childPosition (.formula a b)], rest) := by
  have hlower : String.ofList (Text.lower "nth-child".toList) = "nth-child" := by decide
  exact h.reads (List.all_eq_true.1 (by decide))
    (hlower ▸ readPseudo_childPosition argument) rest

theorem IsSpelling.reads_typePosition (h : IsSpelling argument a b) (rest : List Char) :
    readSimple source compound ':' ("nth-of-type".toList ++ '(' :: (argument ++ ')' :: rest)) =
      .ok ([.typePosition (.formula a b)], rest) := by
  have hlower : String.ofList (Text.lower "nth-of-type".toList) = "nth-of-type" := by decide
  exact h.reads (List.all_eq_true.1 (by decide))
    (hlower ▸ readPseudo_typePosition argument) rest

/-! ## Positions without an argument -/

/-- The pseudo-classes for positions among siblings of a type that have no argument. -/
def typePseudos : List (List Char × List Nth) :=
  [("first-of-type".toList, [.first]), ("last-of-type".toList, [.last]),
    ("only-of-type".toList, [.first, .last])]

/-- Where a compound goes on with such a pseudo-class, in any case, its positions are read. -/
theorem reads_typePseudo {name : List Char} {positions : List Nth}
    (h : (Text.lower name, positions) ∈ typePseudos)
    (hrest : ∀ d ∈ rest.head?, endsName d = true) :
    readSimple source compound ':' (name ++ rest) =
      .ok (positions.map .typePosition, rest) := by
  have hchars : ∀ pseudo ∈ typePseudos, pseudo.1.all isNameChar = true ∧ pseudo.1 ≠ [] := by
    decide
  obtain ⟨hall, hlower⟩ := hchars _ h
  have hname : ∀ c ∈ name, isNameChar c = true := fun c hc =>
    of_toLower (by decide) (List.all_eq_true.1 hall _ (List.mem_map_of_mem hc))
  have hne : name ≠ [] := by
    rintro rfl
    exact hlower rfl
  rw [readSimple_bare hname hne hrest]
  simp only [typePseudos, List.mem_cons, List.not_mem_nil, or_false, Prod.mk.injEq] at h
  rcases h with ⟨hname, rfl⟩ | ⟨hname, rfl⟩ | ⟨hname, rfl⟩ <;> (rw [hname]; rfl)

end MarkupTemplate.Css
