import MarkupTemplate.Proofs.Precedence
import MarkupTemplate.Selector.Nesting

/-!
# Texts inside of brackets

What is read inside of brackets does not depend on what follows the bracket that closes them: no
token goes on behind it, and no quote is left open in front of it.

* `closings` — how many brackets are closed in a text that were opened before it.
* `Enclosed` — some are.
* `Local` — a parser takes as many brackets as it opens, and what it takes off an enclosed text does
  not depend on what follows the text.
* `expr_local` — nested expressions are read so, however deep expressions may nest in them.
-/

namespace MarkupTemplate.XPath

variable {cs rest r t : List Char} {c q : Char} {α β : Type}

/-! ## Closing brackets -/

/-- The number of closing brackets whose opening ones come before the text. `quote` is the quote
that the text begins in. -/
def closingsFrom : Option Char → List Char → Nat
  | _, [] => 0
  | some q, c :: cs => closingsFrom (if c = q then none else some q) cs
  | none, c :: cs =>
    if Nesting.isQuote c then closingsFrom (some c) cs
    else if Nesting.isOpening c then closingsFrom none cs - 1
    else if Nesting.isClosing c then closingsFrom none cs + 1
    else closingsFrom none cs

/-- The number of closing brackets whose opening ones come before the text. -/
def closings (cs : List Char) : Nat :=
  closingsFrom none cs

/-- The text begins inside of brackets that it closes. -/
def Enclosed (cs : List Char) : Prop :=
  0 < closings cs

/-- A character that is neither a quotation mark nor a bracket. -/
def isPlain (c : Char) : Bool :=
  !(Nesting.isQuote c || Nesting.isOpening c || Nesting.isClosing c)

theorem closings_plain (hc : isPlain c = true) (cs : List Char) :
    closings (c :: cs) = closings cs := by
  simp only [isPlain, Bool.not_eq_true', Bool.or_eq_false_iff] at hc
  simp [closings, closingsFrom, hc]

theorem closings_opening (hc : Nesting.isOpening c = true) (cs : List Char) :
    closings (c :: cs) = closings cs - 1 := by
  have hquote : Nesting.isQuote c = false := by
    simp only [Nesting.isOpening, Bool.or_eq_true, decide_eq_true_eq] at hc
    rcases hc with rfl | rfl <;> decide
  simp [closings, closingsFrom, hquote, hc]

theorem closings_closing (hc : Nesting.isClosing c = true) (cs : List Char) :
    closings (c :: cs) = closings cs + 1 := by
  have hother : Nesting.isQuote c = false ∧ Nesting.isOpening c = false := by
    simp only [Nesting.isClosing, Bool.or_eq_true, decide_eq_true_eq] at hc
    rcases hc with rfl | rfl <;> decide
  simp [closings, closingsFrom, hother, hc]

theorem closingsFrom_quoted (q : Char) (cs : List Char) :
    closingsFrom (some q) cs = closings ((cs.dropWhile (· != q)).drop 1) := by
  induction cs with
  | nil => rfl
  | cons c cs ih =>
    rw [closingsFrom]
    by_cases hc : c = q
    · simp [hc, closings]
    · rw [if_neg hc, ih, List.dropWhile_cons_of_pos (by simpa using hc)]

theorem closings_quote (hq : Nesting.isQuote q = true) (cs : List Char) :
    closings (q :: cs) = closings ((cs.dropWhile (· != q)).drop 1) := by
  rw [closings, closingsFrom, if_pos hq, closingsFrom_quoted]

theorem closings_dropWhile {p : Char → Bool} (hp : ∀ c, p c = true → isPlain c = true)
    (cs : List Char) : closings (cs.dropWhile p) = closings cs := by
  induction cs with
  | nil => rfl
  | cons c cs ih =>
    by_cases hc : p c = true
    · rw [List.dropWhile_cons_of_pos hc, ih, closings_plain (hp c hc)]
    · rw [List.dropWhile_cons_of_neg hc]

/-- A bracket is no name character, no digit and no blank, and neither is a quotation mark. -/
theorem isPlain_of_no_mark {p : Char → Bool}
    (hp : (['"', '\'', '[', '(', ']', ')'].all fun c => !p c) = true) (h : p c = true) :
    isPlain c = true := by
  by_contra hplain
  have hmem : c ∈ ['"', '\'', '[', '(', ']', ')'] := by
    simp only [isPlain, Nesting.isQuote, Nesting.isOpening, Nesting.isClosing, Bool.not_eq_true',
      Bool.or_eq_false_iff, decide_eq_false_iff_not, not_and, not_not] at hplain
    simp only [List.mem_cons, List.not_mem_nil, or_false]
    by_contra hnot
    simp only [not_or] at hnot
    exact hnot.2.2.2.2.2 (hplain ⟨⟨hnot.1, hnot.2.1⟩, hnot.2.2.1, hnot.2.2.2.1⟩ hnot.2.2.2.2.1)
  have hnot := List.all_eq_true.1 hp c hmem
  rw [h] at hnot
  cases hnot

theorem isPlain_of_isSpace (h : isSpace c = true) : isPlain c = true :=
  isPlain_of_no_mark (by decide) h

theorem isPlain_of_isNameChar (h : isNameChar c = true) : isPlain c = true :=
  isPlain_of_no_mark (by decide) h

theorem isPlain_of_isDigit (h : Text.isDigit c = true) : isPlain c = true :=
  isPlain_of_no_mark (by decide) h

theorem closings_skip (cs : List Char) : closings (skip cs) = closings cs :=
  closings_dropWhile (fun _ => isPlain_of_isSpace) cs

namespace Enclosed

theorem ne_nil (h : Enclosed cs) : cs ≠ [] := by
  rintro rfl
  exact Nat.lt_irrefl 0 h

/-- An enclosed text begins with what a longer text begins with. -/
theorem eq_cons_of_append {u : List Char} (h : Enclosed cs) (heq : cs ++ t = c :: u) :
    ∃ ds, cs = c :: ds := by
  obtain ⟨d, ds, rfl⟩ := List.exists_cons_of_ne_nil h.ne_nil
  obtain rfl : d = c := (List.cons.inj heq).1
  exact ⟨ds, rfl⟩

theorem of_eq (h : Enclosed cs) (heq : closings r = closings cs) : Enclosed r := by
  rw [Enclosed, heq]
  exact h

/-- A run of plain characters ends in the text. -/
theorem whiles_append {p : Char → Bool} (hp : ∀ c, p c = true → isPlain c = true)
    (h : Enclosed cs) (t : List Char) :
    (cs ++ t).takeWhile p = cs.takeWhile p ∧ (cs ++ t).dropWhile p = cs.dropWhile p ++ t := by
  induction cs with
  | nil => exact absurd rfl h.ne_nil
  | cons c cs ih =>
    by_cases hc : p c = true
    · obtain ⟨htake, hdrop⟩ := ih (h.of_eq (closings_plain (hp c hc) cs).symm)
      simp [hc, htake, hdrop]
    · simp [hc]

theorem skip_append (h : Enclosed cs) (t : List Char) : skip (cs ++ t) = skip cs ++ t :=
  (h.whiles_append (fun _ => isPlain_of_isSpace) t).2

theorem skip (h : Enclosed cs) : Enclosed (skip cs) :=
  h.of_eq (closings_skip cs)

end Enclosed

/-! ## Parsers that look at enclosed texts alone -/

/-- Of the text the parsers take the same, with as many opening brackets as closing ones, and if the
text is enclosed, the second does so whatever follows. -/
inductive Local (p p' : Parser α) (cs : List Char) : Prop
  | fails : p cs = none → (Enclosed cs → ∀ t, p' (cs ++ t) = none) → Local p p' cs
  | takes {a : α} {r : List Char} : p cs = some (a, r) → closings r = closings cs →
      r.length ≤ cs.length → (Enclosed cs → ∀ t, p' (cs ++ t) = some (a, r ++ t)) → Local p p' cs

/-- A parser, and then one that its value decides on. -/
def andThen (p : Parser α) (q : α → Parser β) : Parser β :=
  fun cs => (p cs).bind fun found => q found.1 found.2

/-- The value of a parser, changed. -/
def mapped (f : α → β) (p : Parser α) : Parser β :=
  fun cs => (p cs).map fun found => (f found.1, found.2)

/-- The first of two parsers that does not fail. -/
def orElse (p q : Parser α) : Parser α :=
  fun cs => (p cs).or (q cs)

namespace Local

variable {p p' : Parser α}

theorem mapped (f : α → β) (h : Local p p' cs) : Local (mapped f p) (mapped f p') cs := by
  cases h with
  | fails h h' =>
    exact .fails (by rw [XPath.mapped, h]; rfl) fun he t => by rw [XPath.mapped, h' he]; rfl
  | takes h hc hl h' =>
    exact .takes (by rw [XPath.mapped, h]; rfl) hc hl fun he t => by rw [XPath.mapped, h' he]; rfl

theorem orElse {q q' : Parser α} (h : Local p p' cs) (hq : Local q q' cs) :
    Local (orElse p q) (orElse p' q') cs := by
  cases h with
  | takes h hc hl h' =>
    exact .takes (by rw [XPath.orElse, h]; rfl) hc hl fun he t => by rw [XPath.orElse, h' he]; rfl
  | fails h h' =>
    cases hq with
    | fails hq hq' =>
      exact .fails (by rw [XPath.orElse, h, hq]; rfl) fun he t => by
        rw [XPath.orElse, h' he, hq' he]; rfl
    | takes hq hc hl hq' =>
      exact .takes (by rw [XPath.orElse, h, hq]; rfl) hc hl fun he t => by
        rw [XPath.orElse, h' he, hq' he]; rfl

/-- What is left of the text is not longer than it. -/
theorem length_le {a : α} (h : Local p p' cs) (hp : p cs = some (a, r)) :
    r.length ≤ cs.length := by
  cases h with
  | fails hnone =>
    rw [hnone] at hp
    cases hp
  | takes hsome _ hl =>
    rw [hsome] at hp
    obtain ⟨-, rfl⟩ := Prod.mk.inj (Option.some.inj hp)
    exact hl

theorem append_of_none (h : Local p p' cs) (hp : p cs = none) (he : Enclosed cs)
    (t : List Char) : p' (cs ++ t) = none := by
  cases h with
  | fails _ h' => exact h' he t
  | takes hsome =>
    rw [hp] at hsome
    cases hsome

theorem append_of_some {a : α} (h : Local p p' cs) (hp : p cs = some (a, r)) (he : Enclosed cs)
    (t : List Char) : p' (cs ++ t) = some (a, r ++ t) := by
  cases h with
  | fails hnone =>
    rw [hp] at hnone
    cases hnone
  | takes hsome _ _ h' =>
    rw [hp] at hsome
    cases hsome
    exact h' he t

/-- A parser that goes on as another does on the rest of the text. In a longer text the other may
depend on what follows. -/
theorem continued {q q' : Parser α} (h : Local p p' r) (hc : closings r = closings cs)
    (hl : r.length ≤ cs.length) (hq : q cs = p r)
    (hq' : Enclosed cs → ∀ t, ∃ p'', Local p p'' r ∧ q' (cs ++ t) = p'' (r ++ t)) :
    Local q q' cs := by
  cases h with
  | fails h =>
    refine .fails (hq.trans h) fun he t => ?_
    obtain ⟨p'', hlocal, heq⟩ := hq' he t
    exact heq.trans (hlocal.append_of_none h (he.of_eq hc) t)
  | takes h hcr hlr =>
    refine .takes (hq.trans h) (hcr.trans hc) (Nat.le_trans hlr hl) fun he t => ?_
    obtain ⟨p'', hlocal, heq⟩ := hq' he t
    exact heq.trans (hlocal.append_of_some h (he.of_eq hc) t)

theorem congr {q q' : Parser α} (h : Local p p' cs) (hq : q cs = p cs)
    (hq' : Enclosed cs → ∀ t, q' (cs ++ t) = p' (cs ++ t)) : Local q q' cs :=
  h.continued rfl (Nat.le_refl _) hq fun he t => ⟨p', h, hq' he t⟩

theorem andThen {q q' : α → Parser β} (h : Local p p' cs)
    (hq : ∀ a r, p cs = some (a, r) → r.length ≤ cs.length → Local (q a) (q' a) r) :
    Local (andThen p q) (andThen p' q') cs := by
  cases h with
  | fails h h' =>
    exact .fails (by rw [XPath.andThen, h]; rfl) fun he t => by rw [XPath.andThen, h' he]; rfl
  | @takes a r h hc hl h' =>
    have hrest := hq a r h hl
    refine hrest.continued hc hl (by rw [XPath.andThen, h]; rfl) fun he t => ⟨q' a, hrest, ?_⟩
    rw [XPath.andThen, h' he]
    rfl

/-- Plain characters in front of a text. -/
theorem behind {w : List Char} (hw : closings (w ++ cs) = closings cs) {q q' : Parser α}
    (h : Local p p' cs) (hq : q (w ++ cs) = p cs)
    (hq' : Enclosed cs → ∀ t, q' (w ++ (cs ++ t)) = p' (cs ++ t)) : Local q q' (w ++ cs) := by
  refine h.continued hw.symm (by simp) hq fun he t => ⟨p', h, ?_⟩
  rw [List.append_assoc, hq' (he.of_eq hw.symm)]

end Local

/-! ## Words and names -/

theorem dropHead?_local (w : List Char) (hw : ∀ c ∈ w, isPlain c = true) :
    ∀ cs : List Char,
      (Text.dropHead? w cs = none ∧ (Enclosed cs → ∀ t, Text.dropHead? w (cs ++ t) = none)) ∨
      ∃ r, Text.dropHead? w cs = some r ∧ closings r = closings cs ∧ r.length ≤ cs.length ∧
        (∀ t, Text.dropHead? w (cs ++ t) = some (r ++ t)) := by
  induction w with
  | nil => exact fun cs => .inr ⟨cs, rfl, rfl, Nat.le_refl _, fun t => rfl⟩
  | cons d w ih =>
    intro cs
    cases cs with
    | nil => exact .inl ⟨rfl, fun he => absurd rfl he.ne_nil⟩
    | cons c cs =>
      have hcons (ds : List Char) : Text.dropHead? (d :: w) (c :: ds) =
          if d = c then Text.dropHead? w ds else none := by
        simp [Text.dropHead?, List.isPrefixOf?]
      by_cases hc : d = c
      · subst hc
        have hplain := closings_plain (hw d List.mem_cons_self)
        rcases ih (fun c hc => hw c (List.mem_cons_of_mem _ hc)) cs with ⟨h, h'⟩ | ⟨r, h, hr, hl, h'⟩
        · refine .inl ⟨by rw [hcons, if_pos rfl, h], fun he t => ?_⟩
          rw [List.cons_append, hcons, if_pos rfl, h' (he.of_eq (hplain cs).symm)]
        · refine .inr ⟨r, by rw [hcons, if_pos rfl, h], hr.trans (hplain cs).symm,
            Nat.le_succ_of_le hl, fun t => ?_⟩
          rw [List.cons_append, hcons, if_pos rfl, h']
      · refine .inl ⟨by rw [hcons, if_neg hc], fun _ t => ?_⟩
        rw [List.cons_append, hcons, if_neg hc]

theorem wordIn?_cons_of_none {word : String} {a : α} {table : List (String × α)}
    (h : Text.dropHead? word.toList cs = none) :
    wordIn? ((word, a) :: table) cs = wordIn? table cs := by
  rw [wordIn?, List.findSome?_cons]
  simp only [h]
  rfl

theorem wordIn?_cons_of_some {word : String} {a : α} {table : List (String × α)}
    (h : Text.dropHead? word.toList cs = some r) :
    wordIn? ((word, a) :: table) cs = some (a, r) := by
  rw [wordIn?, List.findSome?_cons]
  simp only [h]
  rfl

/-- No word of a table is longer than an enclosed text that it begins. -/
theorem wordIn?_local (table : List (String × α))
    (hplain : (table.all fun entry => entry.1.toList.all isPlain) = true) (cs : List Char) :
    Local (wordIn? table) (wordIn? table) cs := by
  induction table with
  | nil => exact .fails rfl fun _ _ => rfl
  | cons entry table ih =>
    rw [List.all_cons, Bool.and_eq_true] at hplain
    have hword : ∀ c ∈ entry.1.toList, isPlain c = true := List.all_eq_true.1 hplain.1
    rcases dropHead?_local entry.1.toList hword cs with ⟨h, h'⟩ | ⟨r, h, hr, hl, h'⟩
    · exact (ih hplain.2).congr (wordIn?_cons_of_none h) fun he t =>
        wordIn?_cons_of_none (h' he t)
    · exact .takes (wordIn?_cons_of_some h) hr hl fun _ t => wordIn?_cons_of_some (h' t)

theorem keyword_local {word : String} (hword : ∀ c ∈ word.toList, isPlain c = true) (o : Operator)
    (cs : List Char) : Local (keyword word o) (keyword word o) cs := by
  rcases dropHead?_local word.toList hword cs with ⟨h, h'⟩ | ⟨r, h, hr, hl, h'⟩
  · exact .fails (by rw [keyword, h]) fun he t => by rw [keyword, h' he]
  · have hhead (he : Enclosed cs) (t : List Char) : (r ++ t).head? = r.head? := by
      rw [List.head?_append_of_ne_nil _ (he.of_eq hr).ne_nil]
    by_cases hlonger : (r.head?.map isNameChar).getD false = true
    · refine .fails (by rw [keyword, h]; exact if_pos hlonger) fun he t => ?_
      rw [keyword, h']
      exact if_pos (hhead he t ▸ hlonger)
    · refine .takes (by rw [keyword, h]; exact if_neg hlonger) hr hl fun he t => ?_
      rw [keyword, h']
      exact if_neg (hhead he t ▸ hlonger)

theorem simpleName_local (cs : List Char) : Local simpleName simpleName cs := by
  cases cs with
  | nil => exact .fails rfl fun he => absurd rfl he.ne_nil
  | cons c cs =>
    by_cases hc : isNameStart c = true
    · have hplain := closings_plain (isPlain_of_isNameChar (isNameChar_of_isNameStart hc)) cs
      refine .takes (by rw [simpleName, if_pos hc])
        ((closings_dropWhile (fun _ => isPlain_of_isNameChar) cs).trans hplain.symm)
        (Nat.le_succ_of_le (List.dropWhile_sublist _).length_le) fun he t => ?_
      obtain ⟨htake, hdrop⟩ :=
        (he.of_eq hplain.symm).whiles_append (fun _ => isPlain_of_isNameChar) t
      rw [List.cons_append, simpleName, if_pos hc, htake, hdrop]
    · exact .fails (by rw [simpleName, if_neg hc]) fun _ t => by
        rw [List.cons_append, simpleName, if_neg hc]

theorem name_local (cs : List Char) : Local name name cs := by
  cases simpleName_local cs with
  | fails h h' => exact .fails (by rw [name, h]) fun he t => by rw [name, h' he]
  | @takes first r h hr hl h' =>
    cases r with
    | nil =>
      refine .takes (by rw [name, h]) hr hl fun he t => ?_
      exact absurd rfl (he.of_eq hr).ne_nil
    | cons d r =>
      by_cases hd : d = ':'
      · subst hd
        have hcolon := closings_plain (c := ':') (by decide) r
        cases simpleName_local r with
        | fails h₂ h₂' =>
          refine .takes (a := String.ofList first) (by rw [name, h]; simp only [h₂]) hr hl
            fun he t => ?_
          rw [name, h' he]
          simp only [List.cons_append, h₂' ((he.of_eq hr).of_eq hcolon.symm)]
        | @takes second r₂ h₂ hr₂ hl₂ h₂' =>
          refine .takes (a := String.ofList (first ++ ':' :: second))
            (by rw [name, h]; simp only [h₂]) (hr₂.trans (hcolon.symm.trans hr)) ?_ fun he t => ?_
          · simp only [List.length_cons] at hl
            omega
          · rw [name, h' he]
            simp only [List.cons_append, h₂' ((he.of_eq hr).of_eq hcolon.symm)]
      · refine .takes (a := String.ofList first) (by rw [name, h]; simp [hd]) hr hl fun he t => ?_
        rw [name, h' he]
        simp [hd]

/-! ## Numbers and literals -/

/-- A number without a point. -/
theorem number_of_whole (h : cs.dropWhile Text.isDigit = c :: rest) (hc : c ≠ '.') :
    number cs = if (cs.takeWhile Text.isDigit).isEmpty then none
      else some (Number.ofDecimal (cs.takeWhile Text.isDigit) 0, c :: rest) := by
  rw [number, h]
  dsimp only
  split
  · rename_i heq
    exact absurd (List.cons.inj heq).1 hc
  · rfl

theorem number_local (cs : List Char) : Local number number cs := by
  have hdigit : ∀ c, Text.isDigit c = true → isPlain c = true := fun _ => isPlain_of_isDigit
  have hdrop := closings_dropWhile hdigit cs
  have hlen := (List.dropWhile_sublist (l := cs) Text.isDigit).length_le
  have hwhile (he : Enclosed cs) (t : List Char) := he.whiles_append hdigit t
  cases hafter : cs.dropWhile Text.isDigit with
  | nil =>
    rw [hafter] at hdrop
    have hopen (he : Enclosed cs) : False := absurd rfl (he.of_eq hdrop).ne_nil
    by_cases hempty : (cs.takeWhile Text.isDigit).isEmpty = true
    · exact .fails (by rw [number, hafter]; exact if_pos hempty) fun he => (hopen he).elim
    · exact .takes (by rw [number, hafter]; exact if_neg hempty) hdrop (Nat.zero_le _) fun he =>
        (hopen he).elim
  | cons c rest =>
    rw [hafter] at hdrop hlen hwhile
    by_cases hc : c = '.'
    · subst hc
      have hpoint := closings_plain (c := '.') (by decide) rest
      have hdrop₂ := closings_dropWhile hdigit rest
      have hlen₂ := (List.dropWhile_sublist (l := rest) Text.isDigit).length_le
      have hrest (he : Enclosed cs) : Enclosed rest := (he.of_eq hdrop).of_eq hpoint.symm
      simp only [List.length_cons] at hlen
      by_cases hnone : ((cs.takeWhile Text.isDigit).isEmpty &&
          (rest.takeWhile Text.isDigit).isEmpty) = true
      · refine .fails (by simp only [number, hafter, hnone, if_true]) fun he t => ?_
        obtain ⟨htake, hdrop'⟩ := hwhile he t
        obtain ⟨htake₂, -⟩ := (hrest he).whiles_append hdigit t
        simp only [number, htake, hdrop', List.cons_append, htake₂, hnone, if_true]
      · by_cases hend : (!(cs.takeWhile Text.isDigit).isEmpty &&
            (rest.dropWhile Text.isDigit).isEmpty) = true
        · have hnil : rest.dropWhile Text.isDigit = [] := by
            rw [Bool.and_eq_true, List.isEmpty_iff] at hend
            exact hend.2
          refine .takes (r := []) (by simp only [number, hafter, hnone, hend]; rfl) ?_
            (Nat.zero_le _) fun he => ?_
          · rw [← hdrop, hpoint, ← hdrop₂, hnil]
          · exact absurd hnil ((hrest he).of_eq hdrop₂).ne_nil
        · refine .takes (by simp only [number, hafter, hnone, hend]; rfl)
            (hdrop₂.trans (hpoint.symm.trans hdrop)) (by omega) fun he t => ?_
          obtain ⟨htake, hdrop'⟩ := hwhile he t
          obtain ⟨htake₂, hdrop₂'⟩ := (hrest he).whiles_append hdigit t
          have hne := ((hrest he).of_eq hdrop₂).ne_nil
          have hmore : (rest.dropWhile Text.isDigit ++ t).isEmpty = false :=
            List.isEmpty_eq_false_iff.2 (List.append_ne_nil_of_left_ne_nil hne t)
          simp only [number, htake, hdrop', List.cons_append, htake₂, hdrop₂', hnone, hmore,
            Bool.and_false]
          rfl
    · have hwhole (he : Enclosed cs) (t : List Char) := number_of_whole (hwhile he t).2 hc
      by_cases hempty : (cs.takeWhile Text.isDigit).isEmpty = true
      · refine .fails ((number_of_whole hafter hc).trans (if_pos hempty)) fun he t => ?_
        rw [hwhole he, (hwhile he t).1, if_pos hempty]
      · refine .takes ((number_of_whole hafter hc).trans (if_neg hempty)) hdrop hlen fun he t => ?_
        rw [hwhole he, (hwhile he t).1, if_neg hempty]
        rfl

theorem literalText_local (cs : List Char) : Local literalText literalText cs := by
  cases cs with
  | nil => exact .fails rfl fun he => absurd rfl he.ne_nil
  | cons q cs =>
    by_cases hq : (q = '\'' || q = '"') = true
    · have hclosings := closings_quote (q := q) (by rw [Nesting.isQuote, Bool.or_comm]; exact hq) cs
      cases hrest : cs.dropWhile (· != q) with
      | nil =>
        refine .fails (by rw [literalText, if_pos hq, hrest]) fun he => ?_
        rw [hrest] at hclosings
        exact absurd rfl (he.of_eq hclosings.symm).ne_nil
      | cons c rest =>
        rw [hrest] at hclosings
        have hlen := (List.dropWhile_sublist (l := cs) (· != q)).length_le
        simp only [hrest, List.length_cons] at hlen
        have htake (t : List Char) : (cs ++ t).takeWhile (· != q) = cs.takeWhile (· != q) := by
          have hlt : (cs.takeWhile (· != q)).length ≠ cs.length := by
            have := congrArg List.length (List.takeWhile_append_dropWhile (p := (· != q)) (l := cs))
            simp only [hrest, List.length_append, List.length_cons] at this
            omega
          rw [List.takeWhile_append, if_neg hlt]
        have hdrop (t : List Char) : (cs ++ t).dropWhile (· != q) = c :: (rest ++ t) := by
          rw [List.dropWhile_append, hrest]
          rfl
        refine .takes (r := rest) (by rw [literalText, if_pos hq, hrest]) hclosings.symm
          (by simp only [List.length_cons]; omega) fun _ t => ?_
        rw [List.cons_append, literalText, if_pos hq, htake, hdrop]
    · exact .fails (by rw [literalText, if_neg hq]) fun _ t => by
        rw [List.cons_append, literalText, if_neg hq]

/-! ## Signs -/

theorem sign?_cases (c : Char) (cs : List Char) :
    (sign? c cs = none ∧ (Enclosed cs → ∀ t, sign? c (cs ++ t) = none)) ∨
      ∃ r, sign? c cs = some (skip r) ∧ closings (c :: r) = closings cs ∧ r.length < cs.length ∧
        (Enclosed cs → ∀ t, sign? c (cs ++ t) = some (skip (r ++ t))) := by
  have hclosings := closings_skip cs
  have hlen := length_skip_le cs
  have hskip (he : Enclosed cs) (t : List Char) := he.skip_append t
  have hne (he : Enclosed cs) := he.skip.ne_nil
  cases hs : skip cs with
  | nil => exact .inl ⟨by rw [sign?, hs], fun he => absurd hs (hne he)⟩
  | cons d r =>
    rw [hs] at hclosings hlen
    by_cases hd : d = c
    · subst hd
      refine .inr ⟨r, by rw [sign?, hs]; exact if_pos rfl, hclosings, hlen, fun he t => ?_⟩
      rw [sign?, hskip he, hs]
      exact if_pos rfl
    · refine .inl ⟨by rw [sign?, hs]; exact if_neg hd, fun he t => ?_⟩
      rw [sign?, hskip he, hs]
      exact if_neg hd

/-- What a parser takes, with a bracket before it and one behind it. -/
def inBrackets (opener closer : Char) (p : Parser α) (cs : List Char) : Option (α × List Char) :=
  match sign? opener cs with
  | none => none
  | some rest =>
    match p rest with
    | none => none
    | some (a, rest) => (sign? closer rest).map fun rest => (a, rest)

/-- The parser takes at least one character. -/
def Shrinks (p : Parser α) (cs : List Char) : Prop :=
  ∀ a r, p cs = some (a, r) → r.length < cs.length

variable {p p' : Parser α} {opener closer : Char} {N : Nat}

theorem Shrinks.of_none (h : p cs = none) : Shrinks p cs := by
  intro a r hp
  rw [h] at hp
  cases hp

theorem Shrinks.of_some {a : α} (h : p cs = some (a, r)) (hlt : r.length < cs.length) :
    Shrinks p cs := by
  intro a' r' hp
  rw [h] at hp
  cases hp
  exact hlt

theorem inBrackets_local (hopener : Nesting.isOpening opener = true)
    (hcloser : Nesting.isClosing closer = true)
    (hp : ∀ ds, ds.length < cs.length → Local p p' ds) :
    Local (inBrackets opener closer p) (inBrackets opener closer p') cs ∧
      Shrinks (inBrackets opener closer p) cs := by
  rcases sign?_cases opener cs with ⟨h, h'⟩ | ⟨r, h, hc, hl, h'⟩
  · have hnone : inBrackets opener closer p cs = none := by rw [inBrackets, h]
    exact ⟨.fails hnone fun he t => by rw [inBrackets, h' he], .of_none hnone⟩
  · rw [closings_opening hopener] at hc
    have hle := length_skip_le r
    have hinside (he : Enclosed cs) : Enclosed r := by
      rw [Enclosed] at he ⊢
      omega
    cases hp (skip r) (by omega) with
    | fails hn hn' =>
      have hnone : inBrackets opener closer p cs = none := by rw [inBrackets, h]; simp only [hn]
      refine ⟨.fails hnone fun he t => ?_, .of_none hnone⟩
      rw [inBrackets, h' he, (hinside he).skip_append]
      simp only [hn' (hinside he).skip]
    | @takes a r₁ hn hc₁ hl₁ hn' =>
      rw [closings_skip] at hc₁
      have hinside₁ (he : Enclosed cs) : Enclosed r₁ := (hinside he).of_eq hc₁
      rcases sign?_cases closer r₁ with ⟨h₂, h₂'⟩ | ⟨r₂, h₂, hc₂, hl₂, h₂'⟩
      · have hnone : inBrackets opener closer p cs = none := by
          rw [inBrackets, h]
          simp only [hn, h₂]
          rfl
        refine ⟨.fails hnone fun he t => ?_, .of_none hnone⟩
        rw [inBrackets, h' he, (hinside he).skip_append]
        simp only [hn' (hinside he).skip, h₂' (hinside₁ he)]
        rfl
      · rw [closings_closing hcloser] at hc₂
        have hle₂ := length_skip_le r₂
        have htaken : inBrackets opener closer p cs = some (a, skip r₂) := by
          rw [inBrackets, h]
          simp only [hn, h₂]
          rfl
        refine ⟨.takes htaken (by rw [closings_skip]; omega) (by omega) fun he t => ?_,
          .of_some htaken (by omega)⟩
        have hinside₂ : Enclosed r₂ := by
          rw [Enclosed] at he ⊢
          omega
        rw [inBrackets, h' he, (hinside he).skip_append]
        simp only [hn' (hinside he).skip, h₂' (hinside₁ he), hinside₂.skip_append]
        rfl

/-! ## Heads of steps -/

/-- A test for a kind of node has nothing in its parentheses. -/
theorem kindTest_of_open {test : NodeTest} {c : Char} {r' : List Char}
    (h : wordIn? [("text", NodeTest.text), ("node", .node), ("comment", .comment)] cs =
      some (test, r))
    (hopening : sign? '(' r = some (c :: r')) (hc : c ≠ ')') : kindTest cs = none := by
  rw [kindTest, h]
  simp only [hopening]
  split
  · rename_i heq
    exact absurd (List.cons.inj (Option.some.inj heq)).1 hc
  · rfl

theorem kindTest_local (cs : List Char) : Local kindTest kindTest cs := by
  cases wordIn?_local [("text", NodeTest.text), ("node", .node), ("comment", .comment)]
      (by decide) cs with
  | fails h h' => exact .fails (by rw [kindTest, h]) fun he t => by rw [kindTest, h' he]
  | @takes test r h hc hl h' =>
    have hinside (he : Enclosed cs) : Enclosed r := he.of_eq hc
    rcases sign?_cases '(' r with ⟨h₂, h₂'⟩ | ⟨r₂, h₂, hc₂, hl₂, h₂'⟩
    · exact .fails (by rw [kindTest, h]; simp only [h₂]) fun he t => by
        rw [kindTest, h' he]; simp only [h₂' (hinside he)]
    · rw [closings_opening (by decide)] at hc₂
      have hinside₂ (he : Enclosed cs) : Enclosed r₂ := by
        have := hinside he
        rw [Enclosed] at this ⊢
        omega
      have hlen := length_skip_le r₂
      have hskip := closings_skip r₂
      have happend (he : Enclosed cs) (t : List Char) := (hinside₂ he).skip_append t
      cases hs : skip r₂ with
      | nil =>
        refine .fails (by rw [kindTest, h]; simp only [h₂, hs]) fun he t => ?_
        exact absurd hs (hinside₂ he).skip.ne_nil
      | cons d r₃ =>
        rw [hs] at hlen hskip happend
        by_cases hd : d = ')'
        · subst hd
          rw [closings_closing (by decide)] at hskip
          simp only [List.length_cons] at hlen
          refine .takes (a := test) (r := r₃) (by rw [kindTest, h]; simp only [h₂, hs]) (by omega)
            (by omega) fun he t => ?_
          rw [kindTest, h' he]
          simp only [h₂' (hinside he), happend he, List.cons_append]
        · refine .fails (kindTest_of_open h (h₂.trans (congrArg some hs)) hd) fun he t => ?_
          exact kindTest_of_open (h' he t)
            ((h₂' (hinside he) t).trans (congrArg some (happend he t))) hd

theorem nodeTest_local (cs : List Char) : Local nodeTest nodeTest cs := by
  cases cs with
  | nil => exact .fails rfl fun he => absurd rfl he.ne_nil
  | cons c cs =>
    by_cases hc : c = '*'
    · subst hc
      exact .takes rfl (closings_plain (by decide) cs).symm (Nat.le_succ _) fun _ t => rfl
    · have hhead (ds : List Char) : nodeTest (c :: ds) =
          orElse kindTest (mapped NodeTest.name name) (c :: ds) :=
        nodeTest_of_head (by simpa using hc)
      have hother := (kindTest_local (c :: cs)).orElse ((name_local (c :: cs)).mapped NodeTest.name)
      exact hother.congr (hhead cs) fun _ t => hhead (cs ++ t)

/-- A text without the colons of an axis has the child axis. -/
theorem axis_of_no_colons (h : ∀ a r, wordIn? axisNames cs ≠ some (a, ':' :: ':' :: r)) :
    axis cs = (.child, cs) := by
  unfold axis
  split
  · rename_i a r heq
    exact absurd heq (h a r)
  · rfl

theorem axis_local (cs : List Char) :
    Local (fun cs => some (axis cs)) (fun cs => some (axis cs)) cs := by
  have hchild (hnot : ∀ a r, wordIn? axisNames cs ≠ some (a, ':' :: ':' :: r))
      (hnot' : Enclosed cs → ∀ t a r, wordIn? axisNames (cs ++ t) ≠ some (a, ':' :: ':' :: r)) :
      Local (fun cs => some (axis cs)) (fun cs => some (axis cs)) cs :=
    .takes (congrArg some (axis_of_no_colons hnot)) rfl (Nat.le_refl _) fun he t =>
      congrArg some (axis_of_no_colons (hnot' he t))
  cases wordIn?_local axisNames (by decide) cs with
  | fails h h' => exact hchild (by simp [h]) fun he t => by simp [h' he]
  | @takes a r h hc hl h' =>
    by_cases hcolons : ∃ u, r = ':' :: ':' :: u
    · obtain ⟨u, rfl⟩ := hcolons
      rw [closings_plain (by decide), closings_plain (by decide)] at hc
      simp only [List.length_cons] at hl
      exact .takes (a := a) (r := u) (by simp only [axis, h]) hc (by omega) fun he t => by
        simp only [axis, h' he, List.cons_append]
    · refine hchild (fun b u heq => ?_) fun he t b u heq => ?_
      · rw [h] at heq
        exact hcolons ⟨u, (Prod.mk.inj (Option.some.inj heq)).2⟩
      · rw [h' he] at heq
        have heq := (Prod.mk.inj (Option.some.inj heq)).2
        obtain ⟨r, rfl⟩ := (he.of_eq hc).eq_cons_of_append heq
        rw [closings_plain (by decide)] at hc
        obtain ⟨r, rfl⟩ := (he.of_eq hc).eq_cons_of_append (List.cons.inj heq).2
        exact hcolons ⟨r, rfl⟩

theorem stepHead_local (cs : List Char) : Local stepHead stepHead cs := by
  have hother : Local (andThen (fun cs => some (axis cs)) fun a => mapped (a, ·) nodeTest)
      (andThen (fun cs => some (axis cs)) fun a => mapped (a, ·) nodeTest) cs :=
    (axis_local cs).andThen fun a r _ _ => (nodeTest_local r).mapped _
  cases cs with
  | nil => exact .fails rfl fun he => absurd rfl he.ne_nil
  | cons c cs =>
    by_cases hpoint : c = '.'
    · subst hpoint
      have hplain := closings_plain (c := '.') (by decide) cs
      by_cases hsecond : ∃ ds, cs = '.' :: ds
      · obtain ⟨ds, rfl⟩ := hsecond
        rw [closings_plain (by decide)] at hplain
        exact .takes rfl hplain.symm (Nat.le_add_right _ 2) fun _ t => rfl
      · have hself (ds : List Char) (hds : ∀ es, ds ≠ '.' :: es) :
            stepHead ('.' :: ds) = some ((.self, .node), ds) := by
          unfold stepHead
          split
          · rename_i heq
            exact absurd (List.cons.inj heq).2 (hds _)
          · rename_i heq
            rw [(List.cons.inj heq).2]
          · rename_i heq
            exact absurd (List.cons.inj heq).1 (by decide)
          · rename_i hnot _
            exact absurd rfl (hnot ds)
        refine .takes (hself cs fun es heq => hsecond ⟨es, heq⟩) hplain.symm (Nat.le_succ _)
          fun he t => hself _ fun es heq => ?_
        exact hsecond ((he.of_eq hplain.symm).eq_cons_of_append heq)
    · by_cases hat : c = '@'
      · subst hat
        exact ((nodeTest_local cs).mapped (Axis.attribute, ·)).behind (w := ['@'])
          (closings_plain (by decide) cs) rfl fun _ t => rfl
      · have hhead (ds : List Char) : stepHead (c :: ds) =
            andThen (fun cs => some (axis cs)) (fun a => mapped (a, ·) nodeTest) (c :: ds) :=
          stepHead_of_head (by simpa using ⟨hpoint, hat⟩)
        exact hother.congr (hhead cs) fun _ t => hhead (cs ++ t)

end MarkupTemplate.XPath
