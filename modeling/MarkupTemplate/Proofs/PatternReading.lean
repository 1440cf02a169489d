import MarkupTemplate.Proofs.BranchParts
import MarkupTemplate.Proofs.Validation

/-!
# Readings of patterns

The text of a selector list is read as the branches that the list stands for.

* `Pattern.nested`, `Chain.nested` — the text is nested.
* `Pattern.begins`, `Chain.finishes` — nothing of it is trimmed off.
* `Condition.reads`, `pattern_reads` — compounds.
* `chain_reads`, `readBranches_eq` — chains and lists.
* `compile_eq` — what the whole text is compiled to, unless it begins with a marker.
-/

namespace MarkupTemplate.Css

open XPath

variable {cs ds rest : List Char} {c d : Char} {source : String}

/-! ## Lower case -/

theorem toLower_cases (c : Char) :
    c.toLower = c ∨ ∃ n ∈ List.range' 65 26, c = Char.ofNat n := by
  unfold Char.toLower
  split
  · rename_i h
    simp only [ge_iff_le, UInt32.le_iff_toNat_le] at h
    have hA : 'A'.val.toNat = 65 := rfl
    have hZ : 'Z'.val.toNat = 90 := rfl
    have hc : c.toNat = c.val.toNat := rfl
    refine .inr ⟨c.toNat, ?_, (Char.ofNat_toNat c).symm⟩
    rw [List.mem_range'_1]
    omega
  · exact .inl rfl

/-- What holds of the letters of the ASCII alphabet holds of a character in lower case, if it holds
of the character. -/
theorem toLower_induction {P : Char → Bool}
    (hP : ∀ n ∈ List.range' 65 26, P (Char.ofNat n).toLower = true) (h : P c = true) :
    P c.toLower = true := by
  rcases toLower_cases c with hc | ⟨n, hn, rfl⟩
  · rw [hc]
    exact h
  · exact hP n hn

/-- What holds of the capitals and of a character in lower case holds of the character. -/
theorem of_toLower {P : Char → Bool} (hP : ∀ n ∈ List.range' 65 26, P (Char.ofNat n) = true)
    (h : P c.toLower = true) : P c = true := by
  rcases toLower_cases c with hc | ⟨n, hn, rfl⟩
  · rwa [hc] at h
  · exact hP n hn

theorem toLower_toLower (c : Char) : c.toLower.toLower = c.toLower := by
  rcases toLower_cases c with h | ⟨n, hn, rfl⟩
  · rw [h, h]
  · revert n
    decide

@[simp]
theorem lower_lower (cs : List Char) : Text.lower (Text.lower cs) = Text.lower cs := by
  rw [Text.lower, Text.lower, List.map_map]
  exact List.map_congr_left fun c _ => toLower_toLower c

@[simp]
theorem sameLetters_lower (cs ds : List Char) :
    Text.sameLetters cs (Text.lower ds) = Text.sameLetters cs ds := by
  simp [Text.sameLetters]

theorem isNameChar_eq (c : Char) : isNameChar c = XPath.isNameChar c := by
  rw [isNameChar, XPath.isNameChar, Bool.or_assoc, Bool.or_assoc, Bool.or_comm (decide (c = '-'))]

theorem isSimpleName_lower (h : isSimpleName cs = true) : isSimpleName (Text.lower cs) = true := by
  obtain ⟨c, t, rfl, hc, ht⟩ := isSimpleName_cons h
  have hstart : isNameStart c.toLower = true := toLower_induction (by decide) hc
  rw [Text.lower, List.map_cons, isSimpleName, hstart, Bool.true_and, List.all_eq_true]
  intro d hd
  obtain ⟨e, he, rfl⟩ := List.mem_map.1 hd
  exact toLower_induction (by decide) (ht e he)

/-! ## Characters of names -/

theorem ne_of_isNameChar (hc : isNameChar c = true) (hd : isNameChar d = false) : c ≠ d := by
  rintro rfl
  rw [hc] at hd
  cases hd

theorem isPlain_of_isNameChar (h : isNameChar c = true) : isPlain c = true := by
  have hne {d : Char} (hd : isNameChar d = false) : c ≠ d := ne_of_isNameChar h hd
  simp [isPlain, Nesting.isQuote, Nesting.isOpening, Nesting.isClosing,
    hne (d := '"') (by decide), hne (d := '\'') (by decide), hne (d := '[') (by decide),
    hne (d := '(') (by decide), hne (d := ']') (by decide), hne (d := ')') (by decide)]

theorem isBlank_of_nameChar (h : isNameChar c = true) : Text.isBlank c = false :=
  isBlank_of_isNameChar (isNameChar_eq c ▸ h)

theorem isSolid_of_isNameChar (h : isNameChar c = true) : isSolid c = true := by
  have hne {d : Char} (hd : isNameChar d = false) : c ≠ d := ne_of_isNameChar h hd
  simp [isSolid, BranchScan.combinator?, isBlank_of_nameChar h, hne (d := '>') (by decide),
    hne (d := '+') (by decide), hne (d := '~') (by decide), hne (d := ',') (by decide)]

theorem endsName_of_isNameChar (h : isNameChar c = true) : endsName c = false := by
  have hne {d : Char} (hd : isNameChar d = false) : c ≠ d := ne_of_isNameChar h hd
  simp [endsName, hne (d := '.') (by decide), hne (d := '#') (by decide),
    hne (d := '[') (by decide), hne (d := ':') (by decide)]

theorem Word.no_end (name : Word) : ∀ c ∈ name.text, endsName c = false := fun c hc =>
  endsName_of_isNameChar (name.isNameChar c hc)

theorem Name.isNameChar (n : Name) : ∀ c ∈ n.text, isNameChar c = true := fun c hc =>
  (isNameChar_eq c).trans (isNameChar_of_mem_simpleName n.isSimpleName hc)

theorem Name.ne_nil (n : Name) : n.text ≠ [] := by
  obtain ⟨c, t, heq, -⟩ := isSimpleName_cons n.isSimpleName
  simp [heq]

theorem mem_isName (h : isName cs = true) (hc : c ∈ cs) : isNameChar c = true ∨ c = ':' := by
  obtain ⟨d, t, rfl, hd, ht⟩ := isName_cons h
  rw [isNameChar_eq]
  rcases List.mem_cons.1 hc with rfl | hc
  · exact .inl (isNameChar_of_isNameStart hd)
  · exact ht c hc

theorem not_mem_isName (h : isName cs = true) (hc : isNameChar c = false) (hcolon : c ≠ ':') :
    c ∉ cs := fun hmem => by
  rcases mem_isName h hmem with hchar | heq
  · exact ne_of_isNameChar hchar hc rfl
  · exact hcolon heq

theorem withoutSigns_isName (h : isName cs = true) : withoutSigns cs = cs := by
  obtain ⟨c, t, rfl, -, -⟩ := isName_cons h
  have hc : c ≠ '@' := fun hc => not_mem_isName h (c := '@') (by decide) (by decide) (by simp [hc])
  exact List.dropWhile_cons_of_neg (by simpa using hc)

theorem Name.isName_text (n : Name) : XPath.isName n.text = true :=
  isName_of_isSimpleName n.isSimpleName

/-! ## Nesting -/

/-- The sign of a comparison in front of the equals sign. -/
def Comparison.sign : Comparison → List Char
  | .equal => []
  | .beginning => ['^']
  | .ending => ['$']
  | .part => ['*']
  | .dashed => ['|']
  | .word => ['~']

/-- A name and the signs in front of the quotes have nothing to do with nesting. -/
theorem isPlain_head (hname : isName cs = true) (comparison : Comparison) :
    ∀ c ∈ cs ++ comparison.sign ++ ['='], isPlain c = true := by
  intro c hc
  rcases List.mem_append.1 hc with hc | hc
  · rcases List.mem_append.1 hc with hc | hc
    · rcases mem_isName hname hc with hchar | rfl
      · exact isPlain_of_isNameChar hchar
      · decide
    · have hsign : comparison.sign.all isPlain = true := by cases comparison <;> decide
      exact List.all_eq_true.1 hsign c hc
  · rw [List.mem_singleton.1 hc]
    decide

theorem nested_of_isNameChar (h : ∀ c ∈ cs, isNameChar c = true) : Nested isSolid cs :=
  .of_forall fun c hc => ⟨isPlain_of_isNameChar (h c hc), isSolid_of_isNameChar (h c hc)⟩

theorem isPlain_of_isBlank (h : Text.isBlank c = true) : isPlain c = true ∧ c ≠ ',' := by
  have hcodes : ∀ n ∈ blankCodes, isPlain (Char.ofNat n) = true ∧ Char.ofNat n ≠ ',' := by decide
  have hcode := hcodes _ (toNat_mem_blankCodes h)
  rwa [Char.ofNat_toNat] at hcode

theorem Gap.nested (gap : Gap) : Nested (fun c => c != ',') gap.text :=
  .of_forall fun c hc => by simpa using isPlain_of_isBlank (gap.isBlank c hc)

mutual

theorem Condition.nested : ∀ condition : Condition, Nested isSolid condition.text
  | .id name => .plain (by decide) (by decide) (nested_of_isNameChar name.isNameChar)
  | .cls name => .plain (by decide) (by decide) (nested_of_isNameChar name.isNameChar)
  | .present name => by
    have hbrackets := Nested.brackets (p := isSolid)
      (fun c hc => isPlain_of_isNameChar (name.isNameChar c hc)) .none .nil
    simpa [Condition.text] using hbrackets
  | .equal name value => by
    have hbrackets := Nested.brackets (p := isSolid) (isPlain_head name.isName_text .equal)
      (.quotes (by decide) value.no_quote) .nil
    simpa [Condition.text, Comparison.sign] using hbrackets
  | .empty => .of_all (by decide)
  | .negation alternatives => by
    have hparens := Nested.parens (p := isSolid) alternatives.nested .nil
    have hnot : Nested isSolid ":not".toList := .of_all (by decide)
    simpa [Condition.text] using hnot.append hparens

theorem Alternatives.nested : ∀ alternatives : Alternatives,
    Nested (fun _ => true) alternatives.text
  | .last before pattern after => by
    have hbefore := before.nested.mono (q := fun _ => true) fun _ _ => rfl
    have hafter := after.nested.mono (q := fun _ => true) fun _ _ => rfl
    have hpattern := pattern.nested.mono (q := fun _ => true) fun _ _ => rfl
    exact hbefore.append (hpattern.append hafter)
  | .more before pattern after rest => by
    have hbefore := before.nested.mono (q := fun _ => true) fun _ _ => rfl
    have hafter := after.nested.mono (q := fun _ => true) fun _ _ => rfl
    have hpattern := pattern.nested.mono (q := fun _ => true) fun _ _ => rfl
    have hrest := Nested.plain (c := ',') (by decide) rfl rest.nested
    exact (hbefore.append (hpattern.append hafter)).append hrest

theorem Pattern.nested : ∀ pattern : Pattern, Nested isSolid pattern.text
  | .type .star => .of_all (by decide)
  | .type (.name name) => nested_of_isNameChar name.isNameChar
  | .first condition => condition.nested
  | .also pattern condition => pattern.nested.append condition.nested

end

/-! ## Beginnings and endings -/

theorem Condition.text_cons (condition : Condition) :
    ∃ c t, condition.text = c :: t ∧ endsName c = true := by
  cases condition <;> exact ⟨_, _, rfl, by decide⟩

theorem Pattern.begins : ∀ pattern : Pattern, Begins pattern.text
  | .type .star => ⟨'*', [], rfl, by decide⟩
  | .type (.name n) => begins_of_isName n.isName_text
  | .first condition => by
    obtain ⟨c, t, htext, hc⟩ := condition.text_cons
    refine ⟨c, t, htext, ?_⟩
    simp only [endsName, Bool.or_eq_true, decide_eq_true_eq] at hc
    rcases hc with ((rfl | rfl) | rfl) | rfl <;> decide
  | .also pattern condition => pattern.begins.append condition.text

theorem Condition.finishes : ∀ condition : Condition, Finishes condition.text
  | .id name | .cls name =>
    .cons (finishes_of_forall name.ne_nil fun c hc => isBlank_of_nameChar (name.isNameChar c hc)) _
  | .present name => ⟨'[' :: name.text, ']', by simp [Condition.text], by decide⟩
  | .equal name value =>
    ⟨'[' :: (name.text ++ '=' :: '"' :: (value.text ++ ['"'])), ']', by simp [Condition.text],
      by decide⟩
  | .empty => ⟨":empt".toList, 'y', rfl, by decide⟩
  | .negation alternatives =>
    ⟨":not(".toList ++ alternatives.text, ')', by simp [Condition.text], by decide⟩

theorem Pattern.finishes : ∀ pattern : Pattern, Finishes pattern.text
  | .type .star => ⟨[], '*', rfl, by decide⟩
  | .type (.name n) => finishes_of_isName n.isName_text
  | .first condition => condition.finishes
  | .also pattern condition => condition.finishes.append pattern.text

theorem Chain.begins : ∀ chain : Chain, Begins chain.text
  | .single pattern => pattern.begins
  | .link chain l pattern => (chain.begins.append l.text).append pattern.text

theorem Chain.finishes : ∀ chain : Chain, Finishes chain.text
  | .single pattern => pattern.finishes
  | .link chain l pattern => pattern.finishes.append (chain.text ++ l.text)

/-- White_Space around a text is trimmed off. -/
theorem trim_gaps {before after : List Char} (hbefore : ∀ c ∈ before, Text.isBlank c = true)
    (hafter : ∀ c ∈ after, Text.isBlank c = true) (hb : Begins cs) (hf : Finishes cs) :
    Text.trim (before ++ (cs ++ after)) = cs := by
  have hself (ds : List Char) : (cs ++ ds).dropWhile Text.isBlank = cs ++ ds := by
    obtain ⟨c, t, rfl, hc⟩ := hb
    exact List.dropWhile_cons_of_neg (by simp [hc])
  have hstart : Text.trimStart (before ++ (cs ++ after)) = cs ++ after := by
    rw [Text.trimStart, List.dropWhile_append_of_pos hbefore, hself]
  have hend : Text.trimEnd (cs ++ after) = Text.trimEnd cs := by
    rw [Text.trimEnd, Text.trimEnd, Text.dropEndWhile, Text.dropEndWhile, List.reverse_append,
      List.dropWhile_append_of_pos fun c hc => hafter c (List.mem_reverse.1 hc)]
  have htrim := trim_eq_self hb hf
  have hcs := hself []
  rw [List.append_nil] at hcs
  rw [Text.trim, Text.trimStart, hcs] at htrim
  rw [Text.trim, hstart, hend, htrim]

/-! ## Attributes -/

theorem Name.trim (n : Name) : Text.trim n.text = n.text :=
  trim_eq_self (begins_of_isName n.isName_text) (finishes_of_isName n.isName_text)

theorem Name.not_mem (n : Name) (h : Css.isNameChar c = false) : c ∉ n.text := fun hc =>
  ne_of_isNameChar (n.isNameChar c hc) h rfl

theorem lower_ne_nil (h : cs ≠ []) : (Text.lower cs).isEmpty = false := by
  simpa [Text.lower] using h

theorem readAttribute_present (name : Name) :
    readAttribute source name.text = .ok (.present (String.ofList (Text.lower name.text))) := by
  have hchars : (Text.lower name.text).all (fun c => isNameChar c || c = ':') = true := by
    rw [List.all_eq_true]
    intro c hc
    obtain ⟨d, hd, rfl⟩ := List.mem_map.1 hc
    have hlower : isNameChar d.toLower = true :=
      toLower_induction (by decide) (name.isNameChar d hd)
    simp [hlower]
  unfold readAttribute
  dsimp only
  rw [name.trim, Text.cutAt?_eq_none (name.not_mem (by decide))]
  dsimp only
  rw [withoutSigns_isName name.isName_text, name.trim, lower_ne_nil name.ne_nil, hchars]
  rfl

theorem comparison?_of_isNameChar (h : isNameChar c = true) : comparison? c = none := by
  have hne {d : Char} (hd : isNameChar d = false) : c ≠ d := ne_of_isNameChar h hd
  simp [comparison?, hne (d := '^') (by decide), hne (d := '$') (by decide),
    hne (d := '*') (by decide), hne (d := '|') (by decide), hne (d := '~') (by decide)]

/-- A value in quotes has no flag behind it. -/
theorem unquoted_quotes {q : Char} (hq : Nesting.isQuote q = true) (v : List Char) :
    unquoted (q :: (v ++ [q])) = v := by
  obtain ⟨d, t, ht⟩ : ∃ d t, v.reverse ++ [q] = d :: t :=
    List.exists_cons_of_ne_nil (by simp)
  have hreverse : (q :: (v ++ [q])).reverse = q :: d :: t := by simp [← ht]
  have hflag : (decide (q = 'i') || decide (q = 'I')) = false := by
    rw [Nesting.isQuote, Bool.or_eq_true, decide_eq_true_eq, decide_eq_true_eq] at hq
    rcases hq with rfl | rfl <;> decide
  have hinner (e : Char) (u : List Char) (heq : v ++ [q] = e :: u) :
      (e :: u).getLast? = some q ∧ (e :: u).dropLast = v := by
    rw [← heq]
    simp
  unfold unquoted
  rw [hreverse]
  by_cases hd : d = ' '
  · subst hd
    cases v with
    | nil => simp [hq, hflag]
    | cons e v =>
      have hlast := hinner e (v ++ [q]) rfl
      simp [hq, hflag, hlast]
  · cases v with
    | nil => simp [hq, hd]
    | cons e v =>
      have hlast := hinner e (v ++ [q]) rfl
      simp [hq, hd, hlast]

/-- What stands in front of the equals sign is a name and the sign of the comparison. -/
theorem comparison_before (h : isName cs = true) (comparison : Comparison) :
    ((cs ++ comparison.sign).getLast?.bind comparison?).getD .equal = comparison ∧
      (if ((cs ++ comparison.sign).getLast?.bind comparison?).isSome
        then (cs ++ comparison.sign).dropLast else cs ++ comparison.sign) = cs := by
  cases comparison with
  | equal =>
    obtain ⟨d, t, rfl, -⟩ := isName_cons h
    have hlast : comparison? ((d :: t).getLast (by simp)) = none := by
      rcases mem_isName h (List.getLast_mem (l := d :: t) (by simp)) with hchar | hcolon
      · exact comparison?_of_isNameChar hchar
      · rw [hcolon]
        rfl
    rw [Comparison.sign, List.append_nil, List.getLast?_eq_some_getLast (by simp), Option.bind_some,
      hlast]
    exact ⟨rfl, rfl⟩
  | beginning | ending | part | dashed | word =>
    rw [Comparison.sign, List.getLast?_concat, List.dropLast_concat]
    exact ⟨rfl, rfl⟩

/-- A name, a comparison and a value in quotes. -/
theorem readAttribute_quoted {q : Char} (hname : isName cs = true) (comparison : Comparison)
    (hq : Nesting.isQuote q = true) (v : List Char) :
    readAttribute source (cs ++ comparison.sign ++ '=' :: q :: (v ++ [q])) =
      .ok (.attribute (String.ofList (Text.lower cs)) comparison (String.ofList v)) := by
  have hbegins := begins_of_isName hname
  have hblank : Text.isBlank q = false := by
    rw [Nesting.isQuote, Bool.or_eq_true, decide_eq_true_eq, decide_eq_true_eq] at hq
    rcases hq with rfl | rfl <;> decide
  have hbody : Text.trim (cs ++ comparison.sign ++ '=' :: q :: (v ++ [q])) =
      cs ++ comparison.sign ++ '=' :: q :: (v ++ [q]) :=
    trim_eq_self ((hbegins.append _).append _)
      ⟨cs ++ comparison.sign ++ '=' :: q :: v, q, by simp, hblank⟩
  have hvalue : Text.trim (q :: (v ++ [q])) = q :: (v ++ [q]) :=
    trim_eq_self ⟨q, _, rfl, hblank⟩ ⟨q :: v, q, by simp, hblank⟩
  have hequals : '=' ∉ cs ++ comparison.sign := by
    rw [List.mem_append, not_or]
    exact ⟨not_mem_isName hname (by decide) (by decide), by cases comparison <;> decide⟩
  have hne : cs ≠ [] := by
    obtain ⟨c, t, rfl, -⟩ := hbegins
    simp
  obtain ⟨hcomparison, hbefore⟩ := comparison_before hname comparison
  unfold readAttribute
  dsimp only
  rw [hbody, Text.cutAt?_append hequals]
  dsimp only
  rw [hcomparison, hbefore, trim_eq_self hbegins (finishes_of_isName hname),
    withoutSigns_isName hname, lower_ne_nil hne, hvalue, unquoted_quotes hq]
  rfl

/-! ## Compounds -/

variable {compound : List Char → Except Error Compound}

/-- The condition is read wherever something that ends a name follows. -/
def Condition.Reads (source : String) (compound : List Char → Except Error Compound)
    (condition : Condition) : Prop :=
  ∃ c cs, condition.text = c :: cs ∧ ∀ rest, (∀ d ∈ rest.head?, endsName d = true) →
    readSimple source compound c (cs ++ rest) = .ok ([condition.simple], rest)

theorem name_ends (h : ∀ d ∈ cs, endsName d = false)
    (hrest : ∀ d ∈ rest.head?, endsName d = true) :
    (cs ++ rest).takeWhile (fun d => !endsName d) = cs ∧
      (cs ++ rest).dropWhile (fun d => !endsName d) = rest :=
  takeWhile_append_stop (fun d hd => by simp [h d hd]) fun d hd => by simp [hrest d hd]

theorem ofList_lower_isEmpty (h : cs ≠ []) :
    (String.ofList (Text.lower cs)).isEmpty = false := by
  rw [String.isEmpty_eq_false_iff]
  intro hempty
  have := congrArg String.toList hempty
  rw [String.toList_ofList] at this
  have hlower := lower_ne_nil h
  rw [this] at hlower
  cases hlower

theorem pseudo_ends {name : List Char} (hname : ∀ c ∈ name, isNameChar c = true)
    (hrest : ∀ d ∈ rest.head?, isNameChar d = false) :
    (name ++ rest).takeWhile isNameChar = name ∧ (name ++ rest).dropWhile isNameChar = rest :=
  takeWhile_append_stop hname hrest

theorem isNameChar_of_endsName (h : endsName c = true) : isNameChar c = false := by
  cases hc : isNameChar c with
  | false => rfl
  | true =>
    rw [endsName_of_isNameChar hc] at h
    cases h

theorem readPseudo_not (argument : List Char) :
    readPseudo source compound "not" (some argument) =
      (fun alternatives => [.negation alternatives]) <$> readNegation source compound argument := by
  unfold readPseudo
  dsimp only
  rw [if_neg (by decide), if_neg (by decide), if_neg (by decide), if_neg (by decide),
    if_neg (by decide), if_neg (by decide), if_neg (by decide), if_neg (by decide), if_pos rfl,
    ok_bind]
  rfl

/-- The argument of a pseudo-class goes up to the parenthesis that closes it. -/
theorem readSimple_argument {name argument : List Char} {p : Char → Bool}
    (hname : ∀ c ∈ name, isNameChar c = true) (hc : name.head? ≠ some ':')
    (h : Nested p argument) (rest : List Char) :
    readSimple source compound ':' (name ++ '(' :: (argument ++ ')' :: rest)) =
      (fun conditions => (conditions, rest)) <$>
        readPseudo source compound (String.ofList (Text.lower name)) (some argument) := by
  have hopen : ∀ d ∈ ('(' :: (argument ++ ')' :: rest)).head?, isNameChar d = false := by
    simp
    decide
  have hhead : (name ++ '(' :: (argument ++ ')' :: rest)).head? ≠ some ':' := by
    cases name with
    | nil => simp
    | cons c name => simpa using hc
  obtain ⟨htake, hdrop⟩ := pseudo_ends hname hopen
  unfold readSimple
  dsimp only
  rw [htake, hdrop, if_neg (by decide), if_neg (by decide), if_pos rfl, if_neg hhead,
    List.head?_cons, if_pos rfl, List.drop_succ_cons, List.drop_zero, group?_parens h]
  rfl

/-- The name of an id or a class goes up to what ends names. -/
theorem readSimple_name (hne : cs ≠ []) (h : ∀ d ∈ cs, endsName d = false)
    (hrest : ∀ d ∈ rest.head?, endsName d = true) :
    readSimple source compound '#' (cs ++ rest) =
        .ok ([.id (String.ofList (Text.lower cs))], rest) ∧
      readSimple source compound '.' (cs ++ rest) =
        .ok ([.cls (String.ofList (Text.lower cs))], rest) := by
  obtain ⟨htake, hdrop⟩ := name_ends h hrest
  constructor
  all_goals
    unfold readSimple
    dsimp only
    rw [htake, hdrop, ofList_lower_isEmpty hne]
    rfl

/-- The comparison in a block is read with all that is between its quotes. -/
theorem readSimple_block {q : Char} {v : List Char} (hname : isName cs = true)
    (comparison : Comparison) (hq : Nesting.isQuote q = true) (hv : q ∉ v) (rest : List Char) :
    readSimple source compound '['
        (cs ++ comparison.sign ++ '=' :: q :: (v ++ q :: ']' :: rest)) =
      .ok ([.attribute (String.ofList (Text.lower cs)) comparison (String.ofList v)], rest) := by
  have hgroup := group?_brackets (isPlain_head hname comparison) (.quotes hq hv) rest
  have htext : cs ++ comparison.sign ++ '=' :: q :: (v ++ q :: ']' :: rest) =
      cs ++ comparison.sign ++ ['='] ++ q :: (v ++ [q]) ++ ']' :: rest := by simp
  have hbody : cs ++ comparison.sign ++ ['='] ++ q :: (v ++ [q]) =
      cs ++ comparison.sign ++ '=' :: q :: (v ++ [q]) := by simp
  unfold readSimple
  dsimp only
  rw [htext, hgroup]
  dsimp only
  rw [hbody, readAttribute_quoted hname comparison hq]
  rfl

/-- A pseudo-class without an argument goes up to what ends names. -/
theorem readSimple_bare {name : List Char} (hname : ∀ c ∈ name, isNameChar c = true)
    (hne : name ≠ []) (hrest : ∀ d ∈ rest.head?, endsName d = true) :
    readSimple source compound ':' (name ++ rest) =
      (fun conditions => (conditions, rest)) <$>
        readPseudo source compound (String.ofList (Text.lower name)) none := by
  have hhead : (name ++ rest).head? ≠ some ':' := by
    obtain ⟨c, t, rfl⟩ := List.exists_cons_of_ne_nil hne
    intro hhead
    exact ne_of_isNameChar (hname c List.mem_cons_self) (by decide) (Option.some.inj hhead)
  have hopen : rest.head? ≠ some '(' := by
    intro hopen
    have hends := hrest '(' hopen
    revert hends
    decide
  obtain ⟨htake, hdrop⟩ := pseudo_ends hname fun d hd => isNameChar_of_endsName (hrest d hd)
  unfold readSimple
  dsimp only
  rw [htake, hdrop, if_neg (by decide), if_neg (by decide), if_pos rfl, if_neg hhead,
    if_neg hopen]
  rfl

theorem Condition.reads_of (condition : Condition)
    (hnegation : ∀ alternatives, condition = .negation alternatives →
      readNegation source compound alternatives.text = .ok alternatives.compounds) :
    condition.Reads source compound := by
  cases condition with
  | id name =>
    exact ⟨'#', name.text, rfl, fun _ hrest => (readSimple_name name.ne_nil name.no_end hrest).1⟩
  | cls name =>
    exact ⟨'.', name.text, rfl, fun _ hrest => (readSimple_name name.ne_nil name.no_end hrest).2⟩
  | present name =>
    refine ⟨'[', name.text ++ [']'], rfl, fun rest _ => ?_⟩
    have hgroup := group?_brackets (fun c hc => isPlain_of_isNameChar (name.isNameChar c hc))
      .none rest
    rw [List.append_nil] at hgroup
    unfold readSimple
    dsimp only
    rw [List.append_assoc, List.singleton_append, hgroup]
    dsimp only
    rw [readAttribute_present]
    rfl
  | equal name value =>
    refine ⟨'[', name.text ++ '=' :: '"' :: (value.text ++ ['"', ']']), rfl, fun rest _ => ?_⟩
    have hread : readSimple source compound _ _ = _ :=
      readSimple_block name.isName_text .equal (by decide) value.no_quote rest
    simpa [Comparison.sign, Condition.simple] using hread
  | empty =>
    refine ⟨':', "empty".toList, rfl, fun rest hrest => ?_⟩
    have hname : ∀ c ∈ "empty".toList, isNameChar c = true := List.all_eq_true.1 (by decide)
    have hempty : String.ofList (Text.lower "empty".toList) = "empty" := by decide
    rw [readSimple_bare hname (by decide) hrest, hempty]
    rfl
  | negation alternatives =>
    have halternatives := hnegation alternatives rfl
    refine ⟨':', "not(".toList ++ (alternatives.text ++ [')']), rfl, fun rest _ => ?_⟩
    have hname : ∀ c ∈ "not".toList, isNameChar c = true := List.all_eq_true.1 (by decide)
    have htext : "not(".toList ++ (alternatives.text ++ [')']) ++ rest =
        "not".toList ++ '(' :: (alternatives.text ++ ')' :: rest) := by simp
    have hnot : String.ofList (Text.lower "not".toList) = "not" := by decide
    rw [htext, readSimple_argument hname (by decide) alternatives.nested, hnot, readPseudo_not,
      halternatives]
    rfl

/-- The type of a compound as it is written, if it is. -/
def Pattern.typeName : Pattern → Option TypeName
  | .type t => some t
  | .first _ => none
  | .also pattern _ => pattern.typeName

/-- The conditions of a compound in order. -/
def Pattern.conditions : Pattern → List Condition
  | .type _ => []
  | .first condition => [condition]
  | .also pattern condition => pattern.conditions ++ [condition]

/-- The text of the type of a compound. -/
def Pattern.typeText (pattern : Pattern) : List Char :=
  (pattern.typeName.map TypeName.text).getD []

theorem Pattern.text_eq : ∀ pattern : Pattern,
    pattern.text = pattern.typeText ++ pattern.conditions.flatMap Condition.text
  | .type t => by simp [Pattern.text, Pattern.typeText, Pattern.typeName, Pattern.conditions]
  | .first condition => by
    simp [Pattern.text, Pattern.typeText, Pattern.typeName, Pattern.conditions]
  | .also pattern condition => by
    have ih := pattern.text_eq
    simp only [Pattern.typeText] at ih ⊢
    simp [Pattern.text, Pattern.typeName, Pattern.conditions, ih]

theorem Pattern.compound_eq : ∀ pattern : Pattern, pattern.compound =
    .mk ((pattern.typeName.map TypeName.type).getD "*") (pattern.conditions.map Condition.simple)
  | .type t => rfl
  | .first condition => rfl
  | .also pattern condition => by
    have ih := pattern.compound_eq
    rw [Pattern.compound, ih]
    simp [Pattern.typeName, Pattern.conditions, Compound.type, Compound.conditions]

theorem conditions_head : ∀ conditions : List Condition,
    ∀ d ∈ (conditions.flatMap Condition.text).head?, endsName d = true
  | [], d, hd => by simp at hd
  | condition :: conditions, d, hd => by
    obtain ⟨c, t, htext, hc⟩ := condition.text_cons
    rw [List.flatMap_cons, htext, List.cons_append, List.head?_cons, Option.mem_some_iff] at hd
    exact hd ▸ hc

theorem readConditions_eq : ∀ (conditions : List Condition) (fuel : Nat),
    (∀ condition ∈ conditions, condition.Reads source compound) →
      (conditions.flatMap Condition.text).length ≤ fuel →
        readConditions source compound fuel (conditions.flatMap Condition.text) =
          .ok (conditions.map Condition.simple)
  | [], fuel, _, _ => by cases fuel <;> rfl
  | condition :: conditions, fuel, h, hfuel => by
    obtain ⟨c, cs, htext, hread⟩ := h condition List.mem_cons_self
    rw [List.flatMap_cons, htext, List.cons_append] at hfuel ⊢
    rw [List.length_cons, List.length_append] at hfuel
    obtain ⟨fuel, rfl⟩ : ∃ k, fuel = k + 1 := ⟨fuel - 1, by omega⟩
    have hrest := readConditions_eq conditions fuel
      (fun d hd => h d (List.mem_cons_of_mem _ hd)) (by omega)
    rw [readConditions, hread _ (conditions_head conditions), ok_bind]
    dsimp only
    rw [hrest, ok_bind]
    rfl

/-- A compound is read if its conditions are. -/
theorem pattern_reads_of {depth : Nat} (pattern : Pattern)
    (h : ∀ condition ∈ pattern.conditions,
      condition.Reads source (readCompoundWithin source depth)) :
    readCompoundWithin source (depth + 1) pattern.text = .ok pattern.compound := by
  have hhead := conditions_head pattern.conditions
  have hends : ∀ d ∈ (pattern.conditions.flatMap Condition.text).head?, isNameChar d = false :=
    fun d hd => isNameChar_of_endsName (hhead d hd)
  have hconditions := readConditions_eq pattern.conditions _ h (Nat.le_refl _)
  rw [pattern.text_eq, pattern.compound_eq, Pattern.typeText, readCompoundWithin]
  generalize pattern.conditions.flatMap Condition.text = rest at hhead hends hconditions ⊢
  cases pattern.typeName with
  | none =>
    have hstar : rest.head? ≠ some '*' := by
      intro hstar
      have := hhead '*' hstar
      revert this
      decide
    obtain ⟨htake, hdrop⟩ := takeWhile_append_stop (t := []) (by simp) hends
    rw [List.nil_append] at htake hdrop
    simp [hstar, htake, hdrop, hconditions]
  | some t =>
    cases t with
    | star =>
      simp [TypeName.text, TypeName.type, hconditions]
    | name n =>
      have hstar : n.text.head? ≠ some '*' := by
        obtain ⟨c, t, heq, -⟩ := isSimpleName_cons n.isSimpleName
        have hc : c ≠ '*' := fun hc => n.not_mem (c := '*') (by decide) (by simp [heq, hc])
        simpa [heq] using hc
      obtain ⟨htake, hdrop⟩ := takeWhile_append_stop n.isNameChar hends
      simp [TypeName.text, TypeName.type, hstar, htake, hdrop, n.ne_nil, hconditions]

/-! ## Branches -/

/-- The parts of a chain. -/
def Chain.parts : Chain → List (Combinator × List Char)
  | .single pattern => [(.descendant, pattern.text)]
  | .link chain l pattern => chain.parts ++ [(l.combinator, pattern.text)]

theorem Pattern.text_ne_nil (pattern : Pattern) : pattern.text ≠ [] := by
  obtain ⟨c, t, htext, -⟩ := pattern.begins
  simp [htext]

/-- A compound is a part of a branch. -/
theorem Nested.isPart (h : Nested isSolid cs) (hne : cs ≠ []) : IsPart cs :=
  ⟨h.balanced fun _ hc => .inr (isUncut_of_isSolid hc), hne⟩

/-- A compound alone is the only part of its branch. -/
theorem branchParts_single (source : String) (h : Nested isSolid cs) (hne : cs ≠ []) :
    branchParts source cs = .ok [(.descendant, cs)] :=
  (Written.first .none (h.isPart hne)).branchParts_eq source

theorem Chain.written : ∀ chain : Chain, Written chain.parts chain.text
  | .single pattern => .first .none (pattern.nested.isPart pattern.text_ne_nil)
  | .link chain l pattern => chain.written.next l (pattern.nested.isPart pattern.text_ne_nil)

theorem branchParts_eq (source : String) (chain : Chain) :
    branchParts source chain.text = .ok chain.parts :=
  chain.written.branchParts_eq source

/-! ## Negations -/

/-- The texts between the commas of a negation. -/
def Alternatives.pieces : Alternatives → List (List Char)
  | .last before pattern after => [before.text ++ (pattern.text ++ after.text)]
  | .more before pattern after rest =>
    (before.text ++ (pattern.text ++ after.text)) :: rest.pieces

theorem Alternatives.pieces_cons (alternatives : Alternatives) :
    ∃ piece pieces, alternatives.pieces = piece :: pieces := by
  cases alternatives <;> exact ⟨_, _, rfl⟩

theorem Alternatives.text_eq (alternatives : Alternatives) :
    alternatives.text = [','].intercalate alternatives.pieces := by
  induction alternatives with
  | last before pattern after => simp [text, pieces, List.intercalate]
  | more before pattern after rest ih =>
    obtain ⟨piece, pieces, heq⟩ := rest.pieces_cons
    rw [heq] at ih
    simp [text, Alternatives.pieces, ih, heq, List.intercalate]

theorem ne_comma_of_isSolid (h : isSolid c = true) : (c != ',') = true := by
  rw [isSolid, Bool.and_eq_true] at h
  exact h.2

theorem piece_nested (before after : Gap) (h : Nested isSolid cs) :
    Nested (fun c => c != ',') (before.text ++ (cs ++ after.text)) :=
  before.nested.append ((h.mono fun _ => ne_comma_of_isSolid).append after.nested)

theorem Alternatives.pieces_nested : ∀ alternatives : Alternatives,
    ∀ piece ∈ alternatives.pieces, Nested (fun c => c != ',') piece
  | .last before pattern after, piece, h => by
    rw [List.mem_singleton.1 h]
    exact piece_nested before after pattern.nested
  | .more before pattern after rest, piece, h => by
    rcases List.mem_cons.1 h with rfl | h
    · exact piece_nested before after pattern.nested
    · exact rest.pieces_nested piece h

/-- The compound of one piece of a negation. -/
def readAlternative (source : String) (compound : List Char → Except Error Compound)
    (piece : List Char) : Except Error Compound := do
  match ← branchParts source (Text.trim piece) with
  | [(_, part)] => compound part
  | _ => throw (fault (":not() only accepts simple selectors in '" ++ source ++ "'"))

theorem readNegation_eq (alternatives : Alternatives) :
    readNegation source compound alternatives.text =
      alternatives.pieces.mapM (readAlternative source compound) := by
  obtain ⟨piece, pieces, heq⟩ := alternatives.pieces_cons
  have hnested := alternatives.pieces_nested
  rw [heq] at hnested
  rw [readNegation, alternatives.text_eq, heq, splitTop_commas piece pieces hnested]
  rfl

theorem readAlternative_eq (source : String) (before after : Gap) {pattern : Pattern}
    (h : compound pattern.text = .ok pattern.compound) :
    readAlternative source compound (before.text ++ (pattern.text ++ after.text)) =
      .ok pattern.compound := by
  rw [readAlternative, trim_gaps before.isBlank after.isBlank pattern.begins pattern.finishes]
  have hparts := branchParts_eq source (.single pattern)
  rw [Chain.text, Chain.parts] at hparts
  rw [hparts, ok_bind]
  exact h

mutual

theorem Condition.reads (source : String) : ∀ (condition : Condition) (depth : Nat),
    condition.text.length ≤ depth → condition.Reads source (readCompoundWithin source depth)
  | .negation alternatives, depth, h => by
    refine Condition.reads_of _ fun alternatives' heq => ?_
    obtain rfl := Condition.negation.inj heq
    rw [readNegation_eq]
    rw [Condition.text, List.length_append, List.length_append] at h
    exact Alternatives.reads source alternatives depth (by simp at h; omega)
  | .id name, depth, _ => Condition.reads_of _ nofun
  | .cls name, depth, _ => Condition.reads_of _ nofun
  | .present name, depth, _ => Condition.reads_of _ nofun
  | .equal name value, depth, _ => Condition.reads_of _ nofun
  | .empty, depth, _ => Condition.reads_of _ nofun

theorem Alternatives.reads (source : String) : ∀ (alternatives : Alternatives) (depth : Nat),
    alternatives.text.length < depth →
      alternatives.pieces.mapM (readAlternative source (readCompoundWithin source depth)) =
        .ok alternatives.compounds
  | .last before pattern after, depth + 1, h => by
    rw [Alternatives.text, List.length_append, List.length_append] at h
    have hconditions := Pattern.conditions_read source pattern depth (by omega)
    have hfirst :=
      readAlternative_eq source before after (pattern_reads_of pattern hconditions)
    rw [Alternatives.pieces, List.mapM_cons, hfirst, ok_bind, List.mapM_nil]
    rfl
  | .more before pattern after rest, depth + 1, h => by
    rw [Alternatives.text, List.length_append, List.length_append, List.length_append,
      List.length_cons] at h
    have hconditions := Pattern.conditions_read source pattern depth (by omega)
    have hfirst :=
      readAlternative_eq source before after (pattern_reads_of pattern hconditions)
    have hrest := Alternatives.reads source rest (depth + 1) (by omega)
    rw [Alternatives.pieces, List.mapM_cons, hfirst, ok_bind, hrest, ok_bind]
    rfl

theorem Pattern.conditions_read (source : String) : ∀ (pattern : Pattern) (depth : Nat),
    pattern.text.length ≤ depth → ∀ condition ∈ pattern.conditions,
      condition.Reads source (readCompoundWithin source depth)
  | .type _, _, _, condition, hc => by simp [Pattern.conditions] at hc
  | .first first, depth, h, condition, hc => by
    rw [List.mem_singleton.1 hc]
    exact Condition.reads source first depth h
  | .also pattern last, depth, h, condition, hc => by
    rw [Pattern.text, List.length_append] at h
    rcases List.mem_append.1 hc with hc | hc
    · exact Pattern.conditions_read source pattern depth (by omega) condition hc
    · rw [List.mem_singleton.1 hc]
      exact Condition.reads source last depth (by omega)

end

/-- **A compound is read as what it stands for.** -/
theorem Pattern.reads (source : String) (pattern : Pattern) :
    readCompound source pattern.text = .ok pattern.compound :=
  pattern_reads_of pattern (Pattern.conditions_read source pattern _ (Nat.le_refl _))

/-! ## Lists -/

theorem readBranch_eq (source : String) (chain : Chain) :
    readBranch source chain.text = .ok chain.branch := by
  have hparts : ∀ chain : Chain, chain.parts.mapM (fun part => do
      return (part.1, ← readCompound source part.2)) = .ok chain.branch := by
    intro chain
    induction chain with
    | single pattern =>
      rw [Chain.parts, List.mapM_cons]
      dsimp only
      rw [pattern.reads source]
      rfl
    | link chain l pattern ih =>
      rw [Chain.parts, List.mapM_append, ih, ok_bind, List.mapM_cons]
      dsimp only
      rw [pattern.reads source]
      rfl
  rw [readBranch, branchParts_eq, ok_bind]
  exact hparts chain

/-- The texts between the commas of a list, with White_Space in front of the first. -/
def SelectorList.pieces (before : Gap) : SelectorList → List (List Char)
  | .last chain => [before.text ++ (chain.text ++ [])]
  | .more chain after next rest =>
    (before.text ++ (chain.text ++ after.text)) :: rest.pieces next

theorem SelectorList.pieces_cons (before : Gap) : ∀ list : SelectorList,
    ∃ piece pieces, list.pieces before = piece :: pieces
  | .last .. | .more .. => ⟨_, _, rfl⟩

theorem SelectorList.text_eq : ∀ (list : SelectorList) (before : Gap),
    before.text ++ list.text = [','].intercalate (list.pieces before)
  | .last chain, before => by simp [SelectorList.text, SelectorList.pieces, List.intercalate]
  | .more chain after next rest, before => by
    obtain ⟨piece, pieces, heq⟩ := rest.pieces_cons next
    have ih := rest.text_eq next
    rw [heq] at ih
    simp [SelectorList.text, SelectorList.pieces, ih, heq, List.intercalate]

theorem Link.nested (l : Link) : Nested (fun c => c != ',') l.text := by
  have hsign (before after : Gap) {c : Char} (hc : isPlain c = true ∧ (c != ',') = true) :
      Nested (fun c => c != ',') (before.text ++ c :: after.text) :=
    before.nested.append (.plain hc.1 hc.2 after.nested)
  cases l with
  | descendant c hc gap =>
    have hblank := Gap.nested ⟨[c], by simpa using hc⟩
    exact hblank.append gap.nested
  | child before after => exact hsign before after (by decide)
  | adjacent before after => exact hsign before after (by decide)
  | sibling before after => exact hsign before after (by decide)

theorem Chain.nested : ∀ chain : Chain, Nested (fun c => c != ',') chain.text
  | .single pattern => pattern.nested.mono fun _ => ne_comma_of_isSolid
  | .link chain l pattern =>
    (chain.nested.append l.nested).append (pattern.nested.mono fun _ => ne_comma_of_isSolid)

theorem SelectorList.pieces_nested : ∀ (list : SelectorList) (before : Gap),
    ∀ piece ∈ list.pieces before, Nested (fun c => c != ',') piece
  | .last chain, before, piece, h => by
    rw [List.mem_singleton.1 h]
    exact before.nested.append (chain.nested.append .nil)
  | .more chain after next rest, before, piece, h => by
    rcases List.mem_cons.1 h with rfl | h
    · exact before.nested.append (chain.nested.append after.nested)
    · exact rest.pieces_nested next piece h

theorem SelectorList.mapM_pieces (source : String) : ∀ (list : SelectorList) (before : Gap),
    (list.pieces before).mapM (fun piece => readBranch source (Text.trim piece)) =
      .ok list.branches
  | .last chain, before => by
    rw [SelectorList.pieces, List.mapM_cons,
      trim_gaps before.isBlank (by simp) chain.begins chain.finishes, readBranch_eq, ok_bind]
    rfl
  | .more chain after next rest, before => by
    rw [SelectorList.pieces, List.mapM_cons,
      trim_gaps before.isBlank after.isBlank chain.begins chain.finishes, readBranch_eq, ok_bind,
      rest.mapM_pieces source next, ok_bind]
    rfl

/-- **A selector list is read as what it stands for.** -/
theorem readBranches_eq (list : SelectorList) :
    readBranches (String.ofList list.text) = .ok list.branches := by
  obtain ⟨piece, pieces, heq⟩ := list.pieces_cons .none
  have htext := list.text_eq .none
  have hnested := list.pieces_nested .none
  have hmap := list.mapM_pieces (String.ofList list.text) .none
  rw [heq] at htext hnested hmap
  rw [Gap.none, List.nil_append] at htext
  rw [readBranches, String.toList_ofList, htext, splitTop_commas piece pieces hnested, ← htext]
  exact hmap

/-- A condition alone is read as a compound of any type. -/
theorem readCompound_single {condition : Simple} (hname : isNameChar c = false) (hstar : c ≠ '*')
    (h : ∀ compound, readSimple source compound c cs = .ok ([condition], [])) :
    readCompound source (c :: cs) = .ok (.mk "*" [condition]) := by
  have hhead : (c :: cs).head? ≠ some '*' := by simpa using hstar
  rw [readCompound, readCompoundWithin]
  rw [if_neg hhead, if_neg hhead, List.takeWhile_cons_of_neg (by simp [hname]),
    List.dropWhile_cons_of_neg (by simp [hname]), List.length_cons, readConditions, h, ok_bind]
  dsimp only
  rw [readConditions]
  rfl

/-- A compound alone is read as the only branch. -/
theorem readBranches_single {d : Compound} (h : Nested isSolid cs) (hb : Begins cs)
    (hf : Finishes cs) (hread : readCompound (String.ofList cs) cs = .ok d) :
    readBranches (String.ofList cs) = .ok [[(.descendant, d)]] := by
  have hne : cs ≠ [] := by
    obtain ⟨c, t, rfl, -⟩ := hb
    simp
  have hsplit := splitTop_commas cs [] fun ds hds =>
    List.mem_singleton.1 hds ▸ h.mono fun c => ne_comma_of_isSolid
  have hcommas : [','].intercalate [cs] = cs := by simp [List.intercalate]
  rw [hcommas] at hsplit
  rw [readBranches, String.toList_ofList, hsplit, List.mapM_cons, trim_eq_self hb hf, readBranch,
    branchParts_single _ h hne, ok_bind, List.mapM_cons]
  dsimp only
  rw [hread]
  rfl

/-! ## Suffixes -/

/-- If the text ends in a colon and characters of names, then these are `empty`. -/
def EndsPlainly (cs : List Char) : Prop :=
  ∀ t w, cs = t ++ ':' :: w → (∀ c ∈ w, isNameChar c = true) → w = "empty".toList

namespace EndsPlainly

theorem of_not_mem (h : ':' ∉ cs) : EndsPlainly cs := by
  rintro t w rfl -
  simp at h

/-- A text that ends in another character that ends names. -/
theorem of_last (hc : c ≠ ':' ∧ isNameChar c = false) (t : List Char) : EndsPlainly (t ++ [c]) := by
  intro u w heq hw
  have hlast : (':' :: w).getLast? = some c := by
    have := congrArg List.getLast? heq
    simpa using this.symm
  rcases List.mem_cons.1 (List.mem_of_getLast? hlast) with rfl | hmem
  · exact absurd rfl hc.1
  · exact absurd rfl (ne_of_isNameChar (hw c hmem) hc.2)

/-- The colon before the last name, if there is one, is not further up than something that ends
names. -/
theorem append {x : Char} (h : EndsPlainly ds) (hx : x ∈ ds) (hname : isNameChar x = false)
    (t : List Char) : EndsPlainly (t ++ ds) := by
  intro u w heq hw
  rcases List.append_eq_append_iff.1 heq with ⟨v, rfl, hds⟩ | ⟨v, rfl, hv⟩
  · exact h v w hds hw
  · cases v with
    | nil => exact h [] w hv.symm hw
    | cons e v =>
      obtain ⟨-, rfl⟩ := List.cons.inj hv
      exact absurd rfl (ne_of_isNameChar (hw x (List.mem_append_right v hx)) hname)

/-- What is behind another character that ends names. -/
theorem cons (h : EndsPlainly ds) (hc : c ≠ ':' ∧ isNameChar c = false) (t : List Char) :
    EndsPlainly (t ++ c :: ds) := by
  refine append ?_ List.mem_cons_self hc.2 t
  intro u w heq hw
  cases u with
  | nil => exact absurd (List.cons.inj heq).1 hc.1
  | cons e u => exact h u w (List.cons.inj heq).2 hw

end EndsPlainly

theorem Condition.endsPlainly (condition : Condition) : EndsPlainly condition.text := by
  have hword {cs : List Char} (h : ∀ c ∈ cs, isNameChar c = true) : ':' ∉ cs := fun hc =>
    ne_of_isNameChar (h ':' hc) (by decide) rfl
  cases condition with
  | id name => exact .of_not_mem (by simpa [Condition.text] using hword name.isNameChar)
  | cls name => exact .of_not_mem (by simpa [Condition.text] using hword name.isNameChar)
  | present name =>
    have h := EndsPlainly.of_last (c := ']') (by decide) ('[' :: name.text)
    simpa [Condition.text] using h
  | equal name value =>
    have h := EndsPlainly.of_last (c := ']') (by decide)
      ('[' :: (name.text ++ '=' :: '"' :: (value.text ++ ['"'])))
    simpa [Condition.text] using h
  | empty =>
    have htext : Condition.empty.text = ':' :: "empty".toList := rfl
    intro t w heq _
    rw [htext] at heq
    cases t with
    | nil => exact (List.cons.inj heq).2.symm
    | cons e t =>
      have hmem : ':' ∈ "empty".toList := by
        rw [(List.cons.inj heq).2]
        simp
      exact absurd hmem (by decide)
  | negation alternatives =>
    have h := EndsPlainly.of_last (c := ')') (by decide) (":not(".toList ++ alternatives.text)
    simpa [Condition.text] using h

theorem Pattern.endsPlainly : ∀ pattern : Pattern, EndsPlainly pattern.text
  | .type .star => .of_not_mem (by decide)
  | .type (.name n) => .of_not_mem (n.not_mem (by decide))
  | .first condition => condition.endsPlainly
  | .also pattern condition => by
    obtain ⟨c, t, htext, hc⟩ := condition.text_cons
    have hmem : c ∈ condition.text := by simp [htext]
    exact condition.endsPlainly.append hmem (isNameChar_of_endsName hc) pattern.text

theorem stop_of_isBlank (h : Text.isBlank c = true) : c ≠ ':' ∧ isNameChar c = false := by
  constructor
  · rintro rfl
    revert h
    decide
  · cases hname : isNameChar c with
    | false => rfl
    | true =>
      rw [isBlank_of_nameChar hname] at h
      cases h

theorem Gap.endsPlainly (gap : Gap) (h : EndsPlainly ds)
    (hc : c ≠ ':' ∧ isNameChar c = false) (t : List Char) :
    EndsPlainly (t ++ c :: (gap.text ++ ds)) := by
  obtain ⟨blanks, hblanks⟩ := gap
  induction blanks generalizing c t with
  | nil => exact h.cons hc t
  | cons b blanks ih =>
    have hb := stop_of_isBlank (hblanks b List.mem_cons_self)
    have hrest := ih hb (t ++ [c]) fun d hd => hblanks d (List.mem_cons_of_mem _ hd)
    simpa using hrest

theorem Chain.endsPlainly : ∀ chain : Chain, EndsPlainly chain.text
  | .single pattern => pattern.endsPlainly
  | .link chain l pattern => by
    have hpattern := pattern.endsPlainly
    cases l with
    | descendant c hc gap =>
      have h := gap.endsPlainly hpattern (stop_of_isBlank hc) chain.text
      simpa [Chain.text, Link.text] using h
    | child before after =>
      have h := after.endsPlainly hpattern (c := '>') (by decide) (chain.text ++ before.text)
      simpa [Chain.text, Link.text] using h
    | adjacent before after =>
      have h := after.endsPlainly hpattern (c := '+') (by decide) (chain.text ++ before.text)
      simpa [Chain.text, Link.text] using h
    | sibling before after =>
      have h := after.endsPlainly hpattern (c := '~') (by decide) (chain.text ++ before.text)
      simpa [Chain.text, Link.text] using h

theorem SelectorList.endsPlainly : ∀ list : SelectorList, EndsPlainly list.text
  | .last chain => chain.endsPlainly
  | .more chain before after rest => by
    have h := after.endsPlainly rest.endsPlainly (c := ',') (by decide) (chain.text ++ before.text)
    simpa [SelectorList.text] using h

theorem SelectorList.begins : ∀ list : SelectorList, Begins list.text
  | .last chain => chain.begins
  | .more chain before after rest => by
    have h := chain.begins.append (before.text ++ ',' :: (after.text ++ rest.text))
    simpa [SelectorList.text] using h

theorem SelectorList.finishes : ∀ list : SelectorList, Finishes list.text
  | .last chain => chain.finishes
  | .more chain before after rest => by
    have h := rest.finishes.append (chain.text ++ (before.text ++ ',' :: after.text))
    simpa [SelectorList.text] using h

/-- Text that ends plainly does not end in two colons and another word. -/
theorem EndsPlainly.lower_drop_ne {suffix : List Char} (h : EndsPlainly cs)
    (hsuffix : ∀ c ∈ suffix, isNameChar c = true) (hne : suffix ≠ "empty".toList) (n : Nat) :
    Text.lower (cs.drop n) ≠ ':' :: ':' :: suffix := by
  have hcolon {c : Char} (hc : c.toLower = ':') : c = ':' := by
    rcases toLower_cases c with heq | ⟨k, hk, rfl⟩
    · exact heq.symm.trans hc
    · revert k
      decide
  have hnameChar {c : Char} (hc : isNameChar c.toLower = true) : isNameChar c = true := by
    rcases toLower_cases c with heq | ⟨k, hk, rfl⟩
    · rwa [heq] at hc
    · revert k
      decide
  intro hlower
  have hcs := List.take_append_drop n cs
  generalize cs.drop n = ds at hlower hcs
  generalize cs.take n = t at hcs
  obtain ⟨c, ds, rfl, -, hlower⟩ := List.map_eq_cons_iff.1 hlower
  obtain ⟨d, w, rfl, hd, hw⟩ := List.map_eq_cons_iff.1 hlower
  obtain rfl := hcolon hd
  have hword : ∀ e ∈ w, isNameChar e = true := fun e he =>
    hnameChar (hsuffix _ (hw ▸ List.mem_map_of_mem he))
  have hempty := h (t ++ [c]) w (by rw [← hcs]; simp) hword
  rw [hempty] at hw
  exact hne (hw.symm.trans (by decide))

end MarkupTemplate.Css

namespace MarkupTemplate.Selector

open Css XPath

/-- A text that begins with a marker of a grammar. -/
def isMarked (cs : List Char) : Bool :=
  Text.lower (cs.take 6) = "xpath:".toList || Text.lower (cs.take 4) = "css:".toList

/-- White_Space around a text is trimmed off, and there is no suffix if the text ends plainly. -/
theorem splitPosition_eq {cs : List Char} (hb : Begins cs) (hf : Finishes cs)
    (hends : EndsPlainly cs) (before after : Gap) :
    splitPosition (String.ofList (before.text ++ (cs ++ after.text))) =
      (String.ofList cs, none) := by
  have hbefore : "::before".toList = ':' :: ':' :: "before".toList := rfl
  have hafter : "::after".toList = ':' :: ':' :: "after".toList := rfl
  have hname : ∀ c ∈ "before".toList, Css.isNameChar c = true := List.all_eq_true.1 (by decide)
  have hname' : ∀ c ∈ "after".toList, Css.isNameChar c = true := List.all_eq_true.1 (by decide)
  unfold splitPosition
  dsimp only
  rw [String.toList_ofList, trim_gaps before.isBlank after.isBlank hb hf, hbefore, hafter,
    if_neg (hends.lower_drop_ne hname (by decide) _),
    if_neg (hends.lower_drop_ne hname' (by decide) _)]

/-- A text without a marker and a suffix is compiled to the branches that it is read as. -/
theorem compile_unmarked {cs : List Char} {branches : List Branch} (hb : Begins cs)
    (hf : Finishes cs) (hends : EndsPlainly cs) (hmarked : isMarked cs = false)
    (hread : readBranches (String.ofList cs) = .ok branches) (before after : Gap) :
    compile .css (String.ofList (before.text ++ (cs ++ after.text))) =
      .ok ⟨String.ofList (before.text ++ (cs ++ after.text)), .css, none,
        branches.map branchQuery⟩ := by
  rw [isMarked, Bool.or_eq_false_iff, decide_eq_false_iff_not, decide_eq_false_iff_not] at hmarked
  have hdetect : detectGrammar .css cs = (.css, cs) := by
    rw [detectGrammar, if_neg hmarked.1, if_neg hmarked.2]
  have hne : cs.isEmpty = false := by
    obtain ⟨c, t, heq, -⟩ := hb
    rw [heq]
    rfl
  unfold compile
  rw [splitPosition_eq hb hf hends]
  dsimp only
  rw [String.toList_ofList, hdetect]
  dsimp only
  rw [hne, hread]
  rfl

/-- A text that White_Space is not around is compiled as it is. -/
theorem compile_trimmed {cs : List Char} {branches : List Branch} (hb : Begins cs)
    (hf : Finishes cs) (hends : EndsPlainly cs) (hmarked : isMarked cs = false)
    (hread : readBranches (String.ofList cs) = .ok branches) :
    compile .css (String.ofList cs) =
      .ok ⟨String.ofList cs, .css, none, branches.map branchQuery⟩ := by
  have hcompile := compile_unmarked hb hf hends hmarked hread .none .none
  simpa [Gap.none] using hcompile

/-- A text that begins with a sign begins with no marker. -/
theorem isMarked_sign {c : Char} (hname : Css.isNameChar c = false) (cs : List Char) :
    isMarked (c :: cs) = false := by
  have hletters : ∀ n ∈ List.range' 65 26, Css.isNameChar (Char.ofNat n) = true := by decide
  have hlower {d : Char} (hd : Css.isNameChar d = true) : c.toLower ≠ d := by
    rcases toLower_cases c with heq | ⟨n, hn, rfl⟩
    · rw [heq]
      exact (ne_of_isNameChar hd hname).symm
    · rw [hletters n hn] at hname
      cases hname
  rw [isMarked, Bool.or_eq_false_iff, decide_eq_false_iff_not, decide_eq_false_iff_not]
  exact ⟨fun heq => hlower (d := 'x') (by decide) (List.cons.inj heq).1,
    fun heq => hlower (d := 'c') (by decide) (List.cons.inj heq).1⟩

/-- A condition alone, which begins with a sign and ends plainly, is compiled to what it is read
as. -/
theorem compile_condition {c : Char} {cs : List Char} {condition : Simple}
    (hc : Css.isNameChar c = false ∧ c ≠ '*' ∧ Text.isBlank c = false)
    (hnested : Nested isSolid (c :: cs)) (hf : Finishes (c :: cs)) (hends : EndsPlainly (c :: cs))
    (h : ∀ compound, readSimple (String.ofList (c :: cs)) compound c cs = .ok ([condition], [])) :
    compile .css (String.ofList (c :: cs)) = .ok ⟨String.ofList (c :: cs), .css, none,
      [branchQuery [(.descendant, .mk "*" [condition])]]⟩ := by
  obtain ⟨hname, hstar, hblank⟩ := hc
  have hbegins : Begins (c :: cs) := ⟨c, cs, rfl, hblank⟩
  have hcompound := readCompound_single hname hstar h
  exact compile_trimmed hbegins hf hends (isMarked_sign hname cs)
    (readBranches_single hnested hbegins hf hcompound)

/-- **The text of a selector list is compiled to its branches**, unless it begins with a marker. -/
theorem compile_eq (list : SelectorList) (before after : Gap)
    (hmarked : isMarked list.text = false) :
    compile .css (String.ofList (before.text ++ (list.text ++ after.text))) =
      .ok ⟨String.ofList (before.text ++ (list.text ++ after.text)), .css, none,
        list.branches.map branchQuery⟩ :=
  compile_unmarked list.begins list.finishes list.endsPlainly hmarked (readBranches_eq list) before
    after

end MarkupTemplate.Selector
