import MarkupTemplate.Proofs.AttributeBlocks

/-!
# Selectors for words

A word is found in the value of an attribute where White_Space separates it from the rest.

* `IsClassName` — the texts that are read as the name of a class behind a dot.
* `selects_class` — the elements that the name of a class selects.
* `select_words` — the elements that the comparison with a word, the name of a class and the
  comparison with a dash select.
* `not_select_words` — it is not the whitespace of ASCII alone that separates words, nothing
  compares with the empty value, and a class may have a blank in its name.
-/

namespace MarkupTemplate.Css

open XPath

variable {c : List Char}

/-! ## Classes -/

/-- Behind a dot the text is read as the name of a class. -/
structure IsClassName (c : List Char) : Prop where
  no_end : ∀ x ∈ c, endsName x = false
  read : readBranches (String.ofList ('.' :: c)) =
    .ok [[(.descendant, .mk "*" [.cls (String.ofList (Text.lower c))])]]

/-- There is no class without a name. -/
theorem IsClassName.ne_nil (h : IsClassName c) : c ≠ [] := by
  rintro rfl
  have hread := h.read
  cases hread

/-- Text without quotes, brackets, parentheses, White_Space, combinators, commas and what ends names
is the name of a class. -/
theorem isClassName_of_all (hne : c ≠ [])
    (h : c.all (fun x => isPlain x && isSolid x && !endsName x) = true) : IsClassName c := by
  have hchars : ∀ x ∈ c, isPlain x = true ∧ isSolid x = true ∧ endsName x = false :=
    fun x hx => by simpa [and_assoc] using List.all_eq_true.1 h x hx
  have hend : ∀ x ∈ c, endsName x = false := fun x hx => (hchars x hx).2.2
  have hblank : ∀ x ∈ c, Text.isBlank x = false := fun x hx => by
    have hsolid := (hchars x hx).2.1
    rw [isSolid, Bool.and_eq_true, Bool.and_eq_true, Bool.not_eq_true'] at hsolid
    exact hsolid.1.1
  refine ⟨hend, readBranches_single ?_ ⟨'.', c, rfl, by decide⟩ ?_ ?_⟩
  · exact .plain (by decide) (by decide)
      (.of_forall fun x hx => ⟨(hchars x hx).1, (hchars x hx).2.1⟩)
  · exact (finishes_of_forall hne hblank).cons '.'
  · refine readCompound_single (by decide) (by decide) fun compound => ?_
    have hnone : ∀ x ∈ ([] : List Char).head?, endsName x = true := by simp
    obtain ⟨-, hread⟩ := readSimple_name hne hend hnone
    rwa [List.append_nil] at hread

/-- There is no White_Space in lower case that was not there. -/
theorem isBlank_lower (h : ∀ x ∈ c, Text.isBlank x = false) :
    ∀ x ∈ Text.lower c, Text.isBlank x = false := by
  intro x hx
  obtain ⟨y, hy, rfl⟩ := List.mem_map.1 hx
  have hlower := toLower_induction (c := y) (P := fun x => !Text.isBlank x) (by decide)
    (by simpa using h y hy)
  simpa using hlower

end MarkupTemplate.Css

namespace MarkupTemplate.Selector

open Css XPath

variable {c v name : List Char} {q : Char}

/-- **The name of a class is compiled**, and selects the elements in whose class it is found. -/
theorem selects_class (hc : IsClassName c) (hfinishes : Finishes c) :
    SelectsElements (String.ofList ('.' :: c)) fun s p =>
      hasWord (firstValue (attributeValues s p "class".toList)) (Text.lower c) := by
  have hcolon : ':' ∉ '.' :: c := by
    rw [List.mem_cons, not_or]
    refine ⟨by decide, fun hmem => ?_⟩
    have hend := hc.no_end ':' hmem
    revert hend
    decide
  have hcompile := compile_trimmed ⟨'.', c, rfl, by decide⟩ (hfinishes.cons '.')
    (.of_not_mem hcolon) (isMarked_sign (by decide) c) hc.read
  refine selects_condition hcompile (single_readable rfl rfl rfl) rfl rfl fun s p => ?_
  rw [Simple.fits, String.toList_ofList (l := Text.lower c)]

/-- **Words and dashes.** White_Space is what separates words. A comparison with a word in quotes
selects the elements that have it as a word of the attribute, if there is no White_Space in it, and
so does the name of a class, in lower case. A comparison with a dash selects the elements with the
value, or with one that goes on with a dash. With an empty value no element is selected. -/
theorem select_words (hname : isName name = true) (hq : Nesting.isQuote q = true) (hv : q ∉ v)
    (hc : IsClassName c) (hblank : ∀ x ∈ c, Text.isBlank x = false) :
    (SelectsElements (String.ofList (block name .word q v)) fun s p =>
        decide (v ≠ [] ∧ (∀ x ∈ v, Text.isBlank x = false) ∧
          v ∈ Text.words (firstValue (attributeValues s p name)))) ∧
      (SelectsElements (String.ofList ('.' :: c)) fun s p =>
        decide (Text.lower c ∈ Text.words (firstValue (attributeValues s p "class".toList)))) ∧
      SelectsElements (String.ofList (block name .dashed q v)) fun s p =>
        decide (v ≠ [] ∧ (v ∈ attributeValues s p name ∨
          v ++ ['-'] <+: firstValue (attributeValues s p name))) := by
  have hword := selects_block hname .word hq hv
  have hclass := selects_class hc (finishes_of_forall hc.ne_nil hblank)
  have hdashed := selects_block hname .dashed hq hv
  refine ⟨?_, ?_, ?_⟩
  · convert hword using 3
    rw [Bool.eq_iff_iff, decide_eq_true_iff, valuesFit_word]
  · have hne : Text.lower c ≠ [] := by simpa [Text.lower] using hc.ne_nil
    convert hclass using 3
    rw [Bool.eq_iff_iff, decide_eq_true_iff, hasWord_eq hne (not_mem_of_isBlank (isBlank_lower hblank)),
      List.contains_iff_mem]
  · convert hdashed using 3
    rw [Bool.eq_iff_iff, decide_eq_true_iff, valuesFit_dashed]

/-- Of the classes of a paragraph one is selected. -/
theorem select_words_item :
    isName "title".toList = true ∧ Nesting.isQuote '"' = true ∧ '"' ∉ "en".toList ∧
      IsClassName "Item".toList ∧ (∀ x ∈ "Item".toList, Text.isBlank x = false) ∧
      ∃ sel e, compile .css ".Item" = .ok sel ∧ Expr.read sel.expression = .ok e ∧
        e.select sel.expression (paragraphWith "class" "new\titem") .root =
          .ok [⟨false, [0]⟩] := by
  have hname : isName "title".toList = true := by decide +kernel
  have hquote : '"' ∉ "en".toList := by decide
  have hclass : IsClassName "Item".toList := isClassName_of_all (by decide) (by decide)
  have hblank : ∀ x ∈ "Item".toList, Text.isBlank x = false := by simp [Text.isBlank]
  obtain ⟨sel, e, hcompile, he, hselect⟩ :=
    (select_words hname (by decide) hquote hclass hblank).2.1
  have hselected := hselect (paragraphWith "class" "new\titem")
  have hfilter : ((paragraphWith "class" "new\titem").preorder .root).filter (fun p =>
      isElement (paragraphWith "class" "new\titem") p &&
        decide (Text.lower "Item".toList ∈
          Text.words (firstValue (attributeValues (paragraphWith "class" "new\titem") p
            "class".toList)))) = [⟨false, [0]⟩] := by decide +kernel
  rw [hfilter] at hselected
  exact ⟨hname, by decide, hquote, hclass, hblank, sel, e, hcompile, he, hselected⟩

/-- A no-break space separates words, an attribute with the empty value is not selected by the
empty value, the name of a class may have a blank in parentheses, and of what is no name no query is
read. -/
theorem not_select_words :
    (∃ sel e, compile .css "[title~=\"a\"]" = .ok sel ∧ Expr.read sel.expression = .ok e ∧
        e.select sel.expression (paragraphWith "title" "a\u00a0b") .root = .ok [⟨false, [0]⟩] ∧
        "a".toList ∉ Text.runs Text.isAsciiBlank "a\u00a0b".toList) ∧
      (∃ sel e, compile .css "[title|=\"\"]" = .ok sel ∧ Expr.read sel.expression = .ok e ∧
        e.select sel.expression (paragraphWith "title" "") .root = .ok [] ∧
        attributeValues (paragraphWith "title" "") ⟨false, [0]⟩ "title".toList = [[]]) ∧
      (∃ sel e, compile .css ".x(a b)" = .ok sel ∧ Expr.read sel.expression = .ok e ∧
        e.select sel.expression (paragraphWith "class" "x(a b)") .root = .ok [⟨false, [0]⟩] ∧
        "x(a b)".toList ∉ Text.runs Text.isAsciiBlank "x(a b)".toList) ∧
      ∃ sel, compile .css "[1a~=\"v\"]" = .ok sel ∧ (Expr.read sel.expression).isOk = false := by
  have hname : isName "title".toList = true := by decide +kernel
  refine ⟨?_, ?_, ?_, ?_⟩
  · obtain ⟨sel, e, hcompile, he, hselect⟩ :=
      selects_block (q := '"') (v := "a".toList) hname .word (by decide) (by decide)
    refine ⟨sel, e, hcompile, he, ?_, by decide⟩
    rw [hselect]
    decide +kernel
  · obtain ⟨sel, e, hcompile, he, hselect⟩ :=
      selects_block (q := '"') (v := []) hname .dashed (by decide) (by decide)
    refine ⟨sel, e, hcompile, he, ?_, by decide +kernel⟩
    rw [hselect]
    decide +kernel
  · have hclass : IsClassName "x(a b)".toList := ⟨by simp [endsName], by rfl⟩
    obtain ⟨sel, e, hcompile, he, hselect⟩ :=
      selects_class hclass ⟨"x(a b".toList, ')', by decide, by decide⟩
    refine ⟨sel, e, hcompile, he, ?_, by decide⟩
    rw [hselect]
    decide +kernel
  · have hcompile : compile .css "[1a~=\"v\"]" = .ok ⟨"[1a~=\"v\"]", .css, none,
        ["//*[contains(concat(\" \", normalize-space(@1a), \" \"), \" v \")]"]⟩ := by
      decide +kernel
    exact ⟨_, hcompile, by decide +kernel⟩

end MarkupTemplate.Selector
