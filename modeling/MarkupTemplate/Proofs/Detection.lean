import Mathlib.Data.List.Basic
import MarkupTemplate.Proofs.Runs
import MarkupTemplate.Template

/-!
# Texts with tags

A text is taken for markup by a look at its brackets, and that decides what it is loaded as and what
it is inserted as.

* `IsTag` — a tag from its opening bracket to its closing one.
* `looksLikeMarkup_iff` — the brackets that count.
* `looksLikeMarkup_of_tag` — a tag on one line counts.
* `Template.runFrom_load_markup`, `Rendering.insertContent_of_untyped` — what becomes of such a text.
* `Template.markup_detected` — **the main result**: texts with a tag on one line are markup, texts
  without brackets around anything are not.
* `Template.tag_undetected` — a tag that goes on in the next line is not found.
-/

namespace MarkupTemplate

variable {text : String} {cs tag : List Char}

/-! ## Tags -/

/-- A tag from its opening bracket to its closing one, without other brackets. Its name begins with a
letter, which stands behind a slash in closing tags. -/
inductive IsTag : List Char → Prop
  | opening {c : Char} {rest : List Char} : Text.isAlphabetic c = true → '<' ∉ rest → '>' ∉ rest →
      IsTag ('<' :: c :: (rest ++ ['>']))
  | closing {c : Char} {rest : List Char} : Text.isAlphabetic c = true → '<' ∉ rest → '>' ∉ rest →
      IsTag ('<' :: '/' :: c :: (rest ++ ['>']))

/-- An opening bracket with a closing one somewhere behind it. -/
def HasBrackets (cs : List Char) : Prop :=
  ∃ before inner after, cs = before ++ '<' :: (inner ++ '>' :: after)

/-- An opening bracket with a closing one behind it. What stands between them does not begin with an
opening bracket, and the rest of it is on one line. -/
def HasBracketsOnLine (cs : List Char) : Prop :=
  ∃ before d inner after, cs = before ++ '<' :: d :: (inner ++ '>' :: after) ∧ d ≠ '<' ∧ '\n' ∉ inner

theorem HasBracketsOnLine.hasBrackets (h : HasBracketsOnLine cs) : HasBrackets cs := by
  obtain ⟨before, d, inner, after, rfl, -, -⟩ := h
  exact ⟨before, d :: inner, after, rfl⟩

/-- A tag on one line has its brackets there. -/
theorem IsTag.hasBracketsOnLine (htag : IsTag tag) (hline : '\n' ∉ tag) (h : tag <:+: cs) :
    HasBracketsOnLine cs := by
  obtain ⟨before, after, rfl⟩ := h
  cases htag with
  | @opening c rest hc _ _ =>
    have hne : c ≠ '<' := by
      rintro rfl
      revert hc
      decide
    exact ⟨before, c, rest, after, by simp, hne, fun h => hline (by simp [h])⟩
  | @closing c rest hc _ _ =>
    have hrest : '\n' ∉ c :: rest := fun h => by
      refine hline (List.mem_cons_of_mem _ (List.mem_cons_of_mem _ ?_))
      exact List.mem_append_left ['>'] h
    exact ⟨before, '/', c :: rest, after, by simp, by decide, hrest⟩

/-! ## What counts -/

theorem closesOnLine_iff : closesOnLine cs = true ↔
    ∃ inner after, cs = inner ++ '>' :: after ∧ '\n' ∉ inner := by
  induction cs with
  | nil => simp [closesOnLine]
  | cons c cs ih =>
    rw [closesOnLine]
    split
    · rename_i hc
      exact iff_of_true rfl ⟨[], cs, by simp [hc], List.not_mem_nil⟩
    · rename_i hc
      split
      · rename_i hline
        refine iff_of_false (by decide) ?_
        rintro ⟨inner, after, heq, hinner⟩
        cases inner with
        | nil => exact hc (List.cons.inj heq).1
        | cons d inner => exact hinner (by simp [← (List.cons.inj heq).1, hline])
      · rename_i hline
        rw [ih]
        constructor
        · rintro ⟨inner, after, rfl, hinner⟩
          exact ⟨c :: inner, after, rfl, by simp [hinner, Ne.symm hline]⟩
        · rintro ⟨inner, after, heq, hinner⟩
          cases inner with
          | nil => exact absurd (List.cons.inj heq).1 hc
          | cons d inner =>
            exact ⟨inner, after, (List.cons.inj heq).2, fun h => hinner (List.mem_cons_of_mem d h)⟩

theorem hasBracketsOnLine_cons {c : Char} : HasBracketsOnLine (c :: cs) ↔
    (c = '<' ∧ ∃ d rest, cs = d :: rest ∧ d ≠ '<' ∧ closesOnLine rest = true) ∨
      HasBracketsOnLine cs := by
  constructor
  · rintro ⟨before, d, inner, after, heq, hd, hinner⟩
    cases before with
    | nil =>
      obtain ⟨rfl, rfl⟩ := List.cons.inj heq
      exact .inl ⟨rfl, d, _, rfl, hd, closesOnLine_iff.2 ⟨inner, after, rfl, hinner⟩⟩
    | cons b before => exact .inr ⟨before, d, inner, after, (List.cons.inj heq).2, hd, hinner⟩
  · rintro (⟨rfl, d, rest, rfl, hd, hrest⟩ | ⟨before, d, inner, after, rfl, hd, hinner⟩)
    · obtain ⟨inner, after, rfl, hinner⟩ := closesOnLine_iff.1 hrest
      exact ⟨[], d, inner, after, rfl, hd, hinner⟩
    · exact ⟨c :: before, d, inner, after, rfl, hd, hinner⟩

theorem looksLikeMarkupChars_iff : looksLikeMarkupChars cs = true ↔ HasBracketsOnLine cs := by
  induction cs with
  | nil => simp [looksLikeMarkupChars, HasBracketsOnLine]
  | cons c cs ih =>
    rw [hasBracketsOnLine_cons, ← ih, looksLikeMarkupChars.eq_def]
    cases cs with
    | nil => simp
    | cons d rest => simp [and_assoc]

theorem looksLikeMarkup_iff : looksLikeMarkup text = true ↔ HasBracketsOnLine text.toList :=
  looksLikeMarkupChars_iff

theorem looksLikeMarkup_of_tag (htag : IsTag tag) (hline : '\n' ∉ tag) (h : tag <:+: text.toList) :
    looksLikeMarkup text = true :=
  looksLikeMarkup_iff.2 (htag.hasBracketsOnLine hline h)

theorem looksLikeMarkup_of_not_hasBrackets (h : ¬HasBrackets text.toList) :
    looksLikeMarkup text = false := by
  rw [Bool.eq_false_iff, Ne, looksLikeMarkup_iff]
  exact fun hline => h hline.hasBrackets

/-! ## What becomes of it -/

/-- Markup is loaded as it is. -/
theorem Template.runFrom_load_markup (h : looksLikeMarkup text = true) (files : Files)
    (t : Template) : (Template.load files text).runFrom t = (.ok (), t.withHtml text) := by
  rw [Template.load, h]
  rfl

namespace Rendering

variable {settings : Settings} {here : Situation}

/-- A text that is not said to be anything is inserted as what it looks like. -/
theorem insertContent_of_untyped (hsettings : settings.contentType = none)
    (hparams : here.params.contentType = none) (hne : text ≠ "") (node : NodeId) :
    insertContent settings text here node = do
      if looksLikeMarkup text then edit fun d => d.insertMarkup node text here.mode
      else edit fun d => d.insertText node text here.mode
      return some node := by
  have hempty : text.isEmpty = false := by simpa using hne
  rw [insertContent, contentTypeOf, hsettings, hparams, hempty]
  cases looksLikeMarkup text <;> rfl

end Rendering

namespace Template

open Rendering

/-- **A tag on one line makes a text markup.** Such a text is loaded as it is, and where it is inserted
its tags are read unless something else is asked for. Without a closing bracket behind an opening one
there is no markup; in between it depends on what stands behind an opening bracket on its line. -/
theorem markup_detected (text : String) :
    (∀ tag, IsTag tag → '\n' ∉ tag → tag <:+: text.toList →
      looksLikeMarkup text = true ∧
      (∀ files t, (load files text).runFrom t = (.ok (), t.withHtml text)) ∧
      ∀ settings here node, settings.contentType = none → here.params.contentType = none →
        insertContent settings text here node = do
          edit fun d => d.insertMarkup node text here.mode
          return some node) ∧
      (¬HasBrackets text.toList → looksLikeMarkup text = false) ∧
      (looksLikeMarkup text = true ↔ HasBracketsOnLine text.toList) := by
  refine ⟨fun tag htag hline h => ?_, looksLikeMarkup_of_not_hasBrackets, looksLikeMarkup_iff⟩
  have hmarkup := looksLikeMarkup_of_tag htag hline h
  refine ⟨hmarkup, runFrom_load_markup hmarkup, fun settings here node hsettings hparams => ?_⟩
  have hne : text ≠ "" := by
    rintro rfl
    revert hmarkup
    decide
  rw [insertContent_of_untyped hsettings hparams hne, hmarkup]
  rfl

/-- A `br` among other brackets, and brackets the wrong way round. -/
theorem markup_detected_lineBreak :
    looksLikeMarkup "a < b <br\t/> c > d" = true ∧
      ((load [] "a < b <br\t/> c > d").runFrom (empty .standard (Fetcher.files []))).1 = .ok () ∧
      insertContent .standard "a < b <br\t/> c > d" ⟨"p", .append, .empty, 0⟩ 4 = (do
        edit fun d => d.insertMarkup 4 "a < b <br\t/> c > d" .append
        return some 4) ∧
      looksLikeMarkup "a > b < c" = false := by
  have htag : IsTag "<br\t/>".toList :=
    @IsTag.opening 'b' "r\t/".toList (by decide) (by decide) (by decide)
  have hnone : ¬HasBrackets "a > b < c".toList := by
    rintro ⟨before, inner, after, heq⟩
    have hmem : '>' ∈ "a > b < c".toList.dropWhile fun c => c != '<' := by
      rw [heq, List.dropWhile_append]
      split <;> simp
    revert hmem
    decide
  obtain ⟨hmarkup, hload, hinsert⟩ := (markup_detected "a < b <br\t/> c > d").1 _ htag (by decide)
    ⟨"a < b ".toList, " c > d".toList, rfl⟩
  refine ⟨hmarkup, congrArg Prod.fst (hload [] _), ?_, (markup_detected _).2.1 hnone⟩
  exact hinsert .standard ⟨"p", .append, .empty, 0⟩ 4 rfl rfl

/-- **A tag that goes on in the next line is not found.** It is taken for the path of a file, and where
it is inserted its brackets are escaped. -/
theorem tag_undetected : ∃ text : String, IsTag text.toList ∧ looksLikeMarkup text = false ∧
    ((load [] text).runFrom (empty .standard (Fetcher.files []))).1 =
      .error ⟨.loading, "Failed to read template file '" ++ text ++
        "': No such file or directory (os error 2)"⟩ ∧
    (render.runFrom { (empty .standard (Fetcher.files [])).withHtml "<p></p>" with
      data := [("p", .text text)] }).1 =
        .ok "<html><head></head><body><p>&lt;br\n&gt;</p></body></html>" := by
  refine ⟨"<br\n>", ?_, by decide, by decide +kernel, by decide +kernel⟩
  exact @IsTag.opening 'b' "r\n".toList (by decide) (by decide) (by decide)

end Template

end MarkupTemplate
