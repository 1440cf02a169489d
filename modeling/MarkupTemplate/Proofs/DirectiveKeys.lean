import MarkupTemplate.Data.Content
import MarkupTemplate.Proofs.LocationTexts

/-!
# Keys with suffixes

The ways to write the key of a directive.

* `Directive.Written` — a name, perhaps with a suffix in any case, and White_Space around both.
* `splitPosition_eq_iff` — **the main result**: these are the keys that are read as the name with the
  position.
-/

namespace MarkupTemplate

open XPath (Begins Finishes finishes_of_forall)
open Css (Gap trim_gaps EndsPlainly)

/-! ## White_Space around a text -/

namespace Text

theorem exists_gap (cs : List Char) : ∃ after : Gap, cs = trimEnd cs ++ after.text := by
  refine ⟨⟨cs.rtakeWhile isBlank, fun c hc => List.mem_rtakeWhile_imp hc⟩, ?_⟩
  exact (List.rdropWhile_append_rtakeWhile ..).symm

theorem exists_gaps (cs : List Char) :
    ∃ before after : Gap, cs = before.text ++ (trim cs ++ after.text) := by
  obtain ⟨after, hafter⟩ := exists_gap (trimStart cs)
  refine ⟨⟨cs.takeWhile isBlank, fun c hc => List.mem_takeWhile_imp hc⟩, after, ?_⟩
  rw [trim, ← hafter, trimStart, List.takeWhile_append_dropWhile]

end Text

/-! ## Ways to write a key -/

namespace Directive

/-- The ways to write a name as a key: alone, or with the suffix of an insert mode in any case, and with
White_Space around both. -/
inductive Written (name : String) : Option InsertMode → String → Prop
  | plain (before after : Gap) :
      Written name none (String.ofList (before.text ++ (name.toList ++ after.text)))
  | suffixed (mode : InsertMode) (before between after : Gap) (suffix : List Char)
      (hmode : mode ≠ .replace) (hsuffix : Text.lower suffix = (keyWith "" mode).toList) :
      Written name (some mode) (String.ofList
        (before.text ++ (name.toList ++ between.text ++ suffix ++ after.text)))

end Directive

open Directive (Written keyWith)

variable {name key : String} {body suffix : List Char} {mode : InsertMode}
  {position : Option InsertMode}

/-- A suffix ends with no blank. -/
theorem finishes_suffix (hmode : mode ≠ .replace)
    (hsuffix : Text.lower suffix = (keyWith "" mode).toList) : Finishes suffix := by
  apply Text.finishes_of_lower
  rw [hsuffix]
  cases mode with
  | replace => exact absurd rfl hmode
  | prepend => exact ⟨"::befor".toList, 'e', rfl, by decide⟩
  | append => exact ⟨"::afte".toList, 'r', rfl, by decide⟩

/-- A suffix is cut off, and White_Space in front of it. -/
theorem splitPosition_suffixed (hb : Begins body) (hmode : mode ≠ .replace)
    (hsuffix : Text.lower suffix = (keyWith "" mode).toList) (before after : Gap) :
    splitPosition (String.ofList (before.text ++ (body ++ suffix ++ after.text))) =
      (String.ofList (Text.trimEnd body), some mode) := by
  have hlength : suffix.length = (keyWith "" mode).toList.length := by
    rw [← hsuffix, Text.lower, List.length_map]
  unfold splitPosition
  dsimp only
  rw [String.toList_ofList, trim_gaps before.isBlank after.isBlank (hb.append suffix)
    ((finishes_suffix hmode hsuffix).append body), List.length_append, hlength]
  cases mode with
  | replace => exact absurd rfl hmode
  | prepend =>
    have hcut : body.length + (keyWith "" .prepend).toList.length - 8 = body.length := rfl
    have hend : Text.lower ((body ++ suffix).drop
        (body.length + (keyWith "" .prepend).toList.length - 8)) = "::before".toList := by
      rw [hcut, List.drop_left]
      exact hsuffix
    rw [if_pos hend, hcut, List.take_left]
  | append =>
    have hcut : body.length + (keyWith "" .append).toList.length - 7 = body.length := rfl
    -- what is longer than the suffix does not begin as the other one does
    have hother : Text.lower ((body ++ suffix).drop
        (body.length + (keyWith "" .append).toList.length - 8)) ≠ "::before".toList := by
      intro heq
      have hle : suffix.length ≤ ((body ++ suffix).drop
          (body.length + (keyWith "" .append).toList.length - 8)).length := by
        have := congrArg List.length heq
        rw [Text.lower, List.length_map] at this
        rw [this, hlength]
        decide
      have hpart := List.suffix_of_suffix_length_le (List.suffix_append body suffix)
        (List.drop_suffix _ _) hle
      have hlower := hpart.map Char.toLower
      change Text.lower suffix <:+ Text.lower _ at hlower
      rw [hsuffix, heq] at hlower
      revert hlower
      decide
    have hend : Text.lower ((body ++ suffix).drop
        (body.length + (keyWith "" .append).toList.length - 7)) = "::after".toList := by
      rw [hcut, List.drop_left]
      exact hsuffix
    rw [if_neg hother, if_pos hend, hcut, List.take_left]

/-- A text with a suffix behind it is written so. -/
theorem Directive.Written.of_cut {cs : List Char} {before after : Gap} {n : Nat}
    (hkey : key.toList = before.text ++ (cs ++ after.text)) (hmode : mode ≠ .replace)
    (hname : String.ofList (Text.trimEnd (cs.take n)) = name)
    (hsuffix : Text.lower (cs.drop n) = (keyWith "" mode).toList) :
    Written name (some mode) key := by
  obtain ⟨between, hbetween⟩ := Text.exists_gap (cs.take n)
  have hcs : name.toList ++ between.text ++ cs.drop n = cs := by
    rw [← hname, String.toList_ofList, ← hbetween, List.take_append_drop]
  have written : Written name (some mode) _ :=
    .suffixed mode before between after (cs.drop n) hmode hsuffix
  rwa [hcs, ← hkey, String.ofList_toList] at written

/-- A name without White_Space and colons. -/
def isBare (name : String) : Bool :=
  !name.toList.isEmpty && name.toList.all fun c => !Text.isBlank c && c != ':'

/-- **The keys that are read as a name with a position** are those that are written so. -/
theorem splitPosition_eq_iff (h : isBare name = true) :
    splitPosition key = (name, position) ↔ Written name position key := by
  obtain ⟨hne, hchars⟩ : name.toList ≠ [] ∧
      ∀ c ∈ name.toList, Text.isBlank c = false ∧ c ≠ ':' := by
    simpa [isBare] using h
  have hb : Begins name.toList := by
    obtain ⟨c, t, heq⟩ := List.exists_cons_of_ne_nil hne
    exact ⟨c, t, heq, (hchars c (heq ▸ List.mem_cons_self)).1⟩
  have hf : Finishes name.toList := finishes_of_forall hne fun c hc => (hchars c hc).1
  have hcolon : ':' ∉ name.toList := fun hmem => (hchars ':' hmem).2 rfl
  constructor
  · intro h
    obtain ⟨before, after, hkey⟩ := Text.exists_gaps key.toList
    unfold splitPosition at h
    dsimp only at h
    split at h
    · rename_i hsuffix
      obtain ⟨hname, rfl⟩ := Prod.mk.inj h
      exact .of_cut hkey (by decide) hname hsuffix
    · split at h
      · rename_i hsuffix
        obtain ⟨hname, rfl⟩ := Prod.mk.inj h
        exact .of_cut hkey (by decide) hname hsuffix
      · obtain ⟨hname, rfl⟩ := Prod.mk.inj h
        have written : Written name none _ := .plain before after
        rwa [← hname, String.toList_ofList, ← hkey, String.ofList_toList, hname] at written
  · intro h
    cases h with
    | plain before after =>
      have h := Selector.splitPosition_eq hb hf (EndsPlainly.of_not_mem hcolon) before after
      rw [h, String.ofList_toList]
    | suffixed mode before between after suffix hmode hsuffix =>
      rw [splitPosition_suffixed (hb.append _) hmode hsuffix, Text.trimEnd_blanks between.isBlank,
        Text.trimEnd_eq_self hb hf, String.ofList_toList]

example : Written "@content" (some .prepend) " @content ::BeFore\n" :=
  (splitPosition_eq_iff (by decide)).1 (by decide)

end MarkupTemplate
