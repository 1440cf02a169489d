import MarkupTemplate.Proofs.Selections

/-!
# Attribute blocks

A selector that is a block for an attribute, a comparison and a value in quotes selects the elements
whose attribute compares with the value as it says, whatever is in the value.

* `lastCharacters_eq` — the last characters of a text are a value exactly if the text ends with it,
  as long as its length is calculated with exactly.
* `Comparison.Holds` — what a comparison asks of the value of an attribute; `valuesFit_iff`.
* `selects_block` — the block is compiled, whatever is between its quotes.
* `select_quoted` — the elements that it selects.
-/

namespace MarkupTemplate.Css

open XPath Number

variable {cs v name : List Char} {q : Char} {s : Scope} {p : Place}
  {comparison : Comparison} {values : List (List Char)}

/-! ## Endings -/

/-- Rounding does not change a number that is this natural number. -/
def RoundsToItself (n : Nat) : Prop :=
  ∀ x : Float, IsWhole x n → IsWhole (XPath.round x) n

theorem roundsToItself_of_lt {n : Nat} (h : n < 2 ^ 52) : RoundsToItself n :=
  fun _ hx => hx.round h

/-- The length of a text, and the place from which its last `n` characters start, are numbers that
are calculated with exactly. -/
structure IsExact (cs : List Char) (n : Nat) : Prop where
  length_lt : cs.length < 2 ^ 53
  rounds : n ≤ cs.length → RoundsToItself (cs.length - n + 1)

/-- All lengths below `2 ^ 52` are such numbers. -/
theorem isExact_of_lt {n : Nat} (hn : 0 < n) (h : cs.length < 2 ^ 52) : IsExact cs n where
  length_lt := by omega
  rounds hle := roundsToItself_of_lt (by omega)

/-- The characters at positions with a property are some of the characters. -/
theorem filterMap_zipIdx_sublist (at? : Nat → Bool) : ∀ (k : Nat) (cs : List Char),
    ((cs.zipIdx k).filterMap fun (c, i) => if at? i then some c else none).Sublist cs
  | _, [] => .slnil
  | k, c :: cs => by
    have ih := filterMap_zipIdx_sublist at? (k + 1) cs
    rw [List.zipIdx_cons, List.filterMap_cons]
    dsimp only
    cases at? k with
    | true => exact ih.cons_cons c
    | false => exact ih.cons c

/-- The characters behind the first `m`. -/
theorem filterMap_zipIdx_eq_drop (at? : Nat → Bool) {m : Nat} : ∀ (k : Nat) (cs : List Char),
    (∀ i, k < i → i ≤ k + cs.length → (at? i = true ↔ m < i)) →
      ((cs.zipIdx (k + 1)).filterMap fun (c, i) => if at? i then some c else none) =
        cs.drop (m - k)
  | _, [], _ => by simp
  | k, c :: cs, h => by
    rw [List.length_cons] at h
    have hhere := h (k + 1) (by omega) (by omega)
    have ih := filterMap_zipIdx_eq_drop at? (k + 1) cs fun i hi hle => h i (by omega) (by omega)
    rw [List.zipIdx_cons, List.filterMap_cons]
    dsimp only
    rw [ih]
    by_cases hm : m < k + 1
    · rw [hhere.2 hm, Nat.sub_eq_zero_of_le (by omega : m ≤ k + 1),
        Nat.sub_eq_zero_of_le (by omega : m ≤ k)]
      rfl
    · have hnot : at? (k + 1) = false := by
        rw [← Bool.not_eq_true, hhere]
        exact hm
      rw [hnot, (by omega : m - k = m - (k + 1) + 1)]
      rfl

theorem charactersBetween_sublist (start stop : Float) (cs : List Char) :
    (Function.charactersBetween start stop cs).Sublist cs :=
  filterMap_zipIdx_sublist (fun i => start ≤ Float.ofNat i && Float.ofNat i < stop) 1 cs

theorem charactersBetween_eq_drop {start stop : Float} {m : Nat}
    (h : ∀ i, i ≤ cs.length → (start ≤ Float.ofNat i ∧ Float.ofNat i < stop ↔ m < i)) :
    Function.charactersBetween start stop cs = cs.drop m :=
  filterMap_zipIdx_eq_drop (fun i => start ≤ Float.ofNat i && Float.ofNat i < stop) 0 cs
    fun i _ hle => by
      rw [Bool.and_eq_true, decide_eq_true_eq, decide_eq_true_eq]
      exact h i (by omega)

/-- The last characters of a text are a value exactly if the text ends with it. -/
theorem lastCharacters_eq (hne : v ≠ []) (hexact : IsExact cs v.length) :
    lastCharacters v.length cs = v ↔ v <:+ cs := by
  have hpositive := List.length_pos_iff.2 hne
  by_cases hle : v.length ≤ cs.length
  · obtain ⟨hlength, hrounds⟩ := hexact
    have hone : IsWhole (Float.ofScientific 1 true 0) 1 := isWhole_ofScientific (by decide) true
    have hdifference := (isWhole_ofNat hlength).sub (isWhole_ofNat (by omega : v.length < 2 ^ 53))
      (by omega)
    have hstart := hdifference.add hone (by omega)
    rw [(by omega : (cs.length : Int) - v.length + 1 = (cs.length - v.length + 1 : Nat))] at hstart
    have hround := hrounds hle _ hstart
    have hdrop : lastCharacters v.length cs = cs.drop (cs.length - v.length) := by
      refine charactersBetween_eq_drop fun i hi => ?_
      have hwhole := isWhole_ofNat (by omega : i < 2 ^ 53)
      rw [and_iff_left hwhole.lt_infinity, hround.le_iff hwhole]
      omega
    rw [hdrop, List.suffix_iff_eq_drop]
    exact eq_comm
  · -- What is longer than the text is no part of it, however its place is calculated.
    constructor
    · intro heq
      have hsub : (lastCharacters v.length cs).Sublist cs := charactersBetween_sublist _ _ cs
      rw [heq] at hsub
      exact absurd hsub.length_le hle
    · exact fun h => absurd h.length_le hle

/-! ## Comparisons -/

/-- What a comparison asks of the value `u` of an attribute. -/
def Comparison.Holds (u v : List Char) : Comparison → Prop
  | .equal => u = v
  | .beginning => v ≠ [] ∧ v <+: u
  | .ending => v ≠ [] ∧ v <:+ u
  | .part => v ≠ [] ∧ v <:+: u
  | .dashed => v ≠ [] ∧ (u = v ∨ v ++ ['-'] <+: u)
  | .word => v ≠ [] ∧ (∀ c ∈ v, Text.isBlank c = false) ∧ v ∈ Text.words u

theorem not_isEmpty_iff : (!v.isEmpty) = true ↔ v ≠ [] := by
  simp

theorem any_isBlank_iff : (!v.any Text.isBlank) = true ↔ ∀ c ∈ v, Text.isBlank c = false := by
  simp

theorem not_mem_of_isBlank (h : ∀ c ∈ v, Text.isBlank c = false) : ' ' ∉ v := fun hmem => by
  have hblank := h ' ' hmem
  revert hblank
  decide

/-- A word is one of those that White_Space separates. -/
theorem valuesFit_word : valuesFit values .word v = true ↔
    v ≠ [] ∧ (∀ c ∈ v, Text.isBlank c = false) ∧ v ∈ Text.words (firstValue values) := by
  rw [valuesFit, Bool.and_eq_true, Bool.and_eq_true, not_isEmpty_iff, any_isBlank_iff]
  refine and_congr_right fun hne => and_congr_right fun hblank => ?_
  rw [hasWord_eq hne (not_mem_of_isBlank hblank), List.contains_iff_mem]

theorem valuesFit_dashed : valuesFit values .dashed v = true ↔
    v ≠ [] ∧ (v ∈ values ∨ v ++ ['-'] <+: firstValue values) := by
  rw [valuesFit, Bool.and_eq_true, Bool.or_eq_true, not_isEmpty_iff, List.contains_iff_mem,
    List.isPrefixOf_iff_prefix]

/-- Where there is a single value, a comparison is about that value. -/
theorem valuesFit_single {u : List Char} (hexact : comparison = .ending → IsExact u v.length) :
    valuesFit [u] comparison v = true ↔ comparison.Holds u v := by
  have hfirst : firstValue [u] = u := rfl
  cases comparison with
  | equal =>
    rw [valuesFit, List.contains_iff_mem, List.mem_singleton]
    exact eq_comm
  | beginning =>
    rw [valuesFit, Bool.and_eq_true, not_isEmpty_iff, List.isPrefixOf_iff_prefix, hfirst]
    rfl
  | ending =>
    rw [valuesFit, Bool.and_eq_true, not_isEmpty_iff, decide_eq_true_eq, hfirst]
    exact and_congr_right fun hne => lastCharacters_eq hne (hexact rfl)
  | part =>
    rw [valuesFit, Bool.and_eq_true, not_isEmpty_iff, Text.occursIn_iff, hfirst]
    rfl
  | dashed =>
    rw [valuesFit_dashed, List.mem_singleton, hfirst, Comparison.Holds]
    exact and_congr_right fun _ => or_congr_left eq_comm
  | word =>
    rw [valuesFit_word, hfirst]
    rfl

/-- Without a value no comparison holds. -/
theorem valuesFit_nil : ¬ valuesFit [] comparison v = true := by
  have hfirst : firstValue [] = [] := rfl
  cases comparison with
  | equal => simp [valuesFit]
  | beginning => simp [valuesFit, hfirst]
  | ending =>
    have hnone : lastCharacters v.length [] = [] := rfl
    rw [valuesFit, Bool.and_eq_true, not_isEmpty_iff, decide_eq_true_eq, hfirst, hnone]
    exact fun h => h.1 h.2.symm
  | part => simp [valuesFit, hfirst, Text.occursIn_iff]
  | dashed => simp [valuesFit_dashed, hfirst]
  | word =>
    have hnone : Text.words [] = [] := rfl
    simp [valuesFit_word, hfirst, hnone]

/-- Of an element with a single attribute of the name at most, the values are as a comparison asks
if there is the attribute and its value is. -/
theorem valuesFit_iff (hone : (attributesNamed s p name).length ≤ 1)
    (hexact : comparison = .ending →
      ∀ a ∈ attributesNamed s p name, IsExact a.value.toList v.length) :
    valuesFit (attributeValues s p name) comparison v = true ↔
      ∃ a ∈ attributesNamed s p name, comparison.Holds a.value.toList v := by
  rw [attributeValues]
  generalize attributesNamed s p name = attributes at hone hexact
  cases attributes with
  | nil => simpa using valuesFit_nil
  | cons a rest =>
    obtain rfl : rest = [] := by
      rw [List.length_cons] at hone
      exact List.eq_nil_of_length_eq_zero (by omega)
    rw [List.map_singleton, valuesFit_single fun h => hexact h a (List.mem_singleton_self a)]
    simp

/-! ## Blocks -/

/-- A block for an attribute, a comparison and a value in quotes. -/
def block (name : List Char) (comparison : Comparison) (q : Char) (v : List Char) : List Char :=
  '[' :: (name ++ comparison.sign ++ '=' :: q :: (v ++ [q, ']']))

theorem block_eq (name : List Char) (comparison : Comparison) (q : Char) (v : List Char) :
    block name comparison q v =
      '[' :: (name ++ comparison.sign ++ ['='] ++ (q :: (v ++ [q]) ++ [']'])) := by
  simp [block]

theorem block_nested (hname : isName name = true) (comparison : Comparison)
    (hq : Nesting.isQuote q = true) (hv : q ∉ v) : Nested isSolid (block name comparison q v) := by
  rw [block_eq]
  exact .brackets (isPlain_head hname comparison) (.quotes hq hv) .nil

/-- The name of an attribute in lower case is a name too. -/
theorem isName_lower (h : isName name = true) : isName (Text.lower name) = true := by
  rcases isName_cases h with hsimple | ⟨n, m, rfl, hn, hm⟩
  · exact isName_of_isSimpleName (isSimpleName_lower hsimple)
  · have hn := isSimpleName_lower hn
    have hm := isSimpleName_lower hm
    have hcolon {cs : List Char} (h : isSimpleName cs = true) : ':' ∉ cs := fun hmem => by
      have hchar := isNameChar_of_mem_simpleName h hmem
      revert hchar
      decide
    have hlower : Text.lower (n ++ ':' :: m) = Text.lower n ++ ':' :: Text.lower m :=
      List.map_append
    rw [hlower, isName, Text.splitOn_append, Text.splitOn_of_not_mem (hcolon hn),
      Text.splitOn_of_not_mem (hcolon hm)]
    exact Bool.and_eq_true _ _ ▸ ⟨hn, hm⟩

end MarkupTemplate.Css

namespace MarkupTemplate.Selector

open Css XPath

variable {v name : List Char} {q : Char}

/-- A text is compiled, its query from the root is read, and in every document this selects, in
document order, the elements that pass a test. -/
def SelectsElements (source : String) (passes : Scope → Place → Bool) : Prop :=
  ∃ sel e, compile .css source = .ok sel ∧ Expr.read sel.expression = .ok e ∧
    ∀ s : Scope, e.select sel.expression s .root =
      .ok ((s.preorder .root).filter fun p => isElement s p && passes s p)

theorem single_readable {condition : Simple} (hnamed : condition.isNamed = true)
    (hfilled : condition.isFilled = true) (hall : condition.all isReadable = true) :
    (Compound.mk "*" [condition]).all isReadable = true := by
  simp [Compound.all, conditionsAll, isReadable, isNamed, isFilled, isTypeName, Compound.type,
    Compound.conditions, hnamed, hfilled, hall]

/-- A condition alone that is compiled, and asks for no position, selects the elements of which it
holds. -/
theorem selects_condition {source : String} {condition : Simple} {passes : Scope → Place → Bool}
    (hcompile : compile .css source = .ok ⟨source, .css, none,
      [branchQuery [(.descendant, .mk "*" [condition])]]⟩)
    (hreadable : (Compound.mk "*" [condition]).all isReadable = true)
    (hnone : (Compound.mk "*" [condition]).all asksNoPosition = true)
    (htestable : (Compound.mk "*" [condition]).all isTestable = true)
    (h : ∀ s p, condition.fits s (byTypeName s) "*" p = passes s p) :
    SelectsElements source passes := by
  have hne : [[(Combinator.descendant, Compound.mk "*" [condition])]] ≠ [] := List.cons_ne_nil _ _
  have hread := read_branches hne fun branch hbranch => by
    obtain rfl := List.mem_singleton.1 hbranch
    exact ⟨List.cons_ne_nil _ _, fun part hpart => List.mem_singleton.1 hpart ▸ hreadable⟩
  refine ⟨_, _, hcompile, hread, fun s => (select_compound hnone htestable _).trans ?_⟩
  refine congrArg Except.ok (List.filter_congr fun p _ => ?_)
  rw [Compound.fits, allFit, allFit, Bool.and_true, isOfType_star, h]

/-- **A block is compiled, whatever is between its quotes**, and selects the elements whose
attributes with the name have values as the comparison asks. -/
theorem selects_block (hname : isName name = true) (comparison : Css.Comparison)
    (hq : Nesting.isQuote q = true) (hv : q ∉ v) :
    SelectsElements (String.ofList (block name comparison q v)) fun s p =>
      valuesFit (attributeValues s p name) comparison v := by
  have hread (compound) : readSimple (String.ofList (block name comparison q v)) compound '['
      (name ++ comparison.sign ++ '=' :: q :: (v ++ [q, ']'])) =
        .ok ([.attribute (String.ofList (Text.lower name)) comparison (String.ofList v)], []) :=
    readSimple_block hname comparison hq hv []
  have hlast : block name comparison q v =
      '[' :: (name ++ comparison.sign ++ '=' :: q :: (v ++ [q])) ++ [']'] := by simp [block]
  have hfinishes : Finishes (block name comparison q v) := ⟨_, ']', hlast, by decide⟩
  have hends : EndsPlainly (block name comparison q v) := hlast ▸ .of_last (by decide) _
  refine selects_condition (compile_condition (by decide) (block_nested hname comparison hq hv)
    hfinishes hends hread) ?_ rfl rfl fun s p => ?_
  · refine single_readable ?_ rfl rfl
    rw [Simple.isNamed, String.toList_ofList]
    exact isName_lower hname
  · rw [Simple.fits, String.toList_ofList, String.toList_ofList, attributeValues,
      attributesNamed_lower, ← attributeValues]

/-- **Comparisons with values in quotes.** A block for an attribute and a value, of which only the
quote that is used is not in the value, is compiled and its query read. In every document it
selects, of the elements with at most one attribute of the name, those that have the attribute, with
a value that compares as the block says. -/
theorem select_quoted (hname : isName name = true) (comparison : Css.Comparison)
    (hq : Nesting.isQuote q = true) (hv : q ∉ v) :
    ∃ sel e, compile .css (String.ofList (block name comparison q v)) = .ok sel ∧
      Expr.read sel.expression = .ok e ∧ ∀ s : Scope, ∃ ps,
        e.select sel.expression s .root = .ok ps ∧ ∀ p,
          (attributesNamed s p name).length ≤ 1 →
          (comparison = .ending →
            ∀ a ∈ attributesNamed s p name, IsExact a.value.toList v.length) →
            (p ∈ ps ↔ p ∈ s.preorder .root ∧ isElement s p = true ∧
              ∃ a ∈ attributesNamed s p name, comparison.Holds a.value.toList v) := by
  obtain ⟨sel, e, hcompile, he, hselect⟩ := selects_block hname comparison hq hv
  refine ⟨sel, e, hcompile, he, fun s => ⟨_, hselect s, fun p hone hexact => ?_⟩⟩
  rw [List.mem_filter, Bool.and_eq_true, valuesFit_iff hone hexact]

/-- A document of a paragraph with an attribute. -/
def paragraphWith (name value : String) : Scope :=
  ⟨.node .document [.node (.element ⟨.html, "p"⟩ [⟨.plain, name, value⟩]) []], none⟩

/-- The title has brackets, a comma and a quote in it. -/
def titled : Scope :=
  paragraphWith "title" "a], it's b"

/-- The paragraph is selected by the end of its title. -/
theorem select_quoted_titled :
    isName "title".toList = true ∧ Nesting.isQuote '"' = true ∧ '"' ∉ "], it's b".toList ∧
      ∃ sel e ps, compile .css "[title$=\"], it's b\"]" = .ok sel ∧
        Expr.read sel.expression = .ok e ∧ e.select sel.expression titled .root = .ok ps ∧
          ⟨false, [0]⟩ ∈ ps := by
  have hname : isName "title".toList = true := by decide +kernel
  have hquote : '"' ∉ "], it's b".toList := by decide
  obtain ⟨sel, e, hcompile, he, hselect⟩ :=
    select_quoted hname .ending (by decide) hquote
  obtain ⟨ps, hps, hmem⟩ := hselect titled
  have htext : String.ofList (block "title".toList .ending '"' "], it's b".toList) =
      "[title$=\"], it's b\"]" := by decide
  refine ⟨hname, by decide, hquote, sel, e, ps, htext ▸ hcompile, he, hps, ?_⟩
  refine (hmem ⟨false, [0]⟩ (by decide +kernel) fun _ a ha => ?_).2
    ⟨by decide +kernel, by decide +kernel, ⟨.plain, "title", "a], it's b"⟩, by decide +kernel, ?_⟩
  · obtain rfl : a = ⟨.plain, "title", "a], it's b"⟩ := List.mem_singleton.1 ha
    exact isExact_of_lt (by decide) (by decide)
  · exact ⟨by decide, "a".toList, rfl⟩

end MarkupTemplate.Selector
