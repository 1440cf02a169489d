import Mathlib
import MarkupTemplate.Text.Pieces

/-!
# Finding words

A word is one of the words of a text exactly when it occurs, with a space on either side, in the
text that is left when White_Space is brought down to single spaces.

* `occursIn_iff` — what occurs in a text.
* `cutAt?_append`, `splitOn_append`, `splitOn_join` — cutting a text that was put together.
* `occursIn_words` — the test on words.
-/

namespace MarkupTemplate.Text

variable {cs ds w : List Char} {ws : List (List Char)} {c : Char}

/-! ## Occurrences -/

theorem dropHead?_eq_some {head rest : List Char} :
    dropHead? head cs = some rest ↔ head ++ rest = cs :=
  List.isPrefixOf?_eq_some_iff_append_eq

theorem dropHead?_eq_none {head : List Char} : dropHead? head cs = none ↔ ¬ head <+: cs := by
  rw [Option.eq_none_iff_forall_ne_some]
  constructor
  · rintro h ⟨rest, hrest⟩
    exact h rest (dropHead?_eq_some.2 hrest)
  · intro h rest hrest
    exact h ⟨rest, dropHead?_eq_some.1 hrest⟩

theorem cutAt?_isSome_iff (needle : List Char) : ∀ cs : List Char,
    (cutAt? needle cs).isSome = true ↔ needle <:+: cs
  | [] => by
    rw [cutAt?, List.infix_nil]
    cases needle <;> simp
  | c :: cs => by
    have ih := cutAt?_isSome_iff needle cs
    rw [List.infix_cons_iff, ← ih, cutAt?]
    by_cases h : needle <+: c :: cs
    · obtain ⟨rest, hrest⟩ := h
      rw [dropHead?_eq_some.2 hrest]
      simp [← hrest]
    · rw [dropHead?_eq_none.2 h]
      simp [h]

theorem occursIn_iff {needle : List Char} : occursIn needle cs = true ↔ needle <:+: cs :=
  cutAt?_isSome_iff needle cs

theorem cutAt?_eq_none (h : c ∉ cs) : cutAt? [c] cs = none := by
  rw [← Option.not_isSome_iff_eq_none, cutAt?_isSome_iff]
  intro hoccurs
  exact h (hoccurs.subset (List.mem_singleton_self c))

theorem cutAt?_append (h : c ∉ cs) (ds : List Char) : cutAt? [c] (cs ++ c :: ds) = some (cs, ds) := by
  induction cs with
  | nil =>
    have hhead : dropHead? [c] (c :: ds) = some ds := dropHead?_eq_some.2 rfl
    rw [List.nil_append, cutAt?, hhead]
  | cons d cs ih =>
    rw [List.mem_cons, not_or] at h
    have hhead : dropHead? [c] (d :: (cs ++ c :: ds)) = none := by
      rw [dropHead?_eq_none, List.cons_prefix_cons]
      exact fun hstart => h.1 hstart.1
    rw [List.cons_append, cutAt?, hhead, ih h.2]
    rfl

theorem cutAt?_eq_some {before after : List Char} (h : cutAt? [c] cs = some (before, after)) :
    cs = before ++ c :: after := by
  have hmem : c ∈ cs := by
    by_contra hnot
    rw [cutAt?_eq_none hnot] at h
    cases h
  obtain ⟨head, tail, rfl, hhead⟩ := List.eq_append_cons_of_mem hmem
  rw [cutAt?_append hhead] at h
  obtain ⟨rfl, rfl⟩ := Prod.mk.inj (Option.some.inj h)
  rfl

/-! ## Pieces -/

theorem splitOn_append (c : Char) (ds : List Char) : ∀ cs : List Char,
    splitOn c (cs ++ c :: ds) = splitOn c cs ++ splitOn c ds
  | [] => by simp [splitOn]
  | d :: cs => by
    have ih := splitOn_append c ds cs
    rw [List.cons_append, splitOn, splitOn, ih]
    split
    · rw [List.cons_append]
    · cases hs : splitOn c cs with
      | nil => exact absurd hs (splitOn_ne_nil c cs)
      | cons piece pieces => simp

theorem splitOn_of_not_mem (h : c ∉ cs) : splitOn c cs = [cs] := by
  induction cs with
  | nil => simp [splitOn]
  | cons d cs ih =>
    rw [List.mem_cons, not_or] at h
    rw [splitOn, if_neg (Ne.symm h.1), ih h.2]

/-- The separator is in none of the pieces. -/
theorem not_mem_of_mem_splitOn : ∀ {cs piece : List Char}, piece ∈ splitOn c cs → c ∉ piece
  | [], piece, h => by
    rw [splitOn, List.mem_singleton] at h
    simp [h]
  | d :: cs, piece, h => by
    have ih {piece : List Char} : piece ∈ splitOn c cs → c ∉ piece := not_mem_of_mem_splitOn
    rw [splitOn] at h
    split at h
    · rcases List.mem_cons.1 h with rfl | h
      · simp
      · exact ih h
    · rename_i hd
      have hd : c ≠ d := Ne.symm hd
      cases hsplit : splitOn c cs with
      | nil => exact absurd hsplit (splitOn_ne_nil c cs)
      | cons first pieces =>
        rw [hsplit] at h ih
        rcases List.mem_cons.1 h with rfl | h
        · rw [List.mem_cons, not_or]
          exact ⟨hd, ih List.mem_cons_self⟩
        · exact ih (List.mem_cons_of_mem _ h)

theorem length_splitOn (h : c ∈ cs) : 2 ≤ (splitOn c cs).length := by
  obtain ⟨before, after, rfl⟩ := List.append_of_mem h
  have hbefore := List.length_pos_iff.2 (splitOn_ne_nil c before)
  have hafter := List.length_pos_iff.2 (splitOn_ne_nil c after)
  rw [splitOn_append, List.length_append]
  omega

theorem join_cons_cons (glue w v : List Char) (ws : List (List Char)) :
    join glue (w :: v :: ws) = w ++ (glue ++ join glue (v :: ws)) := by
  simp [join, List.intersperse_cons_cons]

theorem join_singleton (glue w : List Char) : join glue [w] = w := by
  simp [join]

/-- Pieces without the separator come back when they are joined and split. -/
theorem splitOn_join : ∀ {ws : List (List Char)}, ws ≠ [] → (∀ w ∈ ws, c ∉ w) →
    splitOn c (join [c] ws) = ws
  | [], hne, _ => absurd rfl hne
  | [w], _, h => by
    rw [join_singleton]
    exact splitOn_of_not_mem (h w List.mem_cons_self)
  | w :: v :: ws, _, h => by
    have hw : c ∉ w := h w List.mem_cons_self
    have ih := splitOn_join (List.cons_ne_nil v ws) fun u hu => h u (List.mem_cons_of_mem _ hu)
    rw [join_cons_cons, List.singleton_append, splitOn_append, splitOn_of_not_mem hw, ih]
    rfl

/-- What stands between two separators is a piece. -/
theorem mem_splitOn_of_infix (hc : c ∉ w) (h : c :: (w ++ [c]) <:+: cs) : w ∈ splitOn c cs := by
  obtain ⟨before, after, rfl⟩ := h
  have heq : before ++ c :: (w ++ [c]) ++ after = before ++ c :: (w ++ c :: after) := by simp
  rw [heq, splitOn_append, splitOn_append, splitOn_of_not_mem hc]
  simp

/-- Every piece stands between two separators, if there is one at each end. -/
theorem infix_join_of_mem : ∀ {ws : List (List Char)}, w ∈ ws →
    c :: (w ++ [c]) <:+: c :: (join [c] ws ++ [c])
  | [v], h => by
    obtain rfl := List.mem_singleton.1 h
    rw [join_singleton]
  | v :: u :: ws, h => by
    have heq : c :: (join [c] (v :: u :: ws) ++ [c]) =
        c :: (v ++ [c]) ++ (join [c] (u :: ws) ++ [c]) := by
      simp [join_cons_cons]
    rcases List.mem_cons.1 h with rfl | h
    · rw [heq]
      exact (List.prefix_append _ _).isInfix
    · have ih := infix_join_of_mem h
      have hsuffix : c :: (join [c] (u :: ws) ++ [c]) <:+
          c :: (join [c] (v :: u :: ws) ++ [c]) := by
        rw [heq]
        exact ⟨c :: v, by simp⟩
      exact ih.trans hsuffix.isInfix

/-! ## Words -/

/-- There is no White_Space in words. -/
theorem isBlank_of_mem_words : ∀ {cs w : List Char}, w ∈ words cs → ∀ c ∈ w, isBlank c = false
  | [], _, h => by simp [words, runs] at h
  | d :: cs, w, h => by
    have ih {v : List Char} (hv : v ∈ runs isBlank cs) : ∀ c ∈ v, isBlank c = false :=
      isBlank_of_mem_words hv
    unfold words runs at h
    split at h
    · exact ih h
    · rename_i hd
      have hd : isBlank d = false := by simpa using hd
      split at h
      · rename_i hruns
        split at h
        · rcases List.mem_cons.1 h with rfl | h
          · simpa using hd
          · exact ih (hruns ▸ h)
        · rcases List.mem_cons.1 h with rfl | h
          · intro c hc
            rcases List.mem_cons.1 hc with rfl | hc
            · exact hd
            · exact ih (hruns ▸ List.mem_cons_self) c hc
          · exact ih (hruns ▸ List.mem_cons_of_mem _ h)
      · rcases List.mem_cons.1 h with rfl | h
        · simpa using hd
        · exact ih h

/-- **A word is found between spaces exactly if it is one of the words of the text.** -/
theorem occursIn_words (hne : w ≠ []) (hspace : ' ' ∉ w) (cs : List Char) :
    occursIn (' ' :: (w ++ [' '])) (' ' :: (join [' '] (words cs) ++ [' '])) =
      (words cs).contains w := by
  rw [Bool.eq_iff_iff, occursIn_iff, List.contains_iff_mem]
  constructor
  · intro h
    have hmem := mem_splitOn_of_infix hspace h
    have hpieces : splitOn ' ' (' ' :: (join [' '] (words cs) ++ [' '])) =
        [] :: (splitOn ' ' (join [' '] (words cs)) ++ [[]]) := by
      rw [splitOn, if_pos rfl, splitOn_append]
      rfl
    -- the word is not empty, and so is neither the first piece nor the last
    have hmem : w ∈ splitOn ' ' (join [' '] (words cs)) := by
      simpa [hpieces, hne] using hmem
    by_cases hwords : words cs = []
    · rw [hwords] at hmem
      simp [join, splitOn, hne] at hmem
    · have hblank : ∀ v ∈ words cs, ' ' ∉ v := fun v hv hspace => by
        have := isBlank_of_mem_words hv ' ' hspace
        revert this
        decide
      rwa [splitOn_join hwords hblank] at hmem
  · exact infix_join_of_mem

end MarkupTemplate.Text
