import MarkupTemplate.Selector.Css.Reading

/-!
# Nested text

Selectors are cut at separators and at closing brackets by functions that go over the text once and
keep track of the nesting. Over text in which brackets match all of them get back to where they
were.

* `Nested` — text in which brackets, parentheses and quotes match.
* `Scanner` — a function that goes over text; `Scanner.Lawful` — it keeps track of the nesting.
* `Scanner.Lawful.passes` — nested text does not change where a scanner is.
* `splitTop_commas`, `group?_parens`, `group?_brackets`, `partScanner_lawful` — the functions.
-/

namespace MarkupTemplate.Css

variable {p q : Char → Bool} {cs ds inner rest : List Char} {c : Char}

/-! ## Nested text -/

/-- A character that has nothing to do with nesting. -/
def isPlain (c : Char) : Bool :=
  !Nesting.isQuote c && !Nesting.isOpening c && !Nesting.isClosing c

/-- Nothing, or a string in quotes. -/
inductive Quoted : List Char → Prop
  | none : Quoted []
  | quotes {q : Char} {cs : List Char} : Nesting.isQuote q = true → q ∉ cs →
      Quoted (q :: (cs ++ [q]))

/-- Text in which brackets and parentheses match. Quotes stand at the end of brackets, and outside
of everything there are the characters of a class. -/
inductive Nested : (Char → Bool) → List Char → Prop
  | nil {p : Char → Bool} : Nested p []
  | plain {p : Char → Bool} {c : Char} {cs : List Char} : isPlain c = true → p c = true →
      Nested p cs → Nested p (c :: cs)
  | brackets {p : Char → Bool} {name quoted cs : List Char} : (∀ c ∈ name, isPlain c = true) →
      Quoted quoted → Nested p cs → Nested p ('[' :: (name ++ (quoted ++ ']' :: cs)))
  | parens {p q : Char → Bool} {inner cs : List Char} : Nested q inner → Nested p cs →
      Nested p ('(' :: (inner ++ ')' :: cs))

namespace Nested

theorem of_forall (h : ∀ c ∈ cs, isPlain c = true ∧ p c = true) : Nested p cs := by
  induction cs with
  | nil => exact .nil
  | cons c cs ih =>
    have hc := h c List.mem_cons_self
    exact .plain hc.1 hc.2 (ih fun d hd => h d (List.mem_cons_of_mem _ hd))

theorem of_all (h : cs.all (fun c => isPlain c && p c) = true) : Nested p cs :=
  of_forall (by simpa using h)

theorem append (h : Nested p cs) (h' : Nested p ds) : Nested p (cs ++ ds) := by
  induction h with
  | nil => exact h'
  | plain hc hp _ ih => exact .plain hc hp (ih h')
  | brackets hname hquoted _ ih =>
    have hcons := Nested.brackets hname hquoted (ih h')
    simpa using hcons
  | parens hinner _ _ ih =>
    have hcons := Nested.parens hinner (ih h')
    simpa using hcons

theorem mono (h : Nested p cs) (hpq : ∀ c, p c = true → q c = true) : Nested q cs := by
  induction h with
  | nil => exact .nil
  | plain hc hp _ ih => exact .plain hc (hpq _ hp) (ih hpq)
  | brackets hname hquoted _ ih => exact .brackets hname hquoted (ih hpq)
  | parens hinner _ _ ih => exact .parens hinner (ih hpq)

end Nested

/-! ## Scanners -/

/-- A function that goes over text from state to state, with the states for each depth, inside of
quotes and outside of them. -/
structure Scanner (σ ρ : Type) where
  run : σ → List Char → ρ
  /-- What a character that is gone over does to the result. -/
  cons : Char → ρ → ρ
  level : Nat → σ
  quoted : Nat → Char → σ
  /-- The depth inside brackets. -/
  inBrackets : Nat → Nat
  /-- The depth inside parentheses. -/
  inParens : Nat → Nat
  /-- The characters that are gone over at a depth. -/
  allowed : Nat → Char → Bool
  /-- Whether quotes count at a depth. -/
  quotes : Nat → Bool

namespace Scanner

variable {σ ρ : Type} {s : Scanner σ ρ} {a b d : σ} {n : Nat}

/-- The scanner goes over a text, from one state to another. -/
def Passes (s : Scanner σ ρ) (a : σ) (cs : List Char) (b : σ) : Prop :=
  ∀ rest, s.run a (cs ++ rest) = cs.foldr s.cons (s.run b rest)

theorem Passes.nil : s.Passes a [] a :=
  fun _ => rfl

theorem Passes.append (h : s.Passes a cs b) (h' : s.Passes b ds d) : s.Passes a (cs ++ ds) d := by
  intro rest
  rw [List.append_assoc, h, h', List.foldr_append]

theorem Passes.cons (h : s.Passes a [c] b) (h' : s.Passes b cs d) : s.Passes a (c :: cs) d :=
  h.append h'

/-- The scanner keeps track of the nesting. -/
structure Lawful (s : Scanner σ ρ) : Prop where
  plain (n : Nat) {c : Char} : isPlain c = true → s.allowed n c = true →
    s.Passes (s.level n) [c] (s.level n)
  openBracket (n : Nat) : s.Passes (s.level n) ['['] (s.level (s.inBrackets n))
  closeBracket (n : Nat) : s.Passes (s.level (s.inBrackets n)) [']'] (s.level n)
  openParen (n : Nat) : s.Passes (s.level n) ['('] (s.level (s.inParens n))
  closeParen (n : Nat) : s.Passes (s.level (s.inParens n)) [')'] (s.level n)
  openQuote (n : Nat) {q : Char} : Nesting.isQuote q = true → s.quotes n = true →
    s.Passes (s.level n) [q] (s.quoted n q)
  inQuote (n : Nat) {q c : Char} : c ≠ q → s.Passes (s.quoted n q) [c] (s.quoted n q)
  closeQuote (n : Nat) (q : Char) : s.Passes (s.quoted n q) [q] (s.level n)
  allowed_inBrackets (n : Nat) (c : Char) : s.allowed (s.inBrackets n) c = true
  allowed_inParens (n : Nat) (c : Char) : s.allowed (s.inParens n) c = true
  quotes_inBrackets (n : Nat) : s.quotes (s.inBrackets n) = true

namespace Lawful

theorem passes_plain (hs : s.Lawful) (h : ∀ c ∈ cs, isPlain c = true)
    (hallowed : ∀ c, s.allowed n c = true) : s.Passes (s.level n) cs (s.level n) := by
  induction cs with
  | nil => exact .nil
  | cons c cs ih =>
    have hc := hs.plain n (h c List.mem_cons_self) (hallowed c)
    exact hc.cons (ih fun d hd => h d (List.mem_cons_of_mem _ hd))

theorem passes_string (hs : s.Lawful) {q : Char} (h : q ∉ cs) :
    s.Passes (s.quoted n q) cs (s.quoted n q) := by
  induction cs with
  | nil => exact .nil
  | cons c cs ih =>
    rw [List.mem_cons, not_or] at h
    exact (hs.inQuote n (Ne.symm h.1)).cons (ih h.2)

theorem passes_quoted (hs : s.Lawful) (h : Quoted cs) (hn : s.quotes n = true) :
    s.Passes (s.level n) cs (s.level n) := by
  cases h with
  | none => exact .nil
  | @quotes q cs hq hcs =>
    exact (hs.openQuote n hq hn).cons ((hs.passes_string hcs).append (hs.closeQuote n q))

/-- **Nested text does not change where a scanner is.** -/
theorem passes (hs : s.Lawful) (h : Nested p cs) (n : Nat)
    (hallowed : ∀ c, p c = true → s.allowed n c = true) :
    s.Passes (s.level n) cs (s.level n) := by
  induction h generalizing n with
  | nil => exact .nil
  | plain hc hp _ ih => exact (hs.plain n hc (hallowed _ hp)).cons (ih n hallowed)
  | brackets hname hquoted _ ih =>
    have hname := hs.passes_plain hname (hs.allowed_inBrackets n)
    have hquoted := hs.passes_quoted hquoted (hs.quotes_inBrackets n)
    have hclose := (hs.closeBracket n).cons (ih n hallowed)
    exact (hs.openBracket n).cons (hname.append (hquoted.append hclose))
  | parens _ _ ihinner ih =>
    have hinner := ihinner (s.inParens n) fun c _ => hs.allowed_inParens n c
    exact (hs.openParen n).cons (hinner.append ((hs.closeParen n).cons (ih n hallowed)))

end Lawful

end Scanner

/-! ## Separators -/

theorem next_plain {b : Bool} {n : Nat} (h : isPlain c = true) :
    Nesting.next b ⟨n, none⟩ c = ⟨n, none⟩ := by
  simp only [isPlain, Bool.and_eq_true, Bool.not_eq_true'] at h
  simp [Nesting.next, h.1.1, h.1.2, h.2]

/-- The function that cuts a text at the separators outside of everything. -/
def splitter : Scanner Nesting (List (List Char)) where
  run n cs := splitFrom ',' n cs
  cons c
    | [] => [[c]]
    | piece :: pieces => (c :: piece) :: pieces
  level n := ⟨n, none⟩
  quoted n q := ⟨n, some q⟩
  inBrackets n := n + 1
  inParens n := n + 1
  allowed n c := n != 0 || c != ','
  quotes _ := true

theorem splitter_passes {n m : Nesting} (h : n.isTop = false ∨ c ≠ ',') (hm : n.next true c = m) :
    splitter.Passes n [c] m := by
  intro rest
  change splitFrom ',' n (c :: rest) = splitter.cons c (splitFrom ',' m rest)
  rw [splitFrom, hm, if_neg]
  · rfl
  · rw [Bool.and_eq_true, decide_eq_true_eq]
    rintro ⟨htop, hc⟩
    rcases h with h | h
    · rw [htop] at h
      cases h
    · exact h hc

theorem splitter_lawful : splitter.Lawful where
  plain n c hc hallowed := by
    have hseparator : n ≠ 0 ∨ c ≠ ',' := by simpa [splitter] using hallowed
    refine splitter_passes (hseparator.imp_left fun hn => ?_) (next_plain hc)
    simp [splitter, Nesting.isTop, hn]
  openBracket n := splitter_passes (.inr (by decide)) rfl
  closeBracket n := splitter_passes (.inl rfl) rfl
  openParen n := splitter_passes (.inr (by decide)) rfl
  closeParen n := splitter_passes (.inl rfl) rfl
  openQuote n q hq _ := by
    have hcomma : q ≠ ',' := by
      rintro rfl
      revert hq
      decide
    exact splitter_passes (.inr hcomma) (by simp [splitter, Nesting.next, hq])
  inQuote n q c hc := splitter_passes (.inl (by simp [splitter, Nesting.isTop]))
    (by simp [splitter, Nesting.next, hc])
  closeQuote n q := splitter_passes (.inl (by simp [splitter, Nesting.isTop]))
    (by simp [splitter, Nesting.next])
  allowed_inBrackets n c := by simp [splitter]
  allowed_inParens n c := by simp [splitter]
  quotes_inBrackets _ := rfl

/-- Nested text outside of everything is not cut. -/
theorem splitFrom_nested (h : Nested (fun c => c != ',') cs) (rest : List Char) :
    splitFrom ',' .top (cs ++ rest) = cs.foldr splitter.cons (splitFrom ',' .top rest) :=
  splitter_lawful.passes h 0 (fun c hc => by simpa [splitter] using hc) rest

theorem foldr_cons_splitter (cs piece : List Char) (pieces : List (List Char)) :
    cs.foldr splitter.cons (piece :: pieces) = (cs ++ piece) :: pieces := by
  induction cs with
  | nil => rfl
  | cons c cs ih =>
    rw [List.foldr_cons, ih]
    rfl

/-- **Nested texts with commas between them are the pieces of the whole.** -/
theorem splitTop_commas : ∀ (piece : List Char) (pieces : List (List Char)),
    (∀ cs ∈ piece :: pieces, Nested (fun c => c != ',') cs) →
      splitTop ',' ([','].intercalate (piece :: pieces)) = piece :: pieces
  | piece, [], h => by
    have hsplit := splitFrom_nested (h piece List.mem_cons_self) []
    have hend : splitFrom ',' .top [] = [[]] := rfl
    rw [hend, foldr_cons_splitter, List.append_nil] at hsplit
    simpa [splitTop, List.intercalate] using hsplit
  | piece, next :: pieces, h => by
    have ih := splitTop_commas next pieces fun cs hcs => h cs (List.mem_cons_of_mem _ hcs)
    have hsplit := splitFrom_nested (h piece List.mem_cons_self)
      (',' :: [','].intercalate (next :: pieces))
    have hcomma : splitFrom ',' .top (',' :: [','].intercalate (next :: pieces)) =
        [] :: splitTop ',' ([','].intercalate (next :: pieces)) := rfl
    rw [hcomma, foldr_cons_splitter, List.append_nil, ih] at hsplit
    simpa [splitTop, List.intercalate] using hsplit

/-! ## Groups -/

/-- The function that looks for the end of a group of brackets or, if `round`, of parentheses. -/
def grouper (round : Bool) : Scanner (Nat × Option Char) (Option (List Char × List Char)) where
  run state cs :=
    groupFrom? (if round then '(' else '[') (if round then ')' else ']') state.1 state.2 cs
  cons c found := found.map fun (inner, rest) => (c :: inner, rest)
  level n := (n, none)
  quoted n q := (n, some q)
  inBrackets n := if round then n else n + 1
  inParens n := if round then n + 1 else n
  allowed _ _ := true
  quotes _ := true

theorem grouper_lawful (round : Bool) : (grouper round).Lawful where
  plain n c hc _ rest := by
    simp only [isPlain, Nesting.isOpening, Nesting.isClosing, Bool.and_eq_true,
      Bool.not_eq_true'] at hc
    cases round <;> simp_all [grouper, groupFrom?]
  openBracket n rest := by cases round <;> simp [grouper, groupFrom?, Nesting.isQuote]
  closeBracket n rest := by cases round <;> simp [grouper, groupFrom?, Nesting.isQuote]
  openParen n rest := by cases round <;> simp [grouper, groupFrom?, Nesting.isQuote]
  closeParen n rest := by cases round <;> simp [grouper, groupFrom?, Nesting.isQuote]
  openQuote n q hq _ rest := by cases round <;> simp [grouper, groupFrom?, hq]
  inQuote n q c hc rest := by cases round <;> simp [grouper, groupFrom?, hc]
  closeQuote n q rest := by cases round <;> simp [grouper, groupFrom?]
  allowed_inBrackets _ _ := rfl
  allowed_inParens _ _ := rfl
  quotes_inBrackets _ := rfl

theorem foldr_cons_grouper (round : Bool) (cs rest : List Char) :
    cs.foldr (grouper round).cons (some ([], rest)) = some (cs, rest) := by
  induction cs with
  | nil => rfl
  | cons c cs ih =>
    rw [List.foldr_cons, ih]
    rfl

/-- A group of parentheses around nested text. -/
theorem group?_parens (h : Nested p inner) (rest : List Char) :
    group? '(' ')' (inner ++ ')' :: rest) = some (inner, rest) := by
  have hpasses := (grouper_lawful true).passes h 0 (fun _ _ => rfl) (')' :: rest)
  have hclose : (grouper true).run ((grouper true).level 0) (')' :: rest) = some ([], rest) := by
    simp [grouper, groupFrom?, Nesting.isQuote]
  rw [hclose, foldr_cons_grouper] at hpasses
  exact hpasses

/-- A group of brackets. -/
theorem group?_brackets {name quoted : List Char} (hname : ∀ c ∈ name, isPlain c = true)
    (hquoted : Quoted quoted) (rest : List Char) :
    group? '[' ']' (name ++ quoted ++ ']' :: rest) = some (name ++ quoted, rest) := by
  have hlawful := grouper_lawful false
  have hpasses := (hlawful.passes_plain (n := 0) hname fun _ => rfl).append
    (hlawful.passes_quoted hquoted rfl) (']' :: rest)
  have hclose : (grouper false).run ((grouper false).level 0) (']' :: rest) = some ([], rest) := by
    simp [grouper, groupFrom?, Nesting.isQuote]
  rw [hclose, foldr_cons_grouper] at hpasses
  exact hpasses

/-! ## Parts of branches -/

/-- A character that a branch is not cut at. -/
def isUncut (c : Char) : Bool :=
  !Text.isBlank c && (BranchScan.combinator? c).isNone

/-- A character that is part of a compound wherever it stands. -/
def isSolid (c : Char) : Bool :=
  !Text.isBlank c && (BranchScan.combinator? c).isNone && c != ','

theorem isUncut_of_isSolid (h : isSolid c = true) : isUncut c = true :=
  (Bool.and_eq_true_iff.1 h).1

/-- The function that cuts a branch into its parts, on the letters of the current part. -/
def partScanner (source : String) (parts : List (Combinator × List Char))
    (pending : Option Combinator) : Scanner Nesting (List Char → Except Error BranchScan) where
  run n cs current := cs.foldlM (BranchScan.step source) ⟨parts, current, pending, n⟩
  cons c scan current := scan (c :: current)
  level n := ⟨n, none⟩
  quoted n q := ⟨n, some q⟩
  inBrackets n := n + 1
  inParens n := n + 1
  allowed n c := n != 0 || isSolid c
  quotes n := n != 0

variable {source : String} {parts : List (Combinator × List Char)} {pending : Option Combinator}

theorem partScanner_passes {n m : Nesting} (h : n.isTop = false ∨ isUncut c = true)
    (hm : n.next false c = m) : (partScanner source parts pending).Passes n [c] m := by
  intro rest
  funext current
  have hstep : BranchScan.step source ⟨parts, current, pending, n⟩ c =
      .ok ⟨parts, c :: current, pending, m⟩ := by
    simp only [BranchScan.step, hm]
    rcases h with h | h
    · simp [h]
    · simp only [isUncut, Bool.and_eq_true, Bool.not_eq_true', Option.isNone_iff_eq_none] at h
      simp [h.1, h.2]
  change ((c :: rest).foldlM (BranchScan.step source) ⟨parts, current, pending, n⟩) =
    rest.foldlM (BranchScan.step source) ⟨parts, c :: current, pending, m⟩
  rw [List.foldlM_cons, hstep]
  rfl

theorem partScanner_lawful : (partScanner source parts pending).Lawful where
  plain n c hc hallowed := by
    have hsolid : n ≠ 0 ∨ isSolid c = true := by simpa [partScanner] using hallowed
    refine partScanner_passes (hsolid.imp (fun hn => ?_) isUncut_of_isSolid) (next_plain hc)
    simp [partScanner, Nesting.isTop, hn]
  openBracket n := partScanner_passes (.inr (by decide)) rfl
  closeBracket n := partScanner_passes (.inl rfl) rfl
  openParen n := partScanner_passes (.inr (by decide)) rfl
  closeParen n := partScanner_passes (.inl rfl) rfl
  openQuote n q hq hn := by
    have hn : n ≠ 0 := by simpa [partScanner] using hn
    exact partScanner_passes (.inl (by simp [partScanner, Nesting.isTop, hn]))
      (by simp [partScanner, Nesting.next, hq, hn])
  inQuote n q c hc := partScanner_passes (.inl (by simp [partScanner, Nesting.isTop]))
    (by simp [partScanner, Nesting.next, hc])
  closeQuote n q := partScanner_passes (.inl (by simp [partScanner, Nesting.isTop]))
    (by simp [partScanner, Nesting.next])
  allowed_inBrackets n c := by simp [partScanner]
  allowed_inParens n c := by simp [partScanner]
  quotes_inBrackets _ := rfl

/-- Text that is gone over belongs to the current part. -/
theorem foldlM_of_passes {a b : Nesting}
    (h : (partScanner source parts pending).Passes a cs b) (current rest : List Char) :
    (cs ++ rest).foldlM (BranchScan.step source) ⟨parts, current, pending, a⟩ =
      rest.foldlM (BranchScan.step source) ⟨parts, cs.reverse ++ current, pending, b⟩ := by
  have hcons (scan : List Char → Except Error BranchScan) : ∀ (cs current : List Char),
      cs.foldr (partScanner source parts pending).cons scan current =
        scan (cs.reverse ++ current) := by
    intro cs
    induction cs with
    | nil => exact fun _ => rfl
    | cons c cs ih =>
      intro current
      have hfirst := ih (c :: current)
      rw [List.reverse_cons, List.append_assoc]
      exact hfirst
  exact (congrFun (h rest) current).trans (hcons _ cs current)

end MarkupTemplate.Css
