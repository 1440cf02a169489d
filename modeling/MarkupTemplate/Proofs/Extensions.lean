import MarkupTemplate.Proofs.BranchReading
import MarkupTemplate.Proofs.Locality

/-!
# Paths behind paths

A text that is read as a location path is read as further steps when it is put behind the text of
another path. What it was read from is arbitrary, so its predicates are known only as far as they
are inside of brackets.

* `stepHead_eq_some` — the text of a step begins with an axis and a node test, which are read alike
  whatever follows.
* `predicates_behind`, `step_behind`, `furtherSteps_behind` — predicates and steps in a longer text.
* `extends_of_read_root`, `extends_of_read_context` — every location path extends others.
-/

namespace MarkupTemplate.XPath

variable {cs ds rest r t u : List Char} {a : Axis} {test : NodeTest} {e : Expr} {es : List Expr}
  {s : Step} {ss : List Step} {depth depth' : Nat}

/-! ## Ends of tokens -/

theorem skip_append_of_ne_nil (h : skip cs ≠ []) (t : List Char) :
    skip (cs ++ t) = skip cs ++ t := by
  rw [skip, List.dropWhile_append, if_neg (by simpa [skip] using h)]
  rfl

theorem skip_append_of_nil (h : skip cs = []) (t : List Char) : skip (cs ++ t) = skip t := by
  have hdrop : (cs.dropWhile isSpace).isEmpty = true := by
    rw [List.isEmpty_iff]
    exact h
  rw [skip, List.dropWhile_append, if_pos hdrop]
  rfl

/-- The text begins with predicates or with further steps, if with anything but blanks. -/
def Resumes (cs : List Char) : Prop :=
  ∀ c ∈ (skip cs).head?, c = '[' ∨ c = '/'

theorem tokenEnds_blank {c : Char} (hc : isSpace c = true) (h : ∀ d ∈ (skip cs).head?, d ≠ '(') :
    TokenEnds (c :: cs) := by
  refine ⟨?_, ?_⟩
  · simp only [List.head?_cons, Option.mem_def, Option.some.injEq]
    rintro _ rfl
    simp only [isSpace, Bool.or_eq_true, decide_eq_true_eq] at hc
    rcases hc with ((rfl | rfl) | rfl) | rfl <;> decide
  · rw [skip, List.dropWhile_cons_of_pos hc]
    exact h

theorem Resumes.tokenEnds (h : Resumes cs) : TokenEnds cs := by
  cases cs with
  | nil => exact PathEnds.nil.toTokenEnds
  | cons c cs =>
    by_cases hc : isSpace c = true
    · refine tokenEnds_blank hc fun d hd => ?_
      have hskip : skip (c :: cs) = skip cs := List.dropWhile_cons_of_pos hc
      rcases h d (hskip ▸ hd) with rfl | rfl <;> decide
    · rw [Bool.not_eq_true] at hc
      have hhead := h c (by rw [skip_cons hc]; rfl)
      rcases hhead with rfl | rfl
      · exact .bracket cs
      · exact (Stops.slash cs).toTokenEnds

theorem Resumes.tokenEnds_append (h : Resumes cs) (ht : PathEnds t) : TokenEnds (cs ++ t) := by
  by_cases hskip : skip cs = []
  · cases cs with
    | nil => exact ht.toTokenEnds
    | cons c cs =>
      have hc : isSpace c = true := by
        by_contra hc
        rw [skip_cons (by simpa using hc)] at hskip
        cases hskip
      have hrest : skip cs = [] := (List.dropWhile_cons_of_pos hc).symm.trans hskip
      refine tokenEnds_blank hc ?_
      change ∀ d ∈ (skip (cs ++ t)).head?, d ≠ '('
      rw [skip_append_of_nil hrest]
      exact ht.no_call
  · refine Resumes.tokenEnds fun c hc => h c ?_
    rw [skip_append_of_ne_nil hskip, List.head?_append_of_ne_nil _ hskip] at hc
    exact hc

/-! ## Heads of steps -/

theorem simpleName_eq_some {n : List Char} (h : simpleName cs = some (n, r)) :
    isSimpleName n = true ∧ cs = n ++ r := by
  cases cs with
  | nil => cases h
  | cons c cs =>
    rw [simpleName] at h
    split at h
    · rename_i hc
      obtain ⟨rfl, rfl⟩ := Prod.mk.inj (Option.some.inj h)
      refine ⟨?_, by simp⟩
      rw [isSimpleName, hc, Bool.true_and, List.all_eq_true]
      exact fun d hd => List.mem_takeWhile_imp hd
    · cases h

theorem isName_pair {n m : List Char} (hn : isSimpleName n = true) (hm : isSimpleName m = true) :
    isName (n ++ ':' :: m) = true := by
  have hcolon {n : List Char} (hn : isSimpleName n = true) : ':' ∉ n := fun hmem => by
    have hchar := isNameChar_of_mem_simpleName hn hmem
    revert hchar
    decide
  rw [isName, Text.splitOn_append, Text.splitOn_of_not_mem (hcolon hn),
    Text.splitOn_of_not_mem (hcolon hm)]
  change (isSimpleName n && isSimpleName m) = true
  rw [hn, hm]
  rfl

/-- A name that is read where tokens end is a name. -/
theorem name_eq_some {n : String} (h : name cs = some (n, r)) (hr : TokenEnds r) :
    isName n.toList = true ∧ cs = n.toList ++ r := by
  rw [name] at h
  split at h
  · cases h
  · rename_i first rest hfirst
    obtain ⟨hn, rfl⟩ := simpleName_eq_some hfirst
    split at h
    · rename_i second rest' hsecond
      obtain ⟨hm, rfl⟩ := simpleName_eq_some hsecond
      obtain ⟨rfl, rfl⟩ := Prod.mk.inj (Option.some.inj h)
      rw [String.toList_ofList]
      exact ⟨isName_pair hn hm, by simp⟩
    · obtain ⟨-, rfl⟩ := Prod.mk.inj (Option.some.inj h)
      exact absurd rfl (hr.head ':' (by simp)).2.2.1
  · rename_i first rest _ hfirst
    obtain ⟨hn, rfl⟩ := simpleName_eq_some hfirst
    obtain ⟨rfl, rfl⟩ := Prod.mk.inj (Option.some.inj h)
    rw [String.toList_ofList]
    exact ⟨isName_of_isSimpleName hn, rfl⟩

/-- The text of a node test, which may have blanks at its parentheses. -/
inductive TestText : List Char → NodeTest → Prop
  | any : TestText ['*'] .any
  | name {n : String} : isName n.toList = true → TestText n.toList (.name n)
  | kind {w v v' : List Char} {test : NodeTest} : (w, test) ∈ kindNames →
      (∀ c ∈ v, isSpace c = true) → (∀ c ∈ v', isSpace c = true) →
      TestText (w ++ (v ++ '(' :: (v' ++ [')']))) test

/-- The blanks in front of a text. -/
theorem exists_blanks (cs : List Char) : ∃ v, (∀ c ∈ v, isSpace c = true) ∧ cs = v ++ skip cs :=
  ⟨cs.takeWhile isSpace, fun _ hc => List.mem_takeWhile_imp hc,
    (List.takeWhile_append_dropWhile (p := isSpace)).symm⟩

theorem sign?_eq_some {c : Char} (h : sign? c cs = some r) :
    ∃ u, skip cs = c :: u ∧ r = skip u := by
  rw [sign?] at h
  split at h
  · rename_i d u hskip
    split at h
    · rename_i hd
      exact ⟨u, hd ▸ hskip, (Option.some.inj h).symm⟩
    · cases h
  · cases h

theorem kindTest_eq_some (h : kindTest cs = some (test, r)) :
    ∃ h, cs = h ++ r ∧ TestText h test := by
  rw [kindTest] at h
  split at h
  · cases h
  · rename_i found rest hword
    obtain ⟨w, hw, rfl⟩ := eq_append_of_wordIn? hword
    split at h
    · rename_i rest' hsign
      obtain ⟨rfl, rfl⟩ := Prod.mk.inj (Option.some.inj h)
      obtain ⟨u, hu, hskip⟩ := sign?_eq_some hsign
      obtain ⟨v, hv, hrest⟩ := exists_blanks rest
      obtain ⟨v', hv', hu'⟩ := exists_blanks u
      have hkind : (w.toList, found) ∈ kindNames := by
        simp only [List.mem_cons, Prod.mk.injEq, List.not_mem_nil, or_false] at hw
        rcases hw with ⟨rfl, rfl⟩ | ⟨rfl, rfl⟩ | ⟨rfl, rfl⟩ <;> simp [kindNames]
      refine ⟨w.toList ++ (v ++ '(' :: (v' ++ [')'])), ?_, .kind hkind hv hv'⟩
      rw [hrest, hu, hu', ← hskip]
      simp
    · cases h

theorem nodeTest_eq_some (h : nodeTest cs = some (test, r)) (hr : TokenEnds r) :
    ∃ h, cs = h ++ r ∧ TestText h test := by
  by_cases hstar : ∃ t, cs = '*' :: t
  · obtain ⟨t, rfl⟩ := hstar
    obtain ⟨rfl, rfl⟩ := Prod.mk.inj (Option.some.inj h)
    exact ⟨['*'], rfl, .any⟩
  · rw [nodeTest_of_head fun c hc => ?_, Option.or_eq_some_iff] at h
    · rcases h with h | ⟨-, h⟩
      · exact kindTest_eq_some h
      · obtain ⟨⟨n, r'⟩, hname, heq⟩ := Option.map_eq_some_iff.1 h
        obtain ⟨rfl, rfl⟩ := Prod.mk.inj heq
        obtain ⟨hn, rfl⟩ := name_eq_some hname hr
        exact ⟨n.toList, rfl, .name hn⟩
    · rintro rfl
      obtain ⟨t, rfl⟩ := List.head?_eq_some_iff.1 hc
      exact hstar ⟨t, rfl⟩

namespace TestText

theorem kindTest_eq {w v v' : List Char} (hw : (w, test) ∈ kindNames)
    (hv : ∀ c ∈ v, isSpace c = true) (hv' : ∀ c ∈ v', isSpace c = true) (rest : List Char) :
    kindTest (w ++ (v ++ '(' :: (v' ++ ')' :: rest))) = some (test, rest) := by
  have hsign : sign? '(' (v ++ '(' :: (v' ++ ')' :: rest)) = some (')' :: rest) := by
    rw [sign?, skip_blanks hv, skip_cons (by decide)]
    simp only [if_true, skip_blanks hv', skip_cons (c := ')') (by decide)]
  have hword : wordIn? [("text", NodeTest.text), ("node", .node), ("comment", .comment)]
      (w ++ (v ++ '(' :: (v' ++ ')' :: rest))) =
        some (test, v ++ '(' :: (v' ++ ')' :: rest)) := by
    simp only [kindNames, List.mem_cons, Prod.mk.injEq, List.not_mem_nil, or_false] at hw
    rcases hw with ⟨rfl, rfl⟩ | ⟨rfl, rfl⟩ | ⟨rfl, rfl⟩ <;> rfl
  rw [kindTest, hword]
  simp only [hsign]

theorem reads (h : TestText cs test) : TestReads cs test := by
  cases h with
  | any => exact .any
  | @name n hn =>
    have htest := TestReads.name hn
    rwa [String.ofList_toList] at htest
  | @kind w v v' _ hw hv hv' =>
    refine ⟨⟨w ++ (v ++ '(' :: v'), ')', by simp, by decide⟩, fun rest _ => ?_⟩
    have hstar : ∀ c ∈ (w ++ (v ++ '(' :: (v' ++ ')' :: rest))).head?, c ≠ '*' := by
      simp only [kindNames, List.mem_cons, Prod.mk.injEq, List.not_mem_nil, or_false] at hw
      rcases hw with ⟨rfl, rfl⟩ | ⟨rfl, rfl⟩ | ⟨rfl, rfl⟩ <;> simp
    have htext : w ++ (v ++ '(' :: (v' ++ [')'])) ++ rest =
        w ++ (v ++ '(' :: (v' ++ ')' :: rest)) := by simp
    rw [htext, nodeTest_of_head hstar, kindTest_eq hw hv hv']
    rfl

/-- Without an axis the test is one of the children. -/
theorem stepHead_child (h : TestText cs test) (hr : TokenEnds rest) :
    stepHead (cs ++ rest) = some ((.child, test), rest) := by
  cases h with
  | any => rfl
  | @name n hn =>
    have hhead := (HeadReads.child hn).reads rest hr
    rwa [String.ofList_toList] at hhead
  | @kind w v v' _ hw hv hv' =>
    have hreads := (reads (.kind hw hv hv')).reads rest hr
    have haxis : axis (w ++ (v ++ '(' :: (v' ++ [')'])) ++ rest) =
        (.child, w ++ (v ++ '(' :: (v' ++ [')'])) ++ rest) := by
      simp only [kindNames, List.mem_cons, Prod.mk.injEq, List.not_mem_nil, or_false] at hw
      rcases hw with ⟨rfl, -⟩ | ⟨rfl, -⟩ | ⟨rfl, -⟩ <;> rfl
    rw [stepHead_of_head fun c hc => ?_, haxis, hreads]
    · rfl
    · simp only [kindNames, List.mem_cons, Prod.mk.injEq, List.not_mem_nil, or_false] at hw
      rcases hw with ⟨rfl, -⟩ | ⟨rfl, -⟩ | ⟨rfl, -⟩ <;>
        · obtain rfl := Option.some.inj hc
          decide

end TestText

/-- An axis and a node test that are read where tokens end are read alike in front of all else. -/
theorem stepHead_eq_some (h : stepHead cs = some ((a, test), r)) (hr : TokenEnds r) :
    ∃ h, cs = h ++ r ∧ ∀ rest, TokenEnds rest → stepHead (h ++ rest) = some ((a, test), rest) := by
  unfold stepHead at h
  split at h
  · simp only [Option.some.injEq, Prod.mk.injEq] at h
    obtain ⟨⟨rfl, rfl⟩, rfl⟩ := h
    exact ⟨['.', '.'], rfl, fun rest _ => rfl⟩
  · simp only [Option.some.injEq, Prod.mk.injEq] at h
    obtain ⟨⟨rfl, rfl⟩, rfl⟩ := h
    exact ⟨['.'], rfl, HeadReads.point.reads⟩
  · obtain ⟨⟨found, r'⟩, hfound, heq⟩ := Option.map_eq_some_iff.1 h
    simp only [Prod.mk.injEq] at heq
    obtain ⟨⟨rfl, rfl⟩, rfl⟩ := heq
    obtain ⟨text, rfl, htext⟩ := nodeTest_eq_some hfound hr
    exact ⟨'@' :: text, rfl, (HeadReads.attribute htext.reads).reads⟩
  · generalize haxis : axis cs = head at h
    obtain ⟨b, ds⟩ := head
    obtain ⟨⟨found, r'⟩, hfound, heq⟩ := Option.map_eq_some_iff.1 h
    simp only [Prod.mk.injEq] at heq
    obtain ⟨⟨rfl, rfl⟩, rfl⟩ := heq
    obtain ⟨text, rfl, hreads⟩ := nodeTest_eq_some hfound hr
    by_cases hcolons : ∃ b v, wordIn? axisNames cs = some (b, ':' :: ':' :: v)
    · obtain ⟨c, v, hword⟩ := hcolons
      have hfound : axis cs = (c, v) := by simp only [axis, hword]
      obtain ⟨rfl, rfl⟩ := Prod.mk.inj (haxis.symm.trans hfound)
      obtain ⟨w, hw, rfl⟩ := eq_append_of_wordIn? hword
      exact ⟨w.toList ++ ':' :: ':' :: text, by simp, (HeadReads.axis hw hreads.reads).reads⟩
    · have hchild : axis cs = (.child, cs) :=
        axis_of_no_colons fun b v heq => hcolons ⟨b, v, heq⟩
      obtain ⟨rfl, rfl⟩ := Prod.mk.inj (haxis.symm.trans hchild)
      exact ⟨text, rfl, fun rest => hreads.stepHead_child⟩

/-! ## Steps in longer texts -/

theorem tail_skip_append (cs t : List Char) : Tail (skip (cs ++ t)) (skip cs ++ t) := by
  by_cases h : skip cs = []
  · rw [skip_append_of_nil h, h, List.nil_append]
    exact .inr rfl
  · rw [skip_append_of_ne_nil h]
    exact .refl _

theorem predicate_eq_some {nested : Parser Expr} (h : predicate nested cs = some (e, r)) :
    ∃ u v w, skip cs = '[' :: u ∧ nested (skip u) = some (e, v) ∧ skip v = ']' :: w ∧
      r = skip w := by
  rw [predicate] at h
  split at h
  · cases h
  · rename_i u' hsign
    obtain ⟨u, hu, rfl⟩ := sign?_eq_some hsign
    split at h
    · cases h
    · rename_i found v hnested
      obtain ⟨r', hclose, heq⟩ := Option.map_eq_some_iff.1 h
      obtain ⟨rfl, rfl⟩ := Prod.mk.inj heq
      obtain ⟨w, hw, hr⟩ := sign?_eq_some hclose
      exact ⟨u, v, w, hu, hnested, hw, hr⟩

/-- A predicate is read alike in a longer text, as its brackets are closed. -/
theorem predicate_behind (h : predicate (expr depth) cs = some (e, r)) (hd : cs.length ≤ depth)
    (hd' : cs.length ≤ depth') {c' : List Char} (ht : Tail c' (cs ++ t)) :
    ∃ r', Tail r' (r ++ t) ∧ predicate (expr depth') c' = some (e, r') ∧
      r'.length < c'.length := by
  obtain ⟨u, v, w, hu, hnested, hw, rfl⟩ := predicate_eq_some h
  have hopen : skip c' = '[' :: (u ++ t) := by
    rw [ht.skipped, skip_append_of_ne_nil (by simp [hu]), hu]
    rfl
  have hlen : (skip u).length < cs.length := by
    have hcs := length_skip_le cs
    have hle := length_skip_le u
    rw [hu, List.length_cons] at hcs
    omega
  have hclosings : 0 < closings v := by
    rw [← closings_skip, hw, closings_closing (by decide)]
    exact Nat.succ_pos _
  cases nested_local hd hd' (skip u) hlen with
  | fails hnone =>
    rw [hnone] at hnested
    cases hnested
  | @takes found v' hsome hc hl hread =>
    rw [hsome] at hnested
    obtain ⟨rfl, rfl⟩ := Prod.mk.inj (Option.some.inj hnested)
    have hinside : Enclosed (skip u) := by
      rw [Enclosed, ← hc]
      exact hclosings
    have hinside' : Enclosed u := by
      rw [Enclosed, ← closings_skip]
      exact hinside
    have hclosed : skip (v' ++ t) = ']' :: (w ++ t) := by
      rw [skip_append_of_ne_nil (by simp [hw]), hw]
      rfl
    refine ⟨skip (w ++ t), tail_skip_append w t, ?_, ?_⟩
    · rw [predicate, sign?, hopen]
      simp only [if_true, hinside'.skip_append, hread hinside t]
      rw [sign?, hclosed]
      rfl
    · have hskipped := length_skip_le v'
      have hrest := length_skip_le (w ++ t)
      have hnested := length_skip_le u
      have hwhole := length_skip_le c'
      rw [hopen] at hwhole
      rw [hw] at hskipped
      simp only [List.length_cons, List.length_append] at hskipped hrest hwhole
      omega

/-- The text goes on with a step, or holds nothing but blanks. -/
def Resting (cs : List Char) : Prop :=
  (∃ u, cs = '/' :: u) ∨ skip cs = []

theorem Resting.resumes (h : Resting r) : Resumes r := by
  intro c hc
  rcases h with ⟨u, rfl⟩ | h
  · rw [skip_cons (by decide)] at hc
    exact .inr (Option.some.inj hc).symm
  · rw [h] at hc
    cases hc

theorem Resting.no_predicate (h : Resting r) (ht : PathEnds t) :
    ∀ c ∈ (skip (r ++ t)).head?, c ≠ '[' := by
  rcases h with ⟨u, rfl⟩ | h
  · rw [List.cons_append, skip_cons (by decide)]
    simp
  · rw [skip_append_of_nil h]
    exact ht.no_predicate

theorem resumes_of_predicates {nested : Parser Expr} (h : Runs (predicate nested) es cs r)
    (hr : Resting r) : Resumes cs := by
  cases h with
  | done => exact hr.resumes
  | next h =>
    obtain ⟨u, -, -, hu, -⟩ := predicate_eq_some h
    intro c hc
    rw [hu] at hc
    exact .inl (Option.some.inj hc).symm

theorem predicates_behind (depth' : Nat) (h : Runs (predicate (expr depth)) es cs r)
    (hr : Resting r) (ht : PathEnds t) (hd : cs.length ≤ depth) (hd' : cs.length ≤ depth') {c' : List Char}
    (hc : Tail c' (cs ++ t)) :
    ∃ r', Tail r' (r ++ t) ∧ Runs (predicate (expr depth')) es c' r' := by
  induction h generalizing c' with
  | done =>
    refine ⟨c', hc, .done ?_⟩
    rw [predicate, sign?_tail hc, sign?_eq_none (hr.no_predicate ht)]
  | next h hlt _ ih =>
    obtain ⟨r₁, htail, hread, hlt'⟩ := predicate_behind h hd hd' hc
    obtain ⟨r', htail', hruns⟩ := ih hr (by omega) (by omega) htail
    exact ⟨r', htail', .next hread hlt' hruns⟩

theorem runs_predicates (depth : Nat) (hd : cs.length ≤ depth) :
    ∃ es r, Runs (predicate (expr depth)) es cs r := by
  obtain ⟨es, r, hruns, -⟩ := runs_local cs.length cs (Nat.le_refl _) fun ds hds =>
    predicate_local (nested_local hd hd) hds
  exact ⟨es, r, hruns⟩

/-- A step is read alike in a longer text. -/
theorem step_behind (depth' : Nat) (h : step (expr depth) cs = some (s, r)) (hr : Resting r)
    (ht : PathEnds t) (hd : cs.length ≤ depth) (hd' : cs.length ≤ depth') :
    ∃ r', Tail r' (r ++ t) ∧ step (expr depth') (cs ++ t) = some (s, r') := by
  rw [step] at h
  split at h
  · cases h
  · rename_i a test r₀ hhead
    have hlen := (stepHead_local cs).length_le hhead
    obtain ⟨es, r₁, hruns⟩ := runs_predicates depth (Nat.le_trans hlen hd)
    rw [many_of_runs hruns] at h
    obtain ⟨rfl, rfl⟩ := Prod.mk.inj (Option.some.inj h)
    have hresumes := resumes_of_predicates hruns hr
    obtain ⟨text, rfl, hread⟩ := stepHead_eq_some hhead hresumes.tokenEnds
    obtain ⟨r', htail, hruns'⟩ :=
      predicates_behind depth' hruns hr ht (by omega) (by omega) (.refl _)
    refine ⟨r', htail, ?_⟩
    rw [step, List.append_assoc, hread _ (hresumes.tokenEnds_append ht)]
    simp only [many_of_runs hruns']

theorem resting_of_furtherSteps {nested : Parser Expr} {lists : List (List Step)}
    (h : Runs (furtherStep nested) lists cs r) (hr : skip r = []) : Resting cs := by
  cases h with
  | done => exact .inr hr
  | next h => exact .inl (slash_of_furtherStep h)

/-- A further step is read alike in a longer text. -/
theorem furtherStep_behind (depth' : Nat) (h : furtherStep (expr depth) cs = some (ss, r))
    (hr : Resting r) (ht : PathEnds t) (hd : cs.length ≤ depth + 1) (hd' : cs.length ≤ depth' + 1) :
    ∃ r', Tail r' (r ++ t) ∧ furtherStep (expr depth') (cs ++ t) = some (ss, r') := by
  unfold furtherStep at h
  split at h
  · obtain ⟨⟨s, r₁⟩, hstep, heq⟩ := Option.map_eq_some_iff.1 h
    obtain ⟨rfl, rfl⟩ := Prod.mk.inj heq
    simp only [List.length_cons] at hd hd'
    obtain ⟨r', htail, hstep'⟩ := step_behind depth' hstep hr ht (by omega) (by omega)
    refine ⟨r', htail, ?_⟩
    rw [List.cons_append, List.cons_append, furtherStep, hstep']
    rfl
  · rename_i u hnot
    obtain ⟨⟨s, r₁⟩, hstep, heq⟩ := Option.map_eq_some_iff.1 h
    obtain ⟨rfl, rfl⟩ := Prod.mk.inj heq
    simp only [List.length_cons] at hd hd'
    obtain ⟨r', htail, hstep'⟩ := step_behind depth' hstep hr ht (by omega) (by omega)
    refine ⟨r', htail, ?_⟩
    rw [List.cons_append, furtherStep_step, hstep']
    · rfl
    · -- a step is not empty, so the slash cannot be one that only follows it
      intro v heq
      cases u with
      | nil => cases hstep
      | cons c u =>
        obtain ⟨rfl, -⟩ := List.cons.inj heq
        exact hnot u rfl
  · cases h

theorem furtherSteps_behind (depth' : Nat) {lists : List (List Step)}
    (h : Runs (furtherStep (expr depth)) lists cs r) (hr : skip r = []) (ht : PathEnds t)
    (hd : cs.length ≤ depth + 1) (hd' : cs.length ≤ depth' + 1) {c' : List Char}
    (hc : Tail c' (cs ++ t)) :
    ∃ r', skip r' = skip t ∧ Runs (furtherStep (expr depth')) lists c' r' := by
  induction h generalizing c' with
  | done =>
    have hskip : skip c' = skip t := hc.skipped.trans (skip_append_of_nil hr t)
    refine ⟨c', hskip, .done (furtherStep_eq_none _ ?_)⟩
    rintro c hmem rfl
    have hslash : skip c' = c' := skip_of_head fun d hd => by
      rw [Option.mem_unique hd hmem]
      decide
    rw [← hslash, hskip] at hmem
    exact ht.no_step '/' hmem rfl
  | next h hlt hruns ih =>
    obtain ⟨u, rfl⟩ := slash_of_furtherStep h
    have hslash : isSpace '/' = false := by decide
    obtain rfl := hc.eq_of_head (by simpa using hslash)
    obtain ⟨r₁, htail, hread⟩ :=
      furtherStep_behind depth' h (resting_of_furtherSteps hruns hr) ht hd hd'
    obtain ⟨r', hskip, hruns'⟩ := ih hr (by omega) (by omega) htail
    refine ⟨r', hskip, .next hread ?_ hruns'⟩
    have := htail.length_le
    simp only [List.length_append] at this ⊢
    omega

/-- What is read as further steps extends paths, if there are any and nothing is left. -/
theorem extends_of_runs {lists : List (List Step)} {first : List Step}
    (h : Runs (furtherStep (expr depth)) (first :: lists) cs r) (hr : skip r = [])
    (hd : cs.length ≤ depth + 1) : Extends cs (first :: lists).flatten := by
  obtain ⟨u, rfl⟩ : ∃ u, cs = '/' :: u := by
    cases h with
    | next h => exact slash_of_furtherStep h
  refine ⟨fun rest _ => .slash _, fun depth' hd' rest hrest c' hc => ?_⟩
  obtain ⟨r', hskip, hruns⟩ :=
    furtherSteps_behind depth' h hr hrest hd (Nat.le_succ_of_le hd') hc
  exact ⟨first :: lists, r', hskip, hruns, rfl⟩

/-! ## Location paths -/

section Inversion

variable {nested : Parser Expr} {start : Start}

theorem chainWithin_cases {operand : Parser Expr} {operator : Parser Operator} :
    ∀ (fuel : Nat) (left : Expr) (cs : List Char),
      chainWithin operand operator fuel left cs = some (e, r) →
        (e = left ∧ r = cs) ∨ ∃ o e₁ e₂, e = .binary o e₁ e₂
  | 0, left, cs, h => by
    obtain ⟨rfl, rfl⟩ := Prod.mk.inj (Option.some.inj h)
    exact .inl ⟨rfl, rfl⟩
  | fuel + 1, left, cs, h => by
    rw [chainWithin] at h
    split at h
    · obtain ⟨rfl, rfl⟩ := Prod.mk.inj (Option.some.inj h)
      exact .inl ⟨rfl, rfl⟩
    · split at h
      · cases h
      · rcases chainWithin_cases fuel _ _ h with ⟨rfl, -⟩ | hbinary
        · exact .inr ⟨_, _, _, rfl⟩
        · exact .inr hbinary

theorem chain_path {operand : Parser Expr} {operator : Parser Operator}
    (h : chain operand operator cs = some (.path start ss, r)) :
    operand cs = some (.path start ss, r) := by
  rw [chain] at h
  split at h
  · cases h
  · rename_i left rest hleft
    rcases chainWithin_cases _ _ _ h with ⟨rfl, rfl⟩ | ⟨o, e₁, e₂, hbinary⟩
    · exact hleft
    · cases hbinary

/-- No operator makes a path. -/
theorem spacedPathExpr_of_parserAt : ∀ (k : Nat),
    parserAt nested k cs = some (.path start ss, r) →
      spacedPathExpr nested cs = some (.path start ss, r)
  | 0, h => h
  | 1, h => chain_path h
  | 2, h => by
    rw [parserAt, unaryExpr] at h
    split at h
    · obtain ⟨found, -, heq⟩ := Option.map_eq_some_iff.1 h
      cases heq
    · exact chain_path h
  | k + 3, h => spacedPathExpr_of_parserAt (k + 2) (chain_path h)

/-- No function, number or string is a path, and nothing in parentheses is one without them. -/
theorem primary_ne_path (hparen : ∀ c ∈ (skip cs).head?, c ≠ '(') :
    primary nested cs ≠ some (.path start ss, r) := by
  rw [primary_eq, orElse, orElse, orElse, parenthesized_eq, inBrackets, sign?_eq_none hparen]
  simp only [mapped, functionCall_eq, andThen, ne_eq, Option.or_eq_some_iff,
    Option.map_eq_some_iff, Prod.mk.injEq, reduceCtorEq, false_and, and_false, exists_false,
    false_or, Option.or_none, Option.bind_eq_some_iff]
  rintro ⟨-, -, found, -, hcall⟩
  split at hcall
  · cases hcall
  · obtain ⟨_, -, heq⟩ := Option.map_eq_some_iff.1 hcall
    cases heq

theorem continued_eq_path {steps : List Step} (hstart : ∀ source, start ≠ .nodes source)
    (h : continued e steps = .path start ss) : ∃ first, e = .path start first ∧
      ss = first ++ steps := by
  unfold continued at h
  split at h
  · rename_i hempty
    exact ⟨ss, h, by rw [List.isEmpty_iff.1 hempty, List.append_nil]⟩
  · split at h
    · obtain ⟨rfl, rfl⟩ := Expr.path.inj h
      exact ⟨_, rfl, rfl⟩
    · exact absurd (Expr.path.inj h).1.symm (hstart _)

theorem filtered_ne_path (hparen : ∀ c ∈ (skip cs).head?, c ≠ '(') :
    filtered nested cs ≠ some (.path start ss, r) := by
  intro h
  rw [filtered] at h
  split at h
  · cases h
  · rename_i found rest hprimary
    obtain ⟨heq, -⟩ := Prod.mk.inj (Option.some.inj h)
    split at heq
    · subst heq
      exact primary_ne_path hparen hprimary
    · cases heq

theorem runs_furtherSteps (hd : cs.length ≤ depth) :
    ∃ lists r, Runs (furtherStep (expr depth)) lists cs r := by
  obtain ⟨lists, r, hruns, -⟩ := runs_local cs.length cs (Nat.le_refl _) fun ds hds =>
    furtherStep_local (nested_local hd hd) hds
  exact ⟨lists, r, hruns⟩

/-- What is read as a path without parentheses is read as a first step and further steps. -/
theorem pathExpr_eq_some (hd : cs.length ≤ depth) (hstart : ∀ source, start ≠ .nodes source)
    (hparen : ∀ c ∈ (skip cs).head?, c ≠ '(')
    (h : pathExpr (expr depth) cs = some (.path start ss, r)) :
    ∃ first r₁ lists, pathHead (expr depth) cs = some ((start, first), r₁) ∧
      Runs (furtherStep (expr depth)) lists r₁ r ∧ ss = first ++ lists.flatten := by
  rw [pathExpr] at h
  split at h
  · cases h
  · rename_i found rest hfound
    generalize hfurther : furtherSteps (expr depth) rest = further at h
    obtain ⟨steps, r'⟩ := further
    obtain ⟨heq, rfl⟩ := Prod.mk.inj (Option.some.inj h)
    obtain ⟨first, rfl, rfl⟩ := continued_eq_path hstart heq
    split at hfound
    · rename_i hfiltered
      rw [hfound] at hfiltered
      exact absurd hfiltered (filtered_ne_path hparen)
    · rw [locationPath] at hfound
      split at hfound
      · cases hfound
      · rename_i start' first' r₁ hhead
        have hlen := (pathHead_local (nested_local hd hd) (Nat.le_refl _)).length_le hhead
        obtain ⟨lists, r₂, hruns⟩ := runs_furtherSteps (Nat.le_trans hlen hd)
        rw [furtherSteps_eq hruns] at hfound
        obtain ⟨heq', rfl⟩ := Prod.mk.inj (Option.some.inj hfound)
        obtain ⟨rfl, rfl⟩ := Expr.path.inj heq'
        obtain ⟨rfl, rfl⟩ := Prod.mk.inj ((furtherSteps_ended hruns).symm.trans hfurther)
        exact ⟨first', r₁, lists, hhead, hruns, List.append_nil _⟩

end Inversion

theorem isSpace_of_not_isBlank {c : Char} (h : Text.isBlank c = false) : isSpace c = false := by
  cases hspace : isSpace c with
  | false => rfl
  | true =>
    simp only [isSpace, Bool.or_eq_true, decide_eq_true_eq] at hspace
    rcases hspace with ((rfl | rfl) | rfl) | rfl <;> cases h

/-- The text is read as an expression when nothing is around it. -/
theorem expr_of_read {cs : List Char} (hb : Begins cs) (hf : Finishes cs)
    (h : Expr.read (String.ofList cs) = .ok e) :
    parserAt (expr cs.length) 8 cs = some (e, []) := by
  simp only [Expr.read, String.toList_ofList, trim_eq_self hb hf] at h
  split at h
  · rename_i heq
    obtain rfl := Except.ok.inj h
    exact heq
  · cases h
  · cases h

theorem runs_of_read {start : Start} {cs : List Char} (hb : Begins cs) (hf : Finishes cs)
    (hstart : ∀ source, start ≠ .nodes source) (hparen : ∀ c ∈ cs.head?, c ≠ '(')
    (h : Expr.read (String.ofList cs) = .ok (.path start ss)) :
    ∃ first r₁ r lists, pathHead (expr cs.length) cs = some ((start, first), r₁) ∧
      Runs (furtherStep (expr cs.length)) lists r₁ r ∧ skip r = [] ∧
        ss = first ++ lists.flatten := by
  have hskip : skip cs = cs := by
    obtain ⟨c, t, rfl, hc⟩ := hb
    exact skip_cons (isSpace_of_not_isBlank hc) t
  have hread := spacedPathExpr_of_parserAt 8 (expr_of_read hb hf h)
  rw [spacedPathExpr, hskip] at hread
  obtain ⟨⟨e, r⟩, hpath, heq⟩ := Option.map_eq_some_iff.1 hread
  obtain ⟨rfl, hr⟩ := Prod.mk.inj heq
  obtain ⟨first, r₁, lists, hhead, hruns, rfl⟩ :=
    pathExpr_eq_some (Nat.le_refl _) hstart (by rw [hskip]; exact hparen) hpath
  exact ⟨first, r₁, r, lists, hhead, hruns, hr, rfl⟩

theorem length_step (h : step (expr depth) cs = some (s, r)) (hd : cs.length ≤ depth) :
    r.length ≤ cs.length :=
  (step_local (nested_local hd hd) (Nat.le_refl _)).length_le h

/-- The first step from the root is a further step, unless there is none. -/
theorem furtherStep_of_pathHead (h : pathHead (expr depth) cs = some ((.root, ss), r))
    (hd : cs.length ≤ depth) :
    (furtherStep (expr depth) cs = some (ss, r) ∧ r.length < cs.length) ∨
      ss = [] ∧ furtherStep (expr depth) r = none := by
  unfold pathHead at h
  split at h
  · obtain ⟨⟨s, r₁⟩, hstep, heq⟩ := Option.map_eq_some_iff.1 h
    simp only [Prod.mk.injEq, true_and] at heq
    obtain ⟨rfl, rfl⟩ := heq
    simp only [List.length_cons] at hd
    have hlen := length_step hstep (by omega)
    refine .inl ⟨by rw [furtherStep, hstep]; rfl, ?_⟩
    simp only [List.length_cons]
    omega
  · rename_i u hnot
    have hslash : ∀ t, u ≠ '/' :: t := fun t heq => hnot t (by rw [heq])
    simp only [List.length_cons] at hd
    split at h
    · rename_i s r₁ hstep
      simp only [Option.some.injEq, Prod.mk.injEq, true_and] at h
      obtain ⟨rfl, rfl⟩ := h
      have hlen := length_step hstep (by omega)
      refine .inl ⟨by rw [furtherStep_step _ hslash, hstep]; rfl, Nat.lt_succ_of_le hlen⟩
    · simp only [Option.some.injEq, Prod.mk.injEq, true_and] at h
      obtain ⟨rfl, rfl⟩ := h
      refine .inr ⟨rfl, furtherStep_eq_none _ ?_⟩
      rintro c hc rfl
      exact hslash _ (List.eq_cons_of_mem_head? hc)
  · obtain ⟨found, -, heq⟩ := Option.map_eq_some_iff.1 h
    cases heq

theorem step_of_pathHead (h : pathHead (expr depth) cs = some ((.context, ss), r)) :
    (∀ u, cs ≠ '/' :: u) ∧ ∃ s, ss = [s] ∧ step (expr depth) cs = some (s, r) := by
  unfold pathHead at h
  split at h
  · obtain ⟨found, -, heq⟩ := Option.map_eq_some_iff.1 h
    cases heq
  · split at h <;> cases h
  · rename_i hnot
    obtain ⟨⟨s, r₁⟩, hstep, heq⟩ := Option.map_eq_some_iff.1 h
    simp only [Prod.mk.injEq, true_and] at heq
    obtain ⟨rfl, rfl⟩ := heq
    exact ⟨hnot, s, rfl, hstep⟩

/-- A path from the root that is not in parentheses begins with a slash. -/
theorem slash_of_read_root {cs : List Char} (hb : Begins cs) (hf : Finishes cs)
    (hparen : ∀ c ∈ cs.head?, c ≠ '(')
    (h : Expr.read (String.ofList cs) = .ok (.path .root ss)) : ∃ u, cs = '/' :: u := by
  obtain ⟨first, r₁, r, lists, hhead, -⟩ := runs_of_read hb hf (by simp) hparen h
  unfold pathHead at hhead
  split at hhead
  · exact ⟨_, rfl⟩
  · exact ⟨_, rfl⟩
  · obtain ⟨found, -, heq⟩ := Option.map_eq_some_iff.1 hhead
    cases heq

/-- **A location path from the root extends other paths** by the steps that it is read as. -/
theorem extends_of_read_root {cs : List Char} (hf : Finishes cs) (hslash : ∃ u, cs = '/' :: u)
    (hne : ss ≠ []) (h : Expr.read (String.ofList cs) = .ok (.path .root ss)) :
    Extends cs ss := by
  obtain ⟨u, rfl⟩ := hslash
  obtain ⟨first, r₁, r, lists, hhead, hruns, hr, rfl⟩ :=
    runs_of_read ⟨'/', u, rfl, by decide⟩ hf (by simp) (by simp) h
  rcases furtherStep_of_pathHead hhead (Nat.le_refl _) with hfirst | ⟨rfl, hnone⟩
  · exact extends_of_runs (.next hfirst.1 hfirst.2 hruns) hr (Nat.le_succ _)
  · cases hruns with
    | done => exact absurd rfl hne
    | next hfirst =>
      rw [hnone] at hfirst
      cases hfirst

/-- **A location path from the context extends other paths** behind a slash. -/
theorem extends_of_read_context {cs : List Char} (hb : Begins cs) (hf : Finishes cs)
    (hparen : ∀ c ∈ cs.head?, c ≠ '(')
    (h : Expr.read (String.ofList cs) = .ok (.path .context ss)) :
    Extends ('/' :: cs) ss ∧ ∀ u, cs ≠ '/' :: u := by
  obtain ⟨first, r₁, r, lists, hhead, hruns, hr, rfl⟩ := runs_of_read hb hf (by simp) hparen h
  obtain ⟨hslash, s, rfl, hstep⟩ := step_of_pathHead hhead
  have hlen := length_step hstep (Nat.le_refl _)
  refine ⟨?_, hslash⟩
  have hfirst : furtherStep (expr cs.length) ('/' :: cs) = some ([s], r₁) := by
    rw [furtherStep_step _ hslash, hstep]
    rfl
  exact extends_of_runs (.next hfirst (Nat.lt_succ_of_le hlen) hruns) hr (Nat.le_refl _)

end MarkupTemplate.XPath
