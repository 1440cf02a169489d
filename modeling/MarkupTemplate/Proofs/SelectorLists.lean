import MarkupTemplate.Proofs.Continuations

/-!
# Lists put together

A selector list is compiled member by member. Two lists with a comma between them are compiled to the
members of both, if the first one ends outside of everything for the function that cuts lists. That
function takes quotes outside of brackets for the ends of strings, where the reading of members takes
them for letters of names. So a list may be read although it ends in a string, and the comma behind it
is then part of a name.

* `exists_lastMember` — the last member of a list, and what is in front of it.
* `splitTop_comma`, `splitTop_comma_inside` — a comma behind a list.
* `endsOutside_of_quotesEnclosed` — lists whose quotes all stand in brackets end outside of everything.
* `queries_comma` — **the main result**: exactly the lists that end outside of everything can be put in
  front of others.
-/

namespace MarkupTemplate.Css

open XPath (bind_eq_ok pure_eq_ok)

variable {source : String} {cs rest : List Char} {c : Char} {n : Nesting}

/-! ## Members of lists -/

/-- Where the function that cuts lists is behind a text. -/
def nestingAfter (n : Nesting) (cs : List Char) : Nesting :=
  cs.foldl (Nesting.next true) n

theorem nestingAfter_append (n : Nesting) (cs ds : List Char) :
    nestingAfter n (cs ++ ds) = nestingAfter (nestingAfter n cs) ds :=
  List.foldl_append

/-- Text that is not cut belongs to the first piece. -/
theorem splitTop_of_passes {piece : List Char} {pieces : List (List Char)}
    (h : splitter.Passes .top cs n) (hrest : splitFrom ',' n rest = piece :: pieces) :
    splitTop ',' (cs ++ rest) = (cs ++ piece) :: pieces := by
  have hsplit := h rest
  change splitTop ',' (cs ++ rest) = cs.foldr splitter.cons (splitFrom ',' n rest) at hsplit
  rw [hsplit, hrest, foldr_cons_splitter]

/-- Text that is not cut is a single piece, and a comma behind it is cut at outside of everything. -/
theorem splitTop_of_passes_top (h : splitter.Passes .top cs n) :
    splitTop ',' cs = [cs] ∧
      (n.isTop = true → ∀ ds, splitTop ',' (cs ++ ',' :: ds) = cs :: splitTop ',' ds) := by
  have hend : splitTop ',' (cs ++ []) = [cs ++ []] := splitTop_of_passes h rfl
  rw [List.append_nil] at hend
  refine ⟨hend, fun htop ds => ?_⟩
  rw [eq_top_of_isTop htop] at h
  have hcomma : splitTop ',' (cs ++ ',' :: ds) = (cs ++ []) :: splitTop ',' ds :=
    splitTop_of_passes h rfl
  rwa [List.append_nil] at hcomma

/-- A list ends with a member that is not cut, and what is in front of it is cut whatever follows. -/
theorem exists_lastMember (cs : List Char) : ∃ members front last, cs = front ++ last ∧
    nestingAfter .top front = .top ∧ splitter.Passes .top last (nestingAfter .top last) ∧
      ∀ rest, splitTop ',' (front ++ rest) = members ++ splitTop ',' rest := by
  -- From the back: a further character ends the last member, as a comma outside of everything, or it
  -- goes on in it.
  induction cs using List.reverseRecOn with
  | nil => exact ⟨[], [], [], rfl, rfl, .nil, fun _ => rfl⟩
  | append_singleton cs c ih =>
    obtain ⟨members, front, last, rfl, hfront, hlast, hcut⟩ := ih
    by_cases hcomma : (nestingAfter .top last).isTop = true ∧ c = ','
    · obtain ⟨htop, rfl⟩ := hcomma
      refine ⟨members ++ [last], front ++ last ++ [','], [], (List.append_nil _).symm, ?_, .nil,
        fun rest => ?_⟩
      · rw [nestingAfter_append, nestingAfter_append, hfront, eq_top_of_isTop htop]
        rfl
      · have htext : front ++ last ++ [','] ++ rest = front ++ (last ++ ',' :: rest) := by simp
        rw [htext, hcut, (splitTop_of_passes_top hlast).2 htop, List.append_assoc]
        rfl
    · refine ⟨members, front, last ++ [c], List.append_assoc .., hfront, hlast.append ?_, hcut⟩
      rw [nestingAfter_append]
      rw [not_and_or, Bool.not_eq_true] at hcomma
      exact splitter_passes hcomma rfl

/-- A list that ends outside of everything is cut at a comma behind it. -/
theorem splitTop_comma (h : (nestingAfter .top cs).isTop = true) (ds : List Char) :
    splitTop ',' (cs ++ ',' :: ds) = splitTop ',' cs ++ splitTop ',' ds := by
  obtain ⟨members, front, last, rfl, hfront, hlast, hcut⟩ := exists_lastMember cs
  rw [nestingAfter_append, hfront] at h
  obtain ⟨hend, hcomma⟩ := splitTop_of_passes_top hlast
  rw [List.append_assoc, hcut, hcut, hcomma h, hend, List.append_assoc]
  rfl

/-- A list that ends inside of something has a last member that goes on with a comma behind it. -/
theorem splitTop_comma_inside (h : (nestingAfter .top cs).isTop = false) (ds : List Char) :
    ∃ members last piece more, splitTop ',' cs = members ++ [last] ∧
      splitTop ',' (cs ++ ',' :: ds) = members ++ (last ++ ',' :: piece) :: more := by
  obtain ⟨members, front, last, rfl, hfront, hlast, hcut⟩ := exists_lastMember cs
  rw [nestingAfter_append, hfront] at h
  have hpasses : splitter.Passes (nestingAfter .top last) [','] _ := splitter_passes (.inl h) rfl
  obtain ⟨piece, more, hsplit⟩ := List.exists_cons_of_ne_nil
    (splitFrom_ne_nil ',' ((nestingAfter .top last).next true ',') ds)
  have hpiece : splitFrom ',' (nestingAfter .top last) (',' :: ds) = (',' :: piece) :: more :=
    (hpasses ds).trans (congrArg (splitter.cons ',') hsplit)
  refine ⟨members, last, piece, more, ?_, ?_⟩
  · rw [hcut, (splitTop_of_passes_top hlast).1]
  · rw [List.append_assoc, hcut, splitTop_of_passes hlast hpiece]

/-! ## Lists -/

/-- The paths that a selector list is compiled to, one for each of its members. -/
def queries (source : String) : Except Error (List String) :=
  (·.map branchQuery) <$> readBranches source

/-- For the function that cuts lists, the list ends outside of brackets, parentheses and quotes. -/
def endsOutside (source : String) : Bool :=
  (nestingAfter .top source.toList).isTop

/-- In a text whose first character has the nesting `n`, every quotation mark stands in brackets or in
parentheses. -/
def quotesEnclosedFrom (n : Nesting) : List Char → Bool
  | [] => true
  | c :: cs => !(n.isTop && Nesting.isQuote c) && quotesEnclosedFrom (n.next true c) cs

/-- Every quotation mark of a list stands in brackets or in parentheses. -/
def quotesEnclosed (source : String) : Bool :=
  quotesEnclosedFrom .top source.toList

theorem queries_of_readBranches {branches : List Branch} {paths : List String}
    (h : readBranches source = .ok branches) (hpaths : branches.map branchQuery = paths) :
    queries source = .ok paths := by
  rw [queries, h, ← hpaths]
  rfl

theorem queries_eq_ok {paths : List String} : queries source = .ok paths ↔ ∃ branches,
    (splitTop ',' source.toList).mapM (fun member => readBranch source (Text.trim member)) =
      .ok branches ∧ paths = branches.map branchQuery := by
  constructor
  · intro h
    obtain ⟨branches, hbranches, rfl⟩ := map_eq_ok h
    exact ⟨branches, hbranches, rfl⟩
  · rintro ⟨branches, hbranches, rfl⟩
    rw [queries, readBranches, hbranches]
    rfl

theorem quotesEnclosedFrom_append (cs ds : List Char) (n : Nesting) :
    quotesEnclosedFrom n (cs ++ ds) =
      (quotesEnclosedFrom n cs && quotesEnclosedFrom (nestingAfter n cs) ds) := by
  induction cs generalizing n with
  | nil => rfl
  | cons c cs ih =>
    rw [List.cons_append, quotesEnclosedFrom, quotesEnclosedFrom, ih, Bool.and_assoc]
    rfl

/-- Quotes in brackets are the same for the function that cuts lists and for the one that cuts
branches. -/
theorem nestingAfter_of_quotesEnclosed (h : quotesEnclosedFrom n cs = true) :
    nestingAfter n cs = cs.foldl (Nesting.next false) n := by
  induction cs generalizing n with
  | nil => rfl
  | cons c cs ih =>
    rw [quotesEnclosedFrom, Bool.and_eq_true, Bool.not_eq_true', Bool.and_eq_false_iff] at h
    have hnext : n.next true c = n.next false c := by
      obtain ⟨depth, quote⟩ := n
      cases quote with
      | some q => rfl
      | none =>
        rcases h.1 with hdepth | hquote
        · have hdepth : depth ≠ 0 := by simpa [Nesting.isTop] using hdepth
          simp [Nesting.next, hdepth]
        · simp [Nesting.next, hquote]
    have hrest := ih h.2
    rw [hnext] at hrest
    exact (congrArg (fun m => nestingAfter m cs) hnext).trans hrest

theorem isPlain_of_combinator? {combinator : Combinator}
    (h : BranchScan.combinator? c = some combinator) : isPlain c = true := by
  unfold BranchScan.combinator? at h
  split_ifs at h with hc hc hc
  all_goals
    rw [hc]
    decide

theorem BranchScan.step_nesting {scan scan' : BranchScan} (h : step source scan c = .ok scan') :
    scan'.nesting = scan.nesting.next false c := by
  have hplain {scan : BranchScan} (htop : scan.nesting.isTop = true) (hc : isPlain c = true) :
      scan.flush.nesting = scan.nesting.next false c := by
    rw [flush_nesting, eq_top_of_isTop htop]
    exact (next_plain hc).symm
  rcases step_cases h with ⟨-, rfl⟩ | ⟨htop, hblank, rfl⟩ | ⟨htop, -, -, k, hk, rfl⟩
  · rfl
  · exact hplain htop (isPlain_of_isBlank hblank).1
  · exact hplain htop (isPlain_of_combinator? hk)

theorem BranchScan.foldlM_nesting {scan scan' : BranchScan}
    (h : cs.foldlM (step source) scan = .ok scan') :
    scan'.nesting = cs.foldl (Nesting.next false) scan.nesting := by
  induction cs generalizing scan with
  | nil =>
    obtain rfl := pure_eq_ok.1 h
    rfl
  | cons c cs ih =>
    rw [List.foldlM_cons] at h
    obtain ⟨next, hstep, hnext⟩ := bind_eq_ok.1 h
    rw [ih hnext, step_nesting hstep]
    rfl

theorem foldl_next_blanks (h : ∀ c ∈ cs, Text.isBlank c = true) :
    cs.foldl (Nesting.next false) .top = .top := by
  induction cs with
  | nil => rfl
  | cons c cs ih =>
    have hc := next_plain (b := false) (n := 0) (isPlain_of_isBlank (h c List.mem_cons_self)).1
    rw [List.foldl_cons, Nesting.top, hc]
    exact ih fun d hd => h d (List.mem_cons_of_mem c hd)

/-- A branch that is read ends outside of everything, for the function that cuts branches. -/
theorem isTop_of_readBranch {branch : Branch} (h : readBranch source (Text.trim cs) = .ok branch) :
    (cs.foldl (Nesting.next false) .top).isTop = true := by
  obtain ⟨parts, hparts, -⟩ := bind_eq_ok.1 h
  obtain ⟨scan, hscan, hfinish⟩ := bind_eq_ok.1 hparts
  have htop := (BranchScan.finish_eq_ok.1 hfinish).1
  have hnesting := BranchScan.foldlM_nesting hscan
  change scan.nesting = (Text.trim cs).foldl (Nesting.next false) .top at hnesting
  obtain ⟨before, after, hcs⟩ := Text.exists_gaps cs
  rw [hcs, List.foldl_append, foldl_next_blanks before.isBlank, List.foldl_append, ← hnesting,
    eq_top_of_isTop htop, foldl_next_blanks after.isBlank]
  rfl

/-- **A list whose quotes all stand in brackets ends outside of everything**, if it is compiled. -/
theorem endsOutside_of_quotesEnclosed {paths : List String} (h : queries source = .ok paths)
    (hquotes : quotesEnclosed source = true) : endsOutside source = true := by
  obtain ⟨branches, hbranches, -⟩ := queries_eq_ok.1 h
  obtain ⟨members, front, last, htext, hfront, hlast, hcut⟩ := exists_lastMember source.toList
  rw [quotesEnclosed, htext, quotesEnclosedFrom_append, hfront, Bool.and_eq_true] at hquotes
  rw [htext, hcut, (splitTop_of_passes_top hlast).1] at hbranches
  obtain ⟨-, back, -, hback, -⟩ := mapM_append_eq_ok.1 hbranches
  obtain ⟨branch, -, hbranch, -⟩ := mapM_cons_eq_ok.1 hback
  rw [endsOutside, htext, nestingAfter_append, hfront, nestingAfter_of_quotesEnclosed hquotes.2]
  exact isTop_of_readBranch hbranch

/-- Two lists, the first of which ends outside of everything. -/
theorem queries_of_endsOutside {x y : String} {paths paths' : List String}
    (hx : queries x = .ok paths) (hy : queries y = .ok paths') (h : endsOutside x = true) :
    queries (x ++ "," ++ y) = .ok (paths ++ paths') := by
  obtain ⟨branches, hbranches, rfl⟩ := queries_eq_ok.1 hx
  obtain ⟨branches', hbranches', rfl⟩ := queries_eq_ok.1 hy
  have htext : (x ++ "," ++ y).toList = x.toList ++ ',' :: y.toList := by simp
  refine queries_eq_ok.2 ⟨branches ++ branches', ?_, List.map_append.symm⟩
  rw [htext, splitTop_comma h]
  refine mapM_append_eq_ok.2 ⟨branches, branches', ?_, ?_, rfl⟩
  · exact carries_mapM (fun member _ => readBranch_carries x _ (Text.trim member)) _ hbranches
  · exact carries_mapM (fun member _ => readBranch_carries y _ (Text.trim member)) _ hbranches'

/-- Two lists, the first of which ends inside of something: if the whole is compiled, the path in the
place of the last member of the first list is another one. -/
theorem queries_ne_of_not_endsOutside {x y : String} {paths : List String}
    (hx : queries x = .ok paths) (h : endsOutside x = false) (paths' : List String) :
    queries (x ++ "," ++ y) ≠ .ok (paths ++ paths') := by
  intro hjoined
  obtain ⟨branches, hbranches, rfl⟩ := queries_eq_ok.1 hx
  obtain ⟨joined, hread, hpaths⟩ := queries_eq_ok.1 hjoined
  have htext : (x ++ "," ++ y).toList = x.toList ++ ',' :: y.toList := by simp
  obtain ⟨members, last, piece, more, hcut, hcut'⟩ := splitTop_comma_inside h y.toList
  rw [hcut] at hbranches
  rw [htext, hcut'] at hread
  obtain ⟨front, back, hfront, hback, rfl⟩ := mapM_append_eq_ok.1 hbranches
  obtain ⟨branch, others, hbranch, -, rfl⟩ := mapM_cons_eq_ok.1 hback
  obtain ⟨front', back', hfront', hback', rfl⟩ := mapM_append_eq_ok.1 hread
  obtain ⟨branch', rest, hbranch', -, rfl⟩ := mapM_cons_eq_ok.1 hback'
  have hlength : front.length = front'.length :=
    (forall₂_of_mapM hfront).length_eq.symm.trans (forall₂_of_mapM hfront').length_eq
  have hlonger := length_query_lt hbranch hbranch'
  rw [List.map_append, List.map_append, List.append_assoc] at hpaths
  have hsame := (List.append_inj hpaths (by simpa using hlength)).2
  rw [List.map_cons, List.map_cons, List.cons_append] at hsame
  rw [(List.cons.inj hsame).1] at hlonger
  exact Nat.lt_irrefl _ hlonger

/-- **Lists are compiled member by member, if the first one ends outside of everything.** Then two lists
with a comma between them are compiled to the paths of the first one and those of the second one, and
only then. Lists whose quotes stand in brackets end so. -/
theorem queries_comma {x y : String} {paths paths' : List String} (hx : queries x = .ok paths)
    (hy : queries y = .ok paths') :
    (queries (x ++ "," ++ y) = .ok (paths ++ paths') ↔ endsOutside x = true) ∧
      (quotesEnclosed x = true → endsOutside x = true) := by
  refine ⟨⟨fun h => ?_, queries_of_endsOutside hx hy⟩, endsOutside_of_quotesEnclosed hx⟩
  by_contra hinside
  exact queries_ne_of_not_endsOutside hx (Bool.eq_false_iff.2 hinside) paths' h

/-- Commas in quotes and in parentheses, and White_Space around the members. -/
theorem queries_comma_items :
    queries "ul > li[title='a, b'], h1" = .ok ["//ul/li[@title=\"a, b\"]", "//h1"] ∧
      queries " p:not(#x, li)" = .ok ["//p[not(self::*[@id=\"x\"] | self::li)]"] ∧
      queries ("ul > li[title='a, b'], h1" ++ "," ++ " p:not(#x, li)") =
        .ok ["//ul/li[@title=\"a, b\"]", "//h1", "//p[not(self::*[@id=\"x\"] | self::li)]"] := by
  have hitems : queries "ul > li[title='a, b'], h1" =
      .ok ["//ul/li[@title=\"a, b\"]", "//h1"] := by
    have hread : readBranches "ul > li[title='a, b'], h1" =
        .ok [[(.descendant, .mk "ul" []), (.child, .mk "li" [.attribute "title" .equal "a, b"])],
          [(.descendant, .mk "h1" [])]] := by rfl
    exact queries_of_readBranches hread (by decide)
  have hparagraph : queries " p:not(#x, li)" =
      .ok ["//p[not(self::*[@id=\"x\"] | self::li)]"] := by
    have hread : readBranches " p:not(#x, li)" =
        .ok [[(.descendant, .mk "p" [.negation [.mk "*" [.id "x"], .mk "li" []]])]] := by rfl
    exact queries_of_readBranches hread (by decide)
  obtain ⟨hjoined, hends⟩ := queries_comma hitems hparagraph
  exact ⟨hitems, hparagraph, hjoined.2 (hends (by decide))⟩

/-- **A name with a quotation mark in it swallows the comma behind it.** The mark is the beginning of a
string for the function that cuts lists, and a letter for the one that cuts branches. -/
theorem queries_openQuote :
    queries ".it's" =
        .ok ["//*[contains(concat(\" \", normalize-space(@class), \" \"), \" it's \")]"] ∧
      queries "b" = .ok ["//b"] ∧
      queries (".it's" ++ "," ++ "b") =
        .ok ["//*[contains(concat(\" \", normalize-space(@class), \" \"), \" it's,b \")]"] := by
  have hname : readBranches ".it's" = .ok [[(.descendant, .mk "*" [.cls "it's"])]] := by rfl
  have htype : readBranches "b" = .ok [[(.descendant, .mk "b" [])]] := by rfl
  have hjoined : readBranches (".it's" ++ "," ++ "b") =
      .ok [[(.descendant, .mk "*" [.cls "it's,b"])]] := by rfl
  exact ⟨queries_of_readBranches hname (by decide), queries_of_readBranches htype (by decide),
    queries_of_readBranches hjoined (by decide)⟩

end MarkupTemplate.Css

namespace MarkupTemplate.Selector

open Css

/-- A selector of the CSS grammar is compiled to the paths of its list. -/
theorem compile_eq_queries {standard : Grammar} {source : String}
    (hgrammar : (detectGrammar standard (splitPosition source).1.toList).1 = .css)
    (hne : body standard source ≠ "") : compile standard source =
      (queries (body standard source)).map fun paths =>
        ⟨source, .css, (splitPosition source).2, paths⟩ := by
  have hnonempty : (detectGrammar standard (splitPosition source).1.toList).2.isEmpty = false := by
    rw [Bool.eq_false_iff]
    intro hempty
    rw [body, List.isEmpty_iff.1 hempty] at hne
    exact hne rfl
  unfold compile
  dsimp only
  rw [hnonempty, hgrammar, queries, body]
  cases readBranches (String.ofList (detectGrammar standard (splitPosition source).1.toList).2) <;>
    rfl

end MarkupTemplate.Selector
