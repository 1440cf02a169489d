import MarkupTemplate.Page
import MarkupTemplate.Proofs.Extensions
import MarkupTemplate.Proofs.NodePaths
import MarkupTemplate.Proofs.PatternReading

/-!
# Queries below contexts

What a selector is compiled to is put behind the location path of each context. The text that this
makes is read as the path, continued by the steps of the selector.

* `Css.branchQuery_slashed` — a branch begins with a slash and finishes with a letter or bracket.
* `Selector.css_branches`, `Selector.xpath_branch` — so do the branches of a compiled selector.
* `IsContext` — the texts that contexts are written as; `Page.contextPaths_joined`.
* `Selector.read_within` — the query below contexts is read as a union of paths.
-/

namespace MarkupTemplate.Css

open XPath

variable {cs ds : List Char} {source : String} {compound : Compound} {branch : Branch}

/-! ## Ends of branches -/

theorem finishes_append (h : Finishes cs) (hd : ds = [] ∨ Finishes ds) : Finishes (cs ++ ds) := by
  rcases hd with rfl | hd
  · rwa [List.append_nil]
  · exact hd.append cs

theorem bracketed_finishes (text : String) : Finishes (bracketed text).toList := by
  refine ⟨'[' :: text.toList, ']', ?_, by decide⟩
  simp [bracketed]

theorem positionPredicate_finishes (text : List Nth → String) (positions : List Nth) :
    (positionPredicate text positions).toList = [] ∨
      Finishes (positionPredicate text positions).toList := by
  cases positions with
  | nil => exact .inl rfl
  | cons nth positions => exact .inr (bracketed_finishes _)

theorem brackets_finish (texts : List String) : (String.join (texts.map bracketed)).toList = [] ∨
    Finishes (String.join (texts.map bracketed)).toList := by
  induction texts with
  | nil => exact .inl rfl
  | cons text texts ih =>
    refine .inr ?_
    have hjoin : (String.join ((text :: texts).map bracketed)).toList =
        (bracketed text).toList ++ (String.join (texts.map bracketed)).toList := by
      simp
    rw [hjoin]
    exact finishes_append (bracketed_finishes text) ih

theorem selfTest_finishes (h : Finishes compound.type.toList) :
    Finishes (selfTest compound).toList := by
  obtain ⟨type, conditions⟩ := compound
  rw [selfTest, String.toList_append, String.toList_append, String.toList_append]
  exact finishes_append (finishes_append (finishes_append h (positionPredicate_finishes _ _))
    (positionPredicate_finishes _ _)) (brackets_finish _)

/-- Behind its slashes the text of a step finishes with no blank. -/
theorem listStep_finishes (h : Finishes compound.type.toList) :
    ∃ ds, Finishes ds ∧ ∀ axis, (listStep axis compound).toList = axis.toList ++ ds := by
  by_cases hpositions : (childPositions compound.conditions).isEmpty = true
  · refine ⟨compound.type.toList ++
      (positionPredicate listPosition (typePositions compound.conditions)).toList ++
        (String.join ((predicates compound.conditions).map bracketed)).toList, ?_, fun axis => ?_⟩
    · exact finishes_append (finishes_append h (positionPredicate_finishes _ _))
        (brackets_finish _)
    · simp [listStep, hpositions]
  · have hself : Finishes (selfTest (withoutChildPositions compound)).toList :=
      selfTest_finishes h
    refine ⟨"*".toList ++ (bracketed (listPosition (childPositions compound.conditions))).toList ++
      "/self::".toList ++ (selfTest (withoutChildPositions compound)).toList,
      hself.append _, fun axis => ?_⟩
    simp [listStep, hpositions]

theorem stepQuery_slashed (h : Finishes compound.type.toList) (combinator : Combinator) :
    ∃ ds, (stepQuery combinator compound).toList = '/' :: ds ∧ Finishes ds := by
  obtain ⟨ds, hds, hlist⟩ := listStep_finishes h
  have hself := selfTest_finishes h
  cases combinator with
  | descendant =>
    refine ⟨'/' :: ds, ?_, hds.cons '/'⟩
    change (listStep "//" compound).toList = _
    rw [hlist]
    rfl
  | child =>
    refine ⟨ds, ?_, hds⟩
    change (listStep "/" compound).toList = _
    rw [hlist]
    rfl
  | sibling =>
    refine ⟨"following-sibling::".toList ++ (selfTest compound).toList, ?_, hself.append _⟩
    change ("/following-sibling::" ++ selfTest compound).toList = _
    rw [String.toList_append]
    rfl
  | adjacent =>
    refine ⟨"following-sibling::*[1]/self::".toList ++ (selfTest compound).toList, ?_,
      hself.append _⟩
    change ("/following-sibling::*[1]/self::" ++ selfTest compound).toList = _
    rw [String.toList_append]
    rfl

/-- A branch begins with a slash and finishes with no blank. -/
theorem branchQuery_slashed (hne : branch ≠ [])
    (h : ∀ part ∈ branch, Finishes part.2.type.toList) :
    ∃ ds, (branchQuery branch).toList = '/' :: ds ∧ Finishes ds := by
  induction branch with
  | nil => exact absurd rfl hne
  | cons part branch ih =>
    obtain ⟨ds, hds, hfirst⟩ := stepQuery_slashed (h part List.mem_cons_self) part.1
    have hjoin : (branchQuery (part :: branch)).toList =
        '/' :: (ds ++ (branchQuery branch).toList) := by
      simp [branchQuery, hds]
    refine ⟨_, hjoin, finishes_append hfirst ?_⟩
    by_cases hbranch : branch = []
    · exact .inl (by rw [hbranch]; rfl)
    · obtain ⟨es, hes, hrest⟩ := ih hbranch fun q hq => h q (List.mem_cons_of_mem _ hq)
      exact .inr (hes ▸ hrest.cons '/')

/-! ## Types that are read -/

theorem finishes_lower {cs : List Char} (hne : cs ≠ []) (h : ∀ c ∈ cs, isNameChar c = true) :
    Finishes (Text.lower cs) := by
  refine finishes_of_forall (by simpa [Text.lower] using hne) fun d hd => ?_
  obtain ⟨c, hc, rfl⟩ := List.mem_map.1 hd
  refine isBlank_of_isNameChar ?_
  rw [← isNameChar_eq]
  exact toLower_induction (by decide) (h c hc)

/-- The type of a compound that is read finishes with no blank. -/
theorem readCompoundWithin_type : ∀ {depth : Nat},
    readCompoundWithin source depth cs = .ok compound → Finishes compound.type.toList
  | 0, h => by
    obtain rfl := Except.ok.inj h
    exact ⟨[], '*', rfl, by decide⟩
  | depth + 1, h => by
    obtain ⟨conditions, -, h⟩ := bind_eq_ok.1 h
    obtain rfl := pure_eq_ok.1 h
    rw [Compound.type]
    have hchars : ∀ c ∈ if cs.head? = some '*' then [] else cs.takeWhile isNameChar,
        isNameChar c = true := by
      intro c hc
      split at hc
      · cases hc
      · exact List.mem_takeWhile_imp hc
    generalize (if cs.head? = some '*' then [] else cs.takeWhile isNameChar) = name at hchars
    by_cases hname : name.isEmpty = true
    · rw [if_pos hname]
      exact ⟨[], '*', rfl, by decide⟩
    · rw [if_neg hname, String.toList_ofList]
      exact finishes_lower (by simpa using hname) hchars

theorem readBranch_types (h : readBranch source cs = .ok branch) :
    branch ≠ [] ∧ ∀ part ∈ branch, Finishes part.2.type.toList := by
  refine ⟨(readBranch_filled h).1, fun part hpart => ?_⟩
  obtain ⟨parts, -, h⟩ := bind_eq_ok.1 h
  obtain ⟨⟨combinator, ds⟩, -, hpart⟩ := exists_of_mem_mapM h hpart
  obtain ⟨compound, hcompound, hpart⟩ := bind_eq_ok.1 hpart
  obtain rfl := pure_eq_ok.1 hpart
  exact readCompoundWithin_type hcompound

end MarkupTemplate.Css

namespace MarkupTemplate.Selector

open Css XPath

variable {standard grammar : Grammar} {source branch context : String} {s : Selector}
  {cs ds : List Char} {contexts : List String} {steps : String → List Step}

/-! ## Branches of compiled selectors -/

/-- The branches of a CSS selector begin with a slash and finish with no blank. -/
theorem css_branches (h : compile standard source = .ok s) (hgrammar : s.grammar = .css) :
    s.branches ≠ [] ∧ ∀ b ∈ s.branches, ∃ ds, b.toList = '/' :: ds ∧ Finishes ds := by
  obtain ⟨branches, hread, hbranches⟩ := compile_css h hgrammar
  rw [hbranches]
  refine ⟨by simpa using (readBranches_filled hread).1, fun b hb => ?_⟩
  obtain ⟨branch, hbranch, rfl⟩ := List.mem_map.1 hb
  obtain ⟨cs, -, hcs⟩ := exists_of_mem_mapM hread hbranch
  exact branchQuery_slashed (readBranch_types hcs).1 (readBranch_types hcs).2

theorem begins_of_isPrefix (h : Begins cs) (hpre : ds <+: cs) (hne : ds ≠ []) : Begins ds := by
  obtain ⟨c, t, rfl, hc⟩ := h
  obtain ⟨d, u, rfl⟩ := List.exists_cons_of_ne_nil hne
  obtain ⟨rfl, -⟩ := List.cons_prefix_cons.1 hpre
  exact ⟨d, u, rfl, hc⟩

theorem finishes_trimEnd (h : Text.trimEnd cs ≠ []) : Finishes (Text.trimEnd cs) :=
  ⟨_, _, (List.dropLast_concat_getLast h).symm,
    Bool.eq_false_iff.2 (List.rdropWhile_last_not Text.isBlank cs h)⟩

theorem begins_trimEnd (hb : Begins cs) (h : Text.trimEnd cs ≠ []) : Begins (Text.trimEnd cs) :=
  begins_of_isPrefix hb (List.rdropWhile_prefix Text.isBlank cs) h

theorem begins_trimStart (h : Text.trimStart cs ≠ []) : Begins (Text.trimStart cs) :=
  ⟨_, _, (List.cons_head_tail h).symm, List.head_dropWhile_not Text.isBlank h⟩

theorem ends_trim (h : Text.trim cs ≠ []) : Begins (Text.trim cs) ∧ Finishes (Text.trim cs) := by
  have hstart : Text.trimStart cs ≠ [] := by
    intro hnil
    rw [Text.trim, hnil] at h
    exact h rfl
  exact ⟨begins_trimEnd (begins_trimStart hstart) h, finishes_trimEnd h⟩

/-- Without its suffix a text is cut off and trimmed. -/
theorem splitPosition_fst (source : String) :
    (∃ n, (splitPosition source).1 =
      String.ofList (Text.trimEnd ((Text.trim source.toList).take n))) ∨
      (splitPosition source).1 = String.ofList (Text.trim source.toList) := by
  unfold splitPosition
  dsimp only
  split
  · exact .inl ⟨_, rfl⟩
  · split
    · exact .inl ⟨_, rfl⟩
    · exact .inr rfl

theorem ends_splitPosition (h : (splitPosition source).1.toList ≠ []) :
    Begins (splitPosition source).1.toList ∧ Finishes (splitPosition source).1.toList := by
  rcases splitPosition_fst source with ⟨n, heq⟩ | heq
  · rw [heq, String.toList_ofList] at h ⊢
    have htake : (Text.trim source.toList).take n ≠ [] := by
      intro hnil
      rw [hnil] at h
      exact h rfl
    have htrim : Text.trim source.toList ≠ [] := by
      intro hnil
      rw [hnil, List.take_nil] at htake
      exact htake rfl
    exact ⟨begins_trimEnd (begins_of_isPrefix (ends_trim htrim).1 (List.take_prefix _ _) htake) h,
      finishes_trimEnd h⟩
  · rw [heq, String.toList_ofList] at h ⊢
    exact ends_trim h

theorem ends_detectGrammar (h : cs ≠ [] → Begins cs ∧ Finishes cs)
    (hne : (detectGrammar standard cs).2 ≠ []) :
    Begins (detectGrammar standard cs).2 ∧ Finishes (detectGrammar standard cs).2 := by
  have hcases : (∃ n, (detectGrammar standard cs).2 = Text.trim (cs.drop n)) ∨
      (detectGrammar standard cs).2 = cs := by
    unfold detectGrammar
    split
    · exact .inl ⟨_, rfl⟩
    · split
      · exact .inl ⟨_, rfl⟩
      · exact .inr rfl
  rcases hcases with ⟨n, heq⟩ | heq
  · rw [heq] at hne ⊢
    exact ends_trim hne
  · rw [heq] at hne ⊢
    exact h hne

/-- The only branch of an XPath selector is a text with nothing around it. -/
theorem xpath_branch (h : compile standard source = .ok s) (hgrammar : s.grammar = .xpath) :
    ∃ b, s.branches = [b] ∧ Begins b.toList ∧ Finishes b.toList := by
  unfold compile at h
  dsimp only at h
  split at h
  · cases h
  · rename_i hbody
    rw [List.isEmpty_iff] at hbody
    split at h
    · obtain ⟨texts, htexts, h⟩ := bind_eq_ok.1 h
      obtain rfl := pure_eq_ok.1 htexts
      obtain rfl := pure_eq_ok.1 h
      refine ⟨_, rfl, ?_⟩
      rw [String.toList_ofList]
      exact ends_detectGrammar ends_splitPosition hbody
    · rename_i hcss
      obtain ⟨texts, -, h⟩ := bind_eq_ok.1 h
      obtain rfl := pure_eq_ok.1 h
      rw [hcss] at hgrammar
      cases hgrammar

/-! ## Branches behind contexts -/

/-- What a branch is written as behind a context. -/
def behindContext (grammar : Grammar) (branch : String) : List Char :=
  if grammar = .xpath ∧ branch.toList.head? ≠ some '/' then '/' :: branch.toList
  else branch.toList

theorem toList_branchWithin (h : context ≠ ".") :
    (branchWithin grammar context branch).toList =
      context.toList ++ behindContext grammar branch := by
  cases grammar with
  | css => simp [branchWithin, behindContext]
  | xpath =>
    rw [branchWithin, if_neg h, behindContext]
    split
    · rename_i hslash
      simp [hslash]
    · rename_i hslash
      simp [hslash]

/-- Behind every context the branches of a selector are read as further steps. -/
structure Continues (s : Selector) (steps : String → List Step) : Prop where
  branches : s.branches ≠ []
  finishes : ∀ b ∈ s.branches, Finishes (behindContext s.grammar b)
  extends_path : ∀ b ∈ s.branches, Extends (behindContext s.grammar b) (steps b)
  steps : ∀ b ∈ s.branches, steps b ≠ []

theorem dropEndWhile_context {path : String} (h : IsContext path.toList) :
    String.ofList (Text.dropEndWhile (fun c => c = '/') path.toList) = path := by
  obtain ⟨t, c, heq, -, hc⟩ := h.finishes
  have hlast : ∀ hne : path.toList ≠ [],
      ¬ decide (path.toList.getLast hne = '/') = true := by
    simp [heq, hc]
  rw [Text.dropEndWhile]
  exact (congrArg String.ofList (List.rdropWhile_eq_self_iff.2 hlast)).trans String.ofList_toList

section Pairs

variable {α : Type} {as : List α} {text : α → String} {leading : α → List Step} {a : α}

/-- The contexts of a query, each with each branch. -/
def pairs (s : Selector) (as : List α) : List (α × String) :=
  as.flatMap fun a => s.branches.map fun branch => (a, branch)

theorem mem_pairs : (a, branch) ∈ s.pairs as ↔ a ∈ as ∧ branch ∈ s.branches := by
  simp [pairs]

/-- **The query below contexts is read as a union** of the paths of the contexts, each continued by
the steps of each branch. -/
theorem read_within (hs : s.Continues steps) (hne : as ≠ [])
    (h : ∀ a ∈ as, IsContext (text a).toList ∧ XPath.Continues (text a).toList (leading a)) :
    Expr.read (s.within (as.map text)) = .ok (folded .union
      ((s.pairs as).map fun ab => .path .root (leading ab.1 ++ steps ab.2))) := by
  have htext : s.within (as.map text) = String.intercalate " | "
      ((s.pairs as).map fun ab => branchWithin s.grammar (text ab.1) ab.2) := by
    rw [within, pairs, List.map_flatMap, List.flatMap_map]
    refine congrArg _ (List.flatMap_congr fun a ha => ?_)
    rw [dropEndWhile_context (h a ha).1, List.map_map]
    rfl
  have hpairs : s.pairs as ≠ [] := by
    obtain ⟨a, rest, rfl⟩ := List.exists_cons_of_ne_nil hne
    simp [pairs, hs.branches]
  rw [htext]
  refine read_union hpairs _ _ fun ab hab => ?_
  obtain ⟨a, b⟩ := ab
  obtain ⟨ha, hb⟩ := mem_pairs.1 hab
  obtain ⟨hcontext, hleading⟩ := h a ha
  have hpoint : text a ≠ "." := by
    intro heq
    rw [heq] at hleading
    generalize hcs : ".".toList = cs at hleading
    generalize leading a = ss at hleading
    cases hleading <;> cases hcs
  dsimp only
  rw [toList_branchWithin hpoint]
  refine ⟨.of_reads (by simp [HasOperator]) ?_, hcontext.begins.append _,
    (hs.finishes b hb).append _⟩
  exact (hleading.append_extends (hs.extends_path b hb)).reads_root
    (List.append_ne_nil_of_right_ne_nil _ (hs.steps b hb))

end Pairs

/-- The query of a CSS selector below a node is read as a union of paths from the node. -/
theorem read_within_point (hs : s.Continues steps) (hgrammar : s.grammar = .css) :
    Expr.read (s.within ["."]) = .ok (folded .union
      (s.branches.map fun b => .path .context (.mk .self .node [] :: steps b))) := by
  have hpoint : String.ofList (Text.dropEndWhile (fun c => c = '/') ".".toList) = "." := by rfl
  have htext : s.within ["."] =
      String.intercalate " | " (s.branches.map fun b => "." ++ b) := by
    rw [within, hgrammar, List.flatMap_cons, List.flatMap_nil, List.append_nil, hpoint]
    rfl
  rw [htext]
  refine read_union hs.branches _ _ fun b hb => ?_
  have hbehind : behindContext s.grammar b = b.toList := by simp [behindContext, hgrammar]
  have hextends := hs.extends_path b hb
  have hfinishes := hs.finishes b hb
  rw [hbehind] at hextends hfinishes
  have hreads := hextends.reads_relative (StepReads.mk .point .nil)
  rw [String.toList_append]
  exact ⟨.of_reads (by simp [HasOperator]) (by simpa using hreads), ⟨'.', _, rfl, by decide⟩,
    hfinishes.cons '.'⟩

/-! ## Branches that are paths -/

/-- The steps of a text that is read as a path. -/
def stepsOf (text : String) : List Step :=
  match Expr.read text with
  | .ok (.path _ steps) => steps
  | _ => []

/-- A context is read as a path from the root. -/
theorem read_context {path : String} {ss : List Step} (hcontext : IsContext path.toList)
    (h : XPath.Continues path.toList ss) (hne : ss ≠ []) :
    Expr.read path = .ok (.path .root ss) := by
  obtain ⟨t, c, heq, hc, -⟩ := hcontext.finishes
  have hread := read_of_reads ((reads_root h hne).mono (Nat.zero_le 8)) hcontext.begins
    ⟨t, c, heq, hc⟩
  rwa [String.ofList_toList] at hread

/-- A context is read as the steps that it is the text of. -/
theorem stepsOf_eq {path : String} {ss : List Step} (hcontext : IsContext path.toList)
    (h : XPath.Continues path.toList ss) (hne : ss ≠ []) : stepsOf path = ss := by
  rw [stepsOf, read_context hcontext h hne]

/-- Every branch is read as a path from the root, with steps. -/
def hasPaths (s : Selector) : Bool :=
  s.branches.all fun branch =>
    match Expr.read branch with
    | .ok (.path .root (_ :: _)) => true
    | _ => false

theorem read_of_hasPaths (h : s.hasPaths = true) {b : String} (hb : b ∈ s.branches) :
    Expr.read b = .ok (.path .root (stepsOf b)) ∧ stepsOf b ≠ [] := by
  have hpath := List.all_eq_true.1 h b hb
  split at hpath
  · rename_i step more hread
    have hsteps : stepsOf b = step :: more := by rw [stepsOf, hread]
    rw [hsteps]
    exact ⟨hread, List.cons_ne_nil step more⟩
  · cases hpath

/-- The branches of a CSS selector are paths when its names are names in queries too. -/
theorem hasPaths_of_hasNames (h : compile standard source = .ok s) (hgrammar : s.grammar = .css)
    (hnamed : hasNames standard source = true) : s.hasPaths = true := by
  obtain ⟨branches, hread, hbranches⟩ := compile_css h hgrammar
  obtain ⟨-, hfilled⟩ := readBranches_filled hread
  rw [hasPaths, List.all_eq_true, hbranches]
  intro b hb
  obtain ⟨branch, hbranch, rfl⟩ := List.mem_map.1 hb
  have hreadable : BranchReadable branch :=
    ⟨(hfilled branch hbranch).1, fun part hpart =>
      compound_all_and _ (branches_named hnamed hread branch hbranch part hpart)
        ((hfilled branch hbranch).2 part hpart)⟩
  obtain ⟨hbegins, hfinishes⟩ := branchQuery_ends hreadable
  have hpath := read_of_reads ((branch_operand hreadable).reads.mono (Nat.zero_le 8)) hbegins
    hfinishes
  obtain ⟨step, more, hsteps⟩ := List.exists_cons_of_ne_nil (branchSteps_ne_nil hreadable.1)
  rw [String.ofList_toList, branchExpr, hsteps] at hpath
  rw [hpath]

/-- A CSS selector whose branches are paths continues every context. -/
theorem css_continues (h : compile standard source = .ok s) (hgrammar : s.grammar = .css)
    (hpaths : s.hasPaths = true) : s.Continues stepsOf := by
  obtain ⟨hne, hbranches⟩ := css_branches h hgrammar
  have hbehind : ∀ b, behindContext s.grammar b = b.toList := by simp [behindContext, hgrammar]
  refine ⟨hne, fun b hb => ?_, fun b hb => ?_, fun b hb => (read_of_hasPaths hpaths hb).2⟩
  · obtain ⟨ds, heq, hds⟩ := hbranches b hb
    rw [hbehind, heq]
    exact hds.cons '/'
  · obtain ⟨ds, heq, hds⟩ := hbranches b hb
    obtain ⟨hread, hsteps⟩ := read_of_hasPaths hpaths hb
    rw [hbehind]
    exact extends_of_read_root (heq ▸ hds.cons '/') ⟨ds, heq⟩ hsteps (by rwa [String.ofList_toList])

/-- A location path, as it is read without parentheses. -/
structure LocationPath where
  /-- It is from the root. -/
  absolute : Bool
  steps : List Step

/-- A location path as an expression. -/
def LocationPath.expr (path : LocationPath) : Expr :=
  .path (if path.absolute then .root else .context) path.steps

/-- An XPath selector that is a location path continues every context. -/
theorem xpath_continues {path : LocationPath} (h : compile standard source = .ok s)
    (hgrammar : s.grammar = .xpath) (hread : Expr.read s.expression = .ok path.expr)
    (hsteps : path.steps ≠ []) (hparen : s.expression.toList.head? ≠ some '(') :
    s.Continues fun _ => path.steps := by
  obtain ⟨absolute, ss⟩ := path
  obtain ⟨b, hb, hbegins, hfinishes⟩ := xpath_branch h hgrammar
  have hexpression : s.expression = b := by
    rw [expression, hb, String.intercalate_singleton]
  rw [hexpression] at hread hparen
  rw [← @String.ofList_toList b] at hread
  have hhead : ∀ c ∈ b.toList.head?, c ≠ '(' := by
    rintro c hc rfl
    exact hparen hc
  have hbranches : ∀ b' ∈ s.branches, b' = b := by simp [hb]
  have hbehind : XPath.Extends (behindContext s.grammar b) ss := by
    rw [behindContext, hgrammar]
    cases absolute with
    | false =>
      obtain ⟨hextends, hslash⟩ := extends_of_read_context hbegins hfinishes hhead hread
      rw [if_pos ⟨rfl, fun h => hslash _ (List.eq_cons_of_mem_head? h)⟩]
      exact hextends
    | true =>
      obtain ⟨u, hu⟩ := slash_of_read_root hbegins hfinishes hhead hread
      rw [if_neg (by simp [hu])]
      exact extends_of_read_root hfinishes ⟨u, hu⟩ hsteps hread
  refine ⟨by simp [hb], fun b' hb' => ?_, fun b' hb' => ?_, fun _ _ => hsteps⟩
  · rw [hbranches b' hb', behindContext]
    split
    · exact hfinishes.cons '/'
    · exact hfinishes
  · rw [hbranches b' hb']
    exact hbehind

end MarkupTemplate.Selector

namespace MarkupTemplate.Page

open XPath

/-! ## Contexts as text -/

theorem map_trim_splitOn_blank {c separator : Char} (hc : Text.isBlank c = true)
    (hne : c ≠ separator) (cs : List Char) :
    (Text.splitOn separator (c :: cs)).map Text.trim =
      (Text.splitOn separator cs).map Text.trim := by
  rw [Text.splitOn, if_neg hne]
  cases hpieces : Text.splitOn separator cs with
  | nil => exact absurd hpieces (Text.splitOn_ne_nil separator cs)
  | cons piece pieces =>
    have htrim : Text.trim (c :: piece) = Text.trim piece := by
      rw [Text.trim, Text.trim, Text.trimStart, Text.trimStart, List.dropWhile_cons_of_pos hc]
    rw [List.map_cons, List.map_cons, htrim]

theorem map_trim_splitOn_joined : ∀ {paths : List String}, paths ≠ [] →
    (∀ path ∈ paths, IsContext path.toList) →
      (Text.splitOn '|' (String.intercalate " | " paths).toList).map Text.trim =
        paths.map String.toList
  | [], hne, _ => absurd rfl hne
  | [path], _, h => by
    have hpath := h path List.mem_cons_self
    obtain ⟨t, c, heq, hc, -⟩ := hpath.finishes
    rw [String.intercalate_singleton, Text.splitOn_of_not_mem hpath.no_bar, List.map_singleton,
      List.map_singleton, trim_eq_self hpath.begins ⟨t, c, heq, hc⟩]
  | path :: next :: paths, _, h => by
    have hpath := h path List.mem_cons_self
    obtain ⟨t, c, heq, hc, -⟩ := hpath.finishes
    have ih := map_trim_splitOn_joined (List.cons_ne_nil next paths) fun q hq =>
      h q (List.mem_cons_of_mem _ hq)
    have htext : (String.intercalate " | " (path :: next :: paths)).toList =
        path.toList ++ [' '] ++ '|' :: ' ' ::
          (String.intercalate " | " (next :: paths)).toList := by
      rw [String.intercalate_cons_cons]
      simp
    have hbar : '|' ∉ path.toList ++ [' '] := by
      simpa using hpath.no_bar
    rw [htext, Text.splitOn_append, Text.splitOn_of_not_mem hbar, List.map_append,
      List.map_singleton, map_trim_splitOn_blank (by decide) (by decide), ih]
    have htrim : Text.trim ([] ++ (path.toList ++ [' '])) = path.toList := by
      have hspace : ∀ d ∈ [' '], Text.isBlank d = true := List.all_eq_true.1 (by decide)
      exact Css.trim_gaps (List.forall_mem_nil _) hspace hpath.begins ⟨t, c, heq, hc⟩
    rw [List.nil_append] at htrim
    rw [htrim]
    rfl

/-- Contexts that are joined are taken apart again. -/
theorem contextPaths_joined {paths : List String} (hne : paths ≠ [])
    (h : ∀ path ∈ paths, IsContext path.toList) :
    contextPaths (String.intercalate " | " paths) = paths := by
  rw [contextPaths, map_trim_splitOn_joined hne h, List.filterMap_map]
  have hsome : ∀ path ∈ paths,
      ((fun path => if path.isEmpty then none else some (String.ofList path)) ∘ String.toList)
        path = some path := by
    intro path hpath
    obtain ⟨c, t, heq, -⟩ := (h path hpath).begins
    have hempty : path.toList.isEmpty = false := by rw [heq, List.isEmpty_cons]
    simp only [Function.comp_apply, hempty, Bool.false_eq_true, if_false, String.ofList_toList]
  rw [List.filterMap_congr hsome, List.filterMap_some]

end MarkupTemplate.Page
