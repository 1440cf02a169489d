import MarkupTemplate.Proofs.Safety
import MarkupTemplate.Selector.Compiled

/-!
# Validated selectors

A selector that compiles can be run: its queries are read and select nodes, whatever the document.

* `readBranches_filled` — what every selector list that is read has in common.
* `compile_css` — a compiled selector is put together from its branches.
* `css_selector_runs` — the queries of a compiled selector never fail.
-/

namespace MarkupTemplate.Css

open XPath (bind_eq_ok pure_eq_ok)

variable {source : String} {cs rest : List Char} {c : Char}

/-! ## Lists that are read -/

theorem map_eq_ok {ε α β : Type} {x : Except ε α} {g : α → β} {b : β} (h : g <$> x = .ok b) :
    ∃ a, x = .ok a ∧ g a = b := by
  cases x with
  | error => cases h
  | ok a => exact ⟨a, rfl, Except.ok.inj h⟩

/-- A list that is computed member by member. -/
theorem forall₂_of_mapM {ε α β : Type} {f : α → Except ε β} : ∀ {as : List α} {bs : List β},
    as.mapM f = .ok bs → List.Forall₂ (fun a b => f a = .ok b) as bs
  | [], bs, h => by
    rw [List.mapM_nil, pure_eq_ok] at h
    exact h ▸ .nil
  | a :: as, bs, h => by
    rw [List.mapM_cons] at h
    obtain ⟨b, hb, h⟩ := bind_eq_ok.1 h
    obtain ⟨rest, hrest, h⟩ := bind_eq_ok.1 h
    rw [pure_eq_ok] at h
    exact h ▸ .cons hb (forall₂_of_mapM hrest)

theorem exists_of_mem_mapM {ε α β : Type} {f : α → Except ε β} {as : List α} {bs : List β}
    (h : as.mapM f = .ok bs) {b : β} (hb : b ∈ bs) : ∃ a ∈ as, f a = .ok b := by
  obtain ⟨i, hi, rfl⟩ := List.getElem_of_mem hb
  have hall := List.forall₂_iff_get.1 (forall₂_of_mapM h)
  exact ⟨as[i], List.getElem_mem _, hall.2 i (hall.1 ▸ hi) hi⟩

theorem ne_nil_of_mapM {ε α β : Type} {f : α → Except ε β} {as : List α} {bs : List β}
    (h : as.mapM f = .ok bs) (hne : as ≠ []) : bs ≠ [] := by
  cases forall₂_of_mapM h with
  | nil => exact absurd rfl hne
  | cons => simp

/-! ## Compounds that are read -/

/-- Every negation in the condition has something to negate, and so in the compounds it is made
of. -/
def Filled (condition : Simple) : Prop :=
  condition.isFilled = true ∧ condition.all isFilled = true

theorem compoundsAll_iff {check : Compound → Bool} {compounds : List Compound} :
    compoundsAll check compounds = true ↔ ∀ c ∈ compounds, c.all check = true := by
  induction compounds with
  | nil => simp [compoundsAll]
  | cons c compounds ih => simp [compoundsAll, ih]

theorem filled_of_conditions {type : String} {conditions : List Simple}
    (h : ∀ condition ∈ conditions, Filled condition) :
    (Compound.mk type conditions).all isFilled = true := by
  refine Compound.all_iff.2 ⟨?_, fun condition hc => (h condition hc).2⟩
  exact List.all_eq_true.2 fun condition hc => (h condition hc).1

variable {compound : List Char → Except Error Compound}

theorem readNegation_filled (hcompound : ∀ ds d, compound ds = .ok d → d.all isFilled = true)
    {alternatives : List Compound} (h : readNegation source compound cs = .ok alternatives) :
    Filled (.negation alternatives) := by
  have hne : alternatives ≠ [] := ne_nil_of_mapM h (splitFrom_ne_nil ',' .top cs)
  refine ⟨by simpa [Simple.isFilled] using hne, ?_⟩
  rw [Simple.all, compoundsAll_iff]
  intro d hd
  obtain ⟨branch, -, hbranch⟩ := exists_of_mem_mapM h hd
  obtain ⟨parts, -, hbranch⟩ := bind_eq_ok.1 hbranch
  split at hbranch
  · exact hcompound _ d hbranch
  · cases hbranch

@[simp]
theorem filled_childPosition (nth : Nth) : Filled (.childPosition nth) :=
  ⟨rfl, rfl⟩

@[simp]
theorem filled_typePosition (nth : Nth) : Filled (.typePosition nth) :=
  ⟨rfl, rfl⟩

@[simp]
theorem filled_empty : Filled .empty :=
  ⟨rfl, rfl⟩

theorem readPseudo_filled (hcompound : ∀ ds d, compound ds = .ok d → d.all isFilled = true)
    {name : String} {argument : Option (List Char)} {conditions : List Simple}
    (h : readPseudo source compound name argument = .ok conditions) :
    ∀ condition ∈ conditions, Filled condition := by
  unfold readPseudo at h
  dsimp only at h
  split at h
  · obtain rfl := Except.ok.inj h
    simp
  split at h
  · obtain rfl := Except.ok.inj h
    simp
  split at h
  · obtain rfl := Except.ok.inj h
    simp
  split at h
  · obtain ⟨_, -, h⟩ := bind_eq_ok.1 h
    obtain ⟨nth, -, h⟩ := bind_eq_ok.1 h
    obtain rfl := pure_eq_ok.1 h
    simp
  split at h
  · obtain rfl := Except.ok.inj h
    simp
  split at h
  · obtain rfl := Except.ok.inj h
    simp
  split at h
  · obtain rfl := Except.ok.inj h
    simp
  split at h
  · obtain ⟨_, -, h⟩ := bind_eq_ok.1 h
    obtain ⟨nth, -, h⟩ := bind_eq_ok.1 h
    obtain rfl := pure_eq_ok.1 h
    simp
  split at h
  · obtain ⟨_, -, h⟩ := bind_eq_ok.1 h
    obtain ⟨alternatives, hnegation, h⟩ := bind_eq_ok.1 h
    obtain rfl := pure_eq_ok.1 h
    simpa using readNegation_filled hcompound hnegation
  split at h
  · obtain rfl := Except.ok.inj h
    simp
  · cases h

theorem readAttribute_filled {condition : Simple}
    (h : readAttribute source cs = .ok condition) : Filled condition := by
  unfold readAttribute at h
  dsimp only at h
  split at h
  · split at h
    · cases h
    · obtain rfl := Except.ok.inj h
      exact ⟨rfl, rfl⟩
  · generalize Text.lower (withoutSigns (Text.trim _)) = name at h
    split at h
    · cases h
    · obtain rfl := Except.ok.inj h
      exact ⟨rfl, rfl⟩

theorem readSimple_filled (hcompound : ∀ ds d, compound ds = .ok d → d.all isFilled = true)
    {conditions : List Simple} (h : readSimple source compound c cs = .ok (conditions, rest)) :
    ∀ condition ∈ conditions, Filled condition := by
  unfold readSimple at h
  dsimp only at h
  split at h
  · split at h
    · cases h
    · obtain ⟨rfl, -⟩ := Prod.mk.inj (Except.ok.inj h)
      split <;> simp [Filled, Simple.isFilled, Simple.all]
  split at h
  · split at h
    · cases h
    · obtain ⟨condition, hattribute, h⟩ := bind_eq_ok.1 h
      obtain ⟨rfl, -⟩ := Prod.mk.inj (pure_eq_ok.1 h)
      simpa using readAttribute_filled hattribute
  split at h
  · split at h
    · cases h
    split at h
    · split at h
      · cases h
      · obtain ⟨conditions, hpseudo, h⟩ := bind_eq_ok.1 h
        obtain ⟨rfl, -⟩ := Prod.mk.inj (pure_eq_ok.1 h)
        exact readPseudo_filled hcompound hpseudo
    · obtain ⟨conditions, hpseudo, h⟩ := bind_eq_ok.1 h
      obtain ⟨rfl, -⟩ := Prod.mk.inj (pure_eq_ok.1 h)
      exact readPseudo_filled hcompound hpseudo
  · cases h

theorem readConditions_filled (hcompound : ∀ ds d, compound ds = .ok d → d.all isFilled = true) :
    ∀ {fuel : Nat} {cs : List Char} {conditions : List Simple},
      readConditions source compound fuel cs = .ok conditions →
        ∀ condition ∈ conditions, Filled condition
  | 0, [], _, h | 0, _ :: _, _, h | _ + 1, [], _, h => by
    obtain rfl := Except.ok.inj h
    simp
  | fuel + 1, c :: cs, _, h => by
    obtain ⟨⟨first, rest⟩, hfirst, h⟩ := bind_eq_ok.1 h
    obtain ⟨further, hfurther, h⟩ := bind_eq_ok.1 h
    obtain rfl := pure_eq_ok.1 h
    intro condition hc
    rcases List.mem_append.1 hc with hc | hc
    · exact readSimple_filled hcompound hfirst condition hc
    · exact readConditions_filled hcompound hfurther condition hc

theorem readCompoundWithin_filled {d : Compound} : ∀ {depth : Nat} {cs : List Char},
    readCompoundWithin source depth cs = .ok d → d.all isFilled = true
  | 0, _, h => by
    obtain rfl := Except.ok.inj h
    rfl
  | depth + 1, cs, h => by
    obtain ⟨conditions, hconditions, h⟩ := bind_eq_ok.1 h
    obtain rfl := pure_eq_ok.1 h
    exact filled_of_conditions
      (readConditions_filled (fun _ _ => readCompoundWithin_filled) hconditions)

/-! ## Branches that are read -/

theorem finish_ne_nil {scan : BranchScan} {parts : List (Combinator × List Char)}
    (h : scan.finish source = .ok parts) : parts ≠ [] := by
  unfold BranchScan.finish at h
  dsimp only at h
  split at h
  · cases h
  split at h
  · cases h
  split at h
  · cases h
  · rename_i hparts
    obtain rfl := Except.ok.inj h
    simpa using hparts

theorem readBranch_filled {branch : Branch} (h : readBranch source cs = .ok branch) :
    branch ≠ [] ∧ ∀ part ∈ branch, part.2.all isFilled = true := by
  obtain ⟨parts, hparts, h⟩ := bind_eq_ok.1 h
  obtain ⟨scan, -, hfinish⟩ := bind_eq_ok.1 hparts
  refine ⟨ne_nil_of_mapM h (finish_ne_nil hfinish), fun part hpart => ?_⟩
  obtain ⟨⟨combinator, ds⟩, -, hpart⟩ := exists_of_mem_mapM h hpart
  obtain ⟨compound, hcompound, hpart⟩ := bind_eq_ok.1 hpart
  obtain rfl := pure_eq_ok.1 hpart
  exact readCompoundWithin_filled hcompound

/-- A selector list has members, each with compounds in which every negation has something to
negate. -/
theorem readBranches_filled {branches : List Branch} (h : readBranches source = .ok branches) :
    branches ≠ [] ∧ ∀ b ∈ branches, b ≠ [] ∧ ∀ part ∈ b, part.2.all isFilled = true := by
  refine ⟨ne_nil_of_mapM h (splitFrom_ne_nil ',' .top source.toList), fun b hb => ?_⟩
  obtain ⟨ds, -, hb⟩ := exists_of_mem_mapM h hb
  exact readBranch_filled hb

mutual

theorem compound_all_and {p q : Compound → Bool} : ∀ d : Compound, d.all p = true →
    d.all q = true → d.all (fun d => p d && q d) = true
  | .mk type conditions, hp, hq => by
    rw [Compound.all, Bool.and_eq_true] at hp hq
    rw [Compound.all, hp.1, hq.1]
    exact conditions_all_and conditions hp.2 hq.2

theorem conditions_all_and {p q : Compound → Bool} : ∀ conditions : List Simple,
    conditionsAll p conditions = true → conditionsAll q conditions = true →
      conditionsAll (fun d => p d && q d) conditions = true
  | [], _, _ => rfl
  | condition :: conditions, hp, hq => by
    rw [conditionsAll, Bool.and_eq_true] at hp hq
    rw [conditionsAll, simple_all_and condition hp.1 hq.1]
    exact conditions_all_and conditions hp.2 hq.2

theorem simple_all_and {p q : Compound → Bool} : ∀ condition : Simple,
    condition.all p = true → condition.all q = true →
      condition.all (fun d => p d && q d) = true
  | .negation alternatives, hp, hq => by
    rw [Simple.all] at hp hq ⊢
    exact compounds_all_and alternatives hp hq
  | .id _, _, _ | .cls _, _, _ | .present _, _, _ | .attribute _ _ _, _, _ | .empty, _, _
  | .childPosition _, _, _ | .typePosition _, _, _ => by simp [Simple.all]

theorem compounds_all_and {p q : Compound → Bool} : ∀ compounds : List Compound,
    compoundsAll p compounds = true → compoundsAll q compounds = true →
      compoundsAll (fun d => p d && q d) compounds = true
  | [], _, _ => rfl
  | compound :: compounds, hp, hq => by
    rw [compoundsAll, Bool.and_eq_true] at hp hq
    rw [compoundsAll, compound_all_and compound hp.1 hq.1]
    exact compounds_all_and compounds hp.2 hq.2

end

end MarkupTemplate.Css

namespace MarkupTemplate.Selector

open Css XPath

/-- What of the text of a selector is a selector list or a query. -/
def body (standard : Grammar) (source : String) : String :=
  String.ofList (detectGrammar standard (splitPosition source).1.toList).2

/-- The names in the selector list that a text holds are names in queries too. -/
def hasNames (standard : Grammar) (source : String) : Bool :=
  match readBranches (body standard source) with
  | .ok branches => branches.all fun b => b.all fun part => part.2.all isNamed
  | .error _ => true

theorem branches_named {standard : Grammar} {source : String} {branches : List Branch}
    (h : hasNames standard source = true)
    (hread : readBranches (body standard source) = .ok branches) :
    ∀ b ∈ branches, ∀ part ∈ b, part.2.all isNamed = true := by
  unfold hasNames at h
  rw [hread] at h
  simpa only [List.all_eq_true] using h

theorem compile_css {standard : Grammar} {source : String} {s : Selector}
    (h : compile standard source = .ok s) (hgrammar : s.grammar = .css) :
    ∃ branches, readBranches (body standard source) = .ok branches ∧
      s.branches = branches.map branchQuery := by
  unfold compile at h
  dsimp only at h
  split at h
  · cases h
  · split at h
    · rename_i hxpath
      obtain ⟨branches, -, h⟩ := bind_eq_ok.1 h
      obtain rfl := pure_eq_ok.1 h
      rw [hxpath] at hgrammar
      cases hgrammar
    · obtain ⟨texts, htexts, h⟩ := bind_eq_ok.1 h
      obtain rfl := pure_eq_ok.1 h
      obtain ⟨branches, hbranches, htexts⟩ := map_eq_ok htexts
      exact ⟨branches, hbranches, htexts.symm⟩

theorem expression_css {s : Selector} {branches : List Branch}
    (h : s.branches = branches.map branchQuery) :
    s.expression = String.intercalate " | " (branches.map branchQuery) := by
  rw [expression, h]

theorem within_point {s : Selector} {branches : List Branch} (hgrammar : s.grammar = .css)
    (h : s.branches = branches.map branchQuery) :
    s.within ["."] = String.intercalate " | " (branches.map fun b => "." ++ branchQuery b) := by
  have hpoint : String.ofList (Text.dropEndWhile (fun c => c = '/') ".".toList) = "." := by rfl
  rw [within, h, hgrammar, List.flatMap_cons, List.flatMap_nil, List.append_nil, List.map_map]
  rw [hpoint]
  rfl

/-- The query of a selector is read as the union of what its branches ask for. -/
theorem read_branches {branches : List Branch} (hne : branches ≠ [])
    (h : ∀ b ∈ branches, BranchReadable b) :
    Expr.read (String.intercalate " | " (branches.map branchQuery)) =
      .ok (folded .union (branches.map branchExpr)) :=
  read_union hne branchQuery branchExpr fun b hb => ⟨branch_operand (h b hb), branchQuery_ends (h b hb)⟩

/-- The query of a selector below the context node is read as the union of what its branches ask for
there. -/
theorem read_branchesWithin {branches : List Branch} (hne : branches ≠ [])
    (h : ∀ b ∈ branches, BranchReadable b) :
    Expr.read (String.intercalate " | " (branches.map fun b => "." ++ branchQuery b)) =
      .ok (folded .union (branches.map branchExprWithin)) := by
  refine read_union hne _ branchExprWithin fun b hb => ⟨branchWithin_operand (h b hb), ?_⟩
  rw [String.toList_append]
  exact ⟨⟨'.', _, rfl, by decide⟩, (branchQuery_ends (h b hb)).2.cons '.'⟩

/-- **A validated CSS selector never breaks a later evaluation.** Its query from the root and its
query below the context node are read, and select nodes in every document and for every node. -/
theorem css_selector_runs {standard : Grammar} {source : String} {s : Selector}
    (h : compile standard source = .ok s) (hgrammar : s.grammar = .css)
    (hnamed : hasNames standard source = true) :
    ∃ e e', Expr.read s.expression = .ok e ∧ Expr.read (s.within ["."]) = .ok e' ∧
      ∀ (scope : Scope) (context : Place),
        (∃ ns, e.value scope context = .ok (.nodes ns)) ∧
          ∃ ns, e'.value scope context = .ok (.nodes ns) := by
  obtain ⟨branches, hread, hbranches⟩ := compile_css h hgrammar
  obtain ⟨hne, hfilled⟩ := readBranches_filled hread
  have hreadable : ∀ b ∈ branches, BranchReadable b := fun b hb =>
    ⟨(hfilled b hb).1, fun part hpart =>
      compound_all_and _ (branches_named hnamed hread b hb part hpart)
        ((hfilled b hb).2 part hpart)⟩
  have hexpr : Expr.read s.expression = .ok (folded .union (branches.map branchExpr)) := by
    rw [expression_css hbranches]
    exact read_branches hne hreadable
  have hwithin : Expr.read (s.within ["."]) =
      .ok (folded .union (branches.map branchExprWithin)) := by
    rw [within_point hgrammar hbranches]
    exact read_branchesWithin hne hreadable
  obtain ⟨hroot, hcontext⟩ := selectorExpr_selects hne hreadable
  exact ⟨_, _, hexpr, hwithin, fun scope context => ⟨hroot _, hcontext _⟩⟩

theorem css_selector_runs_linkInParagraph :
    ∃ s, compile .css "p > a[href]" = .ok s ∧ s.grammar = .css ∧
      ∃ e e', Expr.read s.expression = .ok e ∧ Expr.read (s.within ["."]) = .ok e' ∧
        ∀ (scope : Scope) (context : Place),
          (∃ ns, e.value scope context = .ok (.nodes ns)) ∧
            ∃ ns, e'.value scope context = .ok (.nodes ns) := by
  have hcompile : compile .css "p > a[href]" =
      .ok ⟨"p > a[href]", .css, none, ["//p/a[@href]"]⟩ := by decide +kernel
  have hnamed : hasNames .css "p > a[href]" = true := by decide +kernel
  exact ⟨_, hcompile, rfl, css_selector_runs hcompile rfl hnamed⟩

end MarkupTemplate.Selector
