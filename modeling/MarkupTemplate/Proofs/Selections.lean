import MarkupTemplate.Proofs.Compounds
import MarkupTemplate.Proofs.Spellings

/-!
# The elements that compiled selectors select

The query of a selector list selects what the list matches, with positions counted as formulas.

* `branchSelects` — a branch matches a node: the last compound fits it, and what is before matches a
  node from which the combinator leads to it.
* `branchSteps_lead` — the steps of a branch, by induction on its compounds.
* `select_branches` — the query of a list of branches.
* `select_positions`, `select_typePositions` — compiled selectors; positions mean formulas, and
  those among siblings of a type count the siblings with the name of the element, if a type name is
  there.
-/

namespace MarkupTemplate.Css

open XPath

variable {s : Scope} {p q : Place} {counted counted' : String → Place → Place → Bool}
  {branch : Branch} {branches : List Branch}

/-! ## Documents -/

/-- Whether a document has few siblings is seen from its nodes. -/
theorem hasFewSiblings_of_document {m : Markup}
    (h : ((Scope.mk m none).preorder .root).all (fun p =>
      (((Scope.mk m none).children p).countP (isElement ⟨m, none⟩) ≤ 2 ^ 52)) = true) :
    HasFewSiblings ⟨m, none⟩ := by
  intro p
  by_cases hp : p ∈ (Scope.mk m none).preorder .root
  · exact of_decide_eq_true (List.all_eq_true.1 h p hp)
  · have hnone : (Scope.mk m none).at? p = none := by
      rw [Scope.mem_preorder_root, not_and, Bool.not_eq_true] at hp
      cases hastray : p.astray with
      | true => rw [Scope.at?, hastray]; rfl
      | false => exact Option.isSome_eq_false_iff.1 (hp hastray) |> Option.isNone_iff_eq_none.1
    have hchildren : (Scope.mk m none).children p = [] := by
      rw [Scope.children, Scope.childCount, hnone]
      rfl
    rw [hchildren]
    exact Nat.zero_le _

/-! ## Branches -/

/-- Whether compounds match a node, from the last of them back to the first. Without any, it is the
root. -/
def matchesBack (s : Scope) (counted : String → Place → Place → Bool) :
    List (Combinator × Compound) → Place → Bool
  | [], p => p = .root
  | (combinator, compound) :: before, p =>
    compound.fits s counted p && (related s combinator p).any (matchesBack s counted before)

/-- Whether a branch matches a node: the last compound fits it, and what is before that matches a
node from which the last combinator leads to it. -/
def branchSelects (s : Scope) (counted : String → Place → Place → Bool) (branch : Branch)
    (p : Place) : Bool :=
  matchesBack s counted branch.reverse p

theorem branchSelects_concat (branch : Branch) (combinator : Combinator) (compound : Compound) :
    branchSelects s counted (branch ++ [(combinator, compound)]) p =
      (compound.fits s counted p &&
        (related s combinator p).any (branchSelects s counted branch)) := by
  rw [branchSelects, List.reverse_concat, matchesBack]
  rfl

theorem branchSelects_congr
    (h : ∀ type p, isOfType s type p = true → counted type p = counted' type p)
    (branch : Branch) : branchSelects s counted branch = branchSelects s counted' branch := by
  induction branch using List.reverseRecOn with
  | nil => rfl
  | append_singleton branch part ih =>
    funext p
    rw [branchSelects_concat, branchSelects_concat, part.2.fits_congr h, ih]

/-- What a branch matches is the root or an element of the document. -/
theorem mem_of_branchSelects (branch : Branch) (h : branchSelects s counted branch p = true) :
    p ∈ s.preorder .root ∧ (p = .root ∨ isElement s p = true) := by
  rw [Scope.mem_preorder_root]
  induction branch using List.reverseRecOn generalizing p with
  | nil =>
    obtain rfl : p = .root := of_decide_eq_true h
    exact ⟨⟨rfl, rfl⟩, .inl rfl⟩
  | append_singleton branch part ih =>
    rw [branchSelects_concat, Bool.and_eq_true, List.any_eq_true] at h
    obtain ⟨hfits, m, hm, hselects⟩ := h
    have hp := Compound.isElement_of_fits hfits
    exact ⟨⟨astray_of_mem_related hm ▸ (ih hselects).1.1, at?_of_isElement hp⟩, .inr hp⟩

/-- A compound alone matches the elements of the document that it fits. -/
theorem branchSelects_single (compound : Compound) (ha : p.astray = false) :
    branchSelects s counted [(.descendant, compound)] p = compound.fits s counted p := by
  rw [← List.nil_append [_], branchSelects_concat]
  cases hfits : compound.fits s counted p with
  | false => rw [Bool.false_and]
  | true =>
    have hroot : branchSelects s counted [] .root = true := by simp [branchSelects, matchesBack]
    rw [Bool.true_and, List.any_eq_true]
    exact ⟨.root, root_mem_ancestors (Compound.isElement_of_fits hfits) ha, hroot⟩

/-- **From the root the steps of a branch lead to what the branch matches.** -/
theorem branchSteps_lead (branch : Branch)
    (hfew : (∀ part ∈ branch, part.2.all asksNoPosition = true) ∨ HasFewSiblings s)
    (h : ∀ part ∈ branch, part.2.all isTestable = true) :
    Leads s (fun p => p = .root) (branchSteps branch)
      fun _ q => branchSelects s (byTypeName s) branch q = true := by
  induction branch using List.reverseRecOn with
  | nil =>
    intro f _ ps hps
    refine ⟨ps, by rw [branchSteps, List.flatMap_nil, walk], fun q => ?_⟩
    constructor
    · intro hq
      exact ⟨q, hq, decide_eq_true (hps q hq)⟩
    · rintro ⟨p, hp, hq⟩
      obtain rfl : q = .root := of_decide_eq_true hq
      exact hps p hp ▸ hp
  | append_singleton branch part ih =>
    obtain ⟨combinator, compound⟩ := part
    rw [List.forall_mem_append, List.forall_mem_singleton] at h
    rw [List.forall_mem_append, List.forall_mem_singleton, and_or_right] at hfew
    have hlast := Compound.leads hfew.2 h.2 (fun p => p = .root ∨ isElement s p = true) combinator
    have hsteps := (ih hfew.1 h.1).append hlast fun _ m _ hm => (mem_of_branchSelects branch hm).2
    rw [branchSteps_concat]
    refine hsteps.congr fun p q _ => ?_
    rw [branchSelects_concat, Bool.and_eq_true, List.any_eq_true]
    constructor
    · rintro ⟨m, hm, hq, hfits⟩
      have hback := (mem_reached_iff (Compound.isElement_of_fits hfits)
        (mem_of_branchSelects branch hm).2).1 hq
      exact ⟨hfits, m, hback, hm⟩
    · rintro ⟨hfits, m, hback, hm⟩
      refine ⟨m, hm, ?_, hfits⟩
      exact (mem_reached_iff (Compound.isElement_of_fits hfits)
        (mem_of_branchSelects branch hm).2).2 hback

/-! ## Lists -/

/-- **The query of a list of branches selects what one of them matches**, in document order. -/
theorem select_branches
    (hfew : (∀ branch ∈ branches, ∀ part ∈ branch, part.2.all asksNoPosition = true) ∨
      HasFewSiblings s) (hne : branches ≠ [])
    (h : ∀ branch ∈ branches, ∀ part ∈ branch, part.2.all isTestable = true) (query : String) :
    (folded .union (branches.map branchExpr)).select query s .root =
      .ok ((s.preorder .root).filter fun p =>
        branches.any fun branch => branchSelects s (byTypeName s) branch p) := by
  have hleads : ∀ branch ∈ branches, Leads s (fun p => p = .root) (branchSteps branch)
      fun _ q => branchSelects s (byTypeName s) branch q = true := fun branch hbranch =>
    branchSteps_lead branch (hfew.imp_left fun hnone => hnone branch hbranch) (h branch hbranch)
  obtain ⟨qs, hqs, hmem⟩ := finds_folded hne fun branch hbranch =>
    finds_of_leads (hleads branch hbranch) (f := ⟨s, .tree .root, 1, 1⟩) rfl
  refine select_of_finds ⟨qs, hqs, fun q => (hmem q).trans ?_⟩ query
  simp only [List.any_eq_true]
  constructor
  · rintro ⟨branch, hbranch, hselects⟩
    exact ⟨(mem_of_branchSelects branch hselects).1, branch, hbranch, hselects⟩
  · exact fun h => h.2

/-- A compound alone that asks for no position selects the elements that it fits. -/
theorem select_compound {compound : Compound} (hnone : compound.all asksNoPosition = true)
    (h : compound.all isTestable = true) (query : String) :
    (folded .union ([[(.descendant, compound)]].map branchExpr)).select query s .root =
      .ok ((s.preorder .root).filter (compound.fits s (byTypeName s))) := by
  have hselect := select_branches (s := s) (.inl (by simpa using hnone))
    (List.cons_ne_nil [(.descendant, compound)] []) (by simpa using h) query
  rw [hselect]
  refine congrArg Except.ok (List.filter_congr fun p hp => ?_)
  rw [List.any_cons, List.any_nil, Bool.or_false]
  exact branchSelects_single compound (Scope.mem_preorder_root.1 hp).1

end MarkupTemplate.Css

namespace MarkupTemplate.Selector

open Css XPath

variable {standard : Grammar} {source : String} {sel : Selector} {branches : List Branch}

/-- The query of a compiled selector is read, and selects what its branches match. -/
theorem select_compiled (hcompile : compile standard source = .ok sel)
    (hgrammar : sel.grammar = .css) (hnames : hasNames standard source = true)
    (hread : readBranches (body standard source) = .ok branches)
    (hsmall : ∀ branch ∈ branches, ∀ part ∈ branch, part.2.all hasSmallPositions = true) :
    ∃ e, Expr.read sel.expression = .ok e ∧ ∀ s, HasFewSiblings s →
      e.select sel.expression s .root = .ok ((s.preorder .root).filter fun p =>
        branches.any fun branch => branchSelects s (byTypeName s) branch p) := by
  obtain ⟨branches', hread', hbranches⟩ := compile_css hcompile hgrammar
  obtain rfl : branches' = branches := Except.ok.inj (hread'.symm.trans hread)
  obtain ⟨hne, hfilled⟩ := readBranches_filled hread
  have hreadable : ∀ branch ∈ branches', BranchReadable branch := fun branch hbranch =>
    ⟨(hfilled branch hbranch).1, fun part hpart =>
      compound_all_and _ (branches_named hnames hread branch hbranch part hpart)
        ((hfilled branch hbranch).2 part hpart)⟩
  have htestable : ∀ branch ∈ branches', ∀ part ∈ branch, part.2.all isTestable = true :=
    fun branch hbranch part hpart => compound_all_and _ ((hfilled branch hbranch).2 part hpart)
      (hsmall branch hbranch part hpart)
  refine ⟨_, ?_, fun s hfew => select_branches (.inr hfew) hne htestable _⟩
  rw [expression_css hbranches]
  exact read_branches hne hreadable

/-- **Positions mean formulas.** An argument is read exactly if it spells a formula `a * n + b`, and
this is the position that a compound goes on with. In every document the query of a compiled
selector selects what its branches match: behind every combinator and inside every negation, an
element is at a position if for a natural number `n` the formula has as its value the position of
the element, counted from one among all its sibling elements or among those with the type name, and
it is at several positions if it is at each of them. -/
theorem select_positions :
    (∀ source argument nth, readNth source argument = .ok nth ↔
      ∃ a b, nth = .formula a b ∧ IsSpelling argument a b) ∧
    (∀ source compound argument rest a b, IsSpelling argument a b →
      readSimple source compound ':' ("nth-child".toList ++ '(' :: (argument ++ ')' :: rest)) =
          .ok ([.childPosition (.formula a b)], rest) ∧
        readSimple source compound ':' ("nth-of-type".toList ++ '(' :: (argument ++ ')' :: rest)) =
          .ok ([.typePosition (.formula a b)], rest)) ∧
    ∀ standard source sel branches, compile standard source = .ok sel → sel.grammar = .css →
      hasNames standard source = true → readBranches (body standard source) = .ok branches →
      (∀ branch ∈ branches, ∀ part ∈ branch, part.2.all hasSmallPositions = true) →
        ∃ e, Expr.read sel.expression = .ok e ∧ ∀ s, HasFewSiblings s →
          e.select sel.expression s .root = .ok ((s.preorder .root).filter fun p =>
            branches.any fun branch => branchSelects s (byTypeName s) branch p) :=
  ⟨fun _ _ _ => readNth_eq_ok,
    fun _ _ _ rest _ _ h => ⟨h.reads_childPosition rest, h.reads_typePosition rest⟩,
    fun _ _ _ _ hcompile hgrammar hnames hread hsmall =>
      select_compiled hcompile hgrammar hnames hread hsmall⟩

/-- The branch of `ul > li:nth-child( 2N +1)`. -/
def oddItem : Branch :=
  [(.descendant, .mk "ul" []), (.child, .mk "li" [.childPosition (.formula 2 1)])]

/-- Of the two items of a list the first is at an odd position. -/
theorem select_positions_oddItem : IsSpelling " 2N +1".toList 2 1 ∧ ∃ sel e,
    compile .css "ul > li:nth-child( 2N +1)" = .ok sel ∧ Expr.read sel.expression = .ok e ∧
      e.select sel.expression twoItems .root = .ok [⟨false, [0, 0]⟩] := by
  obtain ⟨hspelling, -, hselect⟩ := select_positions
  have hargument : readNth "" " 2N +1".toList = .ok (.formula 2 1) := by rfl
  have hcompile : compile .css "ul > li:nth-child( 2N +1)" =
      .ok ⟨"ul > li:nth-child( 2N +1)", .css, none, ["//ul/*[position() mod 2 = 1]/self::li"]⟩ := by
    decide +kernel
  have hread : readBranches (body .css "ul > li:nth-child( 2N +1)") = .ok [oddItem] := by rfl
  have hsmall : ∀ branch ∈ [oddItem], ∀ part ∈ branch, part.2.all hasSmallPositions = true := by
    simp only [← List.all_eq_true]
    decide +kernel
  have hfew : HasFewSiblings twoItems := hasFewSiblings_of_document (by decide +kernel)
  have hmatching : ((twoItems.preorder .root).filter fun p =>
      [oddItem].any fun branch => branchSelects twoItems (byTypeName twoItems) branch p) =
        [⟨false, [0, 0]⟩] := by
    decide +kernel
  obtain ⟨a, b, hab, hspelled⟩ := (hspelling _ _ _).1 hargument
  obtain ⟨rfl, rfl⟩ := Nth.formula.inj hab
  obtain ⟨e, he, hselected⟩ := hselect _ _ _ _ hcompile rfl (by decide +kernel) hread hsmall
  exact ⟨hspelled, _, e, hcompile, he, hmatching ▸ hselected twoItems hfew⟩

/-- **Behind a type name, positions among siblings of the type count the siblings with the name of
the element itself**, and without a type name they count all sibling elements. The pseudo-classes
for such positions are read as the positions that they name, and in every document the query of a
compiled selector selects what its branches match with positions counted so. -/
theorem select_typePositions :
    (∀ source compound name positions rest, (Text.lower name, positions) ∈ typePseudos →
      (∀ d ∈ rest.head?, endsName d = true) →
        readSimple source compound ':' (name ++ rest) =
          .ok (positions.map .typePosition, rest)) ∧
    (∀ source compound argument rest a b, IsSpelling argument a b →
      readSimple source compound ':' ("nth-of-type".toList ++ '(' :: (argument ++ ')' :: rest)) =
        .ok ([.typePosition (.formula a b)], rest)) ∧
    ∀ standard source sel branches, compile standard source = .ok sel → sel.grammar = .css →
      hasNames standard source = true → readBranches (body standard source) = .ok branches →
      (∀ branch ∈ branches, ∀ part ∈ branch, part.2.all hasSmallPositions = true) →
        ∃ e, Expr.read sel.expression = .ok e ∧ ∀ s, HasFewSiblings s →
          e.select sel.expression s .root = .ok ((s.preorder .root).filter fun p =>
            branches.any fun branch => branchSelects s (byOwnNameIfTyped s) branch p) := by
  refine ⟨fun _ _ _ _ _ => reads_typePseudo, fun _ _ _ rest _ _ h => h.reads_typePosition rest, ?_⟩
  intro standard source sel branches hcompile hgrammar hnames hread hsmall
  obtain ⟨e, he, hselect⟩ := select_compiled hcompile hgrammar hnames hread hsmall
  refine ⟨e, he, fun s hfew => ?_⟩
  rw [hselect s hfew]
  simp only [branchSelects_congr fun _ _ => byTypeName_eq]

/-- The branch of `p.item:first-of-type`. -/
def firstParagraph : Branch :=
  [(.descendant, .mk "p" [.cls "item", .typePosition .first])]

/-- The branch of `.item:first-of-type`. -/
def firstItem : Branch :=
  [(.descendant, .mk "*" [.cls "item", .typePosition .first])]

/-- A document of a heading and a paragraph with the class `item` behind it. -/
def headed : Scope :=
  ⟨.node .document [.node (.element ⟨.html, "div"⟩ [])
    [.node (.element ⟨.html, "h1"⟩ []) [],
      .node (.element ⟨.html, "p"⟩ [⟨.plain, "class", "item"⟩]) []]], none⟩

theorem headed_hasFewSiblings : HasFewSiblings headed :=
  hasFewSiblings_of_document (by decide +kernel)

/-- Behind the heading the first paragraph is found. -/
theorem select_typePositions_firstParagraph :
    readSimple "" (readCompound "") ':' "First-of-type.item".toList =
        .ok ([.typePosition .first], ".item".toList) ∧
      ∃ sel e, compile .css "p.item:first-of-type" = .ok sel ∧
        Expr.read sel.expression = .ok e ∧
        e.select sel.expression headed .root = .ok [⟨false, [0, 1]⟩] := by
  obtain ⟨hpseudo, -, hselect⟩ := select_typePositions
  have hfirst := hpseudo "" (readCompound "") "First-of-type".toList [.first] ".item".toList
    (by decide) (by simp [endsName])
  have hcompile : compile .css "p.item:first-of-type" = .ok ⟨"p.item:first-of-type", .css, none,
      ["//p[1][contains(concat(\" \", normalize-space(@class), \" \"), \" item \")]"]⟩ := by
    decide +kernel
  have hread : readBranches (body .css "p.item:first-of-type") = .ok [firstParagraph] := by rfl
  have hsmall : ∀ branch ∈ [firstParagraph], ∀ part ∈ branch,
      part.2.all hasSmallPositions = true := by
    simp only [← List.all_eq_true]
    decide +kernel
  have hmatching : ((headed.preorder .root).filter fun p => [firstParagraph].any fun branch =>
      branchSelects headed (byOwnNameIfTyped headed) branch p) = [⟨false, [0, 1]⟩] := by
    decide +kernel
  obtain ⟨e, he, hselected⟩ := hselect _ _ _ _ hcompile rfl (by decide +kernel) hread hsmall
  exact ⟨hfirst, _, e, hcompile, he, hmatching ▸ hselected headed headed_hasFewSiblings⟩

/-- The branch of `p:nth-of-type(2n - 2 ^ 53)`. -/
def farEven : Branch :=
  [(.descendant, .mk "p" [.typePosition (.formula 2 (-2 ^ 53))])]

/-- A document of a paragraph. -/
def singleParagraph : Scope :=
  ⟨.node .document [.node (.element ⟨.html, "p"⟩ []) []], none⟩

/-- Without a type name the siblings with the name of the element are not those that are counted:
the first paragraph with the class `item` is not found behind the heading. With a number that is too
large an odd position is taken for an even one, since one more than `2 ^ 53` is rounded. And of what
is no name no query is read. -/
theorem not_select_typePositions_byOwnName :
    (∃ sel e, compile .css ".item:first-of-type" = .ok sel ∧ Expr.read sel.expression = .ok e ∧
      readBranches ".item:first-of-type" = .ok [firstItem] ∧
      e.select sel.expression headed .root = .ok [] ∧
      branchSelects headed (byOwnName headed) firstItem ⟨false, [0, 1]⟩ = true) ∧
    (∃ sel e, compile .css "p:nth-of-type(2n-9007199254740992)" = .ok sel ∧
      Expr.read sel.expression = .ok e ∧
      readBranches "p:nth-of-type(2n-9007199254740992)" = .ok [farEven] ∧
      e.select sel.expression singleParagraph .root = .ok [⟨false, [0]⟩] ∧
      branchSelects singleParagraph (byOwnName singleParagraph) farEven ⟨false, [0]⟩ = false) ∧
    ∃ sel, compile .css "1a:first-of-type" = .ok sel ∧
      (Expr.read sel.expression).isOk = false := by
  refine ⟨?_, ?_, ?_⟩
  · have hcompile : compile .css ".item:first-of-type" = .ok ⟨".item:first-of-type", .css, none,
        ["//*[1][contains(concat(\" \", normalize-space(@class), \" \"), \" item \")]"]⟩ := by
      decide +kernel
    have hread : readBranches (body .css ".item:first-of-type") = .ok [firstItem] := by rfl
    have hsmall : ∀ branch ∈ [firstItem], ∀ part ∈ branch,
        part.2.all hasSmallPositions = true := by
      simp only [← List.all_eq_true]
      decide +kernel
    have hmatching : ((headed.preorder .root).filter fun p => [firstItem].any fun branch =>
        branchSelects headed (byTypeName headed) branch p) = [] := by
      decide +kernel
    obtain ⟨e, he, hselected⟩ :=
      select_compiled hcompile rfl (by decide +kernel) hread hsmall
    exact ⟨_, e, hcompile, he, by rfl, hmatching ▸ hselected headed headed_hasFewSiblings,
      by decide +kernel⟩
  · -- The numbers are not small, so the query is evaluated as it stands.
    have hcompile : compile .css "p:nth-of-type(2n-9007199254740992)" =
        .ok ⟨"p:nth-of-type(2n-9007199254740992)", .css, none,
          ["//p[(position() + 9007199254740992) mod 2 = 0]"]⟩ := by
      decide +kernel
    have hselected : (Expr.read "//p[(position() + 9007199254740992) mod 2 = 0]" >>= fun e =>
        e.select "//p[(position() + 9007199254740992) mod 2 = 0]" singleParagraph .root) =
          .ok [⟨false, [0]⟩] := by
      decide +kernel
    obtain ⟨e, he, hselected⟩ := bind_eq_ok.1 hselected
    exact ⟨_, e, hcompile, he, by rfl, hselected, by decide +kernel⟩
  · have hcompile : compile .css "1a:first-of-type" =
        .ok ⟨"1a:first-of-type", .css, none, ["//1a[1]"]⟩ := by
      decide +kernel
    exact ⟨_, hcompile, by decide +kernel⟩

end MarkupTemplate.Selector
