import MarkupTemplate.Proofs.Counts
import MarkupTemplate.Proofs.Deciding
import MarkupTemplate.Proofs.Patterns

/-!
# Where steps lead

The places that the steps of a location path lead to.

* `Leads` — where steps lead to from any places; `leads_step`, `Leads.append`.
* `reached`, `mem_reached_iff` — going down or on along a combinator, and looking back.
* `leads_descendantOrSelf`, `leads_nextElement` — the steps that stand in front of a compound.
* `finds_of_leads`, `select_of_finds` — what a branch finds and an expression selects.
-/

namespace MarkupTemplate.XPath

variable {s : Scope} {p q x y : Place} {f : Focus}

/-! ## Steps -/

/-- From places with the property `D` the steps lead to the places that one of them is related
to. -/
def Leads (s : Scope) (D : Place → Prop) (steps : List Step) (R : Place → Place → Prop) : Prop :=
  ∀ f : Focus, f.scope = s → ∀ ps : List Place, (∀ p ∈ ps, D p) → ∃ qs : List Place,
    walk f (ps.map .tree) steps = .ok (qs.map .tree) ∧ ∀ q, q ∈ qs ↔ ∃ p ∈ ps, R p q

theorem gather_map {found : Node → Except Fault (List Node)} {on : Place → List Place} :
    ∀ {ps : List Place}, (∀ p ∈ ps, found (.tree p) = .ok ((on p).map .tree)) →
      gather found (ps.map .tree) = .ok ((ps.flatMap on).map .tree)
  | [], _ => rfl
  | p :: ps, h => by
    have hp := h p List.mem_cons_self
    have ih := gather_map fun q hq => h q (List.mem_cons_of_mem p hq)
    rw [List.map_cons, gather, hp, ok_bind, ih, ok_bind, List.flatMap_cons, List.map_append]
    rfl

/-- A step leads to what it finds from one of the places, sorted or not. -/
theorem leads_step {D : Place → Prop} {a : Axis} {test : NodeTest} {es : List Expr}
    (on : Place → List Place) (h : ∀ f : Focus, f.scope = s → ∀ p, D p →
      stepAt f a test es (.tree p) = .ok ((on p).map .tree)) :
    Leads s D [.mk a test es] fun p q => q ∈ on p := by
  intro f hf ps hD
  obtain ⟨qs, hqs, hmem⟩ := exists_inOrder_map (ps.flatMap on)
  have hwalk : walk f (ps.map .tree) [.mk a test es] = .ok
      (if 1 < (ps.map Node.tree).length || a.isReverse then inOrder ((ps.flatMap on).map .tree)
        else (ps.flatMap on).map .tree) := by
    rw [walk, stepFrom_eq, gather_map fun p hp => h f hf p (hD p hp)]
    change walk f _ [] = _
    rw [walk]
  rw [hwalk]
  split
  · exact ⟨qs, by rw [hqs], fun q => by rw [hmem, List.mem_flatMap]⟩
  · exact ⟨ps.flatMap on, rfl, fun q => List.mem_flatMap⟩

theorem walk_append : ∀ (ns : List Node) (left right : List Step),
    walk f ns (left ++ right) = walk f ns left >>= fun ms => walk f ms right
  | ns, [], right => by
    rw [List.nil_append, walk]
    rfl
  | ns, t :: left, right => by
    rw [List.cons_append, walk, walk]
    cases stepFrom f ns t with
    | error => rfl
    | ok reached =>
      rw [ok_bind, ok_bind]
      exact walk_append reached left right

theorem Leads.append {D D' : Place → Prop} {left right : List Step} {R R' : Place → Place → Prop}
    (h : Leads s D left R) (h' : Leads s D' right R') (hD : ∀ p q, D p → R p q → D' q) :
    Leads s D (left ++ right) fun p q => ∃ m, R p m ∧ R' m q := by
  intro f hf ps hps
  obtain ⟨ms, hms, hR⟩ := h f hf ps hps
  have hmiddle : ∀ m ∈ ms, D' m := fun m hm => by
    obtain ⟨p, hp, hpm⟩ := (hR m).1 hm
    exact hD p m (hps p hp) hpm
  obtain ⟨qs, hqs, hR'⟩ := h' f hf ms hmiddle
  refine ⟨qs, ?_, fun q => ?_⟩
  · rw [walk_append, hms, ok_bind, hqs]
  · rw [hR']
    constructor
    · rintro ⟨m, hm, hmq⟩
      obtain ⟨p, hp, hpm⟩ := (hR m).1 hm
      exact ⟨p, hp, m, hpm, hmq⟩
    · rintro ⟨p, hp, m, hpm, hmq⟩
      exact ⟨m, (hR m).2 ⟨p, hp, hpm⟩, hmq⟩

theorem Leads.congr {D : Place → Prop} {steps : List Step} {R R' : Place → Place → Prop}
    (h : Leads s D steps R) (hR : ∀ p q, D p → (R p q ↔ R' p q)) : Leads s D steps R' := by
  intro f hf ps hps
  obtain ⟨qs, hqs, hmem⟩ := h f hf ps hps
  refine ⟨qs, hqs, fun q => ?_⟩
  rw [hmem]
  exact exists_congr fun p => and_congr_right fun hp => hR p q (hps p hp)

/-! ## Siblings -/

/-- Two places are siblings, and the first is before the second. -/
def Place.Precedes (p q : Place) : Prop :=
  ∃ a path i j, i < j ∧ p = ⟨a, path ++ [i]⟩ ∧ q = ⟨a, path ++ [j]⟩

theorem Place.Precedes.asymm (h : p.Precedes q) : ¬ q.Precedes p := by
  obtain ⟨a, path, i, j, hij, rfl, rfl⟩ := h
  rintro ⟨b, path', k, l, hkl, hq, hp⟩
  simp only [Place.mk.injEq, List.append_singleton_inj] at hp hq
  omega

theorem Place.Precedes.irrefl (p : Place) : ¬ p.Precedes p := fun h => h.asymm h

theorem Scope.mem_laterSiblings_iff :
    q ∈ s.laterSiblings p ↔ p.Precedes q ∧ (s.at? q).isSome := by
  obtain ⟨a, full⟩ := p
  rcases List.eq_nil_or_concat full with rfl | ⟨path, i, rfl⟩
  · rw [Scope.laterSiblings_root]
    simp [Place.Precedes]
  · rw [List.concat_eq_append, Scope.mem_laterSiblings]
    constructor
    · rintro ⟨j, hij, rfl, hq⟩
      exact ⟨⟨a, path, i, j, hij, rfl, rfl⟩, hq⟩
    · rintro ⟨⟨b, path', i', j, hij, hp, rfl⟩, hq⟩
      simp only [Place.mk.injEq, List.append_singleton_inj] at hp
      obtain ⟨rfl, rfl, rfl⟩ := hp
      exact ⟨j, hij, rfl, hq⟩

theorem Place.mem_earlierSiblings_iff : p ∈ q.earlierSiblings ↔ p.Precedes q := by
  obtain ⟨a, full⟩ := q
  rcases List.eq_nil_or_concat full with rfl | ⟨path, j, rfl⟩
  · simp [Place.earlierSiblings, Place.Precedes]
  · simp only [Place.earlierSiblings, List.concat_eq_append, List.getLast?_concat,
      List.dropLast_concat, List.mem_map, List.mem_reverse, List.mem_range]
    constructor
    · rintro ⟨i, hij, rfl⟩
      exact ⟨a, path, i, j, hij, rfl, rfl⟩
    · rintro ⟨b, path', i, j', hij, rfl, hq⟩
      simp only [Place.mk.injEq, List.append_singleton_inj] at hq
      obtain ⟨rfl, rfl, rfl⟩ := hq
      exact ⟨i, hij, rfl⟩

theorem Scope.precedes_laterSiblings (s : Scope) (p : Place) :
    (s.laterSiblings p).Pairwise Place.Precedes := by
  rw [Scope.laterSiblings]
  split
  · simp only [Scope.children, ← List.map_drop]
    rw [List.pairwise_map]
    exact (List.pairwise_lt_range.sublist (List.drop_sublist _ _)).imp fun {j k} hjk =>
      ⟨_, _, j, k, hjk, rfl, rfl⟩
  · exact .nil

theorem Place.precedes_earlierSiblings (q : Place) :
    q.earlierSiblings.Pairwise fun x y => y.Precedes x := by
  rw [Place.earlierSiblings]
  split
  · rw [List.pairwise_map, List.pairwise_reverse]
    exact List.pairwise_lt_range.imp fun {j k} hjk => ⟨_, _, j, k, hjk, rfl, rfl⟩
  · exact .nil

/-- The first member with a property, in a list that is ordered. -/
theorem mem_take_one_filter {α : Type} {l : List α} {P : α → Bool} {r : α → α → Prop}
    (hr : ∀ x y, r x y → ¬ r y x) (hl : l.Pairwise r) {x : α} :
    x ∈ (l.filter P).take 1 ↔ x ∈ l ∧ P x = true ∧ ∀ y ∈ l, r y x → P y = false := by
  have hfilter := hl.sublist (List.filter_sublist (p := P))
  have hmem : ∀ y, y ∈ l.filter P ↔ y ∈ l ∧ P y = true := fun y => List.mem_filter
  cases hcases : l.filter P with
  | nil =>
    simp only [List.take_nil, List.not_mem_nil, false_iff]
    rintro ⟨hx, hP, -⟩
    have hx := (hmem x).2 ⟨hx, hP⟩
    rw [hcases] at hx
    cases hx
  | cons z rest =>
    rw [hcases] at hfilter hmem
    have hz := (hmem z).1 List.mem_cons_self
    have hfirst := (List.pairwise_cons.1 hfilter).1
    rw [List.take_succ_cons, List.take_zero, List.mem_singleton]
    constructor
    · rintro rfl
      refine ⟨hz.1, hz.2, fun y hy hyx => ?_⟩
      by_contra hP
      rcases List.mem_cons.1 ((hmem y).2 ⟨hy, by simpa using hP⟩) with rfl | hy
      · exact hr _ _ hyx hyx
      · exact hr _ _ hyx (hfirst y hy)
    · rintro ⟨hx, hP, hnone⟩
      rcases List.mem_cons.1 ((hmem x).2 ⟨hx, hP⟩) with rfl | hx
      · rfl
      · have hzx := hnone z hz.1 (hfirst x hx)
        rw [hz.2] at hzx
        cases hzx

end MarkupTemplate.XPath

namespace MarkupTemplate.Css

open XPath

variable {s : Scope} {p q : Place}

/-! ## Elements -/

theorem passes_any {a : Axis} (ha : a ≠ .attribute) (hq : q.path ≠ []) :
    s.passes a .any (.tree q) = isElement s q := by
  have ha : (a != .attribute) = true := by simpa using ha
  have hq : (!q.path.isEmpty) = true := by simpa using hq
  rw [isElement, hq, Scope.passes, ha]

theorem at?_of_isElement (h : isElement s q = true) : (s.at? q).isSome := by
  rw [isElement, Bool.and_eq_true, Scope.data?] at h
  cases hat : s.at? q with
  | none => simp [hat] at h
  | some t => rfl

theorem path_ne_nil_of_isElement (h : isElement s q = true) : q.path ≠ [] := by
  rw [isElement, Bool.and_eq_true] at h
  simpa using h.1

theorem path_ne_nil_of_mem_laterSiblings (h : q ∈ s.laterSiblings p) : q.path ≠ [] := by
  obtain ⟨⟨a, path, i, j, -, -, rfl⟩, -⟩ := Scope.mem_laterSiblings_iff.1 h
  simp

theorem path_ne_nil_of_mem_children (h : q ∈ s.children p) : q.path ≠ [] := by
  obtain ⟨i, rfl, -⟩ := Scope.mem_children.1 h
  simp [Place.child]

/-! ## Combinators -/

/-- The places that a combinator leads to, of which the compound behind it has to fit. -/
def reached (s : Scope) (combinator : Combinator) (p : Place) : List Place :=
  match combinator with
  | .descendant => (s.preorder p).flatMap s.children
  | .child => s.children p
  | .adjacent => ((s.laterSiblings p).filter (isElement s)).take 1
  | .sibling => s.laterSiblings p

theorem mem_children_iff (hq : isElement s q = true) : q ∈ s.children p ↔ p ∈ q.parent?.toList := by
  have hat := at?_of_isElement hq
  have hne := path_ne_nil_of_isElement hq
  obtain ⟨a, full⟩ := q
  rcases List.eq_nil_or_concat full with rfl | ⟨path, i, rfl⟩
  · exact absurd rfl hne
  · have hparent : Place.parent? ⟨a, path ++ [i]⟩ = some ⟨a, path⟩ := by simp [Place.parent?]
    rw [List.concat_eq_append] at hat
    rw [List.concat_eq_append, Scope.mem_children, hparent, Option.toList_some, List.mem_singleton]
    constructor
    · rintro ⟨j, hchild, -⟩
      simp only [Place.child, Place.mk.injEq, List.append_singleton_inj] at hchild
      rw [hchild.1, hchild.2.1]
    · rintro rfl
      exact ⟨i, rfl, hat⟩

theorem mem_descendants_iff (hq : isElement s q = true) :
    q ∈ (s.preorder p).flatMap s.children ↔ p ∈ q.ancestors := by
  have hat := at?_of_isElement hq
  have hne := path_ne_nil_of_isElement hq
  rw [List.mem_flatMap, Place.mem_ancestors]
  constructor
  · rintro ⟨m, hm, hchild⟩
    obtain ⟨r, rfl, -⟩ := Scope.mem_preorder.1 hm
    obtain ⟨i, rfl, -⟩ := Scope.mem_children.1 hchild
    exact ⟨r ++ [i], by simp, by simp [Place.child], rfl⟩
  · rintro ⟨r, hr, hpath, ha⟩
    obtain ⟨t, i, rfl⟩ : ∃ t i, r = t ++ [i] := ⟨_, _, (List.dropLast_concat_getLast hr).symm⟩
    have hchild : q = Place.child ⟨p.astray, p.path ++ t⟩ i := by
      rw [Place.child, ha, List.append_assoc, ← hpath]
    rw [hchild] at hat
    refine ⟨⟨p.astray, p.path ++ t⟩, Scope.mem_preorder.2 ⟨t, rfl, ?_⟩,
      Scope.mem_children.2 ⟨i, hchild, hchild ▸ hat⟩⟩
    rw [Scope.at?_child] at hat
    cases hm : s.at? ⟨p.astray, p.path ++ t⟩ with
    | none => simp [hm] at hat
    | some t => rfl

/-- The first element after a sibling is the one that the sibling is the last element before. -/
theorem mem_adjacent_iff (hp : isElement s p = true) (hq : isElement s q = true) :
    q ∈ ((s.laterSiblings p).filter (isElement s)).take 1 ↔
      p ∈ (q.earlierSiblings.filter (isElement s)).take 1 := by
  rw [mem_take_one_filter (fun _ _ h => h.asymm) (s.precedes_laterSiblings p),
    mem_take_one_filter (fun _ _ h => h.asymm) q.precedes_earlierSiblings]
  simp only [Scope.mem_laterSiblings_iff, Place.mem_earlierSiblings_iff, hp, hq, true_and,
    at?_of_isElement hq, and_true]
  refine and_congr_right fun _ => ⟨fun h y hyq hpy => ?_, fun h y hy hyq => ?_⟩
  · by_contra hy
    rw [Bool.not_eq_false] at hy
    rw [h y ⟨hpy, at?_of_isElement hy⟩ hyq] at hy
    cases hy
  · exact h y hyq hy.1

/-- What a combinator leads to from the root or an element is what it leads back from. -/
theorem mem_reached_iff {combinator : Combinator} (hq : isElement s q = true)
    (hp : p = .root ∨ isElement s p = true) :
    q ∈ reached s combinator p ↔ p ∈ related s combinator q := by
  cases combinator with
  | descendant => exact mem_descendants_iff hq
  | child => exact mem_children_iff hq
  | adjacent =>
    rcases hp with rfl | hp
    · -- The root has no siblings, on either side.
      constructor
      · intro h
        rw [reached, Place.root, Scope.laterSiblings_root] at h
        cases h
      · intro h
        have hroot := List.of_mem_filter (List.mem_of_mem_take h)
        exact absurd rfl (path_ne_nil_of_isElement hroot)
    · exact mem_adjacent_iff hp hq
  | sibling =>
    rw [reached, related, Scope.mem_laterSiblings_iff, Place.mem_earlierSiblings_iff,
      and_iff_left (at?_of_isElement hq)]

/-- All elements of the document descend from its root. -/
theorem root_mem_ancestors (hp : isElement s p = true) (ha : p.astray = false) :
    .root ∈ p.ancestors :=
  Place.mem_ancestors.2 ⟨p.path, path_ne_nil_of_isElement hp, rfl, ha.symm⟩

theorem astray_of_mem_related {combinator : Combinator} (h : p ∈ related s combinator q) :
    p.astray = q.astray := by
  have hsiblings (h : p ∈ q.earlierSiblings) : p.astray = q.astray := by
    obtain ⟨a, path, i, j, -, rfl, rfl⟩ := Place.mem_earlierSiblings_iff.1 h
    rfl
  cases combinator with
  | descendant =>
    obtain ⟨-, -, -, ha⟩ := Place.mem_ancestors.1 h
    exact ha
  | child =>
    rw [related, Place.parent?] at h
    split at h
    · cases h
    · rw [Option.toList_some, List.mem_singleton] at h
      rw [h]
  | adjacent => exact hsiblings (List.mem_of_mem_filter (List.mem_of_mem_take h))
  | sibling => exact hsiblings h

/-! ## Steps in front of compounds -/

/-- The double slash leads to the nodes at and below a place. -/
theorem leads_descendantOrSelf (s : Scope) (D : Place → Prop) :
    Leads s D [.descendantOrSelf] fun p q => q ∈ s.preorder p := by
  refine leads_step s.preorder fun f hf p _ => ?_
  rw [stepAt, narrow, hf]
  change Except.ok (((s.preorder p).map Node.tree).filter fun _ => true) = _
  rw [List.filter_true]

theorem keep_later {holds : Nat → Node → Except Fault Bool}
    (h : ∀ i n, holds i n = .ok (decide (i = 1))) : ∀ (i : Nat) (ns : List Node),
      keep holds (i + 2) ns = .ok []
  | _, [] => rfl
  | i, n :: ns => by
    have ih := keep_later h (i + 1) ns
    rw [keep, h, ok_bind, ih, ok_bind]
    rfl

/-- The predicate that is the number one leaves the first node. -/
theorem narrow_one (f : Focus) (ns : List Node) : narrow f ns [natExpr 1] = .ok (ns.take 1) := by
  have hholds (i : Nat) (n : Node) : (do
      let v ← evaluate ⟨f.scope, n, i, ns.length⟩ (natExpr 1)
      return holdsAt i v : Except Fault Bool) = .ok (decide (i = 1)) := by
    rw [natExpr, evaluate, ← Number.one_beq_ofNat]
    rfl
  rw [narrow]
  cases ns with
  | nil =>
    rw [keep, ok_bind, narrow]
    rfl
  | cons n ns =>
    rw [keep, hholds, ok_bind, keep_later hholds 0, ok_bind]
    change narrow f [n] [] = _
    rw [narrow]
    rfl

/-- The first of the elements after a place is reached by its position. -/
theorem leads_nextElement (s : Scope) (D : Place → Prop) :
    Leads s D [.mk .followingSibling .any [natExpr 1]]
      fun p q => q ∈ ((s.laterSiblings p).filter (isElement s)).take 1 := by
  refine leads_step (fun p => ((s.laterSiblings p).filter (isElement s)).take 1) fun f hf p _ => ?_
  have helements : (s.laterSiblings p).filter (s.passes .followingSibling .any ∘ .tree) =
      (s.laterSiblings p).filter (isElement s) :=
    List.filter_congr fun q hq => passes_any (by decide) (path_ne_nil_of_mem_laterSiblings hq)
  rw [stepAt, narrow_one, hf, Scope.axis, Scope.treeAxis, List.filter_map]
  change Except.ok ((((s.laterSiblings p).filter _).map Node.tree).take 1) = _
  rw [helements, List.map_take]

/-! ## Branches -/

theorem branchSteps_concat (branch : Branch) (combinator : Combinator) (compound : Compound) :
    branchSteps (branch ++ [(combinator, compound)]) =
      branchSteps branch ++ stepSteps combinator compound := by
  rw [branchSteps, List.flatMap_append, List.flatMap_singleton]
  rfl

/-- What a branch is compiled to finds what its steps lead to from the root. -/
theorem finds_of_leads {branch : Branch} {P : Place → Prop}
    (h : Leads s (fun p => p = .root) (branchSteps branch) fun _ q => P q) {f : Focus}
    (hf : f.scope = s) : Finds f (branchExpr branch) P := by
  obtain ⟨qs, hqs, hmem⟩ := h f hf [.root] fun p hp => List.mem_singleton.1 hp
  refine ⟨qs, ?_, fun q => ?_⟩
  · rw [branchExpr, evaluate, evaluateStart, ok_bind]
    change (walk f ([Place.root].map Node.tree) (branchSteps branch) >>= _) = _
    rw [hqs]
    rfl
  · rw [hmem]
    simp

/-- If an expression finds the nodes of the document that pass a test, it selects them in document
order. -/
theorem select_of_finds {e : Expr} {passes : Place → Bool}
    (h : Finds ⟨s, .tree .root, 1, 1⟩ e fun q => q ∈ s.preorder .root ∧ passes q = true)
    (query : String) : e.select query s .root = .ok ((s.preorder .root).filter passes) := by
  obtain ⟨qs, hqs, hmem⟩ := h
  have hfound : (qs.map Node.tree).Sublist s.documentOrder :=
    evaluate_sublist (Scope.holds_tree.2 s.holds_root) _ hqs
  have hpassing : (((s.preorder .root).filter passes).map Node.tree).Sublist s.documentOrder := by
    refine sublist_documentOrder_iff.2 ⟨?_, fun n hn => ?_⟩
    · exact pairwise_map_tree ((s.pairwise_preorder .root).sublist List.filter_sublist)
    · obtain ⟨q, hq, rfl⟩ := List.mem_map.1 hn
      exact Scope.holds_tree.2 (Scope.mem_preorder_root.1 (List.mem_of_mem_filter hq))
  have heq : qs.map Node.tree = ((s.preorder .root).filter passes).map Node.tree := by
    refine eq_of_sublist_documentOrder hfound hpassing fun n => ?_
    simp only [List.mem_map, hmem, List.mem_filter]
  have hvalue : e.value s .root = .ok (.nodes (qs.map .tree)) := hqs
  rw [Expr.select, hvalue, ok_bind]
  change Except.ok (places (qs.map .tree)) = _
  rw [heq, places, List.filterMap_map]
  exact congrArg Except.ok List.filterMap_some

end MarkupTemplate.Css
