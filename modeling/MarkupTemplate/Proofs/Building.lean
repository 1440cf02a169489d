import Mathlib
import MarkupTemplate.Html.Construction.Foreign
import MarkupTemplate.Proofs.Links

/-!
# Making nodes, opening and ending elements

Steps in which a tree is made keep the links between its nodes. What is moved is never one of the
first nodes: it is a node just made, an element inside of the outermost one or a child of it.

* `KeepsLinks` — a step keeps the links.
* `appendTo_known`, `insertBefore_known` — a known node is moved.
* `splitAround_known` — formatting is split around a block, which is where most nodes move.
* `closeFormatting_linked`, `inForeign_linked` — end tags of formatting, and foreign content.
-/

set_option mvcgen.warning false

namespace MarkupTemplate.Html

open Std.Do

variable {k : Known} {n : Nat}

/-- The step keeps the links between nodes, and what is known of them. -/
abbrev KeepsLinks {α : Type} (k : Known) (x : Build α) : Prop :=
  ⦃fun s => ⌜s.Linked k⌝⦄ x ⦃⇓ _ s => ⌜s.Linked k⌝⦄

theorem KeepsLinks.forget {α : Type} {x : Build α} {more : Nat → Prop}
    (h : KeepsLinks (k.also more) x) :
    ⦃fun s => ⌜s.Linked (k.also more)⌝⦄ x ⦃⇓ _ s => ⌜s.Linked k⌝⦄ := by
  mvcgen [h]
  exact Construction.Linked.forget

/-! ## States -/

theorem modify_known {wider : Known} {f : Construction → Construction}
    (h : ∀ s, s.Linked wider → (f s).Linked k) :
    ⦃fun s => ⌜s.Linked wider⌝⦄ (modify f : Build Unit) ⦃⇓ _ s => ⌜s.Linked k⌝⦄ := by
  mvcgen
  exact h _ ‹_›

theorem modify_linked {f : Construction → Construction}
    (h : ∀ s, s.Linked k → (f s).Linked k) : KeepsLinks k (modify f : Build Unit) :=
  modify_known h

/-- The elements inside of the outermost one are known in the present state. -/
theorem get_stack_linked :
    ⦃fun s => ⌜s.Linked k⌝⦄ (get : Build Construction)
    ⦃⇓ r s => ⌜s.Linked (k.also (· ∈ r.stack.dropLast))⌝⦄ := by
  mvcgen
  rename_i h
  exact h.learn h.stack

/-- The children that a node has in the present state are known. -/
theorem get_children_linked {p : Nat} (hp : k.others p) :
    ⦃fun s => ⌜s.Linked k⌝⦄ (get : Build Construction)
    ⦃⇓ r s => ⌜s.Linked (k.also (· ∈ r.childrenOf p))⌝⦄ := by
  mvcgen
  rename_i h
  exact h.learn fun _ => h.isInner_child (h.inner p hp).1

/-! ## Nodes -/

@[spec] theorem create_linked (data : NodeData) :
    ⦃fun s => ⌜s.Linked k⌝⦄ create data
    ⦃⇓ n s => ⌜s.Linked (k.also (· = n))⌝⦄ := by
  mvcgen [create]
  rename_i s h _ _
  exact h.extended data

@[spec] theorem detach_linked (n : Nat) :
    ⦃fun s => ⌜s.Linked k⌝⦄ detach n
    ⦃⇓ _ s => ⌜s.Linked k ∧ s.parentOf n = none⌝⦄ := by
  mvcgen [detach, modifyNode]
  rename_i s h p hp _ _
  refine ⟨h.detached hp, ?_⟩
  exact (Construction.parentOf_setParent (s := s.mapChildren p fun cs => cs.filter (· != n))).trans
    (if_pos ⟨rfl, by simpa using Construction.lt_of_parentOf hp⟩)

theorem appendTo_known (p : Nat) (hn : k.others n) : KeepsLinks k (appendTo p n) := by
  mvcgen [appendTo, modifyNode]
  rename_i s h _ _
  refine h.1.attached (p := p) (f := fun cs => cs.push n) hn h.2 (.inl ?_)
  rw [Array.toList_push]
  exact List.perm_append_singleton n _

theorem insertBefore_known (sibling : Nat) (hn : k.others n) :
    KeepsLinks k (insertBefore sibling n) := by
  mvcgen [insertBefore, modifyNode]
  · rename_i h _
    exact h.1
  · rename_i s h p hp _ _
    have lists : ∀ c, (if c = sibling then #[n, c] else #[c]).toList =
        if c = sibling then [n, c] else [c] := fun c => by split <;> rfl
    refine h.1.attached (p := p)
      (f := fun cs => cs.flatMap fun c => if c = sibling then #[n, c] else #[c]) hn h.2 ?_
    by_cases there : sibling ∈ (s.childrenOf p).toList
    · left
      rw [Array.toList_flatMap]
      simp only [lists]
      exact flatMap_before_perm (h.1.distinct p) there
    · right
      apply Array.toList_inj.1
      rw [Array.toList_flatMap]
      simp only [lists]
      exact flatMap_before_of_notMem there

theorem insert_known (place : Place) (hn : k.others n) : KeepsLinks k (place.insert n) := by
  cases place with
  | inside p => exact appendTo_known p hn
  | before sibling => exact insertBefore_known sibling hn

@[spec] theorem appendTo_linked (p n : Nat) :
    KeepsLinks (k.also (· = n)) (appendTo p n) :=
  appendTo_known p (.inr rfl)

@[spec] theorem insert_linked (place : Place) (n : Nat) :
    KeepsLinks (k.also (· = n)) (place.insert n) :=
  insert_known place (.inr rfl)

theorem appendTo_all_known (p : Nat) (cs : Array Nat) (hcs : ∀ c ∈ cs, k.others c) :
    KeepsLinks k (do for c in cs do appendTo p c) := by
  mvcgen invariants
  · ⇓ _ s => ⌜s.Linked k⌝
  case vc2 c _ hsplit _ _ h =>
    have there : c ∈ cs.toList := hsplit ▸ List.mem_append_right _ List.mem_cons_self
    exact h.remember (hcs c (Array.mem_toList_iff.1 there))
  case vc3 h => exact h.forget

@[spec] theorem createElement_linked (name : ElementName) (attributes : List Attribute) :
    ⦃fun s => ⌜s.Linked k⌝⦄ createElement name attributes
    ⦃⇓ n s => ⌜s.Linked (k.also (· = n))⌝⦄ := by
  mvcgen [createElement, modifyNode]
  · exact Construction.Linked.forget ‹_›
  · rename_i h _
    exact h.relabel _ (fun _ _ => id) (fun _ => rfl) fun _ => rfl

@[spec] theorem placeInsertChar_linked (place : Place) (c : Char) :
    KeepsLinks k (place.insertChar c) := by
  mvcgen [Place.insertChar, modifyNode]
  · rename_i h _ _ _ htext _
    refine h.relabel _ (fun _ hnode hdata => ?_) (fun _ => rfl) fun _ => rfl
    rw [Construction.dataOf, hnode] at htext
    cases hdata.symm.trans htext
  all_goals exact Construction.Linked.forget

/-! ## Open elements -/

@[spec] theorem inScope_linked (scope : Scope) (names : List String) :
    KeepsLinks k (inScope scope names) := by
  mvcgen [inScope]

@[spec] theorem nodeInScope_linked (node : Nat) : KeepsLinks k (nodeInScope node) := by
  mvcgen [nodeInScope]

@[spec] theorem current_linked : KeepsLinks k current := by
  mvcgen [current]

@[spec] theorem currentName_linked : KeepsLinks k currentName := by
  mvcgen [currentName]

@[spec] theorem currentIs_linked (names : List String) : KeepsLinks k (currentIs names) := by
  mvcgen [currentIs]

@[spec] theorem templateOpen_linked : KeepsLinks k templateOpen := by
  mvcgen [templateOpen]

@[spec] theorem pop_linked : KeepsLinks k pop :=
  modify_linked fun _ h => h.close rfl (List.drop_sublist _ _) rfl

@[spec] theorem popThrough_linked (p : ElementName → Bool) : KeepsLinks k (popThrough p) :=
  modify_linked fun _ h =>
    h.close rfl ((List.drop_sublist _ _).trans (List.dropWhile_sublist _)) rfl

@[spec] theorem popUntil_linked (names : List String) : KeepsLinks k (popUntil names) :=
  popThrough_linked _

@[spec] theorem clearTo_linked (names : List String) : KeepsLinks k (clearTo names) :=
  modify_linked fun _ h => h.close rfl (List.dropWhile_sublist _) rfl

@[spec] theorem closeImplied_linked (except : List String) :
    KeepsLinks k (closeImplied except) :=
  modify_linked fun _ h => h.close rfl (List.dropWhile_sublist _) rfl

@[spec] theorem closeImpliedThoroughly_linked : KeepsLinks k closeImpliedThoroughly :=
  modify_linked fun _ h => h.close rfl (List.dropWhile_sublist _) rfl

@[spec] theorem endParagraph_linked : KeepsLinks k endParagraph := by
  mvcgen [endParagraph]

@[spec] theorem closeParagraph_linked : KeepsLinks k closeParagraph := by
  mvcgen [closeParagraph]

@[spec] theorem removeOpen_linked (node : Nat) : KeepsLinks k (removeOpen node) :=
  modify_linked fun _ h => h.close rfl List.filter_sublist rfl

@[spec] theorem placeIn_linked (target : Nat) : KeepsLinks k (placeIn target) := by
  mvcgen [placeIn]

@[spec] theorem placeHere_linked : KeepsLinks k placeHere := by
  mvcgen [placeHere]

@[spec] theorem insertChar_linked (c : Char) : KeepsLinks k (insertChar c) := by
  mvcgen [insertChar]

@[spec] theorem insertComment_linked (content : String) :
    KeepsLinks k (insertComment content) := by
  mvcgen [insertComment]
  exact Construction.Linked.forget

@[spec] theorem appendComment_linked (parent : Nat) (content : String) :
    KeepsLinks k (appendComment parent content) := by
  mvcgen [appendComment]
  exact Construction.Linked.forget

theorem insertNamed_known (name : ElementName) (attributes : List Attribute) :
    ⦃fun s => ⌜s.Linked k⌝⦄ insertNamed name attributes
    ⦃⇓ n s => ⌜s.Linked (k.also (· = n))⌝⦄ := by
  mvcgen [insertNamed]
  rename_i h _
  exact h.open_ (.inr rfl) rfl rfl rfl

@[spec] theorem insertNamed_linked (name : ElementName) (attributes : List Attribute) :
    KeepsLinks k (insertNamed name attributes) := by
  mvcgen [insertNamed_known]
  exact Construction.Linked.forget

@[spec] theorem insertElement_linked (tag : Tag) : KeepsLinks k (insertElement tag) :=
  insertNamed_linked _ _

@[spec] theorem insertPlain_linked (name : String) : KeepsLinks k (insertPlain name) :=
  insertNamed_linked _ _

@[spec] theorem insertVoid_linked (tag : Tag) : KeepsLinks k (insertVoid tag) := by
  mvcgen [insertVoid]

@[spec] theorem addMissing_linked (node : Nat) (tag : Tag) :
    KeepsLinks k (addMissing node tag) :=
  modify_linked fun _ h => h.relabel node (fun _ _ hdata => by rw [hdata]; rfl) (fun _ => rfl)
    fun _ => rfl

@[spec] theorem setMode_linked (mode : InsertionMode) : KeepsLinks k (setMode mode) :=
  modify_linked fun _ h => h.same rfl rfl rfl

@[spec] theorem noFrameset_linked : KeepsLinks k noFrameset :=
  modify_linked fun _ h => h.same rfl rfl rfl

@[spec] theorem insertWithText_linked (tag : Tag) (textMode : TextMode) :
    KeepsLinks k (insertWithText tag textMode) := by
  mvcgen [insertWithText]
  rename_i h _
  exact h.same rfl rfl rfl

@[spec] theorem resetMode_linked : KeepsLinks k resetMode :=
  modify_linked fun _ h => h.same rfl rfl rfl

/-! ## Formatting elements -/

@[spec] theorem clearToMarker_linked : KeepsLinks k clearToMarker :=
  modify_linked fun _ h => h.same rfl rfl rfl

@[spec] theorem pushMarker_linked : KeepsLinks k pushMarker :=
  modify_linked fun _ h => h.same rfl rfl rfl

@[spec] theorem forgetFormatting_linked (node : Nat) : KeepsLinks k (forgetFormatting node) :=
  modify_linked fun _ h => h.same rfl rfl rfl

@[spec] theorem replaceFormatting_linked (node other : Nat) :
    KeepsLinks k (replaceFormatting node other) :=
  modify_linked fun _ h => h.same rfl rfl rfl

@[spec] theorem pushFormatting_linked (node : Nat) (tag : Tag) :
    KeepsLinks k (pushFormatting node tag) :=
  modify_linked fun _ h => h.same rfl rfl rfl

@[spec] theorem openFormatting_linked (tag : Tag) : KeepsLinks k (openFormatting tag) := by
  mvcgen [openFormatting]

@[spec] theorem reopenFormatting_linked : KeepsLinks k reopenFormatting := by
  mvcgen [reopenFormatting] invariants
  · ⇓ _ s => ⌜s.Linked k⌝

theorem closeOther_go_linked (name : String) (s : Construction) :
    ∀ ns : List Nat, KeepsLinks k (closeOther.go name s ns)
  | [] => by mvcgen [closeOther.go]
  | n :: ns => by
    have further := closeOther_go_linked name s ns
    mvcgen [closeOther.go, further]
    rename_i h _
    exact h.close rfl ((List.drop_sublist _ _).trans (List.dropWhile_sublist _)) rfl

@[spec] theorem closeOther_linked (name : String) : KeepsLinks k (closeOther name) := by
  mvcgen [closeOther, closeOther_go_linked]

/-! ## Splitting formatting around blocks -/

/-- What was gathered hangs on a node that is known afterwards. -/
theorem gather_known (node block : Nat) :
    ∀ (ns : List Nat) (k : Known) {last : Nat} (steps : Nat) (bookmark : Bookmark),
      k.others last →
      ⦃fun s => ⌜s.Linked k⌝⦄ gather node block steps last bookmark ns
      ⦃⇓ r s => ⌜s.Linked (k.also (· = r.1))⌝⦄
  | [], k, last, steps, bookmark, hlast => by
    mvcgen [gather]
    rename_i h
    exact h.remember hlast
  | n :: ns, k, last, steps, bookmark, hlast => by
    have further : ∀ copy steps bookmark,
        ⦃fun s => ⌜s.Linked (k.also (· = copy))⌝⦄ gather node block steps copy bookmark ns
        ⦃⇓ r s => ⌜s.Linked (k.also (· = r.1))⌝⦄ := by
      intro copy steps bookmark
      have rest := gather_known node block ns (k.also (· = copy)) steps bookmark (.inr rfl)
      mvcgen [rest]
      exact Construction.Linked.forget_middle
    -- The copy is known to all that follows, so these are needed with it.
    have moved : ∀ copy : Nat, KeepsLinks (k.also (· = copy)) (appendTo copy last) :=
      fun copy => appendTo_known copy (.inl hlast)
    have replaced := fun copy => @replaceFormatting_linked (k.also (· = copy)) n copy
    have reopened : ∀ {s : Construction} {copy : Nat}, s.Linked (k.also (· = copy)) →
        ({ s with stack := s.stack.map fun m => if m = n then copy else m } : Construction).Linked
          (k.also (· = copy)) := by
      intro s copy h
      refine h.update rfl (fun m hm => ?_) fun _ => .inl
      obtain ⟨m', hm', rfl⟩ := List.mem_map.1 (List.map_dropLast ▸ hm)
      split
      · exact .inr (.inr rfl)
      · exact .inl hm'
    mvcgen [gather, -replaceFormatting_linked, -appendTo_linked, further, moved, replaced]
    case vc10 | vc18 => exact reopened ‹_›
    all_goals exact Construction.Linked.remember ‹_› hlast

theorem splitAround_known (node : Nat) (tag : Tag) {block : Nat} (inside outside : List Nat)
    (hblock : k.others block) : KeepsLinks k (splitAround node tag block inside outside) := by
  unfold KeepsLinks splitAround
  refine Triple.bind _ _ (gather_known node block _ k 0 _ hblock) fun ⟨last, bookmark⟩ => ?_
  refine Triple.bind _ _ (placeIn_linked (outside.headD documentNode)) fun place => ?_
  refine Triple.bind _ _ (insert_linked place last) fun _ => ?_
  refine Triple.bind _ _ (createElement_linked _ _) fun copy => ?_
  refine Triple.bind _ _ (get_children_linked (p := block) (.inl (.inl hblock))) fun s => ?_
  refine Triple.bind _ _ (appendTo_all_known copy _ fun _ => .inr) fun _ => ?_
  refine Triple.bind _ _ (appendTo_known block (.inl (.inr rfl))) fun _ => ?_
  refine modify_known fun t h => ?_
  have linked : t.Linked (k.also (· = copy)) := h.forget.forget_middle
  refine (?_ : Construction.Linked (k.also (· = copy)) _).forget
  refine linked.update rfl (fun m hm => ?_) fun _ => .inl
  rcases mem_dropLast_flatMap_before hm with rfl | hm
  · exact .inr (.inr rfl)
  · exact .inl (Construction.mem_dropLast_of_sublist List.filter_sublist hm)

theorem splitAround_linked (node : Nat) (tag : Tag) (block : Nat) (inside outside : List Nat) :
    ⦃fun s => ⌜s.Linked k ∧ block ∈ s.stack.dropLast⌝⦄ splitAround node tag block inside outside
    ⦃⇓ _ s => ⌜s.Linked k⌝⦄ := by
  have around := @splitAround_known (k.also (· = block)) node tag block inside outside
    (.inr rfl)
  mvcgen [around]
  · rename_i h
    exact h.1.learn fun _ heq => heq ▸ h.1.stack _ h.2
  · exact Construction.Linked.forget

theorem closeFormattingSteps_linked (name : String) :
    ∀ fuel : Nat, KeepsLinks k (closeFormattingSteps name fuel)
  | 0 => by mvcgen [closeFormattingSteps]
  | fuel + 1 => by
    have further := closeFormattingSteps_linked name fuel
    mvcgen [closeFormattingSteps, splitAround_linked, -nodeInScope_linked, nodeInScope, further]
    case vc4 s h _ _ _ _ _ _ _ _ _ =>
      exact h.close rfl
        ((List.drop_sublist _ _).trans (List.dropWhile_sublist _)) rfl
    case vc6 s h node _ _ hnode _ _ _ block hblock =>
      have there := List.mem_reverse.1 (List.mem_of_find?_eq_some hblock)
      exact ⟨h, Construction.mem_dropLast_of_mem_takeWhile (by simpa using hnode) there⟩

@[spec] theorem closeFormatting_linked (name : String) :
    KeepsLinks k (closeFormatting name) := by
  mvcgen [closeFormatting, closeFormattingSteps_linked]

/-! ## Foreign elements -/

@[spec] theorem insertForeign_linked (space : Namespace) (tag : Tag) :
    KeepsLinks k (insertForeign space tag) := by
  mvcgen [insertForeign]

@[spec] theorem leaveForeign_linked : KeepsLinks k leaveForeign :=
  modify_linked fun _ h => h.close rfl (List.dropWhile_sublist _) rfl

theorem endForeign_go_known (name : String) (s : Construction) :
    ∀ (ns : List Nat) (first : Bool), (∀ n ∈ ns.dropLast, k.others n) →
      KeepsLinks k (endForeign.go name s first ns)
  | [], _, _ => by mvcgen [endForeign.go]
  | [_], _, _ => by mvcgen [endForeign.go]
  | n :: m :: ns, first, hknown => by
    have outer : ∀ n ∈ (m :: ns).dropLast, k.others n := fun n hn =>
      hknown n (List.mem_cons_of_mem _ hn)
    have further := endForeign_go_known name s (m :: ns) false outer
    mvcgen [endForeign.go, further]
    rename_i h _
    exact h.update rfl (fun n hn => .inr (outer n hn)) fun _ => .inl

@[spec] theorem endForeign_linked (name : String) : KeepsLinks k (endForeign name) :=
  Triple.bind _ _ get_stack_linked fun s =>
    (@endForeign_go_known (k.also (· ∈ s.stack.dropLast)) name s s.stack true fun _ => .inr).forget

@[spec] theorem inForeign_linked (token : Token) : KeepsLinks k (inForeign token) := by
  mvcgen [inForeign]

end MarkupTemplate.Html
