import Mathlib
import MarkupTemplate.Html.Reading
import MarkupTemplate.Proofs.Building

/-!
# Trees made by reading

Every rule of every insertion mode keeps the links between nodes, so every tree that a text is read
into is linked.

* `bodyStart_linked`, `inTable_linked`, … — the rules.
* `takeToken_linked`, `takeText_linked` — a token, and a whole text.
* `Construction.linked_ofDocument` — the tree that a text stands for.
-/

set_option mvcgen.warning false

namespace MarkupTemplate.Html

open Std.Do

variable {k : Known}

/-! ## The head -/

@[spec] theorem htmlStart_linked (tag : Tag) : KeepsLinks k (htmlStart tag) := by
  mvcgen [htmlStart]

@[spec] theorem startTemplate_linked (tag : Tag) : KeepsLinks k (startTemplate tag) := by
  mvcgen [startTemplate]
  case vc4 h => exact h.forget
  all_goals
    rename_i h _
    exact h.same rfl rfl rfl

@[spec] theorem endTemplate_linked : KeepsLinks k endTemplate := by
  mvcgen [endTemplate]
  rename_i h _
  exact h.same rfl rfl rfl

@[spec] theorem inHead_linked (token : Token) : KeepsLinks k (inHead token) := by
  mvcgen [inHead]

@[spec] theorem inHeadNoscript_linked (token : Token) :
    KeepsLinks k (inHeadNoscript token) := by
  mvcgen [inHeadNoscript]

@[spec] theorem initially_linked (token : Token) : KeepsLinks k (initially token) := by
  mvcgen [initially]
  case vc8 h _ => exact h.forget.same rfl rfl rfl
  all_goals
    rename_i h _
    exact h.same rfl rfl rfl

@[spec] theorem createRoot_linked (attributes : List Attribute) :
    KeepsLinks k (createRoot attributes) := by
  mvcgen [createRoot]
  rename_i h _
  exact Construction.Linked.forget (h.update rfl (fun m hm => nomatch hm) fun _ => .inl)

@[spec] theorem beforeHtml_linked (token : Token) : KeepsLinks k (beforeHtml token) := by
  mvcgen [beforeHtml]

@[spec] theorem openHead_linked (tag : Tag) : KeepsLinks k (openHead tag) := by
  mvcgen [openHead, -insertElement_linked, insertElement, -insertNamed_linked, insertNamed_known]
  rename_i head s h _
  refine (?_ : Construction.Linked (k.also (· = head)) _).forget
  exact h.update rfl (fun _ => .inl) fun m hm => .inr (.inr (Option.some.inj hm).symm)

@[spec] theorem beforeHead_linked (token : Token) : KeepsLinks k (beforeHead token) := by
  mvcgen [beforeHead]

@[spec] theorem afterHead_linked (token : Token) : KeepsLinks k (afterHead token) := by
  mvcgen [afterHead]
  rename_i s h head hhead _
  have inner : ∀ m, m = head → s.IsInner k.first m := fun m hm => h.head m (hm ▸ hhead)
  exact Construction.Linked.forget ((h.learn inner).open_ (.inr rfl) rfl rfl rfl)

/-! ## The body -/

@[spec] theorem templateEndOfFile_linked : KeepsLinks k templateEndOfFile := by
  mvcgen [templateEndOfFile]

theorem closeItem_go_linked (names : List String) (s : Construction) :
    ∀ ns : List Nat, KeepsLinks k (closeItem.go names s ns)
  | [] => by mvcgen [closeItem.go]
  | n :: ns => by
    have further := closeItem_go_linked names s ns
    mvcgen [closeItem.go, further]

@[spec] theorem closeItem_linked (names : List String) : KeepsLinks k (closeItem names) := by
  mvcgen [closeItem, closeItem_go_linked]

@[spec] theorem insertInline_linked (tag : Tag) : KeepsLinks k (insertInline tag) := by
  mvcgen [insertInline]

@[spec] theorem bodyStart_linked (tag : Tag) : KeepsLinks k (bodyStart tag) := by
  mvcgen [bodyStart]
  all_goals
    rename_i h _
    exact h.same rfl rfl rfl

@[spec] theorem bodyEnd_linked (name : String) : KeepsLinks k (bodyEnd name) := by
  mvcgen [bodyEnd]
  case vc23 s h _ _ _ => exact h.same rfl rfl rfl
  case vc25 s h _ _ _ _ => exact h.same rfl rfl rfl

@[spec] theorem secondBody_linked (tag : Tag) : KeepsLinks k (secondBody tag) := by
  mvcgen [secondBody]

@[spec] theorem replaceBody_linked (tag : Tag) : KeepsLinks k (replaceBody tag) := by
  mvcgen [replaceBody]
  rename_i h _
  exact h.1.update rfl (fun m hm => nomatch hm) fun _ => .inl

@[spec] theorem inBody_linked (token : Token) : KeepsLinks k (inBody token) := by
  mvcgen [inBody]

@[spec] theorem inText_linked (token : Token) : KeepsLinks k (inText token) := by
  cases token
  all_goals
    unfold inText
    mvcgen
  all_goals
    rename_i h _
    exact h.same rfl rfl rfl

/-! ## Tables -/

@[spec] theorem fostered_linked (token : Token) : KeepsLinks k (fostered token) := by
  mvcgen [fostered]
  all_goals
    rename_i h _
    exact h.same rfl rfl rfl

@[spec] theorem inTable_linked (token : Token) : KeepsLinks k (inTable token) := by
  mvcgen [inTable]
  all_goals
    rename_i h _
    exact h.same rfl rfl rfl

@[spec] theorem flushTableText_linked : KeepsLinks k flushTableText := by
  mvcgen [flushTableText] invariants
  · ⇓ _ s => ⌜s.Linked k⌝
  · ⇓ _ s => ⌜s.Linked k⌝
  all_goals
    rename_i h _
    exact h.same rfl rfl rfl

@[spec] theorem inTableText_linked (token : Token) : KeepsLinks k (inTableText token) := by
  mvcgen [inTableText]
  rename_i h _
  exact h.same rfl rfl rfl

@[spec] theorem endCaption_linked : KeepsLinks k endCaption := by
  mvcgen [endCaption]

@[spec] theorem inCaption_linked (token : Token) : KeepsLinks k (inCaption token) := by
  mvcgen [inCaption]

@[spec] theorem inColumnGroup_linked (token : Token) :
    KeepsLinks k (inColumnGroup token) := by
  mvcgen [inColumnGroup]

@[spec] theorem endRowGroup_linked : KeepsLinks k endRowGroup := by
  mvcgen [endRowGroup]

@[spec] theorem inTableBody_linked (token : Token) : KeepsLinks k (inTableBody token) := by
  mvcgen [inTableBody]

@[spec] theorem endRow_linked : KeepsLinks k endRow := by
  mvcgen [endRow]

@[spec] theorem inRow_linked (token : Token) : KeepsLinks k (inRow token) := by
  mvcgen [inRow]

@[spec] theorem endCell_linked : KeepsLinks k endCell := by
  mvcgen [endCell]

@[spec] theorem inCell_linked (token : Token) : KeepsLinks k (inCell token) := by
  mvcgen [inCell]

/-! ## Selections, templates and framesets -/

@[spec] theorem endSelect_linked : KeepsLinks k endSelect := by
  mvcgen [endSelect]

@[spec] theorem inSelect_linked (token : Token) : KeepsLinks k (inSelect token) := by
  mvcgen [inSelect]

@[spec] theorem inSelectInTable_linked (token : Token) :
    KeepsLinks k (inSelectInTable token) := by
  mvcgen [inSelectInTable]

@[spec] theorem templateMode_linked (mode : InsertionMode) :
    KeepsLinks k (templateMode mode) := by
  mvcgen [templateMode]
  rename_i h _
  exact h.same rfl rfl rfl

@[spec] theorem inTemplate_linked (token : Token) : KeepsLinks k (inTemplate token) := by
  mvcgen [inTemplate]

@[spec] theorem afterBody_linked (token : Token) : KeepsLinks k (afterBody token) := by
  mvcgen [afterBody]

@[spec] theorem inFrameset_linked (token : Token) : KeepsLinks k (inFrameset token) := by
  mvcgen [inFrameset]

@[spec] theorem afterFrameset_linked (token : Token) :
    KeepsLinks k (afterFrameset token) := by
  mvcgen [afterFrameset]

@[spec] theorem afterAfterBody_linked (token : Token) :
    KeepsLinks k (afterAfterBody token) := by
  mvcgen [afterAfterBody]

@[spec] theorem afterAfterFrameset_linked (token : Token) :
    KeepsLinks k (afterAfterFrameset token) := by
  mvcgen [afterAfterFrameset]

/-! ## Tokens -/

@[spec] theorem byMode_linked (token : Token) : KeepsLinks k (byMode token) := by
  mvcgen [byMode]

@[spec] theorem takeOnce_linked (token : Token) : KeepsLinks k (takeOnce token) := by
  mvcgen [takeOnce]

theorem takeSteps_linked (token : Token) :
    ∀ fuel : Nat, KeepsLinks k (takeSteps token fuel)
  | 0 => by mvcgen [takeSteps]
  | fuel + 1 => by
    have further := takeSteps_linked token fuel
    mvcgen [takeSteps, further]

@[spec] theorem takeToken_linked (token : Token) : KeepsLinks k (takeToken token) := by
  mvcgen [takeToken, takeSteps_linked]
  all_goals
    rename_i h _ _ _
    exact h.same rfl rfl rfl

theorem takeText_linked : ∀ (fuel : Nat) (cs : List Char), KeepsLinks k (takeText fuel cs)
  | 0, _ => by mvcgen [takeText]
  | _ + 1, [] => by mvcgen [takeText]
  | fuel + 1, c :: cs => by
    have further := takeText_linked fuel
    mvcgen [takeText, further]
    · rename_i h _ _ _ _ _ _
      exact h.same rfl rfl rfl
    · rename_i h _ _ _ _ _
      exact h.same rfl rfl rfl

@[spec] theorem takeDocument_linked (text : String) : KeepsLinks k (takeDocument text) := by
  mvcgen [takeDocument, takeText_linked]

namespace Construction

/-- The document node comes first, and nothing is known of others. -/
theorem linked_empty : empty.Linked ⟨1, fun _ => False⟩ where
  rooted := rfl
  size := Nat.le_refl 1
  inner := fun _ => False.elim
  parent := fun p c hc => by
    match p with
    | 0 => cases Array.not_mem_empty c hc
    | p + 1 => cases Array.not_mem_empty c hc
  distinct := fun p => by
    match p with
    | 0 => exact List.nodup_nil
    | p + 1 => exact List.nodup_nil
  first := fun n p hn hp => by
    match n with
    | 0 => cases hp
  stack := List.forall_mem_nil _
  head := fun _ h => by cases h

/-- **Every text is read into a tree** whose nodes have one place each. -/
theorem linked_ofDocument (text : String) : (ofDocument text).Linked ⟨1, fun _ => False⟩ := by
  have taken := @takeDocument_linked ⟨1, fun _ => False⟩ text
  exact taken empty linked_empty

/-- A fragment starts with an element beside the document, in which the body is missing. -/
theorem linked_startFragment :
    (startFragment.run empty).2.Linked ⟨fragmentStart, fun _ => False⟩ where
  rooted := rfl
  size := Nat.le_refl 3
  inner := fun _ => False.elim
  parent := fun p c hc => by
    match p with
    | 0 =>
      obtain rfl : c = 2 := List.mem_singleton.1 (Array.mem_toList_iff.2 hc)
      rfl
    | 1 | 2 | p + 3 => cases Array.not_mem_empty c hc
  distinct := fun p => by
    match p with
    | 0 => exact List.nodup_singleton 2
    | 1 | 2 | p + 3 => exact List.nodup_nil
  first := fun n p hn hp => by
    match n with
    | 0 | 1 => cases hp
    | 2 =>
      cases hp
      exact Nat.succ_pos 1
  stack := List.forall_mem_nil _
  head := fun _ h => by cases h

/-- The same for the content of a body. -/
theorem linked_ofFragment (text : String) :
    (ofFragment text).Linked ⟨fragmentStart, fun _ => False⟩ := by
  have taken := @takeDocument_linked ⟨fragmentStart, fun _ => False⟩ text
  exact taken _ linked_startFragment

end Construction

end MarkupTemplate.Html
