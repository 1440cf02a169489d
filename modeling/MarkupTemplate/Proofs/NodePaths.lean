import MarkupTemplate.Html.NodePath
import MarkupTemplate.Proofs.PatternReading
import MarkupTemplate.Proofs.Positions
import MarkupTemplate.Proofs.Steps

/-!
# Location paths of elements

The location path of an element leads to the element, as long as its tag and those around it can be
read as names.

* `Markup.isAddressable` — the tags on the way to a node are names.
* `narrow_position` — a number as a predicate leaves the node at its position.
* `pathSegment_leads` — a segment leads from a parent to a child.
* `pathSegments_lead` — segments lead down a path, one after the other.
* `nodePath_leads` — the path of a node leads to it from the root.
-/

namespace MarkupTemplate

/-- All nodes on the way down a path are elements with tags that are names in queries. No node has
more children than numbers in queries tell apart. -/
def Markup.isAddressable : Path → Markup → Bool
  | [], _ => true
  | i :: p, m =>
    decide (m.children.length < 2 ^ 53) &&
      ((m.children[i]?).map fun c =>
        (c.tag?.map fun tag => XPath.isName tag.toList).getD false && isAddressable p c).getD false

namespace XPath

open Css (natExpr)

variable {f : Focus} {k n : Nat}

/-! ## Positions -/

theorem ofDecimal_toDigits (n : Nat) :
    Number.ofDecimal (Nat.toDigits 10 n) 0 = Float.ofScientific n true 0 := by
  have hvalue := Nat.ofDigitChars_toDigits (b := 10) (n := n) (by decide) (by decide)
  rw [Nat.ofDigitChars] at hvalue
  rw [Number.ofDecimal, hvalue]

/-- A number holds as a predicate at its position alone. -/
theorem natExpr_holds (hk : 0 < k) (hk' : k < 2 ^ 53) (hn : 0 < n) (hn' : n < 2 ^ 53) (f : Focus) :
    (do
      let v ← evaluate f (natExpr k)
      return holdsAt n v : Except Fault Bool) = .ok (decide (k = n)) := by
  rw [natExpr, evaluate, ofDecimal_toDigits, ← Number.ofScientific_beq_ofNat hk hk' hn hn']
  rfl

theorem keep_position {holds : Nat → Node → Except Fault Bool} (k : Nat) :
    ∀ (i : Nat) (ns : List Node),
      (∀ j n, i ≤ j → j < i + ns.length → holds j n = .ok (decide (k = j))) →
        keep holds i ns = .ok (if i ≤ k then ns[k - i]?.toList else [])
  | i, [], _ => by simp [keep]
  | i, n :: ns, h => by
    have hhere := h i n (Nat.le_refl i) (by simp)
    have ih := keep_position k (i + 1) ns fun j m hj hj' =>
      h j m (by omega) (by rw [List.length_cons]; omega)
    rw [keep, hhere, ok_bind, ih, ok_bind]
    rcases Nat.lt_trichotomy k i with hlt | rfl | hgt
    · simp [Nat.not_le_of_lt hlt, Nat.ne_of_lt hlt, Nat.not_le_of_lt (Nat.lt_succ_of_lt hlt)]
      rfl
    · simp
      rfl
    · obtain ⟨d, rfl⟩ := Nat.exists_eq_add_of_lt hgt
      have hnext : i + d + 1 - (i + 1) = d := by omega
      have hskip : i + d + 1 - i = d + 1 := by omega
      simp [hnext, hskip, Nat.le_of_lt hgt, Nat.ne_of_gt hgt]
      rfl

/-- **A number as a predicate leaves the node at its position.** -/
theorem narrow_position (hk : 0 < k) (hk' : k < 2 ^ 53) {ns : List Node}
    (hns : ns.length < 2 ^ 53) : narrow f ns [natExpr k] = .ok ns[k - 1]?.toList := by
  rw [narrow, keep_position k 1 ns fun j n hj hj' =>
    natExpr_holds hk hk' hj (by omega) ⟨f.scope, n, j, ns.length⟩,
    if_pos (Nat.succ_le_of_lt hk), ok_bind, narrow]

/-! ## Children -/

section Lists

variable {α : Type} (P : α → Bool)

theorem length_filter_range : ∀ l : List α,
    ((List.range l.length).filter fun j => (l[j]?).any P).length = l.countP P
  | [] => rfl
  | a :: l => by
    have ih := length_filter_range l
    rw [List.length_cons, List.range_succ_eq_map, List.filter_cons, List.filter_map,
      List.countP_cons]
    simp only [List.getElem?_cons_zero, Option.any_some]
    have htail : (List.range l.length).filter ((fun j => ((a :: l)[j]?).any P) ∘ Nat.succ) =
        (List.range l.length).filter fun j => (l[j]?).any P := rfl
    rw [htail]
    by_cases ha : P a = true
    · simp [ha, ih]
    · simp [ha, ih]

/-- The indices of what has a property, around one of them. -/
theorem exists_filter_range {c : α} (hc : P c = true) (before after : List α) :
    ∃ is js : List Nat,
      ((List.range (before ++ c :: after).length).filter fun j =>
        ((before ++ c :: after)[j]?).any P) = is ++ before.length :: js ∧
      is.length = before.countP P ∧ js.length = after.countP P := by
  refine ⟨(List.range before.length).filter fun j => (before[j]?).any P,
    ((List.range after.length).filter fun j => (after[j]?).any P).map
      (before.length + 1 + ·), ?_, length_filter_range P before,
    (List.length_map _).trans (length_filter_range P after)⟩
  have hbefore : (List.range before.length).filter
      (fun j => ((before ++ c :: after)[j]?).any P) =
        (List.range before.length).filter fun j => (before[j]?).any P :=
    List.filter_congr fun j hj => by
      rw [List.getElem?_append_left (List.mem_range.1 hj)]
  rw [List.length_append, List.range_add, List.filter_append, hbefore, List.length_cons,
    List.range_succ_eq_map, List.map_cons, List.map_map, List.filter_cons]
  have hhere : ((before ++ c :: after)[before.length + 0]?).any P = true := by simp [hc]
  rw [if_pos hhere, Nat.add_zero, List.filter_map]
  congr 2
  have hafter : (List.range after.length).filter
      ((fun j => ((before ++ c :: after)[j]?).any P) ∘ ((before.length + ·) ∘ Nat.succ)) =
        (List.range after.length).filter fun j => (after[j]?).any P :=
    List.filter_congr fun j _ => by
      change ((before ++ c :: after)[before.length + (j + 1)]?).any P = (after[j]?).any P
      rw [List.getElem?_append_right (Nat.le_add_right _ _), Nat.add_sub_cancel_left,
        List.getElem?_cons_succ]
  rw [hafter]
  exact List.map_congr_left fun j _ => Nat.add_right_comm before.length j 1 ▸ rfl

end Lists

variable {s : Scope} {q : Place} {m c : Markup} {i : Nat} {tag : String}

/-- Whether a tree has a tag at its root. -/
def hasTag (tag : String) (t : Markup) : Bool :=
  t.tag? == some tag

theorem lower_tag (h : c.tag? = some tag) : Text.lower tag.toList = tag.toList := by
  obtain ⟨label, children⟩ := c
  cases label with
  | element name attributes =>
    obtain rfl := Option.some.inj h
    simp [lowered]
  | _ => cases h

/-- A tag as a node test passes the children with the tag. -/
theorem passes_tag (htag : Text.lower tag.toList = tag.toList) (p : Place) :
    s.passes .child (.name tag) (.tree p) = (s.at? p).any (hasTag tag) := by
  have hpasses : s.passes .child (.name tag) (.tree p) =
      (((s.data? p).map NodeData.isElement).getD false &&
        Scope.sameName (s.name (.tree p)) tag) := by
    change (Axis.child != .attribute && _ && _) = _
    rfl
  rw [hpasses, Scope.name, Scope.data?]
  cases s.at? p with
  | none => rfl
  | some t =>
    obtain ⟨label, children⟩ := t
    cases label with
    | element name attributes =>
      change (true && (Text.lower name.name.toList == Text.lower tag.toList)) =
        (some (lowered name.name) == some tag)
      rw [Bool.true_and, htag, Bool.eq_iff_iff, beq_iff_eq, beq_iff_eq, Option.some.injEq, lowered,
        ← String.toList_inj, String.toList_ofList]
    | _ => rfl

/-- The children with the tag of one of them, around it. -/
theorem children_tagged (hq : s.at? q = some m) (hi : m.children[i]? = some c)
    (htag : c.tag? = some tag) : ∃ is js : List Nat,
      (s.axis .child (.tree q)).filter (s.passes .child (.name tag)) =
        (is ++ i :: js).map (fun j => .tree (q.child j)) ∧
      is.length = (m.children.take i).countP (hasTag tag) ∧
      js.length = (m.children.drop (i + 1)).countP (hasTag tag) := by
  obtain ⟨hlt, hget⟩ := List.getElem?_eq_some_iff.1 hi
  have hsplit : m.children = m.children.take i ++ c :: m.children.drop (i + 1) := by
    rw [← hget, List.getElem_cons_drop, List.take_append_drop]
  have hlen : (m.children.take i).length = i := List.length_take_of_le (Nat.le_of_lt hlt)
  have hc : hasTag tag c = true := by rw [hasTag, htag, beq_self_eq_true]
  obtain ⟨is, js, hrange, his, hjs⟩ :=
    exists_filter_range (hasTag tag) hc (m.children.take i) (m.children.drop (i + 1))
  rw [← hsplit, hlen] at hrange
  refine ⟨is, js, ?_, his, hjs⟩
  have hcount : s.childCount q = m.children.length := by rw [Scope.childCount, hq]
  rw [← hrange, Scope.axis, Scope.treeAxis, Scope.children, hcount, List.map_map, List.filter_map]
  refine congrArg (List.map _) (List.filter_congr fun j _ => ?_)
  change s.passes .child (.name tag) (.tree (q.child j)) = _
  rw [passes_tag (lower_tag htag), Scope.at?_child, hq]
  rfl

/-! ## Segments -/

theorem stepFrom_child (f : Focus) (q : Place) (test : NodeTest) (es : List Expr) :
    stepFrom f [.tree q] (.mk .child test es) =
      narrow f ((f.scope.axis .child (.tree q)).filter (f.scope.passes .child test)) es := by
  rw [stepFrom_eq, gather_singleton, stepAt]
  cases narrow f ((f.scope.axis .child (.tree q)).filter (f.scope.passes .child test)) es <;> rfl

/-- **A segment leads from a parent to a child.** -/
theorem pathSegment_leads (hi : m.children[i]? = some c) (htag : c.tag? = some tag)
    (hname : isName tag.toList = true) (hfew : m.children.length < 2 ^ 53) :
    ∃ step, StepReads
        (Markup.pathSegment (m.children.take i) c (m.children.drop (i + 1))).toList step ∧
      ∀ f q, f.scope.at? q = some m → stepFrom f [.tree q] step = .ok [.tree (q.child i)] := by
  have hhead := HeadReads.child hname
  rw [String.ofList_toList] at hhead
  rw [Markup.pathSegment, htag]
  dsimp only
  split
  · -- Several children have the tag: the position among them stands in a predicate.
    let position := (m.children.take i).countP (hasTag tag) + 1
    have hpredicate := Css.bracketed_reads ⟨0, by decide, Css.spells_nat position⟩
    refine ⟨.mk .child (.name tag) [natExpr position], ?_, fun f q hq => ?_⟩
    · change StepReads (tag ++ "[" ++ toString position ++ "]").toList _
      simpa [Css.bracketed] using StepReads.mk hhead hpredicate
    · obtain ⟨is, js, hchildren, his, hjs⟩ := children_tagged hq hi htag
      have hcount : (is ++ i :: js).length ≤ m.children.length := by
        have hlt := (List.getElem?_eq_some_iff.1 hi).1
        have hbefore := (List.countP_le_length (p := hasTag tag)).trans
          (List.length_take_le i m.children)
        have hafter := List.countP_le_length (p := hasTag tag) (l := m.children.drop (i + 1))
        rw [List.length_drop] at hafter
        rw [List.length_append, List.length_cons]
        omega
      have hposition : position = is.length + 1 := by rw [his]
      rw [stepFrom_child, hchildren, narrow_position (by omega) (by
        rw [List.length_append, List.length_cons] at hcount
        omega) (by rw [List.length_map]; omega), hposition, Nat.add_sub_cancel, List.getElem?_map,
        List.getElem?_append_right (Nat.le_refl _), Nat.sub_self]
      rfl
  · -- No other child has it.
    rename_i hsingle
    refine ⟨.mk .child (.name tag) [], ?_, fun f q hq => ?_⟩
    · simpa using StepReads.mk hhead .nil
    · obtain ⟨is, js, hchildren, his, hjs⟩ := children_tagged hq hi htag
      rw [Bool.or_eq_true, not_or, List.any_eq_true, List.any_eq_true] at hsingle
      have his : is = [] := List.length_eq_zero_iff.1 (his.trans (List.countP_eq_zero.2
        fun t ht hsame => hsingle.1 ⟨t, ht, hsame⟩))
      have hjs : js = [] := List.length_eq_zero_iff.1 (hjs.trans (List.countP_eq_zero.2
        fun t ht hsame => hsingle.2 ⟨t, ht, hsame⟩))
      rw [stepFrom_child, hchildren, his, hjs, narrow]
      rfl

/-- The text of a segment: no blanks, no slashes and no bars. -/
structure IsSegment (segment : String) : Prop where
  ne_nil : segment.toList ≠ []
  no_mark : ∀ c ∈ segment.toList, Text.isBlank c = false ∧ c ≠ '/' ∧ c ≠ '|'

theorem no_mark_of_isNameChar {c : Char} (h : isNameChar c = true) :
    Text.isBlank c = false ∧ c ≠ '/' ∧ c ≠ '|' := by
  refine ⟨isBlank_of_isNameChar h, ?_, ?_⟩ <;>
    · rintro rfl
      revert h
      decide

theorem pathSegment_isSegment {before after : List Markup} (htag : c.tag? = some tag)
    (hname : isName tag.toList = true) : IsSegment (Markup.pathSegment before c after) := by
  obtain ⟨d, t, heq, hd, ht⟩ := isName_cons hname
  have hletters : ∀ e ∈ tag.toList, Text.isBlank e = false ∧ e ≠ '/' ∧ e ≠ '|' := by
    intro e he
    rw [heq] at he
    rcases List.mem_cons.1 he with rfl | he
    · exact no_mark_of_isNameChar (isNameChar_of_isNameStart hd)
    · rcases ht e he with he | rfl
      · exact no_mark_of_isNameChar he
      · decide
  rw [Markup.pathSegment, htag]
  dsimp only
  split
  · generalize before.countP _ + 1 = position
    have htext : (tag ++ "[" ++ toString position ++ "]").toList =
        tag.toList ++ '[' :: (Nat.toDigits 10 position ++ [']']) := by
      simp
    refine ⟨by rw [htext, heq]; exact List.cons_ne_nil _ _, fun e he => ?_⟩
    rw [htext] at he
    simp only [List.mem_append, List.mem_cons, List.not_mem_nil, or_false] at he
    rcases he with he | rfl | he | rfl
    · exact hletters e he
    · decide
    · exact no_mark_of_isNameChar (isNameChar_of_isDigit (Text.isDigit_of_mem_toDigits he))
    · decide
  · exact ⟨by rw [heq]; exact List.cons_ne_nil _ _, hletters⟩

/-- Segments as text, each behind a slash. -/
def slashed (segments : List String) : List Char :=
  segments.flatMap fun segment => '/' :: segment.toList

theorem slashed_intercalate : ∀ (segment : String) (segments : List String),
    ("/" ++ String.intercalate "/" (segment :: segments)).toList = slashed (segment :: segments)
  | segment, [] => by simp [slashed]
  | segment, next :: segments => by
    have ih := slashed_intercalate next segments
    rw [String.intercalate_cons_cons]
    simp only [String.toList_append, slashed, List.flatMap_cons] at ih ⊢
    rw [← ih]
    simp

/-- **The segments down a path lead to its end**, one after the other. -/
theorem pathSegments_lead : ∀ (p : Path) (m : Markup) (before : List String),
    Markup.isAddressable p m = true → (m.at? p).isSome = true ∧
      ∃ segments ss, Markup.pathSegments before p m = before ++ segments ∧
        segments.length = p.length ∧ (∀ segment ∈ segments, IsSegment segment) ∧
        Continues (slashed segments) ss ∧
        ∀ f q, f.scope.at? q = some m → walk f [.tree q] ss = .ok [.tree ⟨q.astray, q.path ++ p⟩]
  | [], m, before, _ => by
    refine ⟨rfl, [], [], by simp [Markup.pathSegments], rfl, by simp, .nil, fun f q _ => ?_⟩
    rw [walk, List.append_nil]
  | i :: p, m, before, h => by
    rw [Markup.isAddressable, Bool.and_eq_true, decide_eq_true_eq] at h
    obtain ⟨hfew, h⟩ := h
    cases hi : m.children[i]? with
    | none =>
      rw [hi] at h
      cases h
    | some c =>
      rw [hi, Option.map_some, Option.getD_some, Bool.and_eq_true] at h
      obtain ⟨hname, hrest⟩ := h
      cases htag : Markup.tag? c with
      | none =>
        rw [htag] at hname
        cases hname
      | some tag =>
        rw [htag, Option.map_some, Option.getD_some] at hname
        have hdocument : c.label.isDocument = false := by
          obtain ⟨label, children⟩ := c
          cases label with
          | element => rfl
          | _ => cases htag
        obtain ⟨step, hstep, hleads⟩ := pathSegment_leads hi htag hname hfew
        let segment := Markup.pathSegment (m.children.take i) c (m.children.drop (i + 1))
        have hsegment : IsSegment segment := pathSegment_isSegment htag hname
        obtain ⟨hsome, segments, ss, hsegments, hlen, hall, hcontinues, hwalk⟩ :=
          pathSegments_lead p c (before ++ [segment]) hrest
        refine ⟨by rw [Tree.at?_cons, hi]; exact hsome, segment :: segments, step :: ss, ?_,
          congrArg Nat.succ hlen, by simpa using ⟨hsegment, hall⟩,
          Continues.step hstep hcontinues, fun f q hq => ?_⟩
        · rw [Markup.pathSegments, hi]
          simp only [hdocument, Bool.false_eq_true, if_false]
          rw [hsegments, List.append_assoc]
          rfl
        · have hchild : f.scope.at? (q.child i) = some c := by
            rw [Scope.at?_child, hq]
            exact hi
          rw [walk, hleads f q hq, ok_bind, hwalk f _ hchild, Place.child, List.append_assoc]
          rfl

/-- The text of a context: a path without bars that finishes with neither a blank nor a slash. -/
structure IsContext (cs : List Char) : Prop where
  begins : Begins cs
  no_bar : '|' ∉ cs
  finishes : ∃ t c, cs = t ++ [c] ∧ Text.isBlank c = false ∧ c ≠ '/'

theorem slashed_isContext : ∀ {segments : List String}, segments ≠ [] →
    (∀ segment ∈ segments, IsSegment segment) → IsContext (slashed segments)
  | [], hne, _ => absurd rfl hne
  | segment :: segments, _, h => by
    have hhere := h segment List.mem_cons_self
    have hcons : slashed (segment :: segments) = '/' :: (segment.toList ++ slashed segments) := rfl
    have hbar : '|' ∉ segment.toList := fun hmem => (hhere.no_mark _ hmem).2.2 rfl
    rw [hcons]
    by_cases hne : segments = []
    · subst hne
      obtain ⟨t, c, hlast⟩ : ∃ t c, segment.toList = t ++ [c] :=
        ⟨_, _, (List.dropLast_concat_getLast hhere.ne_nil).symm⟩
      have hc := hhere.no_mark c (by simp [hlast])
      refine ⟨⟨'/', _, rfl, by decide⟩, ?_, '/' :: t, c, ?_, hc.1, hc.2.1⟩
      · simpa [slashed] using hbar
      · simp [slashed, hlast]
    · have hrest := slashed_isContext hne fun t ht => h t (List.mem_cons_of_mem _ ht)
      obtain ⟨t, c, hlast, hc⟩ := hrest.finishes
      refine ⟨⟨'/', _, rfl, by decide⟩, ?_, '/' :: (segment.toList ++ t), c, ?_, hc⟩
      · simpa using ⟨hbar, hrest.no_bar⟩
      · simp [hlast]

/-- **The path of an element leads to it** from the root of a document. -/
theorem nodePath_leads {m : Markup} {p : Path} (hm : m.label = .document) (hp : p ≠ [])
    (h : Markup.isAddressable p m = true) :
    ∃ ss, IsContext (m.nodePath p).toList ∧ Continues (m.nodePath p).toList ss ∧ ss ≠ [] ∧
      ∀ f, f.scope.document = m → walk f [.tree .root] ss = .ok [.tree ⟨false, p⟩] := by
  obtain ⟨-, segments, ss, hsegments, hlen, hall, hcontinues, hwalk⟩ := pathSegments_lead p m [] h
  have hne : segments ≠ [] := fun hnil => hp (List.length_eq_zero_iff.1 (by rw [← hlen, hnil]; rfl))
  obtain ⟨segment, rest, rfl⟩ := List.exists_cons_of_ne_nil hne
  have hstart : (if m.label.isDocument then [] else [Markup.pathSegment [] m []]) = [] := by
    rw [hm]
    rfl
  rw [Markup.nodePath, hstart, hsegments, List.nil_append, slashed_intercalate]
  refine ⟨ss, slashed_isContext hne hall, hcontinues, ?_, fun f hf =>
    hwalk f .root (by rw [← hf]; rfl)⟩
  rintro rfl
  generalize hcs : slashed (segment :: rest) = cs at hcontinues
  cases hcontinues
  exact absurd hcs (List.cons_ne_nil _ _)

end XPath

end MarkupTemplate
