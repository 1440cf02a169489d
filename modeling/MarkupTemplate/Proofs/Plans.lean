import MarkupTemplate.Repeat.Plan
import Mathlib.Data.List.InsertIdx

/-!
# What plans make

The list that the copies of a plan make of a list, whatever is in it.

* `PlannedCopy.repeated` — a list with one of its entries once more.
* `Feasible` — the source of every copy is there when it is made.
* `RepeatStrategy.plan_feasible` — every plan is feasible.
* `RepeatStrategy.foldl_plan` — a strategy that copies one node repeats it in its place.
* `RepeatStrategy.foldl_plan_all` — a strategy that copies each node puts the copies behind them.
-/

namespace MarkupTemplate

variable {α : Type}

theorem insertIdx_append_cons (before after : List α) (a b : α) :
    (before ++ a :: after).insertIdx (before.length + 1) b = before ++ a :: b :: after :=
  List.modifyTailIdx_add (List.cons b) 1 before (a :: after)

/-- The index in a list of a length after which a copy goes. -/
def PlannedCopy.anchor (c : PlannedCopy) (length : Nat) : Nat :=
  match c.placement with
  | .afterSource => c.source
  | .atEnd => length - 1

/-- A list with the source of a copy once more. -/
def PlannedCopy.repeated (as : List α) (c : PlannedCopy) : List α :=
  match as[c.source]? with
  | some a => as.insertIdx (c.anchor as.length + 1) a
  | none => as

theorem PlannedCopy.anchor_lt {c : PlannedCopy} {length : Nat} (h : c.source < length) :
    c.anchor length < length := by
  rw [anchor]
  split <;> omega

/-- The source of every copy is in the list when it is made, which has a length at first. -/
def Feasible : Nat → List PlannedCopy → Prop
  | _, [] => True
  | length, c :: plan => c.source < length ∧ Feasible (length + 1) plan

theorem PlannedCopy.repeated_eq {as : List α} {c : PlannedCopy} {a : α}
    (h : as[c.source]? = some a) : c.repeated as = as.insertIdx (c.anchor as.length + 1) a := by
  rw [repeated, h]

theorem PlannedCopy.length_repeated {as : List α} {c : PlannedCopy} (h : c.source < as.length) :
    (c.repeated as).length = as.length + 1 := by
  rw [repeated_eq (List.getElem?_eq_getElem h), List.length_insertIdx,
    if_pos (Nat.succ_le_of_lt (anchor_lt h))]

/-- A feasible plan makes one entry with each copy. -/
theorem length_foldl_repeated :
    ∀ {plan : List PlannedCopy} {as : List α}, Feasible as.length plan →
      (plan.foldl PlannedCopy.repeated as).length = as.length + plan.length
  | [], as, _ => rfl
  | c :: plan, as, h => by
    have one := PlannedCopy.length_repeated h.1
    rw [List.foldl_cons, length_foldl_repeated (by rw [one]; exact h.2), one, List.length_cons]
    omega

/-- Copies are of what is there. -/
theorem PlannedCopy.mem_of_mem_repeated {as : List α} {c : PlannedCopy} {b : α}
    (h : b ∈ c.repeated as) : b ∈ as := by
  rw [repeated] at h
  split at h
  · rename_i a ha
    rcases List.eq_or_mem_of_mem_insertIdx h with rfl | hb
    · exact List.mem_of_getElem? ha
    · exact hb
  · exact h

theorem mem_of_mem_foldl_repeated {b : α} :
    ∀ {plan : List PlannedCopy} {as : List α},
      b ∈ plan.foldl PlannedCopy.repeated as → b ∈ as
  | [], _, h => h
  | _ :: _, _, h => PlannedCopy.mem_of_mem_repeated (mem_of_mem_foldl_repeated h)

namespace RepeatSource

/-- The index of the node that is copied, unless each of them is in its turn. -/
def index? (found : Nat) : RepeatSource → Option Nat
  | .last => some (found - 1)
  | .first => some 0
  | .middle left => some (if left && found % 2 = 0 then found / 2 - 1 else found / 2)
  | .nth n => some (min (n - 1) (found - 1))
  | .all .. => none

theorem index?_lt {source : RepeatSource} {found i : Nat} (hfound : 0 < found)
    (h : source.index? found = some i) : i < found := by
  cases source with
  | last => cases h; omega
  | first => cases h; exact hfound
  | middle left =>
    cases h
    split <;> omega
  | nth n => cases h; omega
  | all direction once => cases h

end RepeatSource

/-! ## Walks -/

namespace Walk

/-- The cursor of a walk over a number of nodes is at one of them or right off an end, and a walk that
has begun has made a copy. -/
def InRange (found length : Nat) (w : Walk) : Prop :=
  w.cursor = none ∨ ∃ c : Int, w.cursor = some c ∧ -1 ≤ c ∧ c ≤ found ∧ found < length

variable {found length : Nat} {w : Walk}

theorem turn_cursor (direction : RepeatDirection) (hfound : 0 < found) :
    ∃ c : Int, (turn direction found).cursor = some c ∧ 0 ≤ c ∧ c < found := by
  cases direction with
  | simple => exact ⟨0, rfl, Int.le_refl 0, by omega⟩
  | alternate => exact ⟨found - 1, rfl, by omega, by omega⟩

theorem InRange.advance (h : w.InRange found length) : (w.advance found).InRange found length := by
  obtain ⟨cursor, forward⟩ := w
  rcases h with hnone | ⟨c, hc, hlow, hhigh, hmore⟩
  · change cursor = none at hnone
    subst hnone
    cases forward with
    | none => exact .inl rfl
    | some b => cases b <;> exact .inl rfl
  · change cursor = some c at hc
    subst hc
    refine .inr ?_
    rw [Walk.advance]
    split <;> rename_i hf hcur
    · cases hcur
      split
      · exact ⟨_, rfl, by omega, by omega, hmore⟩
      · exact ⟨_, rfl, hlow, hhigh, hmore⟩
    · cases hcur
      split
      · exact ⟨_, rfl, by omega, by omega, hmore⟩
      · exact ⟨_, rfl, hlow, hhigh, hmore⟩
    · exact ⟨_, rfl, hlow, hhigh, hmore⟩

/-- After a step the cursor is at a node, or at the first copy. -/
theorem InRange.step (direction : RepeatDirection) (once : Bool) (left : Nat) (hfound : 0 < found)
    (hlength : found ≤ length) (h : w.InRange found length) :
    ∃ c : Int, (w.step direction once found left).cursor = some c ∧ 0 ≤ c ∧ c ≤ found ∧
      c < length := by
  have turned : ∃ c : Int, (turn direction found).cursor = some c ∧ 0 ≤ c ∧ c ≤ found ∧
      c < length := by
    obtain ⟨c, hc, hlow, hhigh⟩ := turn_cursor direction hfound
    exact ⟨c, hc, hlow, by omega, by omega⟩
  have off : (turn direction found).cursor ≠ none := by
    obtain ⟨c, hc, -⟩ := turned
    simp [hc]
  rw [Walk.step]
  rcases h.advance with hnone | ⟨c, hc, hlow, hhigh, hmore⟩
  · rw [if_pos (by simp [hnone])]
    dsimp only
    split
    · exact turned
    · exact ⟨found - 1, rfl, by omega, by omega, by omega⟩
  · have there : (w.advance found).cursor ≠ none := by simp [hc]
    dsimp only
    split
    · split
      · exact turned
      · rename_i hend _
        have hend : c = found := by simpa [hc] using hend
        exact ⟨c, hc, by omega, hhigh, by omega⟩
    · rename_i hnotEnd
      have hnotEnd : c ≠ found := by simpa [hc] using hnotEnd
      split
      · exact ⟨0, rfl, Int.le_refl 0, by omega, by omega⟩
      · rename_i hnotStart
        have hnotStart : c ≠ -1 := by simpa [hc] using hnotStart
        exact ⟨c, hc, by omega, hhigh, by omega⟩

/-- Every node that a walk comes to is there when it is copied. -/
theorem feasible_sources (direction : RepeatDirection) (once : Bool) (hfound : 0 < found) :
    ∀ (left : Nat) {length : Nat} {w : Walk}, found ≤ length → w.InRange found length →
      Feasible length ((sources direction once found left w).map fun i => ⟨i, .atEnd⟩)
  | 0, _, _, _, _ => trivial
  | left + 1, length, w, hlength, h => by
    obtain ⟨c, hc, hlow, hhigh, hlt⟩ := h.step direction once (left + 1) hfound hlength
    have further : (w.step direction once found (left + 1)).InRange found (length + 1) :=
      .inr ⟨c, hc, by omega, hhigh, by omega⟩
    rw [sources, List.map_cons]
    refine ⟨?_, feasible_sources direction once hfound left (by omega) further⟩
    simp only [hc, Option.getD_some]
    omega

end Walk

/-! ## Plans -/

namespace RepeatStrategy

theorem feasible_replicate {i : Nat} (placement : Placement) :
    ∀ (count : Nat) {length : Nat}, i < length → Feasible length (List.replicate count ⟨i, placement⟩)
  | 0, _, _ => trivial
  | count + 1, length, h => by
    rw [List.replicate_succ]
    exact ⟨h, feasible_replicate placement count (by omega)⟩

variable {s : RepeatStrategy} {found expected i : Nat}

theorem plan_of_index? (hfound : 0 < found) (h : s.source.index? found = some i) :
    s.plan found expected = List.replicate (expected - found) ⟨i, .afterSource⟩ := by
  rw [plan]
  split
  · rename_i hc
    simp only [Bool.or_eq_true, decide_eq_true_eq] at hc
    rw [Nat.sub_eq_zero_of_le (by omega), List.replicate_zero]
  · obtain ⟨source, shuffle⟩ := s
    cases source with
    | last | first | middle | nth => cases h; rfl
    | all direction once => cases h

/-- **Every plan is feasible:** the node that a copy is made of is on the list by then. -/
theorem plan_feasible (s : RepeatStrategy) (expected : Nat) (hfound : 0 < found) :
    Feasible found (s.plan found expected) := by
  cases h : s.source.index? found with
  | some i =>
    rw [plan_of_index? hfound h]
    exact feasible_replicate _ _ (RepeatSource.index?_lt hfound h)
  | none =>
    obtain ⟨source, shuffle⟩ := s
    rw [plan]
    split
    · trivial
    · cases source with
      | last | first | middle | nth => cases h
      | all direction once =>
        exact Walk.feasible_sources direction once hfound _ (Nat.le_refl found) (.inl rfl)

/-- Copies of one entry, each put right after it. -/
theorem foldl_replicate (before : List α) (a : α) :
    ∀ (count : Nat) (after : List α),
      (List.replicate count ⟨before.length, .afterSource⟩).foldl PlannedCopy.repeated
          (before ++ a :: after) =
        before ++ a :: (List.replicate count a ++ after)
  | 0, _ => rfl
  | count + 1, after => by
    have source : (before ++ a :: after)[before.length]? = some a := by simp
    rw [List.replicate_succ, List.foldl_cons, PlannedCopy.repeated_eq source,
      PlannedCopy.anchor, insertIdx_append_cons, foldl_replicate before a count, List.replicate_succ',
      List.append_assoc]
    rfl

/-- **A strategy that copies one node repeats it in its place.** -/
theorem foldl_plan {as : List α} {a : α} (h : s.source.index? as.length = some i)
    (ha : as[i]? = some a) (expected : Nat) :
    (s.plan as.length expected).foldl PlannedCopy.repeated as =
      as.take (i + 1) ++ List.replicate (expected - as.length) a ++ as.drop (i + 1) := by
  obtain ⟨hi, ha⟩ := List.getElem?_eq_some_iff.1 ha
  have short : (as.take i).length = i := List.length_take_of_le (Nat.le_of_lt hi)
  have whole : as = as.take i ++ a :: as.drop (i + 1) := by
    rw [← ha, ← List.drop_eq_getElem_cons hi, List.take_append_drop]
  have made := foldl_replicate (as.take i) a (expected - as.length) (as.drop (i + 1))
  rw [short, ← whole] at made
  rw [plan_of_index? (Nat.zero_lt_of_lt hi) h, made, List.take_succ_eq_append_getElem hi, ha,
    List.append_assoc, List.append_assoc]
  rfl

/-- Copies that are put at the end are there in the order of the plan. -/
theorem foldl_atEnd :
    ∀ {plan : List PlannedCopy} {as : List α}, (∀ c ∈ plan, c.placement = .atEnd) →
      Feasible as.length plan →
      ∃ copies, plan.foldl PlannedCopy.repeated as = as ++ copies ∧
        ∀ j c, plan[j]? = some c →
          c.source < as.length + j ∧ copies[j]? = (as ++ copies)[c.source]?
  | [], as, _, _ => ⟨[], (List.append_nil as).symm, nofun⟩
  | c :: plan, as, ends, feasible => by
    obtain ⟨hc, hplan⟩ := List.forall_mem_cons.1 ends
    obtain ⟨a, source⟩ : ∃ a, as[c.source]? = some a := ⟨_, List.getElem?_eq_getElem feasible.1⟩
    have one : c.repeated as = as ++ [a] := by
      have last : as.length - 1 + 1 = as.length := Nat.sub_add_cancel (Nat.zero_lt_of_lt feasible.1)
      rw [PlannedCopy.repeated_eq source, PlannedCopy.anchor, hc]
      dsimp only
      rw [last, List.insertIdx_length_self]
    have longer : (as ++ [a]).length = as.length + 1 := List.length_append
    obtain ⟨copies, hcopies, hsources⟩ :=
      foldl_atEnd hplan (show Feasible (as ++ [a]).length plan by rw [longer]; exact feasible.2)
    refine ⟨a :: copies, ?_, fun j c' hj => ?_⟩
    · rw [List.foldl_cons, one, hcopies, List.append_assoc, List.singleton_append]
    · cases j with
      | zero =>
        cases hj
        exact ⟨feasible.1, by rw [List.getElem?_append_left feasible.1, source]; rfl⟩
      | succ j =>
        obtain ⟨hlt, hsame⟩ := hsources j c' hj
        rw [longer] at hlt
        rw [List.append_assoc, List.singleton_append] at hsame
        exact ⟨by omega, hsame⟩

/-- **A strategy that copies each node in its turn puts the copies behind them.** -/
theorem foldl_plan_all {as : List α} (direction : RepeatDirection) (once shuffle : Bool)
    (expected : Nat) (hfound : 0 < as.length) :
    ∃ copies, ((RepeatStrategy.mk (.all direction once) shuffle).plan as.length expected).foldl
        PlannedCopy.repeated as = as ++ copies ∧
      ∀ j c, ((RepeatStrategy.mk (.all direction once) shuffle).plan as.length expected)[j]? =
          some c →
        c.source < as.length + j ∧ copies[j]? = (as ++ copies)[c.source]? := by
  refine foldl_atEnd (fun c hc => ?_) (plan_feasible _ expected hfound)
  rw [plan] at hc
  split at hc
  · cases hc
  · obtain ⟨i, -, rfl⟩ := List.mem_map.1 hc
    rfl

end RepeatStrategy

end MarkupTemplate
