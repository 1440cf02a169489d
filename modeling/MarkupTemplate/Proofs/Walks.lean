import MarkupTemplate.Proofs.Plans

/-!
# Walks in closed form

Where the walk over all nodes is after each of its steps, and with it the sources of every plan.

* `Walk.source` — the source of each copy, counted from zero, without a walk.
* `Walk.state` — the walk after each of its steps; `step_state` — a step leads from one to the next.
* `Walk.sources_eq` — the sources of a walk are those of the closed form, by induction on the copies
  that are left.
* `RepeatStrategy.plan_closedForm` — the plans of all strategies.
-/

namespace MarkupTemplate

namespace Walk

/-- The source of a copy on one pass over the nodes, in which no end is passed. -/
def passSource (direction : RepeatDirection) (found i : Nat) : Nat :=
  match direction with
  | .simple => i
  | .alternate => found - 1 - i

/-- The source of a copy on a walk that turns at every end: round, or there and back again. -/
def turningSource (direction : RepeatDirection) (found i : Nat) : Nat :=
  match direction with
  | .simple => i % found
  | .alternate =>
    let j := i % (2 * found)
    if j < found then found - 1 - j else j - found

/-- The source of the copy with the number `i`, counted from zero, of `count` copies. A walk that
turns `once` waits behind the last node, where the first copy went, until one pass is left. -/
def source (direction : RepeatDirection) (once : Bool) (found count i : Nat) : Nat :=
  if once then
    if count ≤ found then passSource direction found i
    else if i = 0 then found - 1
    else if i < count - found then found
    else passSource direction found (i - (count - found))
  else turningSource direction found i

/-- A walk on one pass over the nodes. -/
def onPass (direction : RepeatDirection) (found i : Nat) : Walk :=
  ⟨some (passSource direction found i), some (decide (direction = .simple))⟩

/-- A walk that turns at every end. -/
def onTurns (direction : RepeatDirection) (found i : Nat) : Walk :=
  match direction with
  | .simple => ⟨some ((i % found : Nat) : Int), some true⟩
  | .alternate =>
    let j := i % (2 * found)
    if j < found then ⟨some ((found - 1 - j : Nat) : Int), some false⟩
    else ⟨some ((j - found : Nat) : Int), some true⟩

/-- A walk after its step with the number `i`, counted from zero. -/
def state (direction : RepeatDirection) (once : Bool) (found count i : Nat) : Walk :=
  if once then
    if i < count - found then ⟨some ((if i = 0 then found - 1 else found : Nat) : Int), some true⟩
    else onPass direction found (i - (count - found))
  else onTurns direction found i

variable {direction : RepeatDirection} {once : Bool} {found left count i c : Nat}

/-! ## Single steps -/

/-- A turn begins a pass. -/
theorem turn_eq (direction : RepeatDirection) (hfound : 0 < found) :
    turn direction found = onPass direction found 0 := by
  cases direction with
  | simple => rfl
  | alternate =>
    have hlast : ((found : Int) - 1) = ((found - 1 - 0 : Nat) : Int) := by omega
    rw [turn, hlast]
    rfl

/-- A step is a move of the cursor, and then a turn if it has left the nodes. -/
theorem step_of_advance {w : Walk} {c : Int} {forward : Option Bool}
    (h : w.advance found = ⟨some c, forward⟩) :
    w.step direction once found left =
      if c = found then
        if !once || left ≤ found then turn direction found else ⟨some found, forward⟩
      else if c = -1 then ⟨some 0, some true⟩
      else ⟨some c, forward⟩ := by
  rw [step, h]
  by_cases hend : c = found
  · subst hend
    simp only [decide_true, Bool.or_true, if_true]
    split <;> cases direction <;> rfl
  · simp [hend]

/-- Away from the ends a walk goes on to the next node. -/
theorem step_forward (h : c + 1 < found) :
    step direction once found left ⟨some c, some true⟩ =
      ⟨some ((c + 1 : Nat) : Int), some true⟩ := by
  have hadvance : advance found ⟨some c, some true⟩ = ⟨some ((c : Int) + 1), some true⟩ :=
    if_pos (by omega)
  rw [step_of_advance hadvance, if_neg (by omega), if_neg (by omega), Int.natCast_succ]

/-- Away from the ends a walk back goes on to the node before. -/
theorem step_backward (h : c + 1 < found) :
    step direction once found left ⟨some ((c + 1 : Nat) : Int), some false⟩ =
      ⟨some c, some false⟩ := by
  have hback : ((c + 1 : Nat) : Int) - 1 = c := by omega
  have hadvance : advance found ⟨some ((c + 1 : Nat) : Int), some false⟩ =
      ⟨some (((c + 1 : Nat) : Int) - 1), some false⟩ := by
    simp only [advance]
    exact if_pos (by omega)
  rw [hback] at hadvance
  rw [step_of_advance hadvance, if_neg (by omega), if_neg (by omega)]

/-- From the first node a walk back turns, and copies it again. -/
theorem step_first :
    step direction once found left ⟨some ((0 : Nat) : Int), some false⟩ =
      ⟨some ((0 : Nat) : Int), some true⟩ := by
  have hadvance : advance found ⟨some ((0 : Nat) : Int), some false⟩ = ⟨some (-1), some false⟩ :=
    rfl
  rw [step_of_advance hadvance, if_neg (by omega), if_pos rfl]
  rfl

/-- At the last node, and behind it, a walk turns, or it waits behind it. -/
theorem step_last (h : c = found ∨ c + 1 = found) :
    step direction once found left ⟨some c, some true⟩ =
      if !once || left ≤ found then turn direction found else ⟨some found, some true⟩ := by
  have hadvance : advance found ⟨some c, some true⟩ = ⟨some found, some true⟩ := by
    rcases h with rfl | rfl
    · exact if_neg (Int.lt_irrefl _)
    · exact if_pos (by omega)
  rw [step_of_advance hadvance, if_pos rfl]

/-- A walk begins with a turn, or it waits at the last node. -/
theorem step_start (direction : RepeatDirection) (once : Bool) (hfound : 0 < found) :
    step direction once found left start =
      if !once || left ≤ found then turn direction found
      else ⟨some ((found - 1 : Nat) : Int), some true⟩ := by
  have hlast : ((found : Int) - 1) = ((found - 1 : Nat) : Int) := by omega
  have hadvance : advance found start = ⟨none, none⟩ := rfl
  rw [step, hadvance, hlast]
  simp only [decide_true, Bool.true_or, if_true]
  split <;> cases direction <;> rfl

/-! ## States -/

theorem succ_mod {n : Nat} (hn : 0 < n) (i : Nat) :
    (i + 1) % n = if i % n + 1 = n then 0 else i % n + 1 := by
  have hlt := Nat.mod_lt i hn
  rw [← Nat.mod_add_mod]
  split
  · rename_i h
    rw [h, Nat.mod_self]
  · exact Nat.mod_eq_of_lt (by omega)

/-- A walk on a pass goes on with it. -/
theorem step_onPass (h : i + 1 < found) :
    (onPass direction found i).step direction once found left = onPass direction found (i + 1) := by
  cases direction with
  | simple => exact step_forward h
  | alternate =>
    have hnext : found - 1 - i = (found - 1 - (i + 1)) + 1 := by omega
    simp only [onPass, passSource, hnext, reduceCtorEq, decide_false]
    exact step_backward (by omega)

/-- A walk that turns at every end goes on, or turns. -/
theorem step_onTurns (direction : RepeatDirection) (hfound : 0 < found) :
    (onTurns direction found i).step direction false found left =
      onTurns direction found (i + 1) := by
  cases direction with
  | simple =>
    have hlt := Nat.mod_lt i hfound
    simp only [onTurns, succ_mod hfound]
    split
    · rename_i hlast
      rw [step_last (.inr hlast)]
      rfl
    · exact step_forward (by omega)
  | alternate =>
    have hperiod : 0 < 2 * found := by omega
    have hlt := Nat.mod_lt i hperiod
    simp only [onTurns, succ_mod hperiod]
    generalize i % (2 * found) = j at hlt ⊢
    rcases (by omega : j + 1 < found ∨ j + 1 = found ∨ found ≤ j ∧ j + 1 < 2 * found ∨
      j + 1 = 2 * found) with hback | hfirst | ⟨hafter, hforward⟩ | hlast
    · have hnext : found - 1 - j = (found - 1 - (j + 1)) + 1 := by omega
      rw [if_neg (by omega : ¬ j + 1 = 2 * found), if_pos (by omega), if_pos hback, hnext]
      exact step_backward (by omega)
    · have hzero : found - 1 - j = 0 ∧ j + 1 - found = 0 := by omega
      rw [if_neg (by omega : ¬ j + 1 = 2 * found), if_pos (by omega), if_neg (by omega), hzero.1,
        hzero.2]
      exact step_first
    · have hnext : j + 1 - found = (j - found) + 1 := by omega
      rw [if_neg (by omega : ¬ j + 1 = 2 * found), if_neg (by omega), if_neg (by omega), hnext]
      exact step_forward (by omega)
    · rw [if_neg (by omega), if_pos hlast, if_pos hfound, step_last (.inr (by omega)),
        turn_eq .alternate hfound]
      rfl

/-- The first step of a walk leads to the first state. -/
theorem step_start_state (direction : RepeatDirection) (once : Bool) (hfound : 0 < found)
    (count : Nat) :
    step direction once found count start = state direction once found count 0 := by
  rw [step_start direction once hfound, turn_eq direction hfound, state]
  cases once with
  | false =>
    cases direction with
    | simple => simp [onPass, onTurns, passSource]
    | alternate => simp [onPass, onTurns, passSource, hfound]
  | true =>
    by_cases hshort : count ≤ found
    · have hnone : count - found = 0 := by omega
      simp [hshort, hnone]
    · have hsome : 0 < count - found := by omega
      simp [hshort, hsome]

/-- **A step of a walk leads from one state to the next.** -/
theorem step_state (direction : RepeatDirection) (once : Bool) (hfound : 0 < found)
    (hi : i + 1 < count) :
    (state direction once found count i).step direction once found (count - (i + 1)) =
      state direction once found count (i + 1) := by
  cases once with
  | false => exact step_onTurns direction hfound
  | true =>
    simp only [state, if_true]
    by_cases hwait : i < count - found
    · -- The walk is at the last node or behind it, and stays there until one pass is left.
      rw [if_pos hwait, step_last (by split <;> omega), turn_eq direction hfound]
      by_cases hnext : i + 1 < count - found
      · have hmore : ¬ count - (i + 1) ≤ found := by omega
        simp [hnext, hmore]
      · have hfits : count - (i + 1) ≤ found := by omega
        have hzero : i + 1 - (count - found) = 0 := by omega
        simp [hnext, hfits, hzero]
    · have hnext : i + 1 - (count - found) = i - (count - found) + 1 := by omega
      rw [if_neg hwait, if_neg (by omega), hnext]
      exact step_onPass (by omega)

theorem state_cursor (direction : RepeatDirection) (once : Bool) (found count i : Nat) :
    (state direction once found count i).cursor = some (source direction once found count i) := by
  cases once with
  | false =>
    cases direction with
    | simple => rfl
    | alternate =>
      simp only [state, source, onTurns, turningSource, Bool.false_eq_true, if_false]
      split <;> rfl
  | true =>
    simp only [state, source, if_true]
    by_cases hshort : count ≤ found
    · have hnone : count - found = 0 := by omega
      simp [hshort, hnone, onPass]
    · by_cases hzero : i = 0
      · subst hzero
        have hsome : 0 < count - found := by omega
        simp [hshort, hsome]
      · simp only [hshort, hzero, if_false]
        split <;> rfl

/-- The sources from a state on, by induction on the copies that are left. -/
theorem sources_from (direction : RepeatDirection) (once : Bool) (hfound : 0 < found) :
    ∀ (left i : Nat) (w : Walk), i + left = count →
      (0 < left → w.step direction once found left = state direction once found count i) →
      sources direction once found left w =
        (List.range' i left).map (source direction once found count)
  | 0, _, _, _, _ => rfl
  | left + 1, i, w, hcount, hstep => by
    have hleft : count - (i + 1) = left := by omega
    have hrest := sources_from direction once hfound left (i + 1)
      (state direction once found count i) (by omega) fun hmore => by
        rw [← step_state direction once hfound (by omega), hleft]
    rw [sources, hstep (Nat.succ_pos left), state_cursor, hrest, List.range'_succ, List.map_cons]
    rfl

/-- **The sources of a walk are those of the closed form.** -/
theorem sources_eq (direction : RepeatDirection) (once : Bool) (hfound : 0 < found) (count : Nat) :
    sources direction once found count start =
      (List.range count).map (source direction once found count) := by
  rw [sources_from direction once hfound count 0 start (Nat.zero_add count) fun _ =>
    step_start_state direction once hfound count, List.range_eq_range']

end Walk

/-! ## Plans -/

/-- In a feasible plan the source of each copy is on the list by then, which each copy before it has
made longer. -/
theorem Feasible.source_lt {copy : PlannedCopy} :
    ∀ {plan : List PlannedCopy} {length i : Nat}, Feasible length plan → plan[i]? = some copy →
      copy.source < length + i
  | _ :: _, _, 0, h, hi => by
    cases hi
    exact h.1
  | _ :: plan, length, i + 1, h, hi => by
    have hrest := source_lt h.2 hi
    omega

namespace RepeatStrategy

variable {s : RepeatStrategy} {direction : RepeatDirection} {once : Bool} {found expected : Nat}

/-- The plan of a strategy that copies each node in its turn, without a walk. -/
theorem plan_of_all (hs : s.source = .all direction once) (hfound : 0 < found)
    (hmore : found < expected) :
    s.plan found expected = (List.range (expected - found)).map fun i =>
      ⟨Walk.source direction once found (expected - found) i, .atEnd⟩ := by
  have hnot : ¬ (found = 0 || expected ≤ found) = true := by
    simp only [Bool.or_eq_true, decide_eq_true_eq]
    omega
  rw [plan, if_neg hnot, hs]
  dsimp only
  rw [Walk.sources_eq direction once hfound, List.map_map]
  rfl

/-- A long walk that goes back and forth once ends at the first node. -/
theorem source_last (hlong : found < expected - found) (hfound : 0 < found) :
    Walk.source .alternate true found (expected - found) (expected - found - 1) = 0 := by
  rw [Walk.source, if_pos rfl, if_neg (by omega), if_neg (by omega), if_neg (by omega),
    Walk.passSource]
  omega

/-- **Plans in closed form.** There is nothing to copy if there is no node or there are enough.
Otherwise a plan makes as many copies as are missing, each of what is on the list by then; and if
each node is copied in its turn, the sources are those of `Walk.source`, of which the last one is
the first node if a long walk goes back and forth once. -/
theorem plan_closedForm (s : RepeatStrategy) (found expected : Nat) :
    (found = 0 ∨ expected ≤ found → s.plan found expected = []) ∧
    (0 < found → found < expected →
      (s.plan found expected).length = expected - found ∧
      (∀ i copy, (s.plan found expected)[i]? = some copy → copy.source < found + i) ∧
      ∀ direction once, s.source = .all direction once →
        (s.plan found expected = (List.range (expected - found)).map fun i =>
          ⟨Walk.source direction once found (expected - found) i, .atEnd⟩) ∧
        (direction = .alternate → once = true → found < expected - found →
          (s.plan found expected).getLast?.map PlannedCopy.source = some 0)) := by
  refine ⟨fun h => ?_, fun hfound hmore => ⟨length_plan hfound, fun i copy hi => ?_,
    fun direction once hs => ⟨plan_of_all hs hfound hmore, fun hdirection honce hlong => ?_⟩⟩⟩
  · rw [plan, if_pos (by simpa using h)]
  · exact (plan_feasible s expected hfound).source_lt hi
  · subst hdirection honce
    rw [plan_of_all hs hfound hmore, List.getLast?_map, List.getLast?_range, if_neg (by omega)]
    exact congrArg some (source_last hlong hfound)

/-- Five copies of two nodes, back and forth once: the last node, twice the place behind it, and
then one pass back. -/
theorem plan_closedForm_fiveCopies :
    (⟨.all .alternate true, false⟩ : RepeatStrategy).plan 3 3 = [] ∧ 0 < 2 ∧ 2 < 7 ∧ 2 < 7 - 2 ∧
      (⟨.all .alternate true, false⟩ : RepeatStrategy).plan 2 7 =
        [1, 2, 2, 1, 0].map (fun i => ⟨i, .atEnd⟩) ∧
      ((⟨.all .alternate true, false⟩ : RepeatStrategy).plan 2 7).getLast?.map PlannedCopy.source =
        some 0 := by
  have hform := ((plan_closedForm ⟨.all .alternate true, false⟩ 2 7).2 (by decide) (by decide)).2.2
    .alternate true rfl
  refine ⟨(plan_closedForm _ 3 3).1 (.inr (Nat.le_refl 3)), by decide, by decide, by decide,
    hform.1.trans (by decide), hform.2 rfl rfl (by decide)⟩

end RepeatStrategy

end MarkupTemplate
