import MarkupTemplate.Repeat.Strategy

/-!
# Plans of copies

* `RepeatStrategy.plan` — the copies that bring a list of nodes to an expected length, in the order
  in which they are made. A source is an index into the list as it stands when its copy is made.
* `Walk` — the cursor of a walk over all nodes.
-/

namespace MarkupTemplate

/-- Where a copy goes, in the document and in the list. -/
inductive Placement where
  /-- Right after the node it was made from. -/
  | afterSource
  /-- After the last node of the list. -/
  | atEnd
deriving DecidableEq, Repr

/-- One planned copy. -/
structure PlannedCopy where
  source : Nat
  placement : Placement
deriving DecidableEq, Repr

/-- A walk over the nodes of a list: the place of the cursor, which may be one off either end, and
the way it goes. Before its first step a walk has neither. -/
structure Walk where
  cursor : Option Int
  forward : Option Bool
deriving DecidableEq, Repr

namespace Walk

/-- A walk before its first step. -/
def start : Walk :=
  ⟨none, none⟩

/-- The cursor one place on, unless it is off the end that it goes to. -/
def advance (found : Int) (w : Walk) : Walk :=
  match w.forward, w.cursor with
  | some true, some c => if c < found then { w with cursor := some (c + 1) } else w
  | some false, some c => if -1 < c then { w with cursor := some (c - 1) } else w
  | _, _ => w

/-- Where a walk turns to at its end. -/
def turn (direction : RepeatDirection) (found : Int) : Walk :=
  match direction with
  | .alternate => ⟨some (found - 1), some false⟩
  | .simple => ⟨some 0, some true⟩

/-- One step of a walk that has `left` copies to make, this one among them. With `once`, a walk
turns only when what is left fits into one more pass. -/
def step (direction : RepeatDirection) (once : Bool) (found : Nat) (left : Nat) (w : Walk) : Walk :=
  let w := w.advance found
  if w.cursor = none || w.cursor = some (found : Int) then
    let w := if !once || left ≤ found then turn direction found else w
    if w.cursor = none then ⟨some ((found : Int) - 1), some true⟩ else w
  else if w.cursor = some (-1) then ⟨some 0, some true⟩
  else w

/-- The sources of a walk with `left` copies to make. -/
def sources (direction : RepeatDirection) (once : Bool) (found : Nat) : Nat → Walk → List Nat
  | 0, _ => []
  | left + 1, w =>
    let w := w.step direction once found (left + 1)
    (w.cursor.getD ((found : Int) - 1)).toNat :: sources direction once found left w

end Walk

namespace RepeatStrategy

/-- The copies that bring `found` nodes to the number `expected`. -/
def plan (s : RepeatStrategy) (found expected : Nat) : List PlannedCopy :=
  if found = 0 || expected ≤ found then []
  else
    let count := expected - found
    let fixed (source : Nat) : List PlannedCopy := List.replicate count ⟨source, .afterSource⟩
    match s.source with
    | .last => fixed (found - 1)
    | .first => fixed 0
    | .middle left => fixed (if left && found % 2 = 0 then found / 2 - 1 else found / 2)
    | .nth n => fixed (min (n - 1) (found - 1))
    | .all direction once =>
      (Walk.sources direction once found count Walk.start).map fun i => ⟨i, .atEnd⟩

/-- A list that is long enough needs no copies. -/
theorem plan_eq_nil {s : RepeatStrategy} {found expected : Nat} (h : expected ≤ found) :
    s.plan found expected = [] := by
  simp [plan, h]

/-- Every step of a walk makes one copy. -/
theorem length_sources (direction : RepeatDirection) (once : Bool) (found left : Nat) (w : Walk) :
    (Walk.sources direction once found left w).length = left := by
  induction left generalizing w with
  | zero => simp [Walk.sources]
  | succ left ih => simp [Walk.sources, ih]

/-- A list of nodes is brought to exactly the expected length. -/
theorem length_plan {s : RepeatStrategy} {found expected : Nat} (h : 0 < found) :
    (s.plan found expected).length = expected - found := by
  unfold plan
  split
  · rename_i hc
    simp only [Bool.or_eq_true, decide_eq_true_eq] at hc
    simp only [List.length_nil]
    omega
  · cases s.source <;> simp [length_sources]

end RepeatStrategy

end MarkupTemplate
