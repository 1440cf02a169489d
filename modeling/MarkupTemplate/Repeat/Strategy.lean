import MarkupTemplate.Fault
import MarkupTemplate.Number.Word

/-!
# Repeat strategies

A strategy says which node is copied when a list has more items than there are nodes. It is written
as names separated by commas.

* `RepeatStrategy.read` — the strategy of a text. Blanks and letter case do not count, and neither
  does the order of the names: of several sources, all comes before middle, middle before nth, nth
  before first, first before last.
* `RepeatStrategy.text` — a text that is read as the strategy.
-/

namespace MarkupTemplate

/-- How a walk over the nodes goes on at an end. -/
inductive RepeatDirection where
  /-- From the last node to the first. -/
  | simple
  /-- Back the way it came. -/
  | alternate
deriving DecidableEq, Repr

/-- Which node is copied. -/
inductive RepeatSource where
  | last
  | first
  /-- The middle node; `left` picks the left one of the middle two. -/
  | middle (left : Bool)
  /-- The node of this number, counted from one. -/
  | nth (number : Nat)
  /-- Each in its turn; with `once`, the walk turns only if it has to be at the other end last. -/
  | all (direction : RepeatDirection) (once : Bool)
deriving DecidableEq, Repr

/-- Which node is copied, and whether the finished list is shuffled. -/
structure RepeatStrategy where
  source : RepeatSource
  shuffle : Bool
deriving DecidableEq, Repr

namespace RepeatStrategy

/-- The strategy that holds if none is given: copy the last node. -/
def standard : RepeatStrategy :=
  ⟨.last, false⟩

/-- What the names of a strategy say, before it is decided which of them count. -/
structure Flags where
  all : Bool
  middle : Bool
  first : Bool
  nth : Option Nat
  left : Bool
  alternate : Bool
  once : Bool
  shuffle : Bool
deriving DecidableEq, Repr

/-- Nothing is said. -/
def Flags.none : Flags :=
  ⟨false, false, false, Option.none, false, false, false, false⟩

/-- The flags after one more name, or the error that a name is. -/
def Flags.add (source : String) (f : Flags) (token : List Char) : Except Error Flags :=
  let name := String.ofList token
  if name = "repeat-last" then .ok f
  else if name = "repeat-first" then .ok { f with first := true }
  else if name = "repeat-middle" then .ok { f with middle := true }
  else if name = "repeat-all" then .ok { f with all := true }
  else if name = "left" then .ok { f with left := true }
  else if name = "alternate" then .ok { f with alternate := true }
  else if name = "simple" then .ok { f with alternate := false }
  else if name = "once" then .ok { f with once := true }
  else if name = "shuffle-data" then .ok { f with shuffle := true }
  else
    match Text.dropHead? "repeat-nth(".toList token with
    | some rest =>
      if rest.getLast? = some ')' then
        match (Number.readWord? rest.dropLast).filter (0 < ·) with
        | some n => .ok { f with nth := some n }
        | Option.none => .error ⟨.directive, "Bad repeat-nth index in '" ++ source ++ "'"⟩
      else .error ⟨.directive, "Unknown repeat function '" ++ name ++ "' in '" ++ source ++ "'"⟩
    | Option.none =>
      .error ⟨.directive, "Unknown repeat function '" ++ name ++ "' in '" ++ source ++ "'"⟩

/-- The strategy that flags amount to. -/
def Flags.strategy (f : Flags) : RepeatStrategy :=
  let source : RepeatSource :=
    if f.all then .all (if f.alternate then .alternate else .simple) f.once
    else if f.middle then .middle f.left
    else
      match f.nth with
      | some n => .nth n
      | Option.none => if f.first then .first else .last
  ⟨source, f.shuffle⟩

/-- The names in the text of a strategy, in lower case. -/
def tokens (s : String) : List (List Char) :=
  let letters := Text.lower (s.toList.filter fun c => !Text.isBlank c)
  (Text.splitOn ',' letters).filter fun t => !t.isEmpty

/-- The strategy of a text. -/
def read (s : String) : Except Error RepeatStrategy :=
  match (tokens s).foldlM (Flags.add s) Flags.none with
  | .ok f => .ok f.strategy
  | .error e => .error e

/-- The text of a source. -/
def sourceText : RepeatSource → String
  | .last => "repeat-last"
  | .first => "repeat-first"
  | .middle left => if left then "repeat-middle,left" else "repeat-middle"
  | .nth n => "repeat-nth(" ++ toString n ++ ")"
  | .all direction once =>
    "repeat-all" ++ (if direction = .alternate then ",alternate" else "") ++
      (if once then ",once" else "")

/-- The text of a strategy. -/
def text (s : RepeatStrategy) : String :=
  sourceText s.source ++ (if s.shuffle then ",shuffle-data" else "")

end RepeatStrategy

end MarkupTemplate
