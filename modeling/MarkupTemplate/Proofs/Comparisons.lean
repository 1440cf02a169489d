import MarkupTemplate.XPath.Evaluation

/-!
# Comparisons read backwards

A comparison says the same when its sides change places and its sign is turned around.

* `Number.compare_swap`, `Number.beq_comm` — the order of doubles and their equality.
* `XPath.Comparison.mirror` — the sign turned around.
* `XPath.Comparison.Holds` — what a comparison says of the texts of two nodes.
* `XPath.Atom.compare_mirror`, `XPath.Value.compare_mirror` — sides that are no nodes, and any sides.
* `XPath.Value.compare_turned` — **the main result**: comparisons can be turned around, and two lists
  of nodes are compared by the texts of their nodes.
* `XPath.evaluate_mirror` — the same for comparisons in queries.
-/

namespace MarkupTemplate

/-! ## Doubles -/

namespace Number

open Float.Model Float.Model.UnpackedFloat

theorem compare_swap (u v : UnpackedFloat) : v.compare u = (u.compare v).map Ordering.swap := by
  have hmagnitude (d e : Int) (m n : Nat) : ((compare d e).then (compare m n)).swap =
      (compare e d).then (compare n m) := by
    rw [Ordering.swap_then, Int.compare_swap, Nat.compare_swap]
  cases u with
  | notANumber => cases v <;> rfl
  | infinity s =>
    cases v with
    | infinity t => cases s <;> cases t <;> rfl
    | notANumber | zero | finite => cases s <;> rfl
  | zero s =>
    cases v with
    | infinity t | finite t => cases t <;> rfl
    | notANumber | zero => rfl
  | finite s m d hm =>
    cases v with
    | finite t n e hn =>
      have hsame := (hmagnitude d e m n).symm
      cases s with
      | positive =>
        cases t with
        | positive => exact congrArg some hsame
        | negative => rfl
      | negative =>
        cases t with
        | positive => rfl
        | negative => exact congrArg (some ∘ Ordering.swap) hsame
    | infinity t => cases t <;> rfl
    | zero => cases s <;> rfl
    | notANumber => rfl

/-- Equality of doubles goes both ways. -/
theorem beq_comm (x y : Float) : (x == y) = (y == x) := by
  change (x.toModel.unpack.compare y.toModel.unpack == some .eq) =
    (y.toModel.unpack.compare x.toModel.unpack == some .eq)
  rw [compare_swap y.toModel.unpack x.toModel.unpack]
  cases y.toModel.unpack.compare x.toModel.unpack with
  | none => rfl
  | some order => cases order <;> rfl

end Number

namespace XPath

/-! ## Signs -/

/-- The comparison with its sides in each other's place. -/
def Comparison.mirror : Comparison → Comparison
  | .equal => .equal
  | .notEqual => .notEqual
  | .less => .greater
  | .lessEqual => .greaterEqual
  | .greater => .less
  | .greaterEqual => .lessEqual

/-- What a comparison says of two texts: that they are the same or not, or how the numbers that they
stand for are ordered. -/
def Comparison.Holds : Comparison → String → String → Prop
  | .equal, s, t => s = t
  | .notEqual, s, t => s ≠ t
  | .less, s, t => readNumber s < readNumber t
  | .lessEqual, s, t => readNumber s ≤ readNumber t
  | .greater, s, t => readNumber s > readNumber t
  | .greaterEqual, s, t => readNumber s ≥ readNumber t

variable {ν : Type} {c : Comparison}

/-! ## Values -/

namespace Atom

theorem equal_comm (a b : Atom) : equal a b = equal b a := by
  rw [equal, equal, Bool.or_comm b.isBoolean, Bool.or_comm b.isNumber,
    Number.beq_comm b.toNumber, BEq.comm (a := b.toBoolean), BEq.comm (a := b.toText)]

theorem compare_mirror (c : Comparison) (a b : Atom) : compare c a b = compare c.mirror b a := by
  cases c with
  | equal => exact equal_comm a b
  | notEqual => exact congrArg not (equal_comm a b)
  | less | lessEqual | greater | greaterEqual => rfl

theorem compare_text (s t : String) : compare c (.text s) (.text t) = true ↔ c.Holds s t := by
  cases c with
  | equal => exact beq_iff_eq
  | notEqual => exact bne_iff_ne
  | less | lessEqual | greater | greaterEqual => exact decide_eq_true_iff

end Atom

namespace Value

theorem compare_nodes (xs ys : List String) :
    compare c (.nodes xs) (.nodes ys) = true ↔ ∃ x ∈ xs, ∃ y ∈ ys, c.Holds x y := by
  simp only [compare, List.any_eq_true, Atom.compare_text]

theorem compare_mirror (c : Comparison) (a b : Value String) :
    compare c a b = compare c.mirror b a := by
  cases a with
  | nodes xs =>
    cases b with
    | nodes ys =>
      have hturned (x y : String) := Atom.compare_mirror c (.text x) (.text y)
      rw [Bool.eq_iff_iff]
      simp only [compare, List.any_eq_true, hturned]
      constructor
      · rintro ⟨x, hx, y, hy, h⟩
        exact ⟨y, hy, x, hx, h⟩
      · rintro ⟨y, hy, x, hx, h⟩
        exact ⟨x, hx, y, hy, h⟩
    | atom b => exact congrArg (against b xs).any (funext fun x => Atom.compare_mirror c x b)
  | atom a =>
    cases b with
    | nodes ys => exact congrArg (against a ys).any (funext fun y => Atom.compare_mirror c a y)
    | atom b => exact Atom.compare_mirror c a b

/-- **Comparisons can be turned around.** A comparison of any two values is the mirrored comparison of
the values in each other's place. Of two lists of nodes it holds exactly if it holds of the texts of
two of their nodes. -/
theorem compare_turned (text : ν → String) (c : Comparison) (a b : Value ν) :
    compare c (a.map text) (b.map text) = compare c.mirror (b.map text) (a.map text) ∧
      ∀ ns ms : List ν, compare c ((Value.nodes ns).map text) ((Value.nodes ms).map text) = true ↔
        ∃ n ∈ ns, ∃ m ∈ ms, c.Holds (text n) (text m) := by
  refine ⟨compare_mirror c _ _, fun ns ms => ?_⟩
  rw [Value.map, Value.map, compare_nodes]
  constructor
  · rintro ⟨x, hx, y, hy, h⟩
    obtain ⟨n, hn, rfl⟩ := List.mem_map.1 hx
    obtain ⟨m, hm, rfl⟩ := List.mem_map.1 hy
    exact ⟨n, hn, m, hm, h⟩
  · rintro ⟨n, hn, m, hm, h⟩
    exact ⟨_, List.mem_map_of_mem hn, _, List.mem_map_of_mem hm, h⟩

end Value

/-- A comparison in a query can be turned around where both of its sides have a value. -/
theorem evaluate_mirror {f : Focus} {left right : Expr} {a b : Result}
    (hleft : evaluate f left = .ok a) (hright : evaluate f right = .ok b) :
    evaluate f (.binary (.comparison c) left right) =
      evaluate f (.binary (.comparison c.mirror) right left) := by
  have hturned := Value.compare_mirror c (a.map f.scope.text) (b.map f.scope.text)
  rw [evaluate, evaluate, hleft, hright]
  change Except.ok (Value.atom (.boolean _)) = .ok (.atom (.boolean _))
  rw [hturned]

end XPath

end MarkupTemplate
