import MarkupTemplate.Proofs.Integers
import MarkupTemplate.Proofs.NodePaths

/-!
# Positions as formulas

A position of a selector stands for the values of a formula at the natural numbers. The conditions
that it is compiled to calculate with a remainder instead.

* `Nth.Admits` — whether a position allows so many elements before and after.
* `Yields`, `Says`, `SayAll` — an expression has an integer for its value, or says that a property
  holds; several expressions say together that it does.
* `nthConjuncts_sayAll` — the conditions of a position say that it admits.
* `listPositionExpr_picks` — the predicate for several positions picks what all of them admit.
-/

namespace MarkupTemplate.Css

variable {a b p : Int} {before after : Nat}

/-! ## Formulas -/

/-- An element with so many others before and after it is at the position. Positions count from
one, and a formula stands for its values at all natural numbers. -/
def Nth.Admits (before after : Nat) : Nth → Prop
  | .first => before = 0
  | .last => after = 0
  | .formula step offset => ∃ n : Nat, step * n + offset = before + 1

/-- The numbers of a formula are less than `2 ^ 52` in size. -/
def Nth.IsSmall : Nth → Prop
  | .first | .last => True
  | .formula step offset => step.natAbs < 2 ^ 52 ∧ offset.natAbs < 2 ^ 52

theorem formula_of_pos (ha : 0 < a) : (∃ n : Nat, a * n + b = p) ↔ a ∣ p - b ∧ b ≤ p := by
  constructor
  · rintro ⟨n, rfl⟩
    have hproduct : 0 ≤ a * n := Int.mul_nonneg (Int.le_of_lt ha) (Int.natCast_nonneg n)
    exact ⟨⟨n, by omega⟩, by omega⟩
  · rintro ⟨⟨k, hk⟩, hle⟩
    have hpos : 0 ≤ k := by
      by_contra hneg
      have := Int.mul_neg_of_pos_of_neg ha (Int.not_le.1 hneg)
      omega
    obtain ⟨n, rfl⟩ := Int.eq_ofNat_of_zero_le hpos
    exact ⟨n, by omega⟩

theorem formula_of_neg (ha : a < 0) : (∃ n : Nat, a * n + b = p) ↔ -a ∣ b - p ∧ p ≤ b := by
  rw [← formula_of_pos (by omega : 0 < -a)]
  refine exists_congr fun n => ?_
  rw [Int.neg_mul]
  omega

theorem formula_of_zero : (∃ n : Nat, 0 * (n : Int) + b = p) ↔ p = b := by
  simp [eq_comm]

instance (before after : Nat) (nth : Nth) : Decidable (nth.Admits before after) :=
  match nth with
  | .first => inferInstanceAs (Decidable (before = 0))
  | .last => inferInstanceAs (Decidable (after = 0))
  | .formula step offset =>
    if hzero : step = 0 then
      decidable_of_iff ((before : Int) + 1 = offset) (by
        subst hzero
        exact formula_of_zero.symm)
    else if hpos : 0 < step then
      decidable_of_iff (step ∣ (before : Int) + 1 - offset ∧ offset ≤ (before : Int) + 1)
        (formula_of_pos hpos).symm
    else
      decidable_of_iff (-step ∣ offset - ((before : Int) + 1) ∧ (before : Int) + 1 ≤ offset)
        (formula_of_neg (by omega)).symm

end MarkupTemplate.Css

namespace MarkupTemplate.XPath

open Css Number

variable {f : Focus} {e e' : Expr} {es es' : List Expr} {z w : Int} {P Q : Prop} {n : Nat}

/-! ## Integers -/

/-- The value of the expression is an integer. -/
def Yields (f : Focus) (e : Expr) (z : Int) : Prop :=
  ∃ x, evaluate f e = .ok (.atom (.number x)) ∧ IsWhole x z

theorem yields_natExpr (f : Focus) (hn : n < 2 ^ 53) : Yields f (natExpr n) n := by
  refine ⟨_, by rw [natExpr, evaluate], ?_⟩
  rw [ofDecimal_toDigits]
  exact isWhole_ofScientific hn true

theorem yields_intExpr (f : Focus) (hz : z.natAbs < 2 ^ 53) : Yields f (intExpr z) z := by
  cases z with
  | ofNat n => exact yields_natExpr f hz
  | negSucc n =>
    obtain ⟨x, hx, hwhole⟩ := yields_natExpr f (n := n + 1) hz
    refine ⟨-x, ?_, hwhole.neg⟩
    rw [intExpr, evaluate, hx]
    rfl

theorem evaluate_arithmetic {x y : Float} (o : Arithmetic)
    (h : evaluate f e = .ok (.atom (.number x))) (h' : evaluate f e' = .ok (.atom (.number y))) :
    evaluate f (.binary (.arithmetic o) e e') = .ok (.atom (.number (o.apply x y))) := by
  rw [evaluate, h, h']
  rfl

theorem Yields.add (h : Yields f e z) (h' : Yields f e' w) (hsum : (z + w).natAbs < 2 ^ 53) :
    Yields f (.binary (.arithmetic .plus) e e') (z + w) := by
  obtain ⟨x, hx, hz⟩ := h
  obtain ⟨y, hy, hw⟩ := h'
  exact ⟨_, evaluate_arithmetic .plus hx hy, hz.add hw hsum⟩

theorem Yields.sub (h : Yields f e z) (h' : Yields f e' w) (hsum : (z - w).natAbs < 2 ^ 53) :
    Yields f (.binary (.arithmetic .minus) e e') (z - w) := by
  obtain ⟨x, hx, hz⟩ := h
  obtain ⟨y, hy, hw⟩ := h'
  exact ⟨_, evaluate_arithmetic .minus hx hy, hz.sub hw hsum⟩

theorem Yields.mod (h : Yields f e z) (h' : Yields f e' w) (hw : w ≠ 0) :
    Yields f (.binary (.arithmetic .modulo) e e') (z.tmod w) := by
  obtain ⟨x, hx, hz⟩ := h
  obtain ⟨y, hy, hw'⟩ := h'
  exact ⟨_, evaluate_arithmetic .modulo hx hy, hz.remainder hw' hw⟩

/-! ## Conditions -/

/-- The value of the expression is true if the property holds, and false if not. -/
def Says (f : Focus) (e : Expr) (P : Prop) : Prop :=
  ∃ b, evaluate f e = .ok (.atom (.boolean b)) ∧ (b = true ↔ P)

/-- The value of the expression is true. -/
def Holds (f : Focus) (e : Expr) : Prop :=
  evaluate f e = .ok (.atom (.boolean true))

theorem Says.holds_iff (h : Says f e P) : Holds f e ↔ P := by
  obtain ⟨b, hb, hP⟩ := h
  rw [← hP, Holds, hb]
  simp

theorem Says.congr (h : Says f e P) (hPQ : P ↔ Q) : Says f e Q := by
  obtain ⟨b, hb, hP⟩ := h
  exact ⟨b, hb, hP.trans hPQ⟩

theorem evaluate_comparison {x y : Float} (c : XPath.Comparison)
    (h : evaluate f e = .ok (.atom (.number x))) (h' : evaluate f e' = .ok (.atom (.number y))) :
    evaluate f (.binary (.comparison c) e e') =
      .ok (.atom (.boolean (Atom.compare c (.number x) (.number y)))) := by
  rw [evaluate, h, h']
  rfl

theorem Yields.equation (h : Yields f e z) (h' : Yields f e' w) :
    Says f (equation e e') (z = w) := by
  obtain ⟨x, hx, hz⟩ := h
  obtain ⟨y, hy, hw⟩ := h'
  refine ⟨_, evaluate_comparison .equal hx hy, ?_⟩
  change (x == y) = true ↔ _
  rw [hz.beq hw, decide_eq_true_eq]

theorem Yields.lessEqual (h : Yields f e z) (h' : Yields f e' w) :
    Says f (.binary (.comparison .lessEqual) e e') (z ≤ w) := by
  obtain ⟨x, hx, hz⟩ := h
  obtain ⟨y, hy, hw⟩ := h'
  refine ⟨_, evaluate_comparison .lessEqual hx hy, ?_⟩
  rw [← hz.le_iff hw]
  exact decide_eq_true_iff

theorem Yields.greaterEqual (h : Yields f e z) (h' : Yields f e' w) :
    Says f (.binary (.comparison .greaterEqual) e e') (w ≤ z) := by
  obtain ⟨x, hx, hz⟩ := h
  obtain ⟨y, hy, hw⟩ := h'
  refine ⟨_, evaluate_comparison .greaterEqual hx hy, ?_⟩
  rw [← hw.le_iff hz]
  exact decide_eq_true_iff

theorem Says.and (h : Says f e P) (h' : Says f e' Q) : Says f (.binary .and e e') (P ∧ Q) := by
  obtain ⟨b, hb, hP⟩ := h
  obtain ⟨b', hb', hQ⟩ := h'
  refine ⟨b && b', ?_, by rw [Bool.and_eq_true, hP, hQ]⟩
  rw [evaluate, hb, ok_bind, hb']
  cases b <;> rfl

/-- Each of the expressions is true or false, and all are true if the property holds. -/
structure SayAll (f : Focus) (es : List Expr) (P : Prop) : Prop where
  isTest : ∀ e ∈ es, ∃ Q, Says f e Q
  holds_iff : (∀ e ∈ es, Holds f e) ↔ P

theorem Says.all (h : Says f e P) : SayAll f [e] P where
  isTest e' he := ⟨P, List.mem_singleton.1 he ▸ h⟩
  holds_iff := by simpa using h.holds_iff

theorem SayAll.append (h : SayAll f es P) (h' : SayAll f es' Q) :
    SayAll f (es ++ es') (P ∧ Q) where
  isTest e he := (List.mem_append.1 he).elim (h.isTest e) (h'.isTest e)
  holds_iff := by rw [List.forall_mem_append, h.holds_iff, h'.holds_iff]

theorem SayAll.congr (h : SayAll f es P) (hPQ : P ↔ Q) : SayAll f es Q :=
  ⟨h.isTest, h.holds_iff.trans hPQ⟩

theorem sayAll_flatMap {α : Type} {exprs : α → List Expr} {property : α → Prop} {as : List α}
    (h : ∀ a ∈ as, SayAll f (exprs a) (property a)) :
    SayAll f (as.flatMap exprs) (∀ a ∈ as, property a) where
  isTest e he := by
    obtain ⟨a, ha, he⟩ := List.mem_flatMap.1 he
    exact (h a ha).isTest e he
  holds_iff := by
    constructor
    · intro hall a ha
      exact (h a ha).holds_iff.1 fun e he => hall e (List.mem_flatMap.2 ⟨a, ha, he⟩)
    · intro hall e he
      obtain ⟨a, ha, he⟩ := List.mem_flatMap.1 he
      exact (h a ha).holds_iff.2 (hall a ha) e he

/-- A conjunction says what its members say together. -/
theorem SayAll.folded (hne : es ≠ []) (h : SayAll f es P) : Says f (folded .and es) P := by
  refine Says.congr ?_ h.holds_iff
  have htests := h.isTest
  clear h
  induction es using List.reverseRecOn with
  | nil => exact absurd rfl hne
  | append_singleton es e ih =>
    obtain ⟨Q, hlast⟩ := htests e (by simp)
    by_cases hes : es = []
    · subst hes
      refine hlast.congr ?_
      simpa using hlast.holds_iff.symm
    · rw [folded_snoc .and hes]
      refine ((ih hes fun e' he => htests e' (List.mem_append_left _ he)).and hlast).congr ?_
      rw [List.forall_mem_append, List.forall_mem_singleton, hlast.holds_iff]

/-! ## Positions -/

theorem nthConjuncts_ne_nil (position count : Expr) (nth : Nth) :
    nthConjuncts position count nth ≠ [] := by
  cases nth with
  | first | last => exact List.cons_ne_nil _ _
  | formula step offset =>
    unfold nthConjuncts
    dsimp only
    split_ifs <;> exact List.cons_ne_nil _ _

variable {position count : Expr} {before after : Nat}

/-- The condition that a remainder is zero. -/
theorem Yields.divides (h : Yields f e z) (hw : w.natAbs < 2 ^ 53) (hw' : w ≠ 0) :
    Says f (Css.equation (.binary (.arithmetic .modulo) e (intExpr w)) (natExpr 0)) (w ∣ z) := by
  have hmod := (h.mod (yields_intExpr f hw) hw').equation (yields_natExpr f (n := 0) (by decide))
  refine hmod.congr ?_
  rw [Int.natCast_zero]
  exact Int.dvd_iff_tmod_eq_zero.symm

/-- The position less the offset of a formula, which is written as a sum if the offset is
negative. -/
theorem shifted_yields {offset : Int} (hsmall : offset.natAbs < 2 ^ 52) (hfew : before < 2 ^ 52)
    (hp : Yields f position (before + 1)) : Yields f
      (if 0 ≤ offset then Expr.binary (.arithmetic .minus) position (intExpr offset)
        else .binary (.arithmetic .plus) position (intExpr (-offset)))
      ((before : Int) + 1 - offset) := by
  split_ifs with hsign
  · exact hp.sub (yields_intExpr f (by omega)) (by omega)
  · have hplus := hp.add (yields_intExpr f (z := -offset) (by omega)) (by omega)
    rwa [← Int.sub_eq_add_neg] at hplus

/-- **The conditions that a position is compiled to say that it admits.** -/
theorem nthConjuncts_sayAll (nth : Nth) (hsmall : nth.IsSmall) (hfew : before + after < 2 ^ 52)
    (hp : Yields f position (before + 1)) (hc : Yields f count (before + after + 1)) :
    SayAll f (nthConjuncts position count nth) (nth.Admits before after) := by
  cases nth with
  | first =>
    refine (hp.equation (yields_natExpr f (n := 1) (by decide))).all.congr ?_
    unfold Nth.Admits
    omega
  | last =>
    refine (hp.equation hc).all.congr ?_
    unfold Nth.Admits
    omega
  | formula step offset =>
    obtain ⟨hstep, hoffset⟩ := hsmall
    have htwo := hp.mod (yields_intExpr f (z := 2) (by decide)) (by decide)
    have htmod : ((before : Int) + 1).tmod 2 = ((before : Int) + 1) % 2 :=
      Int.tmod_eq_emod_of_nonneg (by omega)
    rw [nthConjuncts, Nth.Admits]
    dsimp only
    by_cases hzero : step = 0
    · rw [if_pos hzero, hzero]
      exact (hp.equation (yields_intExpr f (by omega))).all.congr formula_of_zero.symm
    rw [if_neg hzero]
    by_cases hodd : (decide (step = 2) && decide (offset = 1)) = true
    · rw [if_pos hodd]
      rw [Bool.and_eq_true, decide_eq_true_eq, decide_eq_true_eq] at hodd
      obtain ⟨rfl, rfl⟩ := hodd
      refine (htwo.equation (yields_natExpr f (n := 1) (by decide))).all.congr ?_
      rw [formula_of_pos (by decide), htmod]
      omega
    rw [if_neg hodd]
    by_cases heven : (decide (step = 2) && decide (offset = 0)) = true
    · rw [if_pos heven]
      rw [Bool.and_eq_true, decide_eq_true_eq, decide_eq_true_eq] at heven
      obtain ⟨rfl, rfl⟩ := heven
      refine (htwo.equation (yields_natExpr f (n := 0) (by decide))).all.congr ?_
      rw [formula_of_pos (by decide), htmod]
      omega
    rw [if_neg heven]
    by_cases hpos : 0 < step
    · have hdivided := (shifted_yields hoffset (by omega) hp).divides (w := step) (by omega) hzero
      have hformula := formula_of_pos (b := offset) (p := (before : Int) + 1) hpos
      rw [if_pos hpos]
      -- No position is less than one, so only larger offsets need the second condition.
      by_cases hlarge : 1 < offset
      · have hatLeast := hp.greaterEqual (yields_intExpr f (z := offset) (by omega))
        rw [if_pos hlarge]
        exact (hdivided.all.append hatLeast.all).congr hformula.symm
      · rw [if_neg hlarge]
        refine hdivided.all.congr (Iff.trans ?_ hformula.symm)
        exact (and_iff_left (by omega)).symm
    · have hatMost := hp.lessEqual (yields_intExpr f (z := offset) (by omega))
      have hdifference := (yields_intExpr f (z := offset) (by omega)).sub hp (by omega)
      have hdivided := hdifference.divides (w := -step) (by omega) (by omega)
      rw [if_neg hpos]
      refine (hatMost.all.append hdivided.all).congr ?_
      rw [formula_of_neg (by omega), and_comm]

/-! ## Positions in lists -/

/-- As a predicate the expression leaves the node if the property holds. -/
def Picks (f : Focus) (e : Expr) (P : Prop) : Prop :=
  ∃ v, evaluate f e = .ok v ∧ (holdsAt f.position v = true ↔ P)

theorem Says.picks (h : Says f e P) : Picks f e P := by
  obtain ⟨b, hb, hP⟩ := h
  exact ⟨_, hb, hP⟩

/-- A number picks the node at its position. -/
theorem Yields.picks (h : Yields f e z) (hposition : f.position < 2 ^ 53) :
    Picks f e (z = f.position) := by
  obtain ⟨x, hx, hz⟩ := h
  refine ⟨_, hx, ?_⟩
  change (x == Float.ofNat f.position) = true ↔ _
  rw [hz.beq (isWhole_ofNat hposition), decide_eq_true_eq]

theorem Picks.congr (h : Picks f e P) (hPQ : P ↔ Q) : Picks f e Q := by
  obtain ⟨v, hv, hP⟩ := h
  exact ⟨v, hv, hP.trans hPQ⟩

theorem yields_position (hposition : f.position < 2 ^ 53) :
    Yields f (.call "position" []) f.position := by
  have hfind : Function.find "position" 0 = .ok (.contextual "position" Focus.position) := by rfl
  refine ⟨Float.ofNat f.position, ?_, isWhole_ofNat hposition⟩
  rw [evaluate_call hfind evaluateAll_nil]
  rfl

theorem yields_last (hsize : f.size < 2 ^ 53) : Yields f (.call "last" []) f.size := by
  have hfind : Function.find "last" 0 = .ok (.contextual "last" Focus.size) := by rfl
  refine ⟨Float.ofNat f.size, ?_, isWhole_ofNat hsize⟩
  rw [evaluate_call hfind evaluateAll_nil]
  rfl

/-- **The predicate for positions in a list picks what all of them admit**, also where it is a
number. -/
theorem listPositionExpr_picks {positions : List Nth} (hne : positions ≠ [])
    (hsmall : ∀ nth ∈ positions, nth.IsSmall) (hfew : before + after < 2 ^ 52)
    (hposition : f.position = before + 1) (hsize : f.size = before + after + 1) :
    Picks f (listPositionExpr positions) (∀ nth ∈ positions, nth.Admits before after) := by
  have hp : Yields f (.call "position" []) ((before : Int) + 1) := by
    have h := yields_position (f := f) (by omega)
    rw [hposition] at h
    exact h
  have hc : Yields f (.call "last" []) ((before : Int) + after + 1) := by
    have h := yields_last (f := f) (by omega)
    rw [hsize] at h
    exact h
  have hconjunction : Picks f
      (folded .and (positions.flatMap (nthConjuncts (.call "position" []) (.call "last" []))))
      (∀ nth ∈ positions, nth.Admits before after) := by
    refine (SayAll.folded ?_ (sayAll_flatMap fun nth hnth =>
      nthConjuncts_sayAll nth (hsmall nth hnth) hfew hp hc)).picks
    obtain ⟨nth, hnth⟩ := List.exists_mem_of_ne_nil positions hne
    obtain ⟨e, he⟩ := List.exists_mem_of_ne_nil _ (nthConjuncts_ne_nil _ _ nth)
    exact List.ne_nil_of_mem (List.mem_flatMap.2 ⟨nth, hnth, he⟩)
  match positions with
  | [.first] =>
    refine ((yields_natExpr f (n := 1) (by decide)).picks (by omega)).congr ?_
    rw [hposition, List.forall_mem_singleton, Nth.Admits]
    omega
  | [.last] =>
    refine (hc.picks (by omega)).congr ?_
    rw [hposition, List.forall_mem_singleton, Nth.Admits]
    omega
  | [.formula step offset] =>
    obtain ⟨-, hoffset⟩ := hsmall _ (List.mem_singleton_self _)
    rw [List.flatMap_singleton] at hconjunction
    rw [listPositionExpr]
    split_ifs with hzero
    · subst hzero
      refine ((yields_intExpr f (by omega)).picks (by omega)).congr ?_
      rw [hposition, List.forall_mem_singleton, Nth.Admits, formula_of_zero]
      omega
    · exact hconjunction
  | .first :: _ :: _ | .last :: _ :: _ | .formula _ _ :: _ :: _ => exact hconjunction

end MarkupTemplate.XPath
