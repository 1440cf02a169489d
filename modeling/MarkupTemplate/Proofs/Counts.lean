import Mathlib
import MarkupTemplate.Number.Layout

/-!
# Counts as numbers

Positions and counts of a query are doubles. Above `2 ^ 53` not every natural number is one, but
none is rounded to a number as small as one.

* `IsLarge` — a double that is two or more.
* `roundWithAccuracy_large`, `unpack_pack_large` — it is kept by rounding and by storing.
* `ofNat_eq_zero`, `ofNat_eq_one` — the only counts that are zero and one.
-/

namespace MarkupTemplate.Number

open Float.Model Float.Model.UnpackedFloat

/-- A finite double of two or more, or infinity. -/
inductive IsLarge : UnpackedFloat → Prop
  | infinity : IsLarge (.infinity .positive)
  | finite {m : Nat} {e : Int} {h : 0 < m} : m.log2 = 52 → -51 ≤ e →
      IsLarge (.finite .positive m e h)

/-! ## Rounding -/

theorem mantissa_shiftRight (em : ExtendedMantissa) (k : Nat) :
    (em >>> k).mantissa = em.mantissa / 2 ^ k := by
  induction k with
  | zero => simp [HShiftRight.hShiftRight, Nat.repeat]
  | succ k ih =>
    have hstep : (em >>> (k + 1)).mantissa = (em >>> k).mantissa / 2 := rfl
    rw [hstep, ih, Nat.div_div_eq_div_mul, Nat.pow_succ]

theorem roundedMantissa_bounds (em : ExtendedMantissa) :
    em.mantissa ≤ em.roundedMantissa ∧ em.roundedMantissa ≤ em.mantissa + 1 := by
  obtain ⟨m, round, sticky⟩ := em
  cases round <;> cases sticky <;>
    simp [ExtendedMantissa.roundedMantissa, ExtendedMantissa.accuracy,
      Accuracy.roundToNearestEven]
  omega

/-- The shift of a mantissa with at least 53 bits to one with 53 bits. -/
theorem shiftToTargetExponent_mantissa {m : Nat} {e : Int} (hm : 52 ≤ m.log2)
    (he : 1 ≤ m.log2 + e) :
    (shiftToTargetExponent Format.binary64 m e .exact).1.mantissa = m / 2 ^ (m.log2 - 52) ∧
      (shiftToTargetExponent Format.binary64 m e .exact).2 = m.log2 + e - 52 := by
  have htarget : Format.binary64.targetExponent (totalExponent m e) = m.log2 + e - 52 := by
    simp only [Format.targetExponent, totalExponent, Format.mantissaBits, Format.minExponent]
    norm_num
    omega
  have hamount : ((m.log2 : Int) + e - 52 - e).toNat = m.log2 - 52 := by omega
  simp only [shiftToTargetExponent, shiftToExponent, htarget, hamount, mantissa_shiftRight]
  exact ⟨rfl, by omega⟩

theorem log2_eq {m k : Nat} (h : 2 ^ k ≤ m) (h' : m < 2 ^ (k + 1)) : m.log2 = k := by
  have hm : m ≠ 0 := by
    have := Nat.two_pow_pos k
    omega
  exact (Nat.log2_eq_iff hm).2 ⟨h, h'⟩

theorem log2_mul_two_pow {m : Nat} (hm : m ≠ 0) (k : Nat) : (m * 2 ^ k).log2 = m.log2 + k := by
  refine log2_eq ?_ ?_
  · rw [Nat.pow_add]
    exact Nat.mul_le_mul_right _ (Nat.log2_self_le hm)
  · rw [Nat.add_right_comm, Nat.pow_add]
    exact Nat.mul_lt_mul_of_pos_right Nat.lt_log2_self (Nat.two_pow_pos k)

/-- What is two or more stays so when it is rounded. -/
theorem roundWithAccuracy_large {m : Nat} {e : Int} (hm : 52 ≤ m.log2) (he : 1 ≤ m.log2 + e) :
    IsLarge (roundWithAccuracy Format.binary64 .positive m e .exact) := by
  have hne : m ≠ 0 := by
    rintro rfl
    simp at hm
  obtain ⟨hmantissa, hexponent⟩ := shiftToTargetExponent_mantissa hm he
  obtain ⟨hlow, hhigh⟩ := roundedMantissa_bounds
    (shiftToTargetExponent Format.binary64 m e .exact).1
  -- The mantissa has 53 bits, or one more when rounding carries over.
  have hleast : 2 ^ 52 ≤ m / 2 ^ (m.log2 - 52) := by
    rw [Nat.le_div_iff_mul_le (Nat.two_pow_pos _), ← Nat.pow_add]
    have : 52 + (m.log2 - 52) = m.log2 := by omega
    rw [this]
    exact Nat.log2_self_le hne
  have hmost : m / 2 ^ (m.log2 - 52) < 2 ^ 53 := by
    rw [Nat.div_lt_iff_lt_mul (Nat.two_pow_pos _), ← Nat.pow_add]
    have : 53 + (m.log2 - 52) = m.log2 + 1 := by omega
    rw [this]
    exact Nat.lt_log2_self
  generalize hfirst : shiftToTargetExponent Format.binary64 m e .exact = first at *
  obtain ⟨em, e₁⟩ := first
  simp only at hmantissa hexponent hlow hhigh
  rw [hmantissa] at hlow hhigh
  rw [roundWithAccuracy, hfirst]
  dsimp only
  generalize em.roundedMantissa = r at hlow hhigh ⊢
  have hlog : r.log2 = 52 ∨ r.log2 = 53 ∧ r = 2 ^ 53 := by
    by_cases hr : r < 2 ^ 53
    · exact .inl (log2_eq (by omega) hr)
    · have hr : r = 2 ^ 53 := by omega
      exact .inr ⟨by rw [hr, Nat.log2_two_pow], hr⟩
  obtain ⟨hmantissa₂, hexponent₂⟩ :=
    shiftToTargetExponent_mantissa (m := r) (e := e₁) (by omega) (by omega)
  have hfinal : ((shiftToTargetExponent Format.binary64 r e₁ .exact).1.mantissa).log2 = 52 := by
    rw [hmantissa₂]
    rcases hlog with hlog | ⟨hlog, rfl⟩
    · rw [hlog, Nat.sub_self, Nat.pow_zero, Nat.div_one, hlog]
    · rw [hlog]
      decide
  split
  · rename_i hzero
    rw [hzero] at hfinal
    simp at hfinal
  · refine .finite hfinal ?_
    rw [hexponent₂]
    omega

/-! ## Storing -/

theorem unpackSign_packComponents {spec : Format} {sign : Sign} {exponent mantissa} :
    unpackSign (packComponents spec sign exponent mantissa) = sign.toBitVec := by
  ext i hi
  obtain rfl : i = 0 := by omega
  simp [unpackSign, packComponents, BitVec.getLsbD_eq_getElem, BitVec.getLsbD_append,
    BitVec.getElem_append]

theorem toNat_implicit (v : BitVec 52) : (1#1 ++ v).toNat = 2 ^ 52 + v.toNat := by
  rw [BitVec.toNat_append, ← Nat.shiftLeft_add_eq_or_of_lt v.isLt]
  rfl

theorem unpack_packedInfinity :
    UnpackedFloat.unpack Format.binary64 (packedInfinity Format.binary64 .positive) =
      .infinity .positive :=
  rfl

theorem unpack_packComponents {sign : Sign} {exponent : BitVec 11} (v : BitVec 52)
    (hone : exponent ≠ -1#11) (hzero : exponent ≠ 0#11) :
    UnpackedFloat.unpack Format.binary64 (packComponents Format.binary64 sign exponent v) =
      .finite sign (1#1 ++ v).toNat ((exponent.toNat : Int) - 1075)
        (by rw [toNat_implicit]; omega) := by
  simp only [UnpackedFloat.unpack, unpackMantissa_packComponents, unpackExponent_packComponents,
    unpackSign_packComponents]
  rw [if_neg hone, if_neg hzero]
  cases sign <;> rfl

/-- What is two or more stays so when it is stored. -/
theorem unpack_pack_large {x : UnpackedFloat} (h : IsLarge x) :
    IsLarge (Float.Model.pack x).unpack := by
  change IsLarge (UnpackedFloat.unpack Format.binary64 (UnpackedFloat.pack Format.binary64 x))
  cases h with
  | infinity => exact unpack_packedInfinity ▸ .infinity
  | @finite m e _ hlog he =>
    rw [UnpackedFloat.pack]
    dsimp only
    split
    · exact unpack_packedInfinity ▸ .infinity
    · rename_i hexponent
      have hnormal : m.log2 + 1 = Format.mantissaBits Format.binary64 := by rw [hlog]; rfl
      rw [if_pos hnormal]
      -- The exponent fits between those of the smallest numbers and of infinity.
      have hbias : e + (Format.exponentBias Format.binary64 : Nat) + (52 : Nat) = e + 1075 := by
        simp only [Format.exponentBias]
        omega
      rw [hbias] at hexponent ⊢
      have htoNat : (BitVec.ofNat 11 (e + 1075).toNat).toNat = (e + 1075).toNat := by
        rw [BitVec.toNat_ofNat, Nat.mod_eq_of_lt (by omega)]
      have hone : BitVec.ofNat 11 (e + 1075).toNat ≠ -1#11 := by
        intro h
        rw [h] at htoNat
        have : (-1#11).toNat = 2047 := by decide
        omega
      have hzero : BitVec.ofNat 11 (e + 1075).toNat ≠ 0#11 := by
        intro h
        rw [h] at htoNat
        have : (0#11).toNat = 0 := by decide
        omega
      rw [unpack_packComponents _ hone hzero]
      refine .finite ?_ ?_
      · rw [toNat_implicit]
        exact log2_eq (Nat.le_add_right _ _) (by omega)
      · rw [htoNat]
        omega

/-! ## Counts -/

/-- A natural number below `2 ^ 53` as a double. -/
theorem unpackedOfNat_large {n : Nat} (h : 2 ≤ n) (hsmall : n < 2 ^ 53) :
    IsLarge (UnpackedFloat.ofNat Format.binary64 n) := by
  have hlog : 1 ≤ n.log2 := (Nat.le_log2 (by omega)).2 h
  have hlog' : n.log2 < 53 := (Nat.log2_lt (by omega)).2 hsmall
  have hround : UnpackedFloat.ofNat Format.binary64 n =
      UnpackedFloat.round Format.binary64 .positive n 0 := by
    have hgt : compare (n : Int) 0 = .gt := Int.compare_eq_gt.2 (by omega)
    rw [UnpackedFloat.ofNat, UnpackedFloat.ofInt, UnpackedFloat.normalize, hgt]
    rfl
  have htarget : Format.binary64.targetExponent (totalExponent n 0) = (n.log2 : Int) - 52 := by
    simp only [Format.targetExponent, totalExponent, Format.mantissaBits, Format.minExponent]
    norm_num
    omega
  have hamount : (0 - ((n.log2 : Int) - 52)).toNat = 52 - n.log2 := by omega
  rw [hround, UnpackedFloat.round, htarget]
  simp only [decreaseExponent, hamount]
  have hshifted : (n <<< (52 - n.log2)).log2 = 52 := by
    rw [Nat.shiftLeft_eq, log2_mul_two_pow (by omega)]
    omega
  exact roundWithAccuracy_large (by omega) (by omega)

/-- A product with one. -/
theorem mul_one_large {x : UnpackedFloat} (h : IsLarge x) {hone : 0 < 2 ^ 52} :
    IsLarge (UnpackedFloat.mul Format.binary64 x (.finite .positive (2 ^ 52) (-52) hone)) := by
  cases h with
  | infinity => exact .infinity
  | @finite m e hm hlog he =>
    have hproduct : (m * 2 ^ 52).log2 = m.log2 + 52 := log2_mul_two_pow (by omega) 52
    exact roundWithAccuracy_large (m := m * 2 ^ 52) (e := e + -52) (by omega) (by omega)

theorem ofNat_large {n : Nat} (h : 2 ≤ n) : IsLarge (Float.ofNat n).toModel.unpack := by
  change IsLarge (Float.ofScientific n false 0).toModel.unpack
  rw [Float.ofScientific]
  split
  · rename_i hsmall
    have hone : (Float.ofBits 0x3FF0000000000000).toModel.unpack =
        .finite .positive (2 ^ 52) (-52) (by decide) := by rfl
    have hnat : n.toUInt64.toNat = n := by
      simp
      omega
    have hn : IsLarge (Float.Model.pack (UnpackedFloat.ofNat Format.binary64
        n.toUInt64.toNat)).unpack := by
      rw [hnat]
      exact unpack_pack_large (unpackedOfNat_large h hsmall.1)
    change IsLarge (Float.Model.pack (UnpackedFloat.mul Format.binary64
      (Float.Model.pack (UnpackedFloat.ofNat Format.binary64 n.toUInt64.toNat)).unpack
        (Float.ofBits 0x3FF0000000000000).toModel.unpack)).unpack
    rw [hone]
    exact unpack_pack_large (mul_one_large hn)
  · have hlog : 1 ≤ n.log2 := (Nat.le_log2 (by omega)).2 h
    have hshifted : (n <<< 53 * 1).log2 = n.log2 + 53 := by
      rw [Nat.mul_one, Nat.shiftLeft_eq, log2_mul_two_pow (by omega)]
    have hpositive : ¬ (0 : Int) > 2 ^ Format.binary64.exponentBits := by decide
    have hnegative : ¬ (0 : Int) < -((2 ^ Format.binary64.exponentBits : Int) + n.log2) := by
      have : (0 : Int) < 2 ^ Format.binary64.exponentBits := by decide
      omega
    have hlarge : IsLarge (UnpackedFloat.ofScientific Format.binary64 n 0) := by
      rw [UnpackedFloat.ofScientific, dif_neg (by omega), if_neg hpositive, if_neg hnegative,
        if_pos (by decide), UnpackedFloat.mul]
      have hten : 10 ^ Int.toNat 0 = 1 := by decide
      have hbits : Format.binary64.mantissaBits = 53 := by decide
      have hsign : Sign.positive * Sign.positive = .positive := by rfl
      rw [hten, hbits, hsign]
      exact roundWithAccuracy_large (by omega) (by omega)
    exact unpack_pack_large hlarge

theorem beq_of_large {x y : Float} {m : Nat} {e : Int} {hm : 0 < m}
    (hx : x.toModel.unpack = .finite .positive m e hm) (he : e < -51)
    (hy : IsLarge y.toModel.unpack) : (x == y) = false := by
  change (x.toModel.unpack.compare y.toModel.unpack == some .eq) = false
  rw [hx]
  generalize y.toModel.unpack = y at hy
  cases hy with
  | infinity => rfl
  | @finite m' e' hm' _ he' =>
    have hlt : compare e e' = .lt := Int.compare_eq_lt.2 (by omega)
    rw [UnpackedFloat.compare, hlt]
    rfl

theorem zero_beq_of_large {x : Float} (hx : IsLarge x.toModel.unpack) :
    (x == Float.ofScientific 0 true 0) = false := by
  have hzero : (Float.ofScientific 0 true 0).toModel.unpack = .zero .positive := by rfl
  change (x.toModel.unpack.compare (Float.ofScientific 0 true 0).toModel.unpack == some .eq) = false
  rw [hzero]
  generalize x.toModel.unpack = x at hx
  cases hx <;> rfl

/-- The first position is one, and no other is. -/
theorem one_beq_ofNat (n : Nat) :
    (Float.ofScientific 1 true 0 == Float.ofNat n) = decide (n = 1) := by
  match n with
  | 0 => decide
  | 1 => decide
  | n + 2 =>
    have hone : (Float.ofScientific 1 true 0).toModel.unpack =
        .finite .positive (2 ^ 52) (-52) (by decide) := by rfl
    rw [beq_of_large hone (by decide) (ofNat_large (by omega))]
    simp

/-- Nothing is counted as zero but nothing. -/
theorem ofNat_beq_zero (n : Nat) :
    (Float.ofNat n == Float.ofScientific 0 true 0) = decide (n = 0) := by
  match n with
  | 0 => decide
  | 1 => decide
  | n + 2 =>
    rw [zero_beq_of_large (ofNat_large (by omega))]
    simp

end MarkupTemplate.Number
