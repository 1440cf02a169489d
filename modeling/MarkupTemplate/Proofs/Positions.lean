import MarkupTemplate.Proofs.Counts

/-!
# Positions as numbers

Below `2 ^ 53` every natural number is a double of its own. So a position that is written in a query
is that position and no other.

* `whole` — a natural number as a double that has all its bits.
* `round_exact`, `unpack_pack_exact` — it is kept by rounding and by storing, also divided by a power
  of two.
* `ofScientific_whole` — it is what its digits are read as.
* `ofScientific_beq_ofNat` — equality of such doubles is that of the numbers.
-/

namespace MarkupTemplate.Number

open Float.Model Float.Model.UnpackedFloat

variable {m n k : Nat} {e : Int} {sign : Sign}

/-! ## Rounding -/

/-- Zeros at the end of a mantissa are shifted out without a trace. -/
theorem shiftRight_exact (m k : Nat) :
    (⟨m * 2 ^ k, false, false⟩ : ExtendedMantissa) >>> k = ⟨m, false, false⟩ := by
  induction k generalizing m with
  | zero =>
    rw [Nat.pow_zero, Nat.mul_one]
    rfl
  | succ k ih =>
    have hstep (em : ExtendedMantissa) : em >>> (k + 1) = (em >>> k).shiftRightOne := rfl
    rw [hstep, Nat.pow_succ', ← Nat.mul_assoc, ih]
    simp [ExtendedMantissa.shiftRightOne]

theorem shiftToTargetExponent_exact (hm : m.log2 = 52) (he : -1074 ≤ e) (k : Nat) :
    shiftToTargetExponent Format.binary64 (m * 2 ^ k) (e - k) .exact = (⟨m, false, false⟩, e) := by
  have hne : m ≠ 0 := by
    rintro rfl
    simp at hm
  have htarget : Format.binary64.targetExponent (totalExponent (m * 2 ^ k) (e - k)) = e := by
    simp only [Format.targetExponent, totalExponent, Format.mantissaBits, Format.minExponent,
      log2_mul_two_pow hne, hm]
    norm_num
    omega
  have hamount : (e - (e - k)).toNat = k := by omega
  simp only [shiftToTargetExponent, shiftToExponent, htarget, hamount,
    ExtendedMantissa.ofMantissaAndAccuracy, shiftRight_exact]
  exact Prod.ext rfl (by omega)

/-- A mantissa of 53 bits is not rounded, also with zeros at its end. -/
theorem roundWithAccuracy_exact (hm : m.log2 = 52) (he : -1074 ≤ e) (hpos : 0 < m) (k : Nat) :
    roundWithAccuracy Format.binary64 sign (m * 2 ^ k) (e - k) .exact =
      .finite sign m e hpos := by
  have hagain := shiftToTargetExponent_exact hm he 0
  simp only [Nat.pow_zero, Nat.mul_one, Int.ofNat_zero, Int.sub_zero] at hagain
  have hrounded : (⟨m, false, false⟩ : ExtendedMantissa).roundedMantissa = m := rfl
  rw [roundWithAccuracy, shiftToTargetExponent_exact hm he k]
  simp only [hrounded, hagain]
  exact dif_neg (Nat.ne_of_gt hpos)

/-- One as a double. -/
theorem one_unpacked : (Float.ofBits 0x3FF0000000000000).toModel.unpack =
    .finite .positive (2 ^ 52) (-52) (by decide) := by rfl

theorem mul_one_exact (hm : m.log2 = 52) (he : -1074 ≤ e) (hpos : 0 < m) {hone : 0 < 2 ^ 52} :
    UnpackedFloat.mul Format.binary64 (.finite .positive m e hpos)
      (.finite .positive (2 ^ 52) (-52) hone) = .finite .positive m e hpos :=
  roundWithAccuracy_exact hm he hpos 52

theorem div_one_exact (hm : m.log2 = 52) (he : -52 ≤ e) (hpos : 0 < m) {hone : 0 < 2 ^ 52} :
    UnpackedFloat.div Format.binary64 (.finite .positive m e hpos)
      (.finite .positive (2 ^ 52) (-52) hone) = .finite .positive m e hpos := by
  have htarget : min (e - -52) (Format.binary64.targetExponent
      (totalExponent m e - totalExponent (2 ^ 52) (-52))) = e - 1 := by
    simp only [Format.targetExponent, totalExponent, Format.mantissaBits, Format.minExponent, hm,
      Nat.log2_two_pow]
    norm_num
    omega
  have hamount : (e - -52 - (e - 1)).toNat = 53 := by omega
  have hcore : divCore Format.binary64 m e (2 ^ 52) (-52) = (m * 2 ^ 1, e - (1 : Nat), .exact) := by
    simp only [divCore, htarget, hamount]
    have hquotient : m <<< 53 = m * 2 ^ 1 * 2 ^ 52 := by
      rw [Nat.shiftLeft_eq, Nat.mul_assoc, ← Nat.pow_add]
    rw [hquotient, Nat.mul_div_cancel _ (by decide), Nat.mul_mod_left]
    rfl
  have hrounded := congrArg (fun core => roundWithAccuracy Format.binary64
    (Sign.positive / Sign.positive) core.1 core.2.1 core.2.2) hcore
  exact hrounded.trans (roundWithAccuracy_exact hm (by omega) hpos 1)

/-! ## Storing -/

theorem unpack_pack_exact (hm : m.log2 = 52) (he : -1074 ≤ e) (he' : e ≤ 971) (hpos : 0 < m) :
    (Float.Model.pack (.finite sign m e hpos)).unpack = .finite sign m e hpos := by
  change UnpackedFloat.unpack Format.binary64 (UnpackedFloat.pack Format.binary64 _) = _
  obtain ⟨hleast, hmost⟩ := (Nat.log2_eq_iff (Nat.ne_of_gt hpos)).1 hm
  have hbias : e + (Format.exponentBias Format.binary64 : Nat) + (52 : Nat) = e + 1075 := by
    simp only [Format.exponentBias]
    omega
  have htoNat : (BitVec.ofNat 11 (e + 1075).toNat).toNat = (e + 1075).toNat := by
    rw [BitVec.toNat_ofNat, Nat.mod_eq_of_lt (by omega)]
  have hone : BitVec.ofNat 11 (e + 1075).toNat ≠ -1#11 := by
    intro h
    rw [h] at htoNat
    have : (-1#11).toNat = 2047 := by decide
    omega
  have hzero : BitVec.ofNat 11 (e + 1075).toNat ≠ 0#11 := by
    intro h
    rw [h] at htoNat
    have : (0#11).toNat = 0 := by decide
    omega
  have hnormal : m.log2 + 1 = Format.mantissaBits Format.binary64 := by rw [hm]; rfl
  have hfinite : ¬ 2 ^ Format.exponentBits Format.binary64 ≤ (e + 1075).toNat + 1 := by
    change ¬ 2048 ≤ _
    omega
  rw [UnpackedFloat.pack]
  dsimp only
  rw [hbias, if_neg hfinite, if_pos hnormal, unpack_packComponents _ hone hzero]
  have hmantissa : (1#1 ++ BitVec.ofNat 52 m).toNat = m := by
    rw [toNat_implicit, BitVec.toNat_ofNat]
    omega
  have hexponent : ((BitVec.ofNat 11 (e + 1075).toNat).toNat : Int) - 1075 = e := by
    rw [htoNat]
    omega
  simp only [hmantissa, hexponent]

/-! ## Natural numbers -/

/-- A natural number as a double that has all its bits. -/
def whole (n : Nat) (h : 0 < n) : UnpackedFloat :=
  .finite .positive (n * 2 ^ (52 - n.log2)) ((n.log2 : Int) - 52)
    (Nat.mul_pos h (Nat.two_pow_pos _))

theorem log2_whole (h : 0 < n) (hsmall : n < 2 ^ 53) : (n * 2 ^ (52 - n.log2)).log2 = 52 := by
  have hlog : n.log2 < 53 := (Nat.log2_lt (Nat.ne_of_gt h)).2 hsmall
  rw [log2_mul_two_pow (Nat.ne_of_gt h)]
  omega

/-- A scaled natural number is not rounded, whatever zeros are at the end of its mantissa. -/
theorem round_exact (sign : Sign) (h : 0 < n) (hsmall : n < 2 ^ 53) (j : Nat) (hk : k ≤ 1000) :
    UnpackedFloat.round Format.binary64 sign (n * 2 ^ j) (-(j : Int) - k) =
      .finite sign (n * 2 ^ (52 - n.log2)) ((n.log2 : Int) - 52 - k)
        (Nat.mul_pos h (Nat.two_pow_pos _)) := by
  have hlog : n.log2 < 53 := (Nat.log2_lt (Nat.ne_of_gt h)).2 hsmall
  have htarget : Format.binary64.targetExponent (totalExponent (n * 2 ^ j) (-(j : Int) - k)) =
      (n.log2 : Int) - 52 - k := by
    simp only [Format.targetExponent, totalExponent, Format.mantissaBits, Format.minExponent,
      log2_mul_two_pow (Nat.ne_of_gt h)]
    norm_num
    omega
  have hpos : 0 < n * 2 ^ (52 - n.log2) := Nat.mul_pos h (Nat.two_pow_pos _)
  have hexact (i : Nat) : roundWithAccuracy Format.binary64 sign
      (n * 2 ^ (52 - n.log2) * 2 ^ i) ((n.log2 : Int) - 52 - k - i) .exact =
        .finite sign (n * 2 ^ (52 - n.log2)) ((n.log2 : Int) - 52 - k) hpos :=
    roundWithAccuracy_exact (log2_whole h hsmall) (by omega) hpos i
  rw [UnpackedFloat.round, htarget]
  simp only [decreaseExponent, Nat.shiftLeft_eq]
  rcases Nat.le_total j (52 - n.log2) with hj | hj
  · have hamount : (-(j : Int) - k - ((n.log2 : Int) - 52 - k)).toNat = 52 - n.log2 - j := by omega
    have hmantissa : n * 2 ^ j * 2 ^ (52 - n.log2 - j) = n * 2 ^ (52 - n.log2) * 2 ^ 0 := by
      rw [Nat.mul_assoc, ← Nat.pow_add, Nat.add_sub_cancel' hj, Nat.pow_zero, Nat.mul_one]
    have hexponent : -(j : Int) - k - ((52 - n.log2 - j : Nat) : Int) =
        (n.log2 : Int) - 52 - k - (0 : Nat) := by omega
    rw [hamount, hmantissa, hexponent]
    exact hexact 0
  · have hamount : (-(j : Int) - k - ((n.log2 : Int) - 52 - k)).toNat = 0 := by omega
    have hmantissa : n * 2 ^ j * 2 ^ 0 =
        n * 2 ^ (52 - n.log2) * 2 ^ (j - (52 - n.log2)) := by
      rw [Nat.mul_assoc n _ (2 ^ (j - _)), ← Nat.pow_add, Nat.add_sub_cancel' hj, Nat.pow_zero,
        Nat.mul_one]
    have hexponent : -(j : Int) - k - (0 : Nat) =
        (n.log2 : Int) - 52 - k - ((j - (52 - n.log2) : Nat) : Int) := by omega
    rw [hamount, hmantissa, hexponent]
    exact hexact _

theorem unpackedOfNat_exact (h : 0 < n) (hsmall : n < 2 ^ 53) :
    UnpackedFloat.ofNat Format.binary64 n = whole n h := by
  have hround : UnpackedFloat.ofNat Format.binary64 n =
      UnpackedFloat.round Format.binary64 .positive (n * 2 ^ 0) (-((0 : Nat) : Int) - (0 : Nat)) := by
    have hgt : compare (n : Int) 0 = .gt := Int.compare_eq_gt.2 (by omega)
    rw [UnpackedFloat.ofNat, UnpackedFloat.ofInt, UnpackedFloat.normalize, hgt, Nat.pow_zero,
      Nat.mul_one]
    rfl
  rw [hround, round_exact .positive h hsmall 0 (by decide)]
  simp only [whole, Int.ofNat_zero, Int.sub_zero]

/-- The digits of a number are read as it, with a point at their end and without. -/
theorem ofScientific_whole (h : 0 < n) (hsmall : n < 2 ^ 53) (scaled : Bool) :
    (Float.ofScientific n scaled 0).toModel.unpack = whole n h := by
  have hlog : n.log2 < 53 := (Nat.log2_lt (Nat.ne_of_gt h)).2 hsmall
  have hpos : 0 < n * 2 ^ (52 - n.log2) := Nat.mul_pos h (Nat.two_pow_pos _)
  have hstored : (Float.Model.pack (whole n h)).unpack = whole n h :=
    unpack_pack_exact (log2_whole h hsmall) (by omega) (by omega) hpos
  have hnat : n.toUInt64.toNat = n := by
    simp
    omega
  have hread : (Float.Model.pack (UnpackedFloat.ofNat Format.binary64 n.toUInt64.toNat)).unpack =
      whole n h := by
    rw [hnat, unpackedOfNat_exact h hsmall, hstored]
  rw [Float.ofScientific, dif_pos ⟨hsmall, by decide⟩]
  cases scaled with
  | false =>
    change (Float.Model.pack (UnpackedFloat.mul Format.binary64
      (Float.Model.pack (UnpackedFloat.ofNat Format.binary64 n.toUInt64.toNat)).unpack
        (Float.ofBits 0x3FF0000000000000).toModel.unpack)).unpack = _
    rw [hread, one_unpacked, whole,
      mul_one_exact (log2_whole h hsmall) (by omega) hpos]
    exact hstored
  | true =>
    change (Float.Model.pack (UnpackedFloat.div Format.binary64
      (Float.Model.pack (UnpackedFloat.ofNat Format.binary64 n.toUInt64.toNat)).unpack
        (Float.ofBits 0x3FF0000000000000).toModel.unpack)).unpack = _
    rw [hread, one_unpacked, whole,
      div_one_exact (log2_whole h hsmall) (by omega) hpos]
    exact hstored

theorem whole_compare (hk : 0 < k) (hn : 0 < n) :
    ((whole k hk).compare (whole n hn) == some .eq) = decide (k = n) := by
  by_cases heq : k = n
  · subst heq
    simp [whole, UnpackedFloat.compare, Ordering.then]
  · have hdiffer : ((compare ((k.log2 : Int) - 52) ((n.log2 : Int) - 52)).then
        (compare (k * 2 ^ (52 - k.log2)) (n * 2 ^ (52 - n.log2)))) ≠ .eq := by
      intro hboth
      obtain ⟨hexponent, hmantissa⟩ := Ordering.then_eq_eq.1 hboth
      have hlog : k.log2 = n.log2 := by
        have := Int.compare_eq_eq.1 hexponent
        omega
      have hproduct := Nat.compare_eq_eq.1 hmantissa
      rw [hlog] at hproduct
      exact heq (Nat.eq_of_mul_eq_mul_right (Nat.two_pow_pos _) hproduct)
    simp [whole, UnpackedFloat.compare, heq, hdiffer]

/-- **Positions are told apart.** The number that is read for one is the number of no other. -/
theorem ofScientific_beq_ofNat (hk : 0 < k) (hk' : k < 2 ^ 53) (hn : 0 < n) (hn' : n < 2 ^ 53) :
    (Float.ofScientific k true 0 == Float.ofNat n) = decide (k = n) := by
  change ((Float.ofScientific k true 0).toModel.unpack.compare
    (Float.ofScientific n false 0).toModel.unpack == some .eq) = _
  rw [ofScientific_whole hk hk', ofScientific_whole hn hn', whole_compare]

end MarkupTemplate.Number
