import MarkupTemplate.Proofs.Positions
import MarkupTemplate.XPath.Value

/-!
# Integers as numbers

Queries calculate with doubles. Below `2 ^ 53` in size integers are doubles, and nothing that is
calculated with them is rounded.

* `Stands` — a double is an integer divided by a power of two, with all its bits.
* `Stands.pack`, `Stands.neg`, `Stands.add`, `Stands.compare` — storing, arithmetic and order.
* `Parts.unpacked` — what the bits of a double are read as; `stands_toFloat` puts parts together.
* `IsWhole` — a double is an integer; `IsWhole.add`, `IsWhole.remainder`, `IsWhole.round` and the
  others calculate with such doubles as with the integers.
-/

namespace MarkupTemplate.Number

open Float.Model Float.Model.UnpackedFloat

variable {j k n m : Nat} {z w : Int} {u v : UnpackedFloat} {x y : Float}

/-! ## Scaled integers -/

/-- The double is `z / 2 ^ k`, with all its bits. Zero has any sign. -/
inductive Stands (k : Nat) : UnpackedFloat → Int → Prop
  | zero (sign : Sign) : Stands k (.zero sign) 0
  | finite (sign : Sign) {n : Nat} (h : 0 < n) (hsmall : n < 2 ^ 53) :
      Stands k (.finite sign (n * 2 ^ (52 - n.log2)) ((n.log2 : Int) - 52 - k)
        (Nat.mul_pos h (Nat.two_pow_pos _))) (sign.apply n)

theorem log2_le (h : 0 < n) (hsmall : n < 2 ^ 53) : n.log2 ≤ 52 :=
  Nat.lt_succ_iff.1 ((Nat.log2_lt (Nat.ne_of_gt h)).2 hsmall)

theorem apply_mul (sign : Sign) (z w : Int) : sign.apply (z * w) = sign.apply z * w := by
  cases sign
  · exact (Int.neg_mul z w).symm
  · rfl

theorem apply_neg (sign : Sign) (z : Int) : (-sign).apply z = -sign.apply z := by
  cases sign
  · exact (Int.neg_neg z).symm
  · rfl

theorem natAbs_apply (sign : Sign) (n : Nat) : (sign.apply n).natAbs = n := by
  cases sign
  · exact (Int.natAbs_neg n).trans (Int.natAbs_natCast n)
  · exact Int.natAbs_natCast n

/-- An integer is a natural number with a sign. -/
theorem exists_apply (hz : z ≠ 0) : ∃ (sign : Sign) (n : Nat), 0 < n ∧ z = sign.apply n := by
  rcases Int.lt_or_gt_of_ne hz with hneg | hpos
  · refine ⟨.negative, z.natAbs, Int.natAbs_pos.2 hz, ?_⟩
    change z = -(z.natAbs : Int)
    omega
  · refine ⟨.positive, z.natAbs, Int.natAbs_pos.2 hz, ?_⟩
    change z = (z.natAbs : Int)
    omega

/-- An integer with zeros at the end is brought to its form without rounding. -/
theorem stands_normalize (hsmall : z.natAbs < 2 ^ 53) (j : Nat) (hk : k ≤ 1000) :
    Stands k (UnpackedFloat.normalize Format.binary64 (z * 2 ^ j) (-(j : Int) - k) .positive) z := by
  have hpow : (0 : Int) < 2 ^ j := Int.pow_pos (by decide)
  by_cases hz : z = 0
  · subst hz
    rw [Int.zero_mul]
    exact .zero .positive
  · obtain ⟨sign, n, hn, rfl⟩ := exists_apply hz
    rw [natAbs_apply] at hsmall
    have hround := round_exact sign hn hsmall j hk
    have hstands := Stands.finite (k := k) sign hn hsmall
    rw [← hround] at hstands
    have hproduct : (0 : Int) < n * 2 ^ j := Int.mul_pos (by omega) hpow
    have htoNat : ((n : Int) * 2 ^ j).toNat = n * 2 ^ j := by
      rw [← Int.toNat_natCast (n * 2 ^ j)]
      push_cast
      rfl
    cases sign with
    | negative =>
      have hcompare : compare (-(n : Int) * 2 ^ j) 0 = .lt := by
        rw [Int.neg_mul]
        exact Int.compare_eq_lt.2 (by omega)
      change Stands k (UnpackedFloat.normalize _ (-(n : Int) * 2 ^ j) _ _) _
      rw [UnpackedFloat.normalize, hcompare, Int.neg_mul, Int.neg_neg, htoNat]
      exact hstands
    | positive =>
      have hcompare : compare ((n : Int) * 2 ^ j) 0 = .gt := Int.compare_eq_gt.2 hproduct
      change Stands k (UnpackedFloat.normalize _ ((n : Int) * 2 ^ j) _ _) _
      rw [UnpackedFloat.normalize, hcompare, htoNat]
      exact hstands

/-- Storing keeps all bits. -/
theorem Stands.pack (h : Stands k u z) (hk : k ≤ 1000) : Stands k (Float.Model.pack u).unpack z := by
  cases h with
  | zero sign =>
    have hzero : (Float.Model.pack (.zero sign)).unpack = .zero sign := by cases sign <;> rfl
    rw [hzero]
    exact .zero sign
  | finite sign hn hsmall =>
    have hlog := log2_le hn hsmall
    rw [unpack_pack_exact (log2_whole hn hsmall) (by omega) (by omega)]
    exact .finite sign hn hsmall

theorem Stands.neg (h : Stands k u z) : Stands k u.neg (-z) := by
  cases h with
  | zero sign => exact .zero (-sign)
  | finite sign hn hsmall =>
    rw [← apply_neg]
    exact .finite (-sign) hn hsmall

/-- The mantissa that a scaled integer has at a lower exponent. -/
theorem decreaseExponent_scaled (hn : 0 < n) (hsmall : n < 2 ^ 53) {low : Int}
    (hlow : low ≤ (n.log2 : Int) - 52 - k) :
    (decreaseExponent (n * 2 ^ (52 - n.log2)) ((n.log2 : Int) - 52 - k) low).1 =
      n * 2 ^ (-low - k).toNat := by
  have hlog := log2_le hn hsmall
  have hsum : 52 - n.log2 + ((n.log2 : Int) - 52 - k - low).toNat = (-low - k).toNat := by omega
  rw [decreaseExponent, Nat.shiftLeft_eq, Nat.mul_assoc, ← Nat.pow_add, hsum]

theorem Stands.add (h : Stands k u z) (h' : Stands k v w) (hsum : (z + w).natAbs < 2 ^ 53)
    (hk : k ≤ 1000) : Stands k (UnpackedFloat.add Format.binary64 u v) (z + w) := by
  cases h with
  | zero sign =>
    cases h' with
    | zero sign' =>
      rw [UnpackedFloat.add]
      split
      · exact .zero sign
      · exact .zero .positive
    | finite sign' hn hsmall =>
      rw [Int.zero_add]
      exact .finite sign' hn hsmall
  | @finite sign n hn hsmall =>
    cases h' with
    | zero sign' =>
      rw [Int.add_zero]
      exact .finite sign hn hsmall
    | @finite sign' m hm hsmall' =>
      have hlog := log2_le hn hsmall
      -- Both mantissas are brought to the lower of the two exponents.
      rw [UnpackedFloat.add]
      generalize hlow : min ((n.log2 : Int) - 52 - k) ((m.log2 : Int) - 52 - k) = low
      have hleft := decreaseExponent_scaled (k := k) hn hsmall (hlow ▸ Int.min_le_left _ _)
      have hright := decreaseExponent_scaled (k := k) hm hsmall' (hlow ▸ Int.min_le_right _ _)
      have hexponent : low = -((-low - k).toNat : Int) - k := by omega
      have hmantissa : sign.apply ((n * 2 ^ (-low - k).toNat : Nat) : Int) +
          sign'.apply ((m * 2 ^ (-low - k).toNat : Nat) : Int) =
            (sign.apply n + sign'.apply m) * 2 ^ (-low - k).toNat := by
        push_cast
        rw [apply_mul, apply_mul, Int.add_mul]
      have hnormal := stands_normalize hsum (-low - k).toNat hk
      rw [← hmantissa, ← hexponent] at hnormal
      dsimp only
      rw [hleft, hright]
      exact hnormal

theorem sub_eq_add_neg (u v : UnpackedFloat) :
    UnpackedFloat.sub Format.binary64 u v = UnpackedFloat.add Format.binary64 u v.neg := by
  cases u with
  | notANumber => rfl
  | infinity sign | zero sign => cases v <;> rfl
  | finite sign m e hm =>
    cases v with
    | finite sign' m' e' hm' =>
      rw [UnpackedFloat.neg, UnpackedFloat.add, UnpackedFloat.sub]
      dsimp only
      rw [apply_neg, Int.sub_eq_add_neg]
    | notANumber | infinity sign' | zero sign' => rfl

/-- Twice as much at half the scale is the same. -/
theorem Stands.double (h : Stands k u z) (hsmall : (2 * z).natAbs < 2 ^ 53) :
    Stands (k + 1) u (2 * z) := by
  cases h with
  | zero sign => exact .zero sign
  | @finite sign n hn hn' =>
    have hsize := natAbs_apply sign n
    have hsmall : n * 2 ^ 1 < 2 ^ 53 := by omega
    have hlog : (n * 2 ^ 1).log2 = n.log2 + 1 := log2_mul_two_pow (Nat.ne_of_gt hn) 1
    have hlog' := log2_le (by omega) hsmall
    have hmantissa : n * 2 ^ 1 * 2 ^ (52 - (n * 2 ^ 1).log2) = n * 2 ^ (52 - n.log2) := by
      have hsum : 1 + (52 - (n * 2 ^ 1).log2) = 52 - n.log2 := by omega
      rw [Nat.mul_assoc, ← Nat.pow_add, hsum]
    have hexponent : ((n * 2 ^ 1).log2 : Int) - 52 - (k + 1 : Nat) = (n.log2 : Int) - 52 - k := by
      omega
    have hvalue : sign.apply ((n * 2 ^ 1 : Nat) : Int) = 2 * sign.apply n := by
      push_cast
      rw [apply_mul, Int.mul_comm]
    have hfinite := Stands.finite (k := k + 1) sign (Nat.mul_pos hn (Nat.two_pow_pos 1)) hsmall
    simp only [hmantissa, hexponent, hvalue] at hfinite
    exact hfinite

/-! ## Order -/

theorem compare_neg_neg (z w : Int) : compare (-z) (-w) = compare w z := by
  rcases Int.lt_trichotomy w z with hlt | rfl | hgt
  · rw [Int.compare_eq_lt.2 hlt, Int.compare_eq_lt.2 (by omega)]
  · rw [Int.compare_eq_eq.2 rfl, Int.compare_eq_eq.2 rfl]
  · rw [Int.compare_eq_gt.2 hgt, Int.compare_eq_gt.2 (by omega)]

/-- Canonical doubles are ordered by their exponents first. -/
theorem compare_scaled (hn : 0 < n) (hm : 0 < m) :
    (compare ((n.log2 : Int) - 52 - k) ((m.log2 : Int) - 52 - k)).then
      (compare (n * 2 ^ (52 - n.log2)) (m * 2 ^ (52 - m.log2))) = compare (n : Int) m := by
  have hless {n m : Nat} (hn : 0 < n) (hlt : n < m) :
      (compare ((n.log2 : Int) - 52 - k) ((m.log2 : Int) - 52 - k)).then
        (compare (n * 2 ^ (52 - n.log2)) (m * 2 ^ (52 - m.log2))) = .lt := by
    have hlog : n.log2 ≤ m.log2 :=
      (Nat.le_log2 (by omega)).2 ((Nat.log2_self_le (by omega)).trans (Nat.le_of_lt hlt))
    rcases Nat.lt_or_eq_of_le hlog with hlog | hlog
    · rw [Int.compare_eq_lt.2 (by omega)]
      rfl
    · rw [hlog, Int.compare_eq_eq.2 rfl]
      exact Nat.compare_eq_lt.2 (Nat.mul_lt_mul_of_pos_right hlt (Nat.two_pow_pos _))
  rcases Nat.lt_trichotomy n m with hlt | rfl | hgt
  · rw [hless hn hlt, Int.compare_eq_lt.2 (by omega)]
  · rw [Int.compare_eq_eq.2 rfl, Int.compare_eq_eq.2 rfl, Nat.compare_eq_eq.2 rfl]
    rfl
  · have hswap := congrArg Ordering.swap (hless hm hgt)
    rw [Ordering.swap_then, Int.compare_swap, Nat.compare_swap] at hswap
    rw [hswap, Int.compare_eq_gt.2 (by omega)]
    rfl

theorem Stands.compare (h : Stands k u z) (h' : Stands k v w) :
    u.compare v = some (Ord.compare z w) := by
  cases h with
  | zero sign =>
    cases h' with
    | zero sign' => rfl
    | @finite sign' m hm hsmall' =>
      cases sign' with
      | negative => exact congrArg some (Int.compare_eq_gt.2 (by change -(m : Int) < 0; omega)).symm
      | positive => exact congrArg some (Int.compare_eq_lt.2 (by change 0 < (m : Int); omega)).symm
  | @finite sign n hn hsmall =>
    cases h' with
    | zero sign' =>
      cases sign with
      | negative => exact congrArg some (Int.compare_eq_lt.2 (by change -(n : Int) < 0; omega)).symm
      | positive => exact congrArg some (Int.compare_eq_gt.2 (by change 0 < (n : Int); omega)).symm
    | @finite sign' m hm hsmall' =>
      have hscaled := compare_scaled (k := k) hn hm
      cases sign <;> cases sign'
      · rw [UnpackedFloat.compare, hscaled, Int.compare_swap]
        refine congrArg some ?_
        change Ord.compare (m : Int) n = Ord.compare (-(n : Int)) (-(m : Int))
        exact (compare_neg_neg n m).symm
      · refine congrArg some (Int.compare_eq_lt.2 ?_).symm
        change -(n : Int) < m
        omega
      · refine congrArg some (Int.compare_eq_gt.2 ?_).symm
        change -(m : Int) < n
        omega
      · rw [UnpackedFloat.compare, hscaled]
        rfl

/-! ## Parts -/

/-- The sign of a double. -/
def Parts.sign (p : Parts) : Sign :=
  if p.negative then .negative else .positive

/-- What the parts of a double stand for. -/
def Parts.unpacked (p : Parts) : UnpackedFloat :=
  if h : p.mantissa = 0 then .zero p.sign
  else .finite p.sign p.mantissa p.exponent (Nat.pos_of_ne_zero h)

/-- The parts that are read off bits. -/
def Parts.ofBits (bits : Nat) : Parts :=
  let fraction := bits % 2 ^ 52
  let field : Nat := bits / 2 ^ 52 % 2048
  let negative : Bool := bits / 2 ^ 63 = 1
  if field = 0 then ⟨negative, fraction, -1074⟩
  else ⟨negative, fraction + 2 ^ 52, (field : Int) - 1075⟩

theorem unpackSign_toNat (b : BitVec 64) :
    Sign.ofBitVec (@unpackSign Format.binary64 b) =
      if b.toNat / 2 ^ 63 = 1 then .negative else .positive := by
  have hsign : (@unpackSign Format.binary64 b).toNat = b.toNat / 2 ^ 63 := by
    have := b.isLt
    simp only [unpackSign, BitVec.toNat_cast, BitVec.extractLsb_toNat]
    omega
  rw [Sign.ofBitVec]
  by_cases h : b.toNat / 2 ^ 63 = 1
  · rw [if_pos h, if_neg]
    intro hzero
    rw [hzero] at hsign
    simp at hsign
    omega
  · rw [if_neg h, if_pos]
    apply BitVec.eq_of_toNat_eq
    have := b.isLt
    rw [hsign]
    simp
    omega

/-- Bits that are not those of infinity or no number stand for what their parts do. -/
theorem unpack_eq (b : BitVec 64) (h : b.toNat / 2 ^ 52 % 2048 ≠ 2047) :
    UnpackedFloat.unpack Format.binary64 b = (Parts.ofBits b.toNat).unpacked := by
  have hexponent : (@unpackExponent Format.binary64 b).toNat =
      b.toNat / 2 ^ 52 % 2048 := by
    simp only [unpackExponent, BitVec.toNat_cast, BitVec.extractLsb_toNat]
    omega
  have hmantissa : (@unpackMantissa Format.binary64 b).toNat = b.toNat % 2 ^ 52 := by
    simp only [unpackMantissa, BitVec.toNat_cast, BitVec.extractLsb_toNat]
    omega
  have hsign := unpackSign_toNat b
  have hfinite : @unpackExponent Format.binary64 b ≠ -1#11 := by
    intro hone
    rw [hone] at hexponent
    exact h hexponent.symm
  rw [Parts.ofBits, UnpackedFloat.unpack]
  dsimp only
  rw [if_neg hfinite, hsign]
  by_cases hzero : b.toNat / 2 ^ 52 % 2048 = 0
  · have hnone : @unpackExponent Format.binary64 b = 0#11 :=
      BitVec.eq_of_toNat_eq (hexponent.trans hzero)
    rw [if_pos hnone, if_pos hzero]
    by_cases hm : b.toNat % 2 ^ 52 = 0
    · have hempty : @unpackMantissa Format.binary64 b = 0#52 :=
        BitVec.eq_of_toNat_eq (hmantissa.trans hm)
      rw [dif_pos hempty]
      simp only [Parts.unpacked, hm, dif_pos, Parts.sign, decide_eq_true_eq]
    · rw [dif_neg fun hnone => hm (hmantissa.symm.trans (congrArg BitVec.toNat hnone))]
      simp only [Parts.unpacked, hm, Parts.sign, decide_eq_true_eq, hmantissa, hexponent, hzero,
        dite_false]
      rfl
  · rw [if_neg fun hnone => hzero (hexponent.symm.trans (congrArg BitVec.toNat hnone)),
      if_neg hzero]
    have hm : b.toNat % 2 ^ 52 + 2 ^ 52 ≠ 0 := by omega
    simp only [Parts.unpacked, hm, Parts.sign, decide_eq_true_eq, toNat_implicit,
      hmantissa, hexponent, dite_false, Nat.add_comm (2 ^ 52)]
    rfl

/-- Bits with another exponent field than these are those of infinity or of no number. -/
theorem unpack_infinite (b : BitVec 64) (h : b.toNat / 2 ^ 52 % 2048 = 2047) :
    UnpackedFloat.unpack Format.binary64 b = .notANumber ∨
      ∃ sign, UnpackedFloat.unpack Format.binary64 b = .infinity sign := by
  have hexponent : (@unpackExponent Format.binary64 b).toNat = 2047 := by
    rw [← h]
    simp only [unpackExponent, BitVec.toNat_cast, BitVec.extractLsb_toNat]
    omega
  have hone : @unpackExponent Format.binary64 b = -1#11 := BitVec.eq_of_toNat_eq hexponent
  rw [UnpackedFloat.unpack]
  dsimp only
  rw [if_pos hone]
  split
  · exact .inr ⟨_, rfl⟩
  · exact .inl rfl

/-- A scaled integer is finite. -/
theorem Stands.isFinite (h : Stands k x.toModel.unpack z) : isFinite x = true := by
  have hfield : x.toBits.toNat / 2 ^ 52 % 2048 ≠ 2047 := by
    intro hfield
    rcases unpack_infinite x.toBits.toBitVec hfield with hnone | ⟨sign, hnone⟩
    · change x.toModel.unpack = _ at hnone
      rw [hnone] at h
      cases h
    · change x.toModel.unpack = _ at hnone
      rw [hnone] at h
      cases h
  rw [Number.isFinite, decide_eq_true_eq]
  change x.toBits.toNat / 2 ^ 52 % 2048 < 2047
  omega

theorem Stands.unpacked (h : Stands k x.toModel.unpack z) :
    Stands k (Parts.of x).unpacked z := by
  have hfinite := h.isFinite
  rw [Number.isFinite, decide_eq_true_eq] at hfinite
  have hread := unpack_eq x.toBits.toBitVec (Nat.ne_of_lt hfinite)
  change x.toModel.unpack = (Parts.of x).unpacked at hread
  rwa [hread] at h

theorem Stands.of_finite {sign : Sign} {e : Int} {hm : 0 < m}
    (h : Stands k (.finite sign m e hm) z) : ∃ n, 0 < n ∧ n < 2 ^ 53 ∧
      m = n * 2 ^ (52 - n.log2) ∧ e = (n.log2 : Int) - 52 - k ∧ z = sign.apply n := by
  cases h with
  | finite _ hn hsmall => exact ⟨_, hn, hsmall, rfl, rfl, rfl⟩

/-- The parts that a scaled integer can have. -/
theorem Stands.parts {p : Parts} (h : Stands k p.unpacked z) :
    p.mantissa = 0 ∧ z = 0 ∨ ∃ n, 0 < n ∧ n < 2 ^ 53 ∧ p.mantissa = n * 2 ^ (52 - n.log2) ∧
      p.exponent = (n.log2 : Int) - 52 - k ∧ z = p.sign.apply n := by
  rw [Parts.unpacked] at h
  split at h
  · rename_i hzero
    cases h
    exact .inl ⟨hzero, rfl⟩
  · exact .inr h.of_finite

/-- The bits of parts with zeros at the end of the mantissa. -/
theorem toBits_scaled (negative : Bool) (hn : 0 < n) (hsmall : n < 2 ^ 53) (j : Nat)
    (hk : k ≤ 1000) : Parts.toBits ⟨negative, n * 2 ^ j, -(j : Int) - k⟩ =
      (if negative then 2 ^ 63 else 0) + (n.log2 + 1023 - k) * 2 ^ 52 +
        n * 2 ^ (52 - n.log2) % 2 ^ 52 := by
  have hlog := log2_le hn hsmall
  have hwidth : (n * 2 ^ j).log2 = n.log2 + j := log2_mul_two_pow (Nat.ne_of_gt hn) j
  have hne : n * 2 ^ j ≠ 0 := Nat.ne_of_gt (Nat.mul_pos hn (Nat.two_pow_pos j))
  have htop : ((n.log2 + j : Nat) : Int) + (-(j : Int) - k) = (n.log2 : Int) - k := by omega
  have hnormal : ¬ (n.log2 : Int) - k < -1022 := by omega
  have hfield : ((n.log2 : Int) - k + 1023).toNat = n.log2 + 1023 - k := by omega
  -- The mantissa is shifted to 53 bits, to the left or to the right.
  have hshift : (n * 2 ^ j) <<< ((52 : Int) - (n.log2 + j : Nat)).toNat >>>
      (((n.log2 + j : Nat) : Int) - 52).toNat = n * 2 ^ (52 - n.log2) := by
    rw [Nat.shiftLeft_eq, Nat.shiftRight_eq_div_pow]
    rcases Nat.le_total (n.log2 + j) 52 with hle | hle
    · have hleft : ((52 : Int) - (n.log2 + j : Nat)).toNat = 52 - n.log2 - j := by omega
      have hright : (((n.log2 + j : Nat) : Int) - 52).toNat = 0 := by omega
      have hsum : j + (52 - n.log2 - j) = 52 - n.log2 := by omega
      rw [hleft, hright, Nat.pow_zero, Nat.div_one, Nat.mul_assoc, ← Nat.pow_add, hsum]
    · have hleft : ((52 : Int) - (n.log2 + j : Nat)).toNat = 0 := by omega
      have hright : (((n.log2 + j : Nat) : Int) - 52).toNat = n.log2 + j - 52 := by omega
      have hsum : j = 52 - n.log2 + (n.log2 + j - 52) := by omega
      rw [hleft, hright, Nat.pow_zero, Nat.mul_one]
      nth_rewrite 1 [hsum]
      rw [Nat.pow_add, ← Nat.mul_assoc, Nat.mul_div_cancel _ (Nat.two_pow_pos _)]
  rw [Parts.toBits]
  dsimp only
  rw [if_neg hne, hwidth, htop, if_neg hnormal, hfield, hshift]
  rfl

/-- The parts that are read off such bits. -/
theorem ofBits_scaled (negative : Bool) (hm : m.log2 = 52) (hpos : 0 < m) {field : Nat}
    (hfield : 0 < field) (hfield' : field < 2047) {bits : Nat}
    (hbits : bits = (if negative then 2 ^ 63 else 0) + field * 2 ^ 52 + m % 2 ^ 52) :
    Parts.ofBits bits = ⟨negative, m, (field : Int) - 1075⟩ ∧ bits < 2 ^ 64 ∧
      bits / 2 ^ 52 % 2048 = field := by
  obtain ⟨hleast, hmost⟩ := (Nat.log2_eq_iff (Nat.ne_of_gt hpos)).1 hm
  have hread : bits / 2 ^ 52 % 2048 = field := by
    subst hbits
    split <;> omega
  have hsign : decide (bits / 2 ^ 63 = 1) = negative := by
    subst hbits
    cases negative
    · rw [decide_eq_false_iff_not]
      simp only [Bool.false_eq_true, if_false]
      omega
    · rw [decide_eq_true_eq]
      simp only [if_true]
      omega
  have hmantissa : bits % 2 ^ 52 + 2 ^ 52 = m := by
    subst hbits
    split <;> omega
  refine ⟨?_, ?_, hread⟩
  · rw [Parts.ofBits, hread, if_neg (Nat.ne_of_gt hfield), hsign, hmantissa]
  · subst hbits
    split <;> omega

/-- Parts with zeros at the end of the mantissa are put together without rounding. -/
theorem stands_toFloat (negative : Bool) (hsmall : n < 2 ^ 53) (j : Nat) (hk : k ≤ 1000) :
    Stands k (Parts.toFloat ⟨negative, n * 2 ^ j, -(j : Int) - k⟩).toModel.unpack
      (if negative then -(n : Int) else n) := by
  rcases Nat.eq_zero_or_pos n with rfl | hn
  · have hbits : Parts.toBits ⟨negative, 0 * 2 ^ j, -(j : Int) - k⟩ =
        if negative then 2 ^ 63 else 0 := by
      rw [Parts.toBits, Nat.zero_mul]
      rfl
    rw [Parts.toFloat, hbits]
    cases negative
    · exact .zero .positive
    · exact .zero .negative
  · have hlog := log2_le hn hsmall
    have hpos : 0 < n * 2 ^ (52 - n.log2) := Nat.mul_pos hn (Nat.two_pow_pos _)
    obtain ⟨hparts, hbound, hfield⟩ := ofBits_scaled negative (log2_whole hn hsmall) hpos (by omega)
      (by omega) (toBits_scaled negative hn hsmall j hk)
    have hexponent : ((n.log2 + 1023 - k : Nat) : Int) - 1075 = (n.log2 : Int) - 52 - k := by omega
    have hstored : (BitVec.ofNat 64 (Parts.toBits ⟨negative, n * 2 ^ j, -(j : Int) - k⟩)).toNat =
        Parts.toBits ⟨negative, n * 2 ^ j, -(j : Int) - k⟩ := by
      rw [BitVec.toNat_ofNat, Nat.mod_eq_of_lt hbound]
    have hread := unpack_eq (BitVec.ofNat 64 (Parts.toBits ⟨negative, n * 2 ^ j, -(j : Int) - k⟩))
      (by rw [hstored, hfield]; omega)
    rw [hstored, hparts, Parts.unpacked, dif_neg (Nat.ne_of_gt hpos)] at hread
    have hstands := Stands.finite (k := k) (Parts.sign ⟨negative, 0, 0⟩) hn hsmall
    have hvalue : (Parts.sign ⟨negative, 0, 0⟩).apply n = if negative then -(n : Int) else n := by
      cases negative <;> rfl
    rw [hvalue] at hstands
    rw [Parts.toFloat]
    refine Stands.pack (k := k) ?_ hk
    change Stands k (UnpackedFloat.unpack Format.binary64 (BitVec.ofNat 64 _)) _
    rw [hread]
    simp only [hexponent]
    exact hstands

/-! ## Integers -/

/-- The double is an integer. Zero has any sign. -/
def IsWhole (x : Float) (z : Int) : Prop :=
  Stands 0 x.toModel.unpack z

theorem isWhole_ofScientific (hsmall : n < 2 ^ 53) (scaled : Bool) :
    IsWhole (Float.ofScientific n scaled 0) n := by
  rcases Nat.eq_zero_or_pos n with rfl | hn
  · have hzero : (Float.ofScientific 0 scaled 0).toModel.unpack = .zero .positive := by
      cases scaled <;> rfl
    rw [IsWhole, hzero]
    exact .zero .positive
  · have hstands := Stands.finite (k := 0) .positive hn hsmall
    simp only [Int.ofNat_zero, Int.sub_zero] at hstands
    rw [IsWhole, ofScientific_whole hn hsmall]
    exact hstands

theorem isWhole_ofNat (hsmall : n < 2 ^ 53) : IsWhole (Float.ofNat n) n :=
  isWhole_ofScientific hsmall false

theorem IsWhole.neg (h : IsWhole x z) : IsWhole (-x) (-z) :=
  (Stands.neg h).pack (by decide)

theorem IsWhole.add (h : IsWhole x z) (h' : IsWhole y w) (hsum : (z + w).natAbs < 2 ^ 53) :
    IsWhole (x + y) (z + w) :=
  (Stands.add h h' hsum (by decide)).pack (by decide)

theorem IsWhole.sub (h : IsWhole x z) (h' : IsWhole y w) (hsum : (z - w).natAbs < 2 ^ 53) :
    IsWhole (x - y) (z - w) := by
  have hadd := (Stands.add h (Stands.neg h') hsum (by decide)).pack (by decide)
  rw [← sub_eq_add_neg] at hadd
  exact hadd

theorem IsWhole.beq (h : IsWhole x z) (h' : IsWhole y w) : (x == y) = decide (z = w) := by
  change (x.toModel.unpack.compare y.toModel.unpack == some .eq) = _
  rw [Stands.compare h h', Bool.eq_iff_iff, beq_iff_eq, decide_eq_true_eq, Option.some_inj]
  exact Int.compare_eq_eq

theorem IsWhole.le_iff (h : IsWhole x z) (h' : IsWhole y w) : x ≤ y ↔ z ≤ w := by
  change decide ((x.toModel.unpack.compare y.toModel.unpack).any (·.isLE) = true) = true ↔ _
  rw [Stands.compare h h', decide_eq_true_eq, Option.any_some]
  exact Int.isLE_compare

theorem IsWhole.lt_infinity (h : IsWhole x z) : x < infinity := by
  have hinfinity : infinity.toModel.unpack = .infinity .positive := by rfl
  change decide ((x.toModel.unpack.compare infinity.toModel.unpack == some .lt) = true) = true
  rw [hinfinity]
  unfold IsWhole at h
  generalize x.toModel.unpack = u at h
  cases h with
  | zero sign => rfl
  | finite sign hn hsmall => cases sign <;> rfl

theorem IsWhole.isNaN (h : IsWhole x z) : x.isNaN = false := by
  change x.toModel.unpack.isNaN = false
  unfold IsWhole at h
  generalize x.toModel.unpack = u at h
  cases h <;> rfl

theorem exponent_ofBits {bits : Nat} (h : (Parts.ofBits bits).mantissa = 0) :
    (Parts.ofBits bits).exponent = -1074 := by
  unfold Parts.ofBits at h ⊢
  dsimp only at h ⊢
  split
  · rfl
  · rename_i hfield
    rw [if_neg hfield] at h
    dsimp only at h
    omega

theorem sign_apply_neg_iff (p : Parts) (hn : 0 < n) : p.sign.apply n < 0 ↔ p.negative = true := by
  rw [Parts.sign]
  cases p.negative with
  | true =>
    change -(n : Int) < 0 ↔ _
    simp
    omega
  | false =>
    change (n : Int) < 0 ↔ _
    simp

/-- The parts of an integer. Its exponent is not above zero. -/
theorem IsWhole.parts (h : IsWhole x z) : ∃ j : Nat, (Parts.of x).exponent = -(j : Int) ∧
    (Parts.of x).mantissa = z.natAbs * 2 ^ j ∧ z.natAbs < 2 ^ 53 ∧
      (z ≠ 0 → (z < 0 ↔ (Parts.of x).negative = true)) := by
  rcases (Stands.unpacked h).parts with ⟨hzero, rfl⟩ | ⟨n, hn, hsmall, hmantissa, hexponent, rfl⟩
  · refine ⟨1074, exponent_ofBits hzero, ?_, by decide, fun hne => absurd rfl hne⟩
    rw [hzero, Int.natAbs_zero, Nat.zero_mul]
  · have hlog := log2_le hn hsmall
    refine ⟨52 - n.log2, by omega, ?_, ?_, fun _ => sign_apply_neg_iff _ hn⟩
    · rw [natAbs_apply, hmantissa]
    · rwa [natAbs_apply]

theorem tmod_eq (z w : Int) : z.tmod w =
    if z < 0 then -((z.natAbs % w.natAbs : Nat) : Int) else (z.natAbs % w.natAbs : Nat) := by
  cases z with
  | ofNat n =>
    rw [if_neg (by exact Int.not_lt.2 (Int.natCast_nonneg n))]
    cases w <;> rfl
  | negSucc n =>
    rw [if_pos (Int.negSucc_lt_zero n)]
    cases w <;> rfl

/-- **Remainders are those of truncated division.** -/
theorem IsWhole.remainder (h : IsWhole x z) (h' : IsWhole y w) (hw : w ≠ 0) :
    IsWhole (remainder x y) (z.tmod w) := by
  have hzero : IsWhole (0.0 : Float) 0 := .zero .positive
  have hnonzero : (y == 0.0) = false := by
    rw [h'.beq hzero, decide_eq_false_iff_not]
    exact hw
  obtain ⟨i, hi, hdividend, hsmall, hsign⟩ := h.parts
  obtain ⟨j, hj, hdivisor, -, -⟩ := h'.parts
  -- Both mantissas are brought to the lower of the two exponents.
  have hlow : min (-(i : Int)) (-(j : Int)) = -((max i j : Nat) : Int) := by omega
  have hleft : (-(i : Int) - -((max i j : Nat) : Int)).toNat = max i j - i := by omega
  have hright : (-(j : Int) - -((max i j : Nat) : Int)).toNat = max i j - j := by omega
  have hshift (n : Nat) {i l : Nat} (hil : i ≤ l) : (n * 2 ^ i) <<< (l - i) = n * 2 ^ l := by
    rw [Nat.shiftLeft_eq, Nat.mul_assoc, ← Nat.pow_add, Nat.add_sub_cancel' hil]
  have hrest : z.natAbs % w.natAbs < 2 ^ 53 := (Nat.mod_le _ _).trans_lt hsmall
  have hstands := stands_toFloat (k := 0) (Parts.of x).negative hrest (max i j) (by decide)
  have hvalue : (if (Parts.of x).negative = true then -((z.natAbs % w.natAbs : Nat) : Int)
      else (z.natAbs % w.natAbs : Nat)) = z.tmod w := by
    rw [tmod_eq]
    by_cases hz : z = 0
    · subst hz
      simp
    · simp only [hsign hz]
  rw [hvalue, Int.ofNat_zero, Int.sub_zero] at hstands
  rw [IsWhole, Number.remainder, h.isNaN, h'.isNaN, Stands.isFinite h, Stands.isFinite h', hnonzero]
  simp only [Bool.or_false, Bool.not_true, Bool.false_eq_true, if_false]
  rw [hdividend, hdivisor, hi, hj, hlow, hleft, hright, hshift _ (Nat.le_max_left i j),
    hshift _ (Nat.le_max_right i j), Nat.mul_mod_mul_right]
  exact hstands

/-! ## Rounding to integers -/

/-- Halves are rounded down. -/
theorem Stands.floor (h : Stands 1 x.toModel.unpack z) : IsWhole (floor x) (z / 2) := by
  have hfinite := h.isFinite
  have hparts := h.unpacked.parts
  have hexponent (hzero : (Parts.of x).mantissa = 0) : (Parts.of x).exponent = -1074 :=
    exponent_ofBits hzero
  rw [IsWhole, Number.floor, if_pos hfinite]
  generalize Parts.of x = p at hparts hexponent
  obtain ⟨negative, mantissa, exponent⟩ := p
  dsimp only at hparts hexponent ⊢
  have hwhole {n : Nat} (hn : n < 2 ^ 53) := stands_toFloat (k := 0) negative hn 0 (by decide)
  simp only [Nat.pow_zero, Nat.mul_one, Int.ofNat_zero, Int.neg_zero, Int.sub_zero] at hwhole
  rcases hparts with ⟨rfl, rfl⟩ | ⟨n, hn, hsmall, rfl, rfl, rfl⟩
  · have hneg : ¬ (0 : Int) ≤ -1074 := by decide
    rw [hexponent rfl, Parts.whole, if_neg hneg]
    simp only [Nat.zero_mod, Nat.zero_div, bne_self_eq_false, Bool.and_false, Bool.false_eq_true,
      if_false]
    have hzero := hwhole (n := 0) (by decide)
    cases negative <;> exact hzero
  · have hlog := log2_le hn hsmall
    have hneg : ¬ 0 ≤ (n.log2 : Int) - 52 - (1 : Nat) := by omega
    have hunit : (-((n.log2 : Int) - 52 - (1 : Nat))).toNat = 52 - n.log2 + 1 := by omega
    have hquotient : n * 2 ^ (52 - n.log2) / (2 ^ (52 - n.log2 + 1)) = n / 2 := by
      rw [Nat.pow_succ', Nat.mul_div_mul_right _ _ (Nat.two_pow_pos _)]
    have hrest : n * 2 ^ (52 - n.log2) % (2 ^ (52 - n.log2 + 1)) = n % 2 * 2 ^ (52 - n.log2) := by
      rw [Nat.pow_succ', Nat.mul_mod_mul_right]
    have hodd : (n % 2 * 2 ^ (52 - n.log2) != 0) = decide (n % 2 = 1) := by
      have := Nat.two_pow_pos (52 - n.log2)
      rcases Nat.mod_two_eq_zero_or_one n with hmod | hmod
      · simp [hmod]
      · simp [hmod]
    rw [Parts.whole, if_neg hneg]
    dsimp only
    rw [hunit]
    simp only [Nat.pow_eq, hquotient, hrest, hodd]
    cases negative with
    | true =>
      have hfloor := hwhole (n := n / 2 + n % 2) (by omega)
      have hvalue : Sign.apply .negative n / 2 = -((n / 2 + n % 2 : Nat) : Int) := by
        change -(n : Int) / 2 = _
        omega
      have hround : n / 2 + (if (true && decide (n % 2 = 1)) = true then 1 else 0) =
          n / 2 + n % 2 := by
        rcases Nat.mod_two_eq_zero_or_one n with hmod | hmod <;> simp [hmod]
      rw [hround]
      change Stands 0 _ (Sign.apply .negative n / 2)
      rw [hvalue]
      exact hfloor
    | false =>
      have hfloor := hwhole (n := n / 2) (by omega)
      exact hfloor

/-- **Integers are rounded to themselves**, as long as the half that is added is not lost. -/
theorem IsWhole.round (h : IsWhole x z) (hsmall : z.natAbs < 2 ^ 52) :
    IsWhole (XPath.round x) z := by
  have hhalf : Stands 1 (0.5 : Float).toModel.unpack 1 :=
    .finite .positive (n := 1) (by decide) (by decide)
  have hsum := (Stands.add (Stands.double h (by omega)) hhalf (by omega) (by decide)).pack
    (by decide)
  have hfloor : IsWhole (floor (x + 0.5)) ((2 * z + 1) / 2) := Stands.floor hsum
  have hvalue : (2 * z + 1) / 2 = z := by omega
  rw [XPath.round, if_pos (Stands.isFinite h)]
  rwa [hvalue] at hfloor

end MarkupTemplate.Number
