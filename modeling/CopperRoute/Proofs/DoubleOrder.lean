import CopperRoute.Arithmetic
import Mathlib.Algebra.Group.Int.Defs
import Mathlib.Algebra.Group.Nat.Defs

/-!
# The total order of doubles

Sorting and minima compare doubles by their key in the total order, which compares words
instead of numbers.  It agrees with the order of numbers: what does not descend by its keys does
not descend as numbers (`not_lt_of_totalOrderKey_le`).

Both orders are read off a scale on which neighbouring doubles are one step apart
(`Double.Places`).  The word of a double without its sign is its distance from zero there, since
the exponent stands above the mantissa.
-/

namespace CopperRoute

namespace Double

open Float.Model Float.Model.UnpackedFloat

/-- A number with this sign. -/
def signed : Sign → Nat → Int
  | .positive, p => p
  | .negative, p => -p

/-- **The place of a number** on a scale with one step from a double to the next. -/
inductive Places : UnpackedFloat → Int → Prop
  | zero (s : Sign) : Places (.zero s) 0
  | finite (s : Sign) {m : Nat} {e : Int} (h : 0 < m) {p : Nat} (hm : m < 2 ^ 53)
      (he : -1074 ≤ e) (hsmall : m < 2 ^ 52 → e = -1074)
      (hp : (p : Int) = (e + 1074) * 2 ^ 52 + m) (hle : p < 2047 * 2 ^ 52) :
      Places (.finite s m e h) (signed s p)
  | infinity (s : Sign) : Places (.infinity s) (signed s (2047 * 2 ^ 52))

/-- Exponents are compared first, and then mantissas. -/
theorem then_eq_lt_iff {e e' : Int} {m m' : Nat} :
    ((compare e e').then (compare m m')) = .lt ↔ e < e' ∨ e = e' ∧ m < m' := by
  simp [Ordering.then_eq_lt, Int.compare_eq_lt, Nat.compare_eq_lt]

theorem then_eq_gt_iff {e e' : Int} {m m' : Nat} :
    ((compare e e').then (compare m m')) = .gt ↔ e' < e ∨ e = e' ∧ m' < m := by
  simp [Ordering.then_eq_gt, Int.compare_eq_gt, Nat.compare_eq_gt]

/-- **Places ascend** where numbers do. -/
theorem Places.lt_of_compare {u v : UnpackedFloat} {y z : Int} (hu : Places u y) (hv : Places v z)
    (h : u.compare v = some .lt) : y < z := by
  -- every pair of signs is refused by the comparison, or is a matter of the two places
  cases hu with
  | zero s =>
      cases hv with
      | zero s' => cases h
      | finite s' _ _ _ _ =>
          cases s' <;> dsimp only [UnpackedFloat.compare, signed] at h ⊢ <;> first | omega | cases h
      | infinity s' =>
          cases s' <;> dsimp only [UnpackedFloat.compare, signed] at h ⊢ <;> first | omega | cases h
  | finite s hpos hm he hsmall hp hle =>
      cases hv with
      | zero s' =>
          cases s <;> dsimp only [UnpackedFloat.compare, signed] at h ⊢ <;> first | omega | cases h
      | finite s' hpos' hm' he' hsmall' hp' hle' =>
          cases s <;> cases s' <;> dsimp only [UnpackedFloat.compare, signed] at h ⊢ <;>
            simp only [Option.some.injEq, then_eq_lt_iff, Ordering.swap_eq_lt, then_eq_gt_iff,
              reduceCtorEq] at h <;>
            omega
      | infinity s' =>
          cases s <;> cases s' <;> dsimp only [UnpackedFloat.compare, signed] at h ⊢ <;>
            first | omega | cases h
  | infinity s =>
      cases hv with
      | zero s' =>
          cases s <;> dsimp only [UnpackedFloat.compare, signed] at h ⊢ <;> first | omega | cases h
      | finite s' _ _ _ _ =>
          cases s <;> cases s' <;> dsimp only [UnpackedFloat.compare, signed] at h ⊢ <;>
            first | omega | cases h
      | infinity s' =>
          cases s <;> cases s' <;> dsimp only [UnpackedFloat.compare, signed] at h ⊢ <;>
            first | omega | cases h

/-- The exponent stands in the eleven bits above the mantissa. -/
theorem toNat_unpackExponent (b : BitVec Format.binary64.numBits) :
    (unpackExponent b).toNat = b.toNat / 2 ^ 52 % 2 ^ 11 := by
  unfold unpackExponent
  rw [BitVec.toNat_cast, BitVec.extractLsb_toNat, Nat.shiftRight_eq_div_pow]
  rfl

/-- The mantissa is the lower part of the word. -/
theorem toNat_unpackMantissa (b : BitVec Format.binary64.numBits) :
    (unpackMantissa b).toNat = b.toNat % 2 ^ 52 := by
  unfold unpackMantissa
  rw [BitVec.toNat_cast, BitVec.extractLsb_toNat, Nat.shiftRight_zero]
  rfl

/-- The sign is the highest bit. -/
theorem toNat_unpackSign (b : BitVec Format.binary64.numBits) :
    (unpackSign b).toNat = b.toNat / 2 ^ 63 % 2 := by
  unfold unpackSign
  rw [BitVec.toNat_cast, BitVec.extractLsb_toNat, Nat.shiftRight_eq_div_pow]
  rfl

/-- A number is negative when that bit is set. -/
theorem sign_eq_negative_iff (b : BitVec Format.binary64.numBits) :
    Sign.ofBitVec (unpackSign b) = .negative ↔ signBit ≤ b.toNat := by
  have hsign := toNat_unpackSign b
  have hsmall : b.toNat < 2 ^ 64 := b.isLt
  simp only [Sign.ofBitVec, BitVec.toNat_eq, hsign, signBit]
  split <;> simp_all <;> omega

/-- A leading one stands above the mantissa. -/
theorem toNat_one_append (m : BitVec 52) : (1#1 ++ m).toNat = 2 ^ 52 + m.toNat := by
  rw [BitVec.toNat_append, Nat.shiftLeft_eq, Nat.mul_comm]
  exact (Nat.two_pow_add_eq_or_of_lt m.isLt 1).symm

/-- A double that is a number has a place. -/
theorem places_unpack (b : BitVec Format.binary64.numBits) :
    UnpackedFloat.unpack Format.binary64 b = .notANumber ∨
      Places (UnpackedFloat.unpack Format.binary64 b)
        (signed (Sign.ofBitVec (unpackSign b)) (b.toNat % signBit)) := by
  have hexponent := toNat_unpackExponent b
  have hmantissa := toNat_unpackMantissa b
  have hbias : (Format.binary64.exponentBias : Int) = 1023 := rfl
  have hbits : b.toNat % signBit = b.toNat / 2 ^ 52 % 2 ^ 11 * 2 ^ 52 + b.toNat % 2 ^ 52 := by
    rw [signBit]
    omega
  rw [hbits]
  unfold UnpackedFloat.unpack
  dsimp only
  by_cases hlast : unpackExponent b = -1#_
  · rw [if_pos hlast]
    rw [hlast] at hexponent
    by_cases hzero : unpackMantissa b = 0#_
    · rw [if_pos hzero]
      rw [hzero] at hmantissa
      right
      rw [← hexponent, ← hmantissa]
      exact .infinity _
    · rw [if_neg hzero]
      exact .inl rfl
  rw [if_neg hlast]
  replace hlast : (unpackExponent b).toNat ≠ 2047 := fun h => hlast (BitVec.toNat_inj.mp h)
  rw [hexponent] at hlast
  by_cases hfirst : unpackExponent b = 0#_
  · rw [if_pos hfirst]
    rw [hfirst] at hexponent ⊢
    by_cases hzero : unpackMantissa b = 0#_
    · rw [dif_pos hzero]
      rw [hzero] at hmantissa
      have hnone : signed (Sign.ofBitVec (unpackSign b)) 0 = 0 := by
        cases Sign.ofBitVec (unpackSign b) <;> rfl
      right
      rw [← hexponent, ← hmantissa, BitVec.toNat_ofNat, BitVec.toNat_ofNat, Nat.zero_mod,
        Nat.zero_mod, Nat.zero_mul, hnone]
      exact .zero _
    · rw [dif_neg hzero]
      refine .inr (.finite _ _ ?_ ?_ ?_ ?_ ?_)
      all_goals
        simp only [BitVec.toNat_ofNat, hbias, hmantissa] at hexponent ⊢
        omega
  · rw [if_neg hfirst]
    replace hfirst : (unpackExponent b).toNat ≠ 0 := fun h => hfirst (BitVec.toNat_inj.mp h)
    rw [hexponent] at hfirst
    have happend : (1#1 ++ unpackMantissa b).toNat = 2 ^ 52 + b.toNat % 2 ^ 52 :=
      (toNat_one_append _).trans (congrArg (2 ^ 52 + ·) hmantissa)
    refine .inr (.finite _ _ ?_ ?_ ?_ ?_ ?_)
    · rw [happend]
      omega
    · rw [hbias, hexponent]
      omega
    · rw [happend]
      omega
    · rw [happend, hbias, hexponent]
      omega
    · omega

/-- The key of a double is its word without the sign, mirrored where there is a sign. -/
theorem totalOrderKey_eq (x : Float) :
    totalOrderKey x = if signBit ≤ x.toBits.toNat then -1 - ((x.toBits.toNat % signBit : Nat) : Int)
      else ((x.toBits.toNat % signBit : Nat) : Int) := by
  have hsmall : x.toBits.toNat < 2 ^ 64 := x.toBits.toNat_lt_size
  by_cases hnegative : signBit ≤ x.toBits.toNat
  · rw [totalOrderKey, if_neg (Nat.not_lt.mpr hnegative), if_pos hnegative]
    simp only [signBit] at hnegative ⊢
    omega
  · rw [totalOrderKey, if_pos (Nat.not_le.mp hnegative), if_neg hnegative]
    simp only [signBit] at hnegative ⊢
    omega

/-- Nothing compares with what is no number. -/
theorem compare_notANumber (u : UnpackedFloat) : u.compare .notANumber = none := by
  cases u <;> rfl

/-- What does not descend in the total order does not descend as numbers. -/
theorem not_lt_of_totalOrderKey_le {x y : Float} (h : totalOrderKey x ≤ totalOrderKey y) :
    ¬ y < x := by
  intro hlt
  have hlt : (y.toModel.unpack.compare x.toModel.unpack == some .lt) = true :=
    of_decide_eq_true hlt
  have hcompare : y.toModel.unpack.compare x.toModel.unpack = some .lt := by simpa using hlt
  rcases places_unpack y.toBits.toBitVec with hnan | hy
  · have hnan : y.toModel.unpack = .notANumber := hnan
    rw [hnan] at hcompare
    cases hcompare
  rcases places_unpack x.toBits.toBitVec with hnan | hx
  · have hnan : x.toModel.unpack = .notANumber := hnan
    rw [hnan, compare_notANumber] at hcompare
    cases hcompare
  have hplace := hy.lt_of_compare hx hcompare
  have hysign := sign_eq_negative_iff y.toBits.toBitVec
  have hxsign := sign_eq_negative_iff x.toBits.toBitVec
  rw [UInt64.toNat_toBitVec] at hysign hxsign hplace
  rw [UInt64.toNat_toBitVec] at hplace
  rw [totalOrderKey_eq, totalOrderKey_eq] at h
  generalize Sign.ofBitVec (@unpackSign Format.binary64 y.toBits.toBitVec) = s at *
  generalize Sign.ofBitVec (@unpackSign Format.binary64 x.toBits.toBitVec) = s' at *
  cases s <;> cases s' <;> simp_all [signed] <;> omega

end Double

end CopperRoute
