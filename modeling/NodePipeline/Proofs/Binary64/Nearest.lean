import Mathlib.Algebra.Order.Field.Basic
import Mathlib.Algebra.Order.Field.Power
import Mathlib.Algebra.Order.Field.Rat
import Mathlib.Tactic.GCongr
import Mathlib.Tactic.Linarith
import Mathlib.Tactic.Ring
import NodePipeline.Binary64.Basic

/-!
# The nearest number

Finite numbers are rational numbers, and their magnitudes grow with their bits. So a
rational number lies between the magnitudes of two neighbouring patterns of bits, and
rounding picks the nearer one, or the even one from the middle. Every integer of
sixty-four bits is rounded to the nearest number.
-/

namespace NodePipeline.Binary64

/-- The rational number that a finite number is. -/
def toRat (x : Binary64) : ℚ :=
  (if x.isNegative then -1 else 1) * (x.significand * 2 ^ x.scale)

/-- No finite number is nearer to `q`. If another one is as near, the last bit is zero. -/
structure IsNearest (x : Binary64) (q : ℚ) : Prop where
  finite : x.isFinite = true
  closest : ∀ y : Binary64, y.isFinite = true → |x.toRat - q| ≤ |y.toRat - q|
  even : ∀ y : Binary64, y.isFinite = true → |y.toRat - q| = |x.toRat - q| →
    y.toRat = x.toRat ∨ x.bits.toNat % 2 = 0
  /-- What is nearest to zero, or positive, has no sign. -/
  sign : x.isNegative = decide (q < 0)

/-! ## Magnitudes -/

/-- How often the least positive number goes into the one with these magnitude bits. -/
def unitsOf (m : Nat) : Nat :=
  if m / 2 ^ 52 = 0 then m % 2 ^ 52 else (m % 2 ^ 52 + 2 ^ 52) * 2 ^ (m / 2 ^ 52 - 1)

/-- The significand `k` and the exponent `t` above the least one. The significand may run over
into the next exponent. -/
theorem unitsOf_add {t k : Nat} (hk : k ≤ 2 ^ 53) (hnormal : t = 0 ∨ 2 ^ 52 ≤ k) :
    unitsOf (t * 2 ^ 52 + k) = k * 2 ^ t := by
  unfold unitsOf
  rcases Nat.lt_or_ge k (2 ^ 52) with hlow | hhigh
  · obtain rfl : t = 0 := by omega
    rw [if_pos (by omega)]
    omega
  · rw [if_neg (by omega)]
    rcases Nat.lt_or_ge k (2 ^ 53) with hlt | hge
    · have hfield : (t * 2 ^ 52 + k) / 2 ^ 52 - 1 = t := by omega
      have hsignificand : (t * 2 ^ 52 + k) % 2 ^ 52 + 2 ^ 52 = k := by omega
      rw [hfield, hsignificand]
    · obtain rfl : k = 2 ^ 53 := Nat.le_antisymm hk hge
      have hfield : (t * 2 ^ 52 + 2 ^ 53) / 2 ^ 52 - 1 = t + 1 := by omega
      have hsignificand : (t * 2 ^ 52 + 2 ^ 53) % 2 ^ 52 + 2 ^ 52 = 2 ^ 52 := by omega
      rw [hfield, hsignificand, Nat.pow_succ 2 t, Nat.mul_comm (2 ^ t) 2, ← Nat.mul_assoc,
        ← Nat.pow_succ]

/-- Every magnitude has a significand and an exponent. -/
theorem exists_significand (m : Nat) :
    ∃ t k, m = t * 2 ^ 52 + k ∧ k < 2 ^ 53 ∧ (t = 0 ∨ 2 ^ 52 ≤ k) := by
  refine ⟨m / 2 ^ 52 - 1, m - (m / 2 ^ 52 - 1) * 2 ^ 52, ?_, ?_, ?_⟩ <;> omega

theorem unitsOf_strictMono : StrictMono unitsOf := by
  refine strictMono_nat_of_lt_succ fun m => ?_
  obtain ⟨t, k, rfl, hk, hnormal⟩ := exists_significand m
  rw [unitsOf_add hk.le hnormal, Nat.add_assoc, unitsOf_add (by omega) (by omega)]
  exact Nat.mul_lt_mul_of_pos_right (Nat.lt_succ_self k) (Nat.two_pow_pos t)

/-- The number with these magnitude bits and no sign. -/
def valueOf (m : Nat) : ℚ := unitsOf m * 2 ^ (-1074 : ℤ)

theorem valueOf_strictMono : StrictMono valueOf := fun _ _ h =>
  mul_lt_mul_of_pos_right (Nat.cast_lt.2 (unitsOf_strictMono h)) (zpow_pos two_pos _)

theorem valueOf_nonneg (m : Nat) : 0 ≤ valueOf m :=
  mul_nonneg (Nat.cast_nonneg _) (zpow_pos two_pos _).le

theorem valueOf_zero : valueOf 0 = 0 := by simp [valueOf, unitsOf]

theorem valueOf_add {e : Int} (he : -1074 ≤ e) {k : Nat} (hk : k ≤ 2 ^ 53)
    (hnormal : e = -1074 ∨ 2 ^ 52 ≤ k) :
    valueOf ((e + 1074).toNat * 2 ^ 52 + k) = k * 2 ^ e := by
  have hsplit : (2 : ℚ) ^ (e + 1074).toNat * 2 ^ (-1074 : ℤ) = 2 ^ e := by
    rw [← zpow_natCast, ← zpow_add₀ two_ne_zero]
    congr 1
    omega
  rw [valueOf, unitsOf_add hk (by omega), Nat.cast_mul, Nat.cast_pow, Nat.cast_ofNat, mul_assoc,
    hsplit]

/-! ## Numbers and their magnitudes -/

/-- The bits without the sign. -/
def magnitudeBits (x : Binary64) : Nat := x.bits.toNat % 2 ^ 63

theorem bits_eq (x : Binary64) :
    x.bits.toNat = (if x.isNegative then 2 ^ 63 else 0) + x.magnitudeBits := by
  have hlt : x.bits.toNat < 2 ^ 64 := x.bits.toNat_lt
  unfold isNegative magnitudeBits
  simp only [decide_eq_true_eq]
  split <;> omega

theorem isFinite_iff {x : Binary64} : x.isFinite = true ↔ x.magnitudeBits < infinityBits := by
  have hlt : x.bits.toNat < 2 ^ 64 := x.bits.toNat_lt
  unfold isFinite exponentField magnitudeBits infinityBits
  rw [decide_eq_true_iff]
  omega

theorem toRat_eq (x : Binary64) :
    x.toRat = (if x.isNegative then -1 else 1) * valueOf x.magnitudeBits := by
  have hfield : x.magnitudeBits / 2 ^ 52 = x.exponentField := by
    unfold magnitudeBits exponentField
    omega
  have hfraction : x.magnitudeBits % 2 ^ 52 = x.fractionField := by
    unfold magnitudeBits fractionField
    omega
  have hvalue : (x.significand : ℚ) * 2 ^ x.scale = valueOf x.magnitudeBits := by
    unfold significand scale valueOf unitsOf
    rw [hfield, hfraction]
    split
    · rfl
    · next h =>
        have hexponent : (x.exponentField : ℤ) - 1075
            = ((x.exponentField - 1 : Nat) : ℤ) + -1074 := by omega
        rw [hexponent, zpow_add₀ two_ne_zero, zpow_natCast, ← mul_assoc]
        norm_num
  rw [toRat, hvalue]

theorem abs_toRat (x : Binary64) : |x.toRat| = valueOf x.magnitudeBits := by
  rw [toRat_eq, abs_mul, abs_of_nonneg (valueOf_nonneg _)]
  split <;> simp

section OfMagnitude

variable (negative : Bool) {m : Nat} (h : m < infinityBits)

include h

theorem bits_ofMagnitude :
    (ofMagnitude negative m).bits.toNat = (if negative then 2 ^ 63 else 0) + m := by
  unfold infinityBits at h
  unfold ofMagnitude
  rw [UInt64.toNat_ofNat_of_lt']
  · cases negative <;> simp
  · show _ < 2 ^ 64
    cases negative
    · simp only [Bool.false_eq_true, if_false]
      omega
    · simp only [if_true]
      omega

theorem isNegative_ofMagnitude : (ofMagnitude negative m).isNegative = negative := by
  have hbits := bits_ofMagnitude negative h
  unfold infinityBits at h
  unfold isNegative
  rw [hbits]
  cases negative
  · simp only [Bool.false_eq_true, if_false, decide_eq_false_iff_not]
    omega
  · simp

theorem magnitudeBits_ofMagnitude : (ofMagnitude negative m).magnitudeBits = m := by
  have hbits := bits_ofMagnitude negative h
  unfold infinityBits at h
  unfold magnitudeBits
  rw [hbits]
  cases negative
  · simp only [Bool.false_eq_true, if_false]
    omega
  · simp only [if_true]
    omega

end OfMagnitude

/-! ## Rounding a quotient -/

theorem scaleRatio_eq (num : Nat) {den : Nat} (hden : 0 < den) (e : Int) :
    0 < (scaleRatio num den e).2 ∧
      ((scaleRatio num den e).1 : ℚ) / (scaleRatio num den e).2 = num / den * 2 ^ (-e) := by
  have hpos : ∀ k : Nat, 0 < Nat.pow 2 k := Nat.two_pow_pos
  have hcast : ∀ k : Nat, ((Nat.pow 2 k : Nat) : ℚ) = 2 ^ k := fun k => Nat.cast_pow 2 k
  unfold scaleRatio
  split
  · next he =>
      refine ⟨Nat.mul_pos hden (hpos _), ?_⟩
      obtain ⟨k, rfl⟩ := Int.eq_ofNat_of_zero_le he
      rw [Nat.cast_mul, hcast, Int.toNat_natCast, zpow_neg, zpow_natCast, ← div_div,
        div_eq_mul_inv _ ((2 : ℚ) ^ k)]
  · next he =>
      refine ⟨hden, ?_⟩
      obtain ⟨k, hk⟩ := Int.eq_ofNat_of_zero_le (by omega : 0 ≤ -e)
      rw [hk, Nat.cast_mul, hcast, Int.toNat_natCast, zpow_natCast]
      ring

/-- Logarithms locate a quotient between two powers of two, a factor of four apart. -/
theorem log2_quotient {num den : Nat} (hnum : 0 < num) (hden : 0 < den) {low : Int}
    (hlow : ((Nat.log2 num : Int) - (Nat.log2 den : Int) - 53) = low) :
    (2 : ℚ) ^ 52 ≤ num / den * 2 ^ (-low) ∧ (num / den * 2 ^ (-low) : ℚ) < 2 ^ 54 := by
  have hdenQ : (0 : ℚ) < den := Nat.cast_pos.2 hden
  have hnumLow : (2 : ℚ) ^ num.log2 ≤ num := by
    exact_mod_cast Nat.log2_self_le (Nat.ne_of_gt hnum)
  have hnumHigh : (num : ℚ) < 2 ^ (num.log2 + 1) := by exact_mod_cast Nat.lt_log2_self
  have hdenLow : (2 : ℚ) ^ den.log2 ≤ den := by
    exact_mod_cast Nat.log2_self_le (Nat.ne_of_gt hden)
  have hdenHigh : (den : ℚ) < 2 ^ (den.log2 + 1) := by exact_mod_cast Nat.lt_log2_self
  have hscale : (2 : ℚ) ^ (-low) * 2 ^ num.log2 = 2 ^ den.log2 * 2 ^ 53 := by
    rw [← zpow_natCast, ← zpow_natCast, ← zpow_natCast, ← zpow_add₀ two_ne_zero,
      ← zpow_add₀ two_ne_zero]
    congr 1
    omega
  have hpow : (0 : ℚ) < 2 ^ (-low) := zpow_pos two_pos _
  have hcomm : (num / den * 2 ^ (-low) : ℚ) = 2 ^ (-low) * num / den := by ring
  rw [hcomm, le_div_iff₀ hdenQ, div_lt_iff₀ hdenQ]
  constructor
  · calc (2 : ℚ) ^ 52 * den ≤ 2 ^ 52 * 2 ^ (den.log2 + 1) := by gcongr
      _ = 2 ^ den.log2 * 2 ^ 53 := by ring
      _ = 2 ^ (-low) * 2 ^ num.log2 := hscale.symm
      _ ≤ 2 ^ (-low) * num := by gcongr
  · calc (2 : ℚ) ^ (-low) * num < 2 ^ (-low) * 2 ^ (num.log2 + 1) := by gcongr
      _ = 2 ^ (-low) * 2 ^ num.log2 * 2 := by ring
      _ = 2 ^ 54 * 2 ^ den.log2 := by rw [hscale]; ring
      _ ≤ 2 ^ 54 * den := by gcongr

/-- At the exponent of a quotient the significand has fifty-three bits, or fewer if the
exponent is the least one. -/
theorem ratioExponent_spec {num den : Nat} (hnum : 0 < num) (hden : 0 < den) :
    -1074 ≤ ratioExponent num den ∧
      (num / den * 2 ^ (-ratioExponent num den) : ℚ) < 2 ^ 53 ∧
      (ratioExponent num den = -1074 ∨
        (2 : ℚ) ^ 52 ≤ num / den * 2 ^ (-ratioExponent num den)) := by
  have hnumQ : (0 : ℚ) < num := Nat.cast_pos.2 hnum
  have hdenQ : (0 : ℚ) < den := Nat.cast_pos.2 hden
  generalize hlow : ((Nat.log2 num : Int) - (Nat.log2 den : Int) - 53) = low
  have hbounds := log2_quotient hnum hden hlow
  obtain ⟨hpos, hquotient⟩ := scaleRatio_eq num hden low
  have hposQ : (0 : ℚ) < (scaleRatio num den low).2 := Nat.cast_pos.2 hpos
  -- A further factor of two is taken off where the significand would have a bit too many.
  obtain ⟨e, he, hfits⟩ : ∃ e, ratioExponent num den = max e (-1074) ∧
      (2 : ℚ) ^ 52 ≤ num / den * 2 ^ (-e) ∧ (num / den * 2 ^ (-e) : ℚ) < 2 ^ 53 := by
    have htest : (scaleRatio num den low).2 * 0x20000000000000 ≤ (scaleRatio num den low).1 ↔
        (2 : ℚ) ^ 53 ≤ num / den * 2 ^ (-low) := by
      rw [← hquotient, le_div_iff₀ hposQ, Nat.mul_comm]
      norm_cast
    unfold ratioExponent
    simp only [hlow]
    split
    · next h =>
        have hhalf : (num / den * 2 ^ (-(low + 1)) : ℚ) = num / den * 2 ^ (-low) / 2 := by
          rw [neg_add, zpow_add₀ two_ne_zero]
          norm_num
          ring
        refine ⟨low + 1, rfl, ?_⟩
        have := htest.1 h
        rw [hhalf]
        constructor <;> linarith [hbounds.2]
    · next h => exact ⟨low, rfl, hbounds.1, not_le.1 (mt htest.2 h)⟩
  rw [he]
  rcases le_total (-1074) e with hle | hle
  · rw [max_eq_left hle]
    exact ⟨hle, hfits.2, Or.inr hfits.1⟩
  · rw [max_eq_right hle]
    refine ⟨le_refl _, lt_of_le_of_lt ?_ hfits.2, Or.inl rfl⟩
    have hquotientPos : (0 : ℚ) ≤ num / den := (div_pos hnumQ hdenQ).le
    exact mul_le_mul_of_nonneg_left (zpow_le_zpow_right₀ one_le_two (by omega)) hquotientPos

/-- Rounding to an integer goes to the nearer neighbour, or to the even one. -/
theorem roundHalfEven_cases (n d : Nat) :
    (roundHalfEven n d = n / d ∧ 2 * (n % d) < d) ∨
      (roundHalfEven n d = n / d + 1 ∧ d < 2 * (n % d)) ∨
      (2 * (n % d) = d ∧ (roundHalfEven n d = n / d ∨ roundHalfEven n d = n / d + 1) ∧
        roundHalfEven n d % 2 = 0) := by
  unfold roundHalfEven
  simp only
  split
  · next h => exact Or.inl ⟨rfl, h⟩
  · split
    · next h => exact Or.inr (Or.inl ⟨rfl, h⟩)
    · refine Or.inr (Or.inr ⟨?_, ?_, ?_⟩) <;> omega

/-- Of all magnitudes this one is nearest, or as near as another one and even. -/
def IsNearestMagnitude (r : Nat) (q : ℚ) : Prop :=
  ∀ m, |valueOf r - q| ≤ |valueOf m - q| ∧
    (|valueOf m - q| = |valueOf r - q| → valueOf m = valueOf r ∨ r % 2 = 0)

/-- Between two neighbouring magnitudes, the nearer one is nearest of all. -/
theorem isNearestMagnitude_of_neighbours {a r : Nat} {q : ℚ} (hlow : valueOf a ≤ q)
    (hhigh : q < valueOf (a + 1))
    (hr : (r = a ∧ q - valueOf a < valueOf (a + 1) - q) ∨
      (r = a + 1 ∧ valueOf (a + 1) - q < q - valueOf a) ∨
      (q - valueOf a = valueOf (a + 1) - q ∧ (r = a ∨ r = a + 1) ∧ r % 2 = 0)) :
    IsNearestMagnitude r q := by
  intro m
  have hdistLow : |valueOf a - q| = q - valueOf a := by
    rw [abs_sub_comm, abs_of_nonneg (by linarith)]
  have hdistHigh : |valueOf (a + 1) - q| = valueOf (a + 1) - q := abs_of_nonneg (by linarith)
  rcases Nat.lt_or_ge a m with hm | hm
  · have hvalue := valueOf_strictMono.monotone (Nat.succ_le_of_lt hm)
    rw [abs_of_nonneg (by linarith : 0 ≤ valueOf m - q)]
    rcases hr with ⟨rfl, hnear⟩ | ⟨rfl, hnear⟩ | ⟨hmiddle, rfl | rfl, heven⟩
    · rw [hdistLow]
      exact ⟨by linarith, fun heq => by linarith⟩
    · rw [hdistHigh]
      exact ⟨by linarith, fun heq => Or.inl (by linarith)⟩
    · rw [hdistLow]
      exact ⟨by linarith, fun _ => Or.inr heven⟩
    · rw [hdistHigh]
      exact ⟨by linarith, fun _ => Or.inr heven⟩
  · have hvalue := valueOf_strictMono.monotone hm
    rw [abs_sub_comm (valueOf m), abs_of_nonneg (by linarith : 0 ≤ q - valueOf m)]
    rcases hr with ⟨rfl, hnear⟩ | ⟨rfl, hnear⟩ | ⟨hmiddle, rfl | rfl, heven⟩
    · rw [hdistLow]
      exact ⟨by linarith, fun heq => Or.inl (by linarith)⟩
    · rw [hdistHigh]
      exact ⟨by linarith, fun heq => by linarith⟩
    · rw [hdistLow]
      exact ⟨by linarith, fun _ => Or.inr heven⟩
    · rw [hdistHigh]
      exact ⟨by linarith, fun _ => Or.inr heven⟩

/-- A quotient is a whole number and a proper fraction. -/
theorem cast_div_eq (n : Nat) {d : Nat} (hd : 0 < d) :
    (n / d : ℚ) = (n / d : Nat) + (n % d : Nat) / d ∧ (0 : ℚ) ≤ (n % d : Nat) / d ∧
      ((n % d : Nat) / d : ℚ) < 1 := by
  have hdQ : (0 : ℚ) < d := Nat.cast_pos.2 hd
  refine ⟨?_, div_nonneg (Nat.cast_nonneg _) hdQ.le, ?_⟩
  · have hcast : (n : ℚ) = (n / d : Nat) * d + (n % d : Nat) := by
      exact_mod_cast (Nat.div_add_mod' n d).symm
    rw [div_eq_iff hdQ.ne', add_mul, div_mul_cancel₀ _ hdQ.ne']
    exact hcast
  · rw [div_lt_one hdQ]
    exact_mod_cast Nat.mod_lt n hd

/-- Whether the fraction is below, above or at a half decides how a quotient is rounded. -/
theorem roundHalfEven_fraction (n : Nat) {d : Nat} (hd : 0 < d) :
    (roundHalfEven n d = n / d ∧ ((n % d : Nat) / d : ℚ) < 1 / 2) ∨
      (roundHalfEven n d = n / d + 1 ∧ (1 / 2 : ℚ) < (n % d : Nat) / d) ∨
      (((n % d : Nat) / d : ℚ) = 1 / 2 ∧
        (roundHalfEven n d = n / d ∨ roundHalfEven n d = n / d + 1) ∧
        roundHalfEven n d % 2 = 0) := by
  have hdQ : (0 : ℚ) < d := Nat.cast_pos.2 hd
  have htwo : (2 * (n % d : Nat) : ℚ) / d = 2 * ((n % d : Nat) / d) := mul_div_assoc _ _ _
  rcases roundHalfEven_cases n d with ⟨hdown, hless⟩ | ⟨hup, hmore⟩ | ⟨hhalf, hone⟩
  · refine Or.inl ⟨hdown, ?_⟩
    have hfraction : (2 * (n % d : Nat) : ℚ) / d < 1 := by
      rw [div_lt_one hdQ]
      exact_mod_cast hless
    linarith
  · refine Or.inr (Or.inl ⟨hup, ?_⟩)
    have hfraction : (1 : ℚ) < (2 * (n % d : Nat) : ℚ) / d := by
      rw [one_lt_div hdQ]
      exact_mod_cast hmore
    linarith
  · refine Or.inr (Or.inr ⟨?_, hone⟩)
    have hfraction : (2 * (n % d : Nat) : ℚ) / d = 1 := by
      rw [div_eq_one_iff_eq hdQ.ne']
      exact_mod_cast hhalf
    linarith

/-- The significand that is rounded to an integer gives the nearest magnitude. -/
theorem isNearestMagnitude_significand {e : Int} (he : -1074 ≤ e) {n d : Nat} (hd : 0 < d)
    (hsmall : n / d < 2 ^ 53) (hnormal : e = -1074 ∨ 2 ^ 52 ≤ n / d) :
    IsNearestMagnitude ((e + 1074).toNat * 2 ^ 52 + roundHalfEven n d) (n / d * 2 ^ e) := by
  have hplace : (0 : ℚ) < 2 ^ e := zpow_pos two_pos e
  obtain ⟨hsplit, hpart, hpart'⟩ := cast_div_eq n hd
  have hlower := valueOf_add he hsmall.le hnormal
  have hupper := valueOf_add he (Nat.succ_le_of_lt hsmall) (hnormal.imp_right Nat.le_succ_of_le)
  rw [Nat.cast_succ, Nat.succ_eq_add_one, ← Nat.add_assoc] at hupper
  rw [hsplit]
  have hcases := roundHalfEven_fraction n hd
  generalize hk : n / d = k at *
  generalize (e + 1074).toNat = t at *
  refine isNearestMagnitude_of_neighbours (a := t * 2 ^ 52 + k) ?_ ?_ ?_
  · rw [hlower]
    exact mul_le_mul_of_nonneg_right (by linarith) hplace.le
  · rw [hupper]
    exact mul_lt_mul_of_pos_right (by linarith) hplace
  · rw [hlower, hupper, ← sub_mul, ← sub_mul]
    rcases hcases with ⟨hdown, hless⟩ | ⟨hup, hmore⟩ | ⟨hhalf, hone, heven⟩
    · refine Or.inl ⟨by rw [hdown], mul_lt_mul_of_pos_right ?_ hplace⟩
      linarith
    · refine Or.inr (Or.inl ⟨by rw [hup, Nat.add_assoc], mul_lt_mul_of_pos_right ?_ hplace⟩)
      linarith
    · refine Or.inr (Or.inr ⟨?_, ?_, by omega⟩)
      · congr 1
        linarith
      · rcases hone with h | h
        · exact Or.inl (by rw [h])
        · exact Or.inr (by rw [h, Nat.add_assoc])

/-- Above the least exponent the significand starts where the bits of the exponent end. -/
theorem roundRatio_eq_min {num den n d : Nat} (hnum : 0 < num) (hden : 0 < den)
    (hscaled : scaleRatio num den (ratioExponent num den) = (n, d)) :
    roundRatio num den
      = min ((ratioExponent num den + 1074).toNat * 2 ^ 52 + roundHalfEven n d) infinityBits := by
  have hne : ¬(num = 0 ∨ den = 0) := by omega
  -- The numeral becomes a variable, or else the product with it is computed in unary.
  obtain ⟨place, hplace, hpow⟩ : ∃ p : Nat, 0x10000000000000 = p ∧ 2 ^ 52 = p := ⟨_, rfl, rfl⟩
  unfold roundRatio
  rw [if_neg hne, hplace, hpow]
  generalize ratioExponent num den = e at *
  generalize infinityBits = top
  dsimp -iota only
  rw [hscaled]

theorem roundRatio_eq {num den n d : Nat} (hnum : 0 < num) (hden : 0 < den)
    (hscaled : scaleRatio num den (ratioExponent num den) = (n, d))
    (hfinite : roundRatio num den < infinityBits) :
    roundRatio num den = (ratioExponent num den + 1074).toNat * 2 ^ 52 + roundHalfEven n d := by
  have hmin := roundRatio_eq_min hnum hden hscaled
  rw [hmin] at hfinite ⊢
  exact min_eq_left (min_lt_iff.1 hfinite |>.resolve_right (lt_irrefl _)).le

/-- **A quotient is rounded to the nearest magnitude**, unless it is too great for any. -/
theorem isNearestMagnitude_roundRatio {num den : Nat} (hden : 0 < den)
    (hfinite : roundRatio num den < infinityBits) :
    IsNearestMagnitude (roundRatio num den) (num / den) := by
  rcases Nat.eq_zero_or_pos num with rfl | hnum
  · have hzero : roundRatio 0 den = 0 := if_pos (Or.inl rfl)
    intro m
    rw [hzero, valueOf_zero, Nat.cast_zero, zero_div, sub_zero, sub_zero, abs_zero]
    exact ⟨abs_nonneg _, fun heq => Or.inl (abs_eq_zero.1 heq)⟩
  · obtain ⟨hleast, hsmall, hnormal⟩ := ratioExponent_spec hnum hden
    obtain ⟨hpos, hquotient⟩ := scaleRatio_eq num hden (ratioExponent num den)
    rcases hscaled : scaleRatio num den (ratioExponent num den) with ⟨n, d⟩
    rw [roundRatio_eq hnum hden hscaled hfinite]
    rw [hscaled] at hpos hquotient
    generalize ratioExponent num den = e at *
    simp only at hpos hquotient
    have hdQ : (0 : ℚ) < d := Nat.cast_pos.2 hpos
    rw [← hquotient] at hsmall hnormal
    have hq : (num / den : ℚ) = n / d * 2 ^ e := by
      rw [hquotient, mul_assoc, ← zpow_add₀ two_ne_zero, neg_add_cancel, zpow_zero, mul_one]
    rw [hq]
    refine isNearestMagnitude_significand hleast hpos ?_ (hnormal.imp_right fun h => ?_)
    · rw [div_lt_iff₀ hdQ] at hsmall
      rw [Nat.div_lt_iff_lt_mul hpos]
      exact_mod_cast hsmall
    · rw [le_div_iff₀ hdQ] at h
      rw [Nat.le_div_iff_mul_le hpos]
      exact_mod_cast h

theorem roundHalfEven_le {n d : Nat} (h : n / d < 2 ^ 53) : roundHalfEven n d ≤ 2 ^ 53 := by
  rcases roundHalfEven_cases n d with ⟨h', -⟩ | ⟨h', -⟩ | ⟨-, h' | h', -⟩ <;> omega

/-- A quotient of sixty-four bits is not too great. -/
theorem roundRatio_lt {num den : Nat} (hden : 0 < den) (hbound : num < 2 ^ 64 * den) :
    roundRatio num den < infinityBits := by
  rcases Nat.eq_zero_or_pos num with rfl | hnum
  · have hzero : roundRatio 0 den = 0 := if_pos (Or.inl rfl)
    rw [hzero]
    exact Nat.mul_pos (by norm_num) (by norm_num)
  · have hdenQ : (0 : ℚ) < den := Nat.cast_pos.2 hden
    obtain ⟨-, hsmall, hnormal⟩ := ratioExponent_spec hnum hden
    obtain ⟨hpos, hquotient⟩ := scaleRatio_eq num hden (ratioExponent num den)
    have hexponent : ratioExponent num den < 12 := by
      rcases hnormal with hleast | hnormal
      · omega
      · have hratio : (num / den : ℚ) < 2 ^ 64 := by
          rw [div_lt_iff₀ hdenQ]
          exact_mod_cast hbound
        have hplace : (0 : ℚ) < 2 ^ (-ratioExponent num den) := zpow_pos two_pos _
        have hpow : (2 : ℚ) ^ (52 : ℤ) < 2 ^ (64 + -ratioExponent num den) := by
          rw [zpow_add₀ two_ne_zero]
          exact hnormal.trans_lt (mul_lt_mul_of_pos_right hratio hplace)
        have := (zpow_lt_zpow_iff_right₀ one_lt_two).1 hpow
        omega
    rcases hscaled : scaleRatio num den (ratioExponent num den) with ⟨n, d⟩
    have hsignificand : roundHalfEven n d ≤ 2 ^ 53 := by
      rw [hscaled] at hpos hquotient
      refine roundHalfEven_le ((Nat.div_lt_iff_lt_mul hpos).2 ?_)
      rw [← hquotient, div_lt_iff₀ (Nat.cast_pos.2 hpos)] at hsmall
      exact_mod_cast hsmall
    rw [roundRatio_eq_min hnum hden hscaled, infinityBits]
    generalize ratioExponent num den = e at *
    omega

/-! ## The nearest number -/

/-- Opposite numbers are equally near to zero only. -/
theorem eq_zero_of_opposite {x q : ℚ} (h : |-x - q| = |x - q|) : x = 0 ∨ q = 0 := by
  rcases abs_eq_abs.1 h with h | h
  · exact Or.inl (by linarith)
  · exact Or.inr (by linarith)

/-- The nearest magnitude with the sign of `q` makes the nearest number. -/
theorem isNearest_ofMagnitude {m : Nat} {q : ℚ} (hm : m < infinityBits)
    (hnear : IsNearestMagnitude m |q|) : IsNearest (ofMagnitude (decide (q < 0)) m) q := by
  have hmagnitude := magnitudeBits_ofMagnitude (decide (q < 0)) hm
  have hsign := isNegative_ofMagnitude (decide (q < 0)) hm
  generalize hx : ofMagnitude (decide (q < 0)) m = x at *
  have habs : |x.toRat| = valueOf m := by rw [abs_toRat, hmagnitude]
  have hdist : |x.toRat - q| = |valueOf m - (|q|)| := by
    rw [toRat_eq, hsign, hmagnitude]
    rcases lt_or_ge q 0 with hq | hq
    · rw [decide_eq_true hq, if_pos rfl, abs_of_neg hq, abs_sub_comm]
      ring_nf
    · rw [decide_eq_false (not_lt.2 hq), if_neg Bool.false_ne_true, abs_of_nonneg hq, one_mul]
  -- A number is at least as far from `q` as its magnitude is from the magnitude of `q`.
  have hfar : ∀ y : Binary64, |valueOf y.magnitudeBits - (|q|)| ≤ |y.toRat - q| := fun y => by
    rw [← abs_toRat]
    exact abs_abs_sub_abs_le _ _
  refine ⟨?_, fun y _ => ?_, fun y _ heq => ?_, hsign⟩
  · rw [isFinite_iff, hmagnitude]
    exact hm
  · rw [hdist]
    exact (hnear _).1.trans (hfar y)
  · have hsame : |valueOf y.magnitudeBits - (|q|)| = |valueOf m - (|q|)| :=
      le_antisymm (by rw [← hdist, ← heq]; exact hfar y) (hnear _).1
    rcases (hnear _).2 hsame with hvalue | heven
    · rw [← abs_toRat, ← habs] at hvalue
      rcases abs_eq_abs.1 hvalue with h | h
      · exact Or.inl h
      · -- To zero no number is as near as zero itself.
        have hzero : x.toRat = 0 := by
          rw [h] at heq
          rcases eq_zero_of_opposite heq with hx | rfl
          · exact hx
          · have hleast := (hnear 0).1
            rw [abs_zero, sub_zero, sub_zero, valueOf_zero, abs_zero, ← habs, abs_abs] at hleast
            exact abs_nonpos_iff.1 hleast
        exact Or.inl (by rw [h, hzero, neg_zero])
    · refine Or.inr ?_
      rw [bits_eq, hmagnitude]
      split <;> omega

/-- **An integer of sixty-four bits is rounded to the nearest number.** -/
theorem isNearest_ofInt {i : Int} (h : i.natAbs < 2 ^ 64) : IsNearest (ofInt i) i := by
  have hfinite : roundRatio i.natAbs 1 < infinityBits := roundRatio_lt Nat.one_pos (by omega)
  have hnear := isNearestMagnitude_roundRatio Nat.one_pos hfinite
  have habs : ((i.natAbs : Nat) / (1 : Nat) : ℚ) = |(i : ℚ)| := by
    rw [Nat.cast_one, div_one, Nat.cast_natAbs, Int.cast_abs]
  have hsign : decide (i < 0) = decide ((i : ℚ) < 0) := by simp only [Int.cast_lt_zero]
  rw [habs] at hnear
  rw [ofInt, hsign]
  exact isNearest_ofMagnitude hfinite hnear

/-- An integer between two numbers, the smaller of which has an even significand. -/
example : ofInt 9007199254740993 = ⟨0x4340000000000000⟩ := by decide +kernel

/-- Seen from the side of their sign, numbers are as far off as their magnitudes. -/
theorem exists_side (negative : Bool) (q : ℚ) : ∃ side : ℚ, ∀ z : Binary64,
    z.isNegative = negative → |z.toRat - q| = |valueOf z.magnitudeBits - side| := by
  refine ⟨if negative then -q else q, fun z hz => ?_⟩
  rw [toRat_eq, hz]
  split
  · rw [abs_sub_comm]
    ring_nf
  · rw [one_mul]

/-- What lies between two that are equally far is nearer. -/
theorem nearer_between {a b c q : ℚ} (hab : a < b) (hbc : b < c) (h : |c - q| = |a - q|) :
    |b - q| < |a - q| := by
  rcases abs_eq_abs.1 h with h | h
  · linarith
  · rw [abs_of_neg (by linarith : a - q < 0), abs_lt]
    constructor <;> linarith

theorem IsNearest.magnitudeBits_le {x y : Binary64} {q : ℚ} (hx : IsNearest x q)
    (hy : IsNearest y q) : y.magnitudeBits ≤ x.magnitudeBits := by
  by_contra hlt
  have hsign : y.isNegative = x.isNegative := hy.sign.trans hx.sign.symm
  have hdist : |y.toRat - q| = |x.toRat - q| :=
    le_antisymm (hy.closest x hx.finite) (hx.closest y hy.finite)
  have hbetween : x.magnitudeBits + 1 < infinityBits := by
    have := isFinite_iff.1 hy.finite
    omega
  obtain ⟨side, hside⟩ := exists_side x.isNegative q
  have hvalues := valueOf_strictMono (not_le.1 hlt)
  have hne : x.toRat ≠ y.toRat := by
    rw [toRat_eq, toRat_eq, hsign]
    split
    · intro h
      linarith
    · intro h
      linarith
  have hevenX := (hx.even y hy.finite hdist).resolve_left (Ne.symm hne)
  have hevenY := (hy.even x hx.finite hdist.symm).resolve_left hne
  rw [bits_eq] at hevenX hevenY
  -- Both are even, so that there is a magnitude between them.
  have hgap : x.magnitudeBits + 1 < y.magnitudeBits := by
    rw [hsign] at hevenY
    split at hevenX <;> split at hevenY <;> omega
  have hnearer := hx.closest (ofMagnitude x.isNegative (x.magnitudeBits + 1))
    (isFinite_iff.2 (by rwa [magnitudeBits_ofMagnitude _ hbetween]))
  rw [hside x rfl, hside _ (isNegative_ofMagnitude _ hbetween),
    magnitudeBits_ofMagnitude _ hbetween] at hnearer
  rw [hside x rfl, hside y hsign] at hdist
  have hbelow := valueOf_strictMono (Nat.lt_succ_self x.magnitudeBits)
  have habove := valueOf_strictMono hgap
  exact absurd hnearer (not_le.2 (nearer_between hbelow habove hdist))

/-- Being nearest determines the number. -/
theorem IsNearest.unique {x y : Binary64} {q : ℚ} (hx : IsNearest x q) (hy : IsNearest y q) :
    x = y := by
  have hsign : x.isNegative = y.isNegative := hx.sign.trans hy.sign.symm
  have hmagnitude := le_antisymm (hy.magnitudeBits_le hx) (hx.magnitudeBits_le hy)
  have hbits : x.bits = y.bits := by
    rw [← UInt64.toNat_inj, bits_eq, bits_eq y, hsign, hmagnitude]
  cases x
  cases y
  exact congrArg Binary64.mk hbits

end NodePipeline.Binary64
