import Mathlib.Algebra.Order.Field.Power
import Mathlib.Tactic.FieldSimp
import Mathlib.Tactic.Linarith
import Mathlib.Tactic.NormNum
import Mathlib.Tactic.Positivity
import Mathlib.Tactic.Ring
import Overrides.Number.Literal
import Overrides.Number.Shortest

/-!
# `Overrides.Proofs.Number.Value`: the numbers that doubles stand for

A double and a decimal are pairs of naturals and integers; here they become
rational numbers. Rounding a quotient gives a double in its normal form: the
significand has 53 bits, or the exponent is the least one. So every double that
a literal stands for is in that form.

* `Binary64.Finite`: the normal form.
* `Binary64.finite_ofQuotient`: rounding gives it.
* `Literal.finite_of_value`: every literal gives it.
-/

set_option autoImplicit false

namespace Overrides.Number

/-! ### Powers -/

/-- Powers of two are the same among the rationals. -/
theorem cast_twoTo (k : Nat) : (twoTo k : ℚ) = 2 ^ k := Nat.cast_pow 2 k

/-- Powers of ten are the same among the rationals. -/
theorem cast_tenTo (k : Nat) : (tenTo k : ℚ) = 10 ^ k := Nat.cast_pow 10 k

/-- No power of two is zero, so it can be divided by. -/
theorem twoTo_pos (k : Nat) : 0 < twoTo k := Nat.pow_pos (by decide)

/-- No power of ten is zero, so it can be divided by. -/
theorem tenTo_pos (k : Nat) : 0 < tenTo k := Nat.pow_pos (by decide)

/-- A power with an integer exponent, as a quotient of two with natural ones. -/
theorem pow_div_pow_toNat {b : ℚ} (hb : b ≠ 0) (e : Int) :
    b ^ e.toNat / b ^ (-e).toNat = b ^ e := by
  rw [← zpow_natCast, ← zpow_natCast, ← zpow_sub₀ hb]
  congr 1
  omega

/-- Quotients of naturals are compared by cross multiplication. -/
theorem div_le_div_iff_mul {a b c d : Nat} (hb : b ≠ 0) (hd : d ≠ 0) :
    (a / b : ℚ) ≤ c / d ↔ a * d ≤ c * b := by
  rw [div_le_div_iff₀ (by positivity) (by positivity)]
  exact_mod_cast Iff.rfl

/-- Quotients are compared by multiplying out, strictly. -/
theorem div_lt_div_iff_mul {a b c d : Nat} (hb : b ≠ 0) (hd : d ≠ 0) :
    (a / b : ℚ) < c / d ↔ a * d < c * b := by
  rw [← not_le, div_le_div_iff_mul hd hb, Nat.not_le]

/-! ### Values -/

/-- The absolute value of a double. -/
def Binary64.magnitude (x : Binary64) : ℚ := x.significand * 2 ^ x.exponent

/-- The value of a double. -/
def Binary64.toRat (x : Binary64) : ℚ := if x.negative then -x.magnitude else x.magnitude

/-- The value of a decimal. -/
def Decimal.toRat (d : Decimal) : ℚ := d.digits * 10 ^ d.exponent

/-- A decimal as a quotient of two naturals. One of the two powers of ten is one. -/
theorem Decimal.toRat_eq_div (d : Decimal) :
    d.toRat = (d.digits * tenTo d.exponent.toNat : Nat) / (tenTo (-d.exponent).toNat : Nat) := by
  rw [toRat, ← pow_div_pow_toNat (by norm_num) d.exponent, Nat.cast_mul, cast_tenTo, cast_tenTo,
    mul_div_assoc]

namespace Binary64

/-- The normal form of a finite double: 53 bits, unless the exponent cannot be
any smaller. -/
structure Finite (x : Binary64) : Prop where
  lt : x.significand < 2 ^ 53
  normal : x.exponent = minExponent ∨ 2 ^ 52 ≤ x.significand
  minExponent_le : minExponent ≤ x.exponent
  le_maxExponent : x.exponent ≤ maxExponent

/-- Zero is a double, with either sign. -/
theorem finite_zero (negative : Bool) : (zero negative).Finite :=
  ⟨Nat.two_pow_pos 53, .inl rfl, Int.le_refl _, show minExponent ≤ maxExponent by decide⟩

/-! ### Rounding a quotient -/

/-- The power of two next below a quotient. Both bounds are needed: the lower
one for the size of the significand, the upper one for its least digit. -/
theorem floorLog2_spec {num den : Nat} (hnum : num ≠ 0) (hden : den ≠ 0) :
    (2 : ℚ) ^ floorLog2 num den ≤ num / den ∧
      (num / den : ℚ) < 2 ^ (floorLog2 num den + 1) := by
  have hn : (0 : ℚ) < num := by positivity
  have hd : (0 : ℚ) < den := by positivity
  have hnumLow : (2 : ℚ) ^ (num.log2 : Int) ≤ num := by
    exact_mod_cast Nat.log2_self_le hnum
  have hnumHigh : (num : ℚ) < 2 ^ ((num.log2 : Int) + 1) := by
    exact_mod_cast Nat.lt_log2_self
  have hdenLow : (2 : ℚ) ^ (den.log2 : Int) ≤ den := by
    exact_mod_cast Nat.log2_self_le hden
  have hdenHigh : (den : ℚ) < 2 ^ ((den.log2 : Int) + 1) := by
    exact_mod_cast Nat.lt_log2_self
  rw [floorLog2]
  generalize hk : (num.log2 : Int) - den.log2 = k
  -- The difference of the logarithms is the power or the one behind it.
  have hcompare : den * twoTo k.toNat ≤ num * twoTo (-k).toNat ↔ (2 : ℚ) ^ k ≤ num / den := by
    rw [← pow_div_pow_toNat two_ne_zero, ← cast_twoTo, ← cast_twoTo,
      div_le_div_iff_mul (twoTo_pos _).ne' hden, Nat.mul_comm]
  simp only [hcompare]
  by_cases h : (2 : ℚ) ^ k ≤ num / den
  · rw [if_pos h]
    refine ⟨h, ?_⟩
    rw [div_lt_iff₀ hd]
    calc (num : ℚ) < 2 ^ ((num.log2 : Int) + 1) := hnumHigh
      _ = 2 ^ (k + 1) * 2 ^ (den.log2 : Int) := by
        rw [← zpow_add₀ two_ne_zero]
        congr 1
        omega
      _ ≤ 2 ^ (k + 1) * den := by gcongr
  · rw [if_neg h, sub_add_cancel]
    refine ⟨?_, not_le.mp h⟩
    rw [le_div_iff₀ hd]
    calc (2 : ℚ) ^ (k - 1) * den ≤ 2 ^ (k - 1) * 2 ^ ((den.log2 : Int) + 1) := by gcongr
      _ = 2 ^ (num.log2 : Int) := by
        rw [← zpow_add₀ two_ne_zero]
        congr 1
        omega
      _ ≤ num := hnumLow

/-- Rounding to an integer goes down or one up. Which of the two it is depends
on the remainder, and is not needed here. -/
theorem divEven_bounds (num den : Nat) :
    num / den ≤ divEven num den ∧ divEven num den ≤ num / den + 1 := by
  show num / den ≤ (if 2 * (num % den) < den then num / den
      else if den < 2 * (num % den) then num / den + 1 else num / den + num / den % 2) ∧
    (if 2 * (num % den) < den then num / den
      else if den < 2 * (num % den) then num / den + 1 else num / den + num / den % 2) ≤ _
  split
  · omega
  · split <;> omega

/-- The quotient in units of `2 ^ q`, cut down to an integer, has 53 bits where
`q` is the exponent that rounding takes. -/
theorem scaled_bounds {num den : Nat} {q : Int} (hnum : num ≠ 0) (hden : den ≠ 0)
    (hq : q = max minExponent (floorLog2 num den - 52)) :
    num * twoTo (-q).toNat / (den * twoTo q.toNat) < 2 ^ 53 ∧
      (q = minExponent ∨ 2 ^ 52 ≤ num * twoTo (-q).toNat / (den * twoTo q.toNat)) := by
  obtain ⟨hlow, hhigh⟩ := floorLog2_spec hnum hden
  have hscale : (0 : ℚ) < den * 2 ^ q.toNat := by positivity
  -- Scaling multiplies by a power of two with an exponent of either sign.
  have hunits : (num * 2 ^ (-q).toNat : ℚ) = num / den * 2 ^ (-q) * (den * 2 ^ q.toNat) := by
    rw [← pow_div_pow_toNat two_ne_zero (-q), neg_neg]
    field_simp
  have hpos : 0 < den * twoTo q.toNat := Nat.mul_pos (Nat.pos_of_ne_zero hden) (twoTo_pos _)
  constructor
  -- The quotient is below the next power of two, 53 places above its exponent.
  · rw [Nat.div_lt_iff_lt_mul hpos]
    have hbits : (num / den : ℚ) * 2 ^ (-q) < 2 ^ 53 := by
      calc (num / den : ℚ) * 2 ^ (-q) < 2 ^ (floorLog2 num den + 1) * 2 ^ (-q) := by gcongr
        _ = 2 ^ (floorLog2 num den + 1 - q) := by rw [← zpow_add₀ two_ne_zero, sub_eq_add_neg]
        _ ≤ 2 ^ (53 : Int) := zpow_le_zpow_right₀ one_le_two (by omega)
        _ = 2 ^ 53 := by norm_num
    have : (num * twoTo (-q).toNat : ℚ) < 2 ^ 53 * (den * twoTo q.toNat) := by
      rw [cast_twoTo, cast_twoTo, hunits]
      exact mul_lt_mul_of_pos_right hbits hscale
    exact_mod_cast this
  · by_cases hmin : q = minExponent
    · exact .inl hmin
    -- Unless the exponent is the least one, the leading bit stands in place 52.
    · refine .inr ((Nat.le_div_iff_mul_le hpos).mpr ?_)
      have hbits : (2 : ℚ) ^ 52 ≤ num / den * 2 ^ (-q) := by
        calc (2 : ℚ) ^ 52 = 2 ^ (floorLog2 num den - q) := by
              rw [show floorLog2 num den - q = 52 by omega]
              norm_num
          _ = 2 ^ floorLog2 num den * 2 ^ (-q) := by
              rw [← zpow_add₀ two_ne_zero, sub_eq_add_neg]
          _ ≤ num / den * 2 ^ (-q) := by gcongr
      have : (2 : ℚ) ^ 52 * (den * twoTo q.toNat) ≤ num * twoTo (-q).toNat := by
        rw [cast_twoTo, cast_twoTo, hunits]
        exact mul_le_mul_of_nonneg_right hbits hscale.le
      exact_mod_cast this

/-- Rounding gives a double in normal form, with an exponent that leaves no
more than 53 bits in front of it. -/
theorem ofQuotient_spec {negative : Bool} {num den : Nat} {x : Binary64} (hden : den ≠ 0)
    (h : ofQuotient negative num den = some x) :
    x.Finite ∧ (num ≠ 0 → floorLog2 num den - 52 ≤ x.exponent) := by
  rw [ofQuotient] at h
  split at h
  · rename_i hnum
    cases h
    exact ⟨finite_zero negative, absurd hnum⟩
  · rename_i hnum
    dsimp only at h
    generalize hq : max minExponent (floorLog2 num den - 52) = q at h
    obtain ⟨hlt, hnormal⟩ := scaled_bounds hnum hden hq.symm
    obtain ⟨hlow, hhigh⟩ := divEven_bounds (num * twoTo (-q).toNat) (den * twoTo q.toNat)
    generalize divEven (num * twoTo (-q).toNat) (den * twoTo q.toNat) = m at h hlow hhigh
    have htwo : twoTo 53 = 2 ^ 53 := rfl
    have hmin : minExponent ≤ q := by omega
    -- A significand of 54 bits is a power of two, and gives way to the next exponent.
    by_cases hcarry : m = twoTo 53
    · simp only [if_pos hcarry, Option.ite_none_left_eq_some, Option.some.injEq, not_lt] at h
      obtain ⟨hmax, rfl⟩ := h
      refine ⟨⟨show twoTo 52 < 2 ^ 53 by decide, .inr (Nat.le_refl _), ?_, hmax⟩, fun _ => ?_⟩
      · show minExponent ≤ q + 1
        omega
      · show floorLog2 num den - 52 ≤ q + 1
        omega
    · simp only [if_neg hcarry, Option.ite_none_left_eq_some, Option.some.injEq, not_lt] at h
      obtain ⟨hmax, rfl⟩ := h
      refine ⟨⟨?_, hnormal.imp_right (Nat.le_trans · hlow), hmin, hmax⟩, fun _ => ?_⟩
      · show m < 2 ^ 53
        omega
      · show floorLog2 num den - 52 ≤ q
        omega

/-- What rounding a quotient gives is a double in normal form. -/
theorem finite_ofQuotient {negative : Bool} {num den : Nat} {x : Binary64} (hden : den ≠ 0)
    (h : ofQuotient negative num den = some x) : x.Finite := (ofQuotient_spec hden h).1

/-- A quotient that is not below one does not round to zero. So a power of ten,
and whatever it divides, can be divided by. -/
theorem significand_ofQuotient_ne_zero {negative : Bool} {num den : Nat} {x : Binary64}
    (hden : den ≠ 0) (hle : den ≤ num) (h : ofQuotient negative num den = some x) :
    x.significand ≠ 0 := by
  obtain ⟨hfinite, hexponent⟩ := ofQuotient_spec hden h
  have hnum : num ≠ 0 := by omega
  have hone : (1 : ℚ) ≤ num / den := by
    rw [one_le_div (by positivity)]
    exact_mod_cast hle
  -- Its leading bit stands at the unit or above, far from where doubles end.
  have hlog : 0 < floorLog2 num den + 1 := by
    have hhigh := hone.trans_lt (floorLog2_spec hnum hden).2
    rwa [← zpow_zero (2 : ℚ), zpow_lt_zpow_iff_right₀ one_lt_two] at hhigh
  have hmin : minExponent = -1074 := rfl
  have := hexponent hnum
  have := hfinite.normal
  omega

/-- A product of doubles is rounded, so it is a double in normal form. -/
theorem finite_mul {x y z : Binary64} (h : x.mul y = some z) : z.Finite :=
  finite_ofQuotient (Nat.mul_pos (twoTo_pos _) (twoTo_pos _)).ne' h

/-- A quotient of doubles is one too, where the divisor is not zero. -/
theorem finite_div {x y z : Binary64} (hy : y.significand ≠ 0) (h : x.div y = some z) :
    z.Finite :=
  finite_ofQuotient
    (Nat.mul_ne_zero (twoTo_pos _).ne' (Nat.mul_ne_zero hy (twoTo_pos _).ne')) h

end Binary64

/-! ### Literals -/

/-- A power of ten does not round to zero. -/
theorem powerOfTen_ne_zero {k : Nat} {x : Binary64} (h : powerOfTen k = some x) :
    x.significand ≠ 0 :=
  Binary64.significand_ofQuotient_ne_zero one_ne_zero (tenTo_pos k) h

/-- Scaling up by a power of ten gives a double in normal form, if the power has one. -/
theorem finite_mul_powerOfTen {k : Nat} {x y : Binary64}
    (h : (powerOfTen k).bind x.mul = some y) : y.Finite := by
  obtain ⟨p, -, h⟩ := Option.bind_eq_some_iff.mp h
  exact Binary64.finite_mul h

/-- Scaling down by a power of ten gives one too. -/
theorem finite_div_powerOfTen {k : Nat} {x y : Binary64}
    (h : (powerOfTen k).bind x.div = some y) : y.Finite := by
  obtain ⟨p, hp, h⟩ := Option.bind_eq_some_iff.mp h
  exact Binary64.finite_div (powerOfTen_ne_zero hp) h

/-- Scaling by any power of ten gives a double in normal form, be it in one step or in
several. -/
theorem finite_scaleByTen {fuel : Nat} {x y : Binary64} {e : Int} (hx : x.Finite)
    (h : scaleByTen fuel x e = some y) : y.Finite := by
  -- Each round divides by a power of ten, so the result of a round is rounded too.
  induction fuel generalizing x e with
  | zero =>
    rw [scaleByTen] at h
    split_ifs at h
    · cases h
      exact hx
    · exact finite_mul_powerOfTen h
    · exact finite_div_powerOfTen h
    · cases h
      exact Binary64.finite_zero _
  | succ fuel ih =>
    rw [scaleByTen] at h
    split_ifs at h
    · cases h
      exact hx
    · exact finite_mul_powerOfTen h
    · exact finite_div_powerOfTen h
    · obtain ⟨p, hp, h⟩ := Option.bind_eq_some_iff.mp h
      obtain ⟨z, hz, h⟩ := Option.bind_eq_some_iff.mp h
      exact ih (Binary64.finite_div (powerOfTen_ne_zero hp) hz) h

/-- What a decimal is read as is a double in normal form. Where the value is out of range
there is no double. -/
theorem finite_doubleOf {negative : Bool} {digits : Nat} {e : Int} {x : Binary64}
    (h : doubleOf negative digits e = .double x) : x.Finite := by
  rw [doubleOf] at h
  split at h
  · cases h
  · rename_i hrounded
    split at h
    · rename_i hscaled
      cases h
      exact finite_scaleByTen (Binary64.finite_ofQuotient one_ne_zero hrounded) hscaled
    · cases h

/-- Every double that a literal stands for is in normal form. An overflow is
refused where the literal is read, so no infinity is among them. -/
theorem Literal.finite_of_value {l : Literal} {x : Binary64} (h : l.value = .double x) :
    x.Finite := by
  rw [Literal.value] at h
  split at h
  dsimp only at h
  split_ifs at h
  · exact finite_doubleOf h
  · exact finite_doubleOf h

end Overrides.Number
