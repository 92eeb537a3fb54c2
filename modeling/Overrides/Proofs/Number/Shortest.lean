import Mathlib.Algebra.Order.Floor.Semifield
import Mathlib.Data.Rat.Floor
import Overrides.Proofs.Number.Value

/-!
# `Overrides.Proofs.Number.Shortest`: where the shortest decimal lies

The search for the shortest decimal looks at coarse grids first and takes a grid
point out of the interval of the double. After the last grid it takes what is
there, and that is in the interval too: a double has 53 bits, which is less than
17 digits. So the shortest decimal is never outside the interval, and the
intervals of two doubles lie one behind the other.

What this leaves open is on which side of a given number the decimal lies. It
changes sides nowhere that matters to a reader of whole numbers: an integer up to
10^16 is its own shortest decimal, and any other double has the same integers
below it as its decimal has.

* `Binary64.shortest_mem`: the shortest decimal lies in the interval.
* `Binary64.highest_le_lowest`: the intervals of two doubles.
* `Binary64.toRat_shortest_of_integer`: integers are written exactly.
* `Binary64.floor_shortest`: a decimal has the whole part of its double.
-/

set_option autoImplicit false

namespace Overrides.Number

/-! ### Powers of ten -/

/-- A number has digits enough. -/
theorem lt_pow_digitCount (n : Nat) : n < 10 ^ digitCount n :=
  (Nat.length_toDigits_le_iff (by decide) Nat.length_toDigits_pos).mp (Nat.le_refl _)

/-- A number has no digit too many: its first one is not zero. With the bound on
the other side this says how many digits it has. -/
theorem pow_digitCount_le {n : Nat} (h : n ≠ 0) : 10 ^ (digitCount n - 1) ≤ n := by
  by_cases hone : digitCount n = 1
  · rw [hone]
    exact Nat.pos_of_ne_zero h
  · -- The digits do not fit one place less.
    have hpos : 0 < digitCount n := Nat.length_toDigits_pos
    refine Nat.le_of_not_lt fun hlt => ?_
    have := (Nat.length_toDigits_le_iff (by decide) (by omega)).mpr hlt
    rw [← digitCount] at this
    omega

/-- The power of ten that the search starts with is not above the number. The
search goes from coarse grids to fine ones, and from here on it has seventeen
digits to find one. -/
theorem pow_floorLog10_le {num den : Nat} (hnum : num ≠ 0) (hden : den ≠ 0) :
    (10 : ℚ) ^ floorLog10 num den ≤ num / den := by
  have hd : (0 : ℚ) < den := by positivity
  rw [floorLog10, le_div_iff₀ hd]
  split
  · rename_i hle
    -- From one on the digits of the whole part are counted.
    have hquot : num / den ≠ 0 := (Nat.div_pos hle (Nat.pos_of_ne_zero hden)).ne'
    have hcount : 0 < digitCount (num / den) := Nat.length_toDigits_pos
    have hpow : 10 ^ (digitCount (num / den) - 1) * den ≤ num :=
      (Nat.le_div_iff_mul_le (Nat.pos_of_ne_zero hden)).mp (pow_digitCount_le hquot)
    rw [show (digitCount (num / den) : Int) - 1 = ((digitCount (num / den) - 1 : Nat) : Int) by
      omega, zpow_natCast]
    exact_mod_cast hpow
  · -- Below one the inverse is rounded up, and its digits are counted.
    dsimp only
    generalize hr : (den + num - 1) / num = r
    have hceil : den ≤ r * num := by
      have hpos := Nat.pos_of_ne_zero hnum
      have := Nat.lt_div_mul_add hpos (a := den + num - 1)
      rw [hr] at this
      omega
    generalize hk : (if r ≤ 1 then 0 else digitCount (r - 1)) = k
    have hpow : r ≤ 10 ^ k := by
      split_ifs at hk with hone
      · rw [← hk]
        exact hone
      · have := lt_pow_digitCount (r - 1)
        rw [hk] at this
        omega
    have : (den : ℚ) ≤ 10 ^ k * num := by
      exact_mod_cast hceil.trans (Nat.mul_le_mul_right num hpow)
    rw [Int.negOfNat_eq, Int.ofNat_eq_natCast, zpow_neg, zpow_natCast,
      inv_mul_le_iff₀ (by positivity)]
    exact this

/-- From one on the search does not start below the units. -/
theorem floorLog10_nonneg {num den : Nat} (h : den ≤ num) : 0 ≤ floorLog10 num den := by
  have hcount : 0 < digitCount (num / den) := Nat.length_toDigits_pos
  rw [floorLog10, if_pos h]
  omega

/-- Zeros at the end of the digits go into the exponent. The value stays, so all
that is shown of the value holds of what is written. -/
theorem Decimal.toRat_stripped (fuel : Nat) (d : Decimal) :
    (Decimal.stripped fuel d).toRat = d.toRat := by
  induction fuel generalizing d with
  | zero => rfl
  | succ fuel ih =>
    rw [Decimal.stripped]
    split
    · rename_i hten
      have hdigits : (d.digits : ℚ) = (d.digits / 10 : Nat) * 10 := by
        exact_mod_cast (Nat.div_mul_cancel (Nat.dvd_of_mod_eq_zero hten.2)).symm
      rw [ih, Decimal.toRat, Decimal.toRat, hdigits, zpow_add_one₀ (by norm_num)]
      ring
    · rfl

/-! ### Intervals -/

namespace Interval

variable {i : Interval} {d : Decimal} {p : Int}

/-- The lower end. -/
def lowest (i : Interval) : ℚ := i.low / i.den

/-- The number that the interval is about. -/
def middle (i : Interval) : ℚ := i.value / i.den

/-- The upper end. -/
def highest (i : Interval) : ℚ := i.high / i.den

/-- A number lies between the ends, or on one of them where they count. -/
def Holds (i : Interval) (v : ℚ) : Prop :=
  if i.closed then i.lowest ≤ v ∧ v ≤ i.highest else i.lowest < v ∧ v < i.highest

/-- What an interval holds lies between its ends, whether they belong to it or not. -/
theorem Holds.mem {v : ℚ} (h : i.Holds v) : i.lowest ≤ v ∧ v ≤ i.highest := by
  rw [Holds] at h
  split at h
  · exact h
  · exact ⟨h.1.le, h.2.le⟩

/-- What is tested on naturals is whether the interval holds the decimal. Both
sides were multiplied by the denominators, to compare without division. -/
theorem has_iff (hden : i.den ≠ 0) : i.has d = true ↔ i.Holds d.toRat := by
  have hten : tenTo (-d.exponent).toNat ≠ 0 := (tenTo_pos _).ne'
  rw [has, Holds, lowest, highest, Decimal.toRat_eq_div]
  split
  · rw [Bool.and_eq_true, decide_eq_true_eq, decide_eq_true_eq, div_le_div_iff_mul hden hten,
      div_le_div_iff_mul hten hden]
  · rw [Bool.and_eq_true, decide_eq_true_eq, decide_eq_true_eq, div_lt_div_iff_mul hden hten,
      div_lt_div_iff_mul hten hden]

/-- A hit on a grid is a grid point that the interval holds. Which of the two
neighbours it is does not matter for what is shown of it. -/
theorem onGrid_eq_some (h : i.onGrid p = some d) : i.has d = true ∧ d.exponent = p := by
  rw [onGrid] at h
  split at h
  · rename_i hlower hupper
    -- With both neighbours in the interval the nearer one is taken, of equal ones the even one.
    split_ifs at h <;> cases h
    · exact ⟨hlower, rfl⟩
    · exact ⟨hupper, rfl⟩
    · exact ⟨hlower, rfl⟩
    · exact ⟨hupper, rfl⟩
  · rename_i hlower _
    cases h
    exact ⟨hlower, rfl⟩
  · rename_i hupper
    cases h
    exact ⟨hupper, rfl⟩
  · cases h

/-- Where the middle is an integer, the grid of the integers is hit there, since no other
point of the grid is as near. -/
theorem onGrid_zero (hden : i.den ≠ 0) {n : Nat} (hmiddle : i.value = n * i.den)
    (hhas : i.has ⟨n, 0⟩ = true) : i.onGrid 0 = some ⟨n, 0⟩ := by
  have hzero : tenTo 0 = 1 := rfl
  have hquot : i.value * tenTo (-(0 : Int)).toNat / (i.den * tenTo (0 : Int).toNat) = n := by
    show i.value * tenTo 0 / (i.den * tenTo 0) = n
    rw [hzero, Nat.mul_one, Nat.mul_one, hmiddle, Nat.mul_div_cancel _ (Nat.pos_of_ne_zero hden)]
  -- Nothing is left over, so the point below is the middle itself.
  have hrest : i.value * tenTo (-(0 : Int)).toNat % (i.den * tenTo (0 : Int).toNat) = 0 := by
    show i.value * tenTo 0 % (i.den * tenTo 0) = 0
    rw [hzero, Nat.mul_one, Nat.mul_one, hmiddle, Nat.mul_mod_left]
  have hnear : 2 * 0 < i.den * tenTo (0 : Int).toNat := by
    show 0 < i.den * tenTo 0
    rw [hzero]
    omega
  rw [onGrid]
  simp only [hquot, hrest, hhas, if_pos hnear]
  split <;> simp_all

/-- The search ends inside the interval, if that reaches down to the next point
of the grid behind the last one. -/
theorem search_mem (hden : i.den ≠ 0) (hmiddle : i.lowest ≤ i.middle ∧ i.middle ≤ i.highest)
    (fuel : Nat) (p : Int) (hlast : i.lowest ≤ i.middle - 10 ^ (p - fuel)) :
    i.lowest ≤ (i.search fuel p).toRat ∧ (i.search fuel p).toRat ≤ i.highest := by
  induction fuel generalizing p with
  | zero =>
    -- The point below the middle is less than one step of the grid away from it.
    rw [Nat.cast_zero, sub_zero] at hlast
    have hten : (0 : ℚ) < 10 ^ p := by positivity
    have hgrid : (i.value * tenTo (-p).toNat : Nat) / ((i.den * tenTo p.toNat : Nat) : ℚ)
        = i.middle / 10 ^ p := by
      rw [← pow_div_pow_toNat (by norm_num) p, middle, Nat.cast_mul, Nat.cast_mul, cast_tenTo,
        cast_tenTo]
      field_simp
    have hbelow := Nat.floor_le (show (0 : ℚ) ≤ i.middle / 10 ^ p by rw [← hgrid]; positivity)
    have habove := Nat.lt_floor_add_one (i.middle / 10 ^ p)
    rw [← hgrid, Nat.floor_div_eq_div, hgrid] at hbelow habove
    rw [le_div_iff₀ hten] at hbelow
    rw [div_lt_iff₀ hten, add_mul, one_mul] at habove
    rw [search, Decimal.toRat]
    exact ⟨by linarith, hbelow.trans hmiddle.2⟩
  | succ fuel ih =>
    rw [search]
    split
    · rename_i d hhit
      exact ((has_iff hden).mp (onGrid_eq_some hhit).1).mem
    · refine ih (p - 1) ?_
      rwa [show p - 1 - (fuel : Int) = p - (fuel + 1 : Nat) by omega]

/-- The search finds an integer that the interval is about, if coarser grids
offer nothing else and the integers are among the grids. -/
theorem search_integer (hden : i.den ≠ 0) {n : Nat} (hmiddle : i.value = n * i.den)
    (hhas : i.has ⟨n, 0⟩ = true)
    (hcoarse : ∀ d : Decimal, 0 < d.exponent → i.has d = true → d.toRat = n)
    {fuel : Nat} (hp : 0 ≤ p) (hfuel : p < fuel) : (i.search fuel p).toRat = n := by
  induction fuel generalizing p with
  | zero => omega
  | succ fuel ih =>
    rw [search]
    split
    · rename_i d hhit
      -- A hit on a coarser grid is the same number, and the grid of the integers is hit.
      by_cases hzero : p = 0
      · rw [hzero, onGrid_zero hden hmiddle hhas] at hhit
        cases hhit
        rw [Decimal.toRat, zpow_zero, mul_one]
      · obtain ⟨hhasd, hexponent⟩ := onGrid_eq_some hhit
        exact hcoarse d (by omega) hhasd
    · rename_i hnone
      have hzero : p ≠ 0 := by
        rintro rfl
        rw [onGrid_zero hden hmiddle hhas] at hnone
        cases hnone
      exact ih (by omega) (by omega)

end Interval

namespace Binary64

variable {x y : Binary64}

/-- The ends of an interval are quotients that can be taken. -/
theorem interval_den_ne_zero (x : Binary64) : x.interval.den ≠ 0 := (twoTo_pos _).ne'

/-- The numerators of the interval count quarters of the last place. -/
theorem quarter_eq (x : Binary64) :
    (twoTo (x.exponent - 2).toNat : ℚ) / x.interval.den = 2 ^ (x.exponent - 2) := by
  show (twoTo (x.exponent - 2).toNat : ℚ) / twoTo (2 - x.exponent).toNat = _
  rw [cast_twoTo, cast_twoTo, ← neg_sub x.exponent 2, pow_div_pow_toNat two_ne_zero]

/-- The last place of a double is four of these quarters. -/
theorem pow_exponent_eq (x : Binary64) : (2 : ℚ) ^ x.exponent = 4 * 2 ^ (x.exponent - 2) := by
  rw [zpow_sub₀ two_ne_zero]
  norm_num
  ring

/-- Half of a last place is two quarters of it. -/
theorem pow_exponent_sub_one_eq (x : Binary64) :
    (2 : ℚ) ^ (x.exponent - 1) = 2 * 2 ^ (x.exponent - 2) := by
  rw [zpow_sub₀ two_ne_zero, zpow_sub₀ two_ne_zero]
  norm_num
  ring

/-- The interval of a double is about its magnitude. -/
theorem middle_interval (x : Binary64) : x.interval.middle = x.magnitude := by
  show ((4 * x.significand * twoTo (x.exponent - 2).toNat : Nat) : ℚ) / x.interval.den = _
  rw [Nat.cast_mul, mul_div_assoc, quarter_eq, magnitude, pow_exponent_eq]
  push_cast
  ring

/-- The interval ends half a last place above the magnitude. -/
theorem highest_interval (x : Binary64) :
    x.interval.highest = x.magnitude + 2 ^ (x.exponent - 1) := by
  show (((4 * x.significand + 2) * twoTo (x.exponent - 2).toNat : Nat) : ℚ) / x.interval.den = _
  rw [Nat.cast_mul, mul_div_assoc, quarter_eq, magnitude, pow_exponent_eq,
    pow_exponent_sub_one_eq]
  push_cast
  ring

/-- Below a power of two the next double is half as far away. At the least
exponent the doubles are evenly spaced, so there the distance is the same on
both sides. -/
theorem lowest_interval (hx : x.significand ≠ 0) :
    x.interval.lowest = x.magnitude -
      if x.significand = 2 ^ 52 ∧ minExponent < x.exponent then 2 ^ (x.exponent - 2)
      else 2 ^ (x.exponent - 1) := by
  show (((if x.significand = twoTo 52 ∧ minExponent < x.exponent then 4 * x.significand - 1
    else 4 * x.significand - 2) * twoTo (x.exponent - 2).toNat : Nat) : ℚ) / x.interval.den = _
  rw [Nat.cast_mul, mul_div_assoc, quarter_eq, magnitude, pow_exponent_eq,
    pow_exponent_sub_one_eq, show twoTo 52 = 2 ^ 52 from rfl]
  split
  · rw [Nat.cast_sub (by omega)]
    push_cast
    ring
  · rw [Nat.cast_sub (by omega)]
    push_cast
    ring

/-- The interval starts half a last place below the magnitude at the earliest. -/
theorem le_lowest (hx : x.significand ≠ 0) :
    x.magnitude - 2 ^ (x.exponent - 1) ≤ x.interval.lowest := by
  have hquarter : (0 : ℚ) < 2 ^ (x.exponent - 2) := by positivity
  have hhalf := pow_exponent_sub_one_eq x
  rw [lowest_interval hx]
  split <;> linarith

/-- It starts a quarter of a last place below the magnitude at least. -/
theorem lowest_le (hx : x.significand ≠ 0) :
    x.interval.lowest ≤ x.magnitude - 2 ^ (x.exponent - 2) := by
  have hquarter : (0 : ℚ) < 2 ^ (x.exponent - 2) := by positivity
  have hhalf := pow_exponent_sub_one_eq x
  rw [lowest_interval hx]
  split <;> linarith

/-- A double other than zero has a positive magnitude. -/
theorem magnitude_pos (hx : x.significand ≠ 0) : 0 < x.magnitude := by
  have : (0 : ℚ) < x.significand := by positivity
  rw [magnitude]
  positivity

/-- A double lies in its own interval. -/
theorem holds_magnitude (hx : x.significand ≠ 0) : x.interval.Holds x.magnitude := by
  have hquarter : (0 : ℚ) < 2 ^ (x.exponent - 2) := by positivity
  have hhalf := pow_exponent_sub_one_eq x
  have hlow := lowest_le hx
  rw [Interval.Holds, highest_interval]
  split
  · constructor <;> linarith
  · constructor <;> linarith

/-- The number that the interval is about is not zero. -/
theorem interval_value_ne_zero (hx : x.significand ≠ 0) : x.interval.value ≠ 0 :=
  Nat.mul_ne_zero (Nat.mul_ne_zero four_ne_zero hx) (twoTo_pos _).ne'

/-- The power of ten that the search for the digits of a double starts with. -/
theorem pow_floorLog10_le_magnitude (hx : x.significand ≠ 0) :
    (10 : ℚ) ^ floorLog10 x.interval.value x.interval.den ≤ x.magnitude := by
  rw [← middle_interval]
  exact pow_floorLog10_le (interval_value_ne_zero hx) (interval_den_ne_zero x)

/-- The shortest decimal, before its zeros are taken away. -/
theorem toRat_shortest (hx : x.significand ≠ 0) :
    x.shortest.toRat =
      (x.interval.search 17 (floorLog10 x.interval.value x.interval.den)).toRat := by
  rw [shortest, if_neg hx]
  exact Decimal.toRat_stripped ..

/-- The shortest decimal lies in the interval of the double. Zeros that are
stripped at its end change its digits and its exponent, not its value. -/
theorem shortest_mem (hfinite : x.Finite) (hx : x.significand ≠ 0) :
    x.interval.lowest ≤ x.shortest.toRat ∧ x.shortest.toRat ≤ x.interval.highest := by
  have hmiddle := (holds_magnitude hx).mem
  rw [← middle_interval] at hmiddle
  rw [toRat_shortest hx]
  refine Interval.search_mem (interval_den_ne_zero x) hmiddle 17 _ ?_
  -- Fifty-three bits are less than seventeen digits and a quarter of the last place.
  have hstart := pow_floorLog10_le_magnitude hx
  have hquarter : (0 : ℚ) < 2 ^ (x.exponent - 2) := by positivity
  have hplace := pow_exponent_eq x
  have hbits : x.magnitude < 2 ^ 53 * 2 ^ x.exponent := by
    rw [magnitude]
    gcongr
    exact_mod_cast hfinite.lt
  rw [middle_interval, zpow_sub₀ (by norm_num)]
  refine (lowest_le hx).trans (sub_le_sub_left ?_ _)
  rw [div_le_iff₀ (by positivity)]
  push_cast
  linarith

/-- The shortest decimal of a double other than zero is not zero. Zero lies in
no interval but its own. -/
theorem shortest_digits_ne_zero (hfinite : x.Finite) (hx : x.significand ≠ 0) :
    x.shortest.digits ≠ 0 := by
  have hlow := (le_lowest hx).trans (shortest_mem hfinite hx).1
  have hone : (1 : ℚ) ≤ x.significand := by exact_mod_cast Nat.one_le_iff_ne_zero.mpr hx
  have hquarter : (0 : ℚ) < 2 ^ (x.exponent - 2) := by positivity
  rw [magnitude, pow_exponent_eq, pow_exponent_sub_one_eq] at hlow
  intro hzero
  rw [Decimal.toRat, hzero, Nat.cast_zero, zero_mul] at hlow
  nlinarith

/-! ### Integers -/

/-- A decimal on a coarse grid is an even integer. With a positive exponent
there is a factor of ten, and two goes into that. -/
theorem exists_toRat_eq_even {d : Decimal} (h : 0 < d.exponent) :
    ∃ k : Nat, d.toRat = (2 * k : Nat) := by
  refine ⟨d.digits * (5 * 10 ^ (d.exponent.toNat - 1)), ?_⟩
  have hexponent : d.exponent = ((d.exponent.toNat - 1 + 1 : Nat) : Int) := by omega
  rw [Decimal.toRat]
  generalize d.exponent.toNat - 1 = k at hexponent
  rw [hexponent, zpow_natCast, pow_succ]
  push_cast
  ring

/-- No even integer but the double itself is as near to an integer up to 10^16
as half a last place: where the last place is two, the double is even too. -/
theorem eq_of_even_near (hfinite : x.Finite) {n k : Nat} (hmagnitude : x.magnitude = n)
    (hle : n ≤ 10 ^ 16) (hlow : (n : ℚ) - 2 ^ (x.exponent - 1) ≤ (2 * k : Nat))
    (hhigh : ((2 * k : Nat) : ℚ) ≤ n + 2 ^ (x.exponent - 1)) : 2 * k = n := by
  -- The last place is one or less, or two, or more.
  obtain hsmall | hone | hlarge : x.exponent ≤ 0 ∨ x.exponent = 1 ∨ 2 ≤ x.exponent := by omega
  · have hplace : (2 : ℚ) ^ (x.exponent - 1) ≤ 2 ^ (-1 : Int) :=
      zpow_le_zpow_right₀ one_le_two (by omega)
    norm_num at hplace
    have habove : ((2 * k : Nat) : ℚ) < (n + 1 : Nat) := by
      rw [Nat.cast_add_one]
      linarith
    have hbelow : (n : ℚ) < (2 * k + 1 : Nat) := by
      rw [Nat.cast_add_one]
      linarith
    have habove : 2 * k < n + 1 := by exact_mod_cast habove
    have hbelow : n < 2 * k + 1 := by exact_mod_cast hbelow
    omega
  · rw [hone] at hlow hhigh
    norm_num at hlow hhigh
    rw [magnitude, hone, zpow_one] at hmagnitude
    have heven : x.significand * 2 = n := by exact_mod_cast hmagnitude
    have habove : 2 * k ≤ n + 1 := by exact_mod_cast hhigh
    have hbelow : n ≤ 2 * k + 1 := by exact_mod_cast hlow
    omega
  · -- Such doubles are above the bound.
    have hmin : minExponent = -1074 := rfl
    have hnormal : 2 ^ 52 ≤ x.significand := hfinite.normal.resolve_left (by omega)
    have hbound : (2 : ℚ) ^ 52 * 2 ^ (2 : Int) ≤ x.magnitude := by
      rw [magnitude]
      -- Half a last place is a half at most, so the integers are the same.
      have hplace : (2 : ℚ) ^ (2 : Int) ≤ 2 ^ x.exponent :=
        zpow_le_zpow_right₀ one_le_two hlarge
      gcongr
      exact_mod_cast hnormal
    rw [hmagnitude] at hbound
    norm_num at hbound
    have : (18014398509481984 : Nat) ≤ n := by exact_mod_cast hbound
    omega

/-- An integer up to 10^16 is written as it is: no coarser grid has another point
in the interval. -/
theorem toRat_shortest_of_integer (hfinite : x.Finite) {n : Nat} (hn : n ≠ 0)
    (hmagnitude : x.magnitude = n) (hle : n ≤ 10 ^ 16) : x.shortest.toRat = n := by
  have hx : x.significand ≠ 0 := by
    intro hzero
    rw [magnitude, hzero, Nat.cast_zero, zero_mul] at hmagnitude
    exact hn (by exact_mod_cast hmagnitude.symm)
  have hden := interval_den_ne_zero x
  -- In units of the denominator the middle is the integer.
  have hvalue : x.interval.value = n * x.interval.den := by
    have hd : (x.interval.den : ℚ) ≠ 0 := by exact_mod_cast hden
    have hmiddle := (middle_interval x).trans hmagnitude
    rw [Interval.middle, div_eq_iff hd] at hmiddle
    exact_mod_cast hmiddle
  rw [toRat_shortest hx]
  refine Interval.search_integer hden hvalue ?_ ?_ ?_ ?_
  · rw [Interval.has_iff hden, Decimal.toRat, zpow_zero, mul_one]
    exact hmagnitude ▸ holds_magnitude hx
  -- On a coarser grid every point is even, and the interval is one unit wide on each side.
  · intro d hcoarse hhas
    obtain ⟨k, hk⟩ := exists_toRat_eq_even hcoarse
    obtain ⟨hlow, hhigh⟩ := ((Interval.has_iff hden).mp hhas).mem
    have hlow := (le_lowest hx).trans hlow
    rw [highest_interval] at hhigh
    rw [hmagnitude, hk] at hlow hhigh
    rw [hk, eq_of_even_near hfinite hmagnitude hle hlow hhigh]
  · exact floorLog10_nonneg (by
      rw [hvalue]
      exact Nat.le_mul_of_pos_left _ (Nat.pos_of_ne_zero hn))
  · -- Seventeen grids reach down to the integers.
    have hstart := pow_floorLog10_le_magnitude hx
    have hbound : (n : ℚ) ≤ 10 ^ (16 : Int) := by exact_mod_cast hle
    rw [hmagnitude] at hstart
    have := (zpow_le_zpow_iff_right₀ (by norm_num : (1 : ℚ) < 10)).mp (hstart.trans hbound)
    push_cast
    omega

/-! ### The whole part -/

/-- Where the last place is a fraction, a double that is not an integer has both
its neighbours between the same two integers, or on one of them. -/
theorem between_integers (hfraction : x.exponent ≤ 0) {f : Nat} (hbelow : (f : ℚ) < x.magnitude)
    (habove : x.magnitude < f + 1) :
    f + 2 ^ x.exponent ≤ x.magnitude ∧ x.magnitude + 2 ^ x.exponent ≤ f + 1 := by
  have hunit : (2 : ℚ) ^ x.exponent * 2 ^ (-x.exponent).toNat = 1 := by
    rw [← zpow_natCast, ← zpow_add₀ two_ne_zero,
      show x.exponent + ((-x.exponent).toNat : Int) = 0 by omega, zpow_zero]
  have hplace : (0 : ℚ) < 2 ^ x.exponent := by positivity
  rw [magnitude] at *
  generalize (2 : ℚ) ^ x.exponent = u at *
  generalize (-x.exponent).toNat = k at *
  have hone : ∀ n : Nat, (n : ℚ) = (n * 2 ^ k : Nat) * u := by
    intro n
    rw [Nat.cast_mul, Nat.cast_pow, Nat.cast_ofNat, mul_assoc, mul_comm (2 ^ k) u, hunit, mul_one]
  -- In units of the last place all of this is about naturals.
  have hbelow : f * 2 ^ k < x.significand := by
    rw [hone f] at hbelow
    exact_mod_cast lt_of_mul_lt_mul_right hbelow hplace.le
  have habove : x.significand < (f + 1) * 2 ^ k := by
    rw [← Nat.cast_add_one, hone (f + 1)] at habove
    exact_mod_cast lt_of_mul_lt_mul_right habove hplace.le
  have hlow : ((f * 2 ^ k + 1 : Nat) : ℚ) ≤ x.significand := by exact_mod_cast hbelow
  have hhigh : ((x.significand + 1 : Nat) : ℚ) ≤ ((f + 1) * 2 ^ k : Nat) := by
    exact_mod_cast habove
  constructor
  · calc (f : ℚ) + u = (f * 2 ^ k + 1 : Nat) * u := by
          rw [hone f, Nat.cast_add_one]
          ring
      _ ≤ x.significand * u := by gcongr
  · calc (x.significand : ℚ) * u + u = (x.significand + 1 : Nat) * u := by
          rw [Nat.cast_add_one]
          ring
      _ ≤ ((f + 1) * 2 ^ k : Nat) * u := by gcongr
      _ = f + 1 := by rw [← hone, Nat.cast_add_one]

/-- The shortest decimal has the whole part of its double, as long as that stays
below 10^16. -/
theorem floor_shortest (hfinite : x.Finite) (hx : x.significand ≠ 0)
    (hle : x.magnitude ≤ 10 ^ 16) : ⌊x.shortest.toRat⌋₊ = ⌊x.magnitude⌋₊ := by
  have hpos := magnitude_pos hx
  -- An integer is written as it is. Any other double has a last place below one.
  by_cases hint : ∃ n : Nat, x.magnitude = n
  · obtain ⟨n, hn⟩ := hint
    rw [hn] at hle hpos
    rw [hn, toRat_shortest_of_integer hfinite (by exact_mod_cast hpos.ne') hn
      (by exact_mod_cast hle)]
  · have hfraction : x.exponent ≤ 0 := by
      by_contra hneg
      refine hint ⟨x.significand * 2 ^ x.exponent.toNat, ?_⟩
      rw [magnitude, Nat.cast_mul, Nat.cast_pow, ← zpow_natCast,
        show ((x.exponent.toNat : Nat) : Int) = x.exponent by omega]
      rfl
    obtain ⟨hlow, hhigh⟩ := shortest_mem hfinite hx
    have hlow := (le_lowest hx).trans hlow
    rw [highest_interval] at hhigh
    -- The neighbours of the double lie between the same two integers, and so does the shortest
    -- decimal.
    have hne : (⌊x.magnitude⌋₊ : ℚ) ≠ x.magnitude := fun h => hint ⟨_, h.symm⟩
    obtain ⟨hbelow, habove⟩ := between_integers hfraction
      (lt_of_le_of_ne (Nat.floor_le hpos.le) hne) (Nat.lt_floor_add_one x.magnitude)
    have hplace : (0 : ℚ) < 2 ^ (x.exponent - 1) := by positivity
    have hhalf : (2 : ℚ) ^ x.exponent = 2 * 2 ^ (x.exponent - 1) := by
      rw [pow_exponent_eq, pow_exponent_sub_one_eq]
      ring
    have hfloor : (0 : ℚ) ≤ ⌊x.magnitude⌋₊ := by positivity
    rw [Nat.floor_eq_iff (by linarith)]
    constructor <;> linarith

/-! ### Two doubles -/

/-- The order of magnitudes in normal form: the exponent decides, then the
significand. -/
def Below (x y : Binary64) : Prop :=
  x.exponent < y.exponent ∨ x.exponent = y.exponent ∧ x.significand < y.significand

/-- The intervals of two doubles lie one behind the other. They may share an end, where
neither double owns the middle. -/
theorem highest_le_lowest (hx : x.Finite) (hy : y.Finite) (hbelow : x.Below y) :
    x.interval.highest ≤ y.interval.lowest := by
  have hmin : minExponent = -1074 := rfl
  have hplace : (0 : ℚ) < 2 ^ (x.exponent - 2) := by positivity
  have hexponent := pow_exponent_eq x
  have hhalf := pow_exponent_sub_one_eq x
  rw [highest_interval, magnitude, hexponent, hhalf]
  obtain hlt | ⟨heq, hlt⟩ := hbelow
  · -- The double with the greater exponent has all 53 bits.
    have hnormal : 2 ^ 52 ≤ y.significand := by
      have := hx.minExponent_le
      exact hy.normal.resolve_left (by omega)
    -- One place more is a factor of two.
    have hgap : 2 * (2 : ℚ) ^ (x.exponent - 2) ≤ 2 ^ (y.exponent - 2) := by
      rw [← pow_exponent_sub_one_eq]
      exact zpow_le_zpow_right₀ one_le_two (by omega)
    have hbits : (x.significand : ℚ) + 1 ≤ 2 ^ 53 := by exact_mod_cast hx.lt
    rw [lowest_interval (by omega), magnitude, pow_exponent_eq y, pow_exponent_sub_one_eq y]
    generalize (2 : ℚ) ^ (x.exponent - 2) = u at *
    generalize (2 : ℚ) ^ (y.exponent - 2) = w at *
    calc (x.significand : ℚ) * (4 * u) + 2 * u ≤ (2 ^ 54 - 1) * (2 * u) := by nlinarith
      _ ≤ (2 ^ 54 - 1) * w := by gcongr
      _ ≤ _ := ?_
    split
    · rename_i hpower
      rw [hpower.1]
      push_cast
      linarith
    · rename_i hpower
      have hsucc : (2 : ℚ) ^ 52 + 1 ≤ y.significand := by
        have : 2 ^ 52 + 1 ≤ y.significand := by
          have := hx.minExponent_le
          omega
        exact_mod_cast this
      nlinarith
  -- With one exponent the next double is one unit away.
  · have hsucc : (x.significand : ℚ) + 1 ≤ y.significand := by exact_mod_cast hlt
    have hlow := le_lowest (x := y) (by omega)
    rw [magnitude, ← heq, hexponent, hhalf] at hlow
    nlinarith

/-- A number that a double `g` rounds to from below, and that is written for
`g`, has the same doubles at or above it as shortest decimals. -/
theorem le_shortest_iff {g : Binary64} {b : ℚ} (hfinite : x.Finite) (hx : x.significand ≠ 0)
    (hg : g.Finite) (hlow : g.interval.lowest < b) (hmiddle : b ≤ g.magnitude)
    (hhigh : b < g.interval.highest) (hshortest : b ≤ g.shortest.toRat) :
    b ≤ x.shortest.toRat ↔ b ≤ x.magnitude := by
  obtain ⟨hlowest, hhighest⟩ := shortest_mem hfinite hx
  have hplace : (0 : ℚ) < 2 ^ (x.exponent - 1) := by positivity
  have hquarter : (0 : ℚ) < 2 ^ (x.exponent - 2) := by positivity
  -- A double is below `g`, is `g`, or is above it, but for the sign.
  obtain hbelow | hsame | habove : x.Below g ∨
      (x.exponent = g.exponent ∧ x.significand = g.significand) ∨ g.Below x := by
    rw [Below, Below]
    omega
  · have hend := highest_le_lowest hfinite hg hbelow
    have hlarger := highest_interval x
    exact iff_of_false (by linarith) (by linarith)
  · have hsameShortest : x.shortest = g.shortest := by
      rw [shortest, shortest, interval, interval, hsame.1, hsame.2]
    rw [hsameShortest, magnitude, hsame.1, hsame.2]
    exact iff_of_true hshortest hmiddle
  · have hend := highest_le_lowest hg hfinite habove
    have hsmaller := lowest_le hx
    exact iff_of_true (by linarith) (by linarith)

/-- A double is written as the power of ten `10 ^ k`, which rounds to it from
below. -/
structure WrittenAsPower (g : Binary64) (k : Int) : Prop where
  finite : g.Finite
  shortest : g.shortest = ⟨1, k⟩
  lowest_lt : g.interval.lowest < 10 ^ k
  le_magnitude : 10 ^ k ≤ g.magnitude

/-- The shortest decimal reaches such a power of ten when the double does. So
the layout, which looks at the decimal, changes where the value of the double
does. -/
theorem pow_le_shortest_iff {g : Binary64} {k : Int} (hg : g.WrittenAsPower k)
    (hfinite : x.Finite) (hx : x.significand ≠ 0) :
    10 ^ k ≤ x.shortest.toRat ↔ 10 ^ k ≤ x.magnitude := by
  have hhalf : (0 : ℚ) < 2 ^ (g.exponent - 1) := by positivity
  have hle := hg.le_magnitude
  refine le_shortest_iff hfinite hx hg.finite hg.lowest_lt hle ?_ ?_
  · rw [highest_interval]
    linarith
  · rw [hg.shortest, Decimal.toRat, Nat.cast_one, one_mul]

/-- The power 10^16 is a double itself. From it on a number is written with an
exponent. -/
theorem writtenAsPower_sixteen : WrittenAsPower ⟨false, 5000000000000000, 1⟩ 16 where
  finite := ⟨by decide, by decide, by decide, by decide⟩
  shortest := by decide +kernel
  lowest_lt := by
    rw [lowest_interval (by decide), if_neg (by decide), magnitude]
    norm_num
  le_magnitude := by
    rw [magnitude]
    norm_num

/-- The power 10^-5 is none, but rounds up to the next double, which is written
for it. Below that one a number is written with an exponent. -/
theorem writtenAsPower_neg_five : WrittenAsPower ⟨false, 5902958103587057, -69⟩ (-5) where
  finite := ⟨by decide, by decide, by decide, by decide⟩
  shortest := by decide +kernel
  lowest_lt := by
    rw [lowest_interval (by decide), if_neg (by decide), magnitude]
    norm_num
  le_magnitude := by
    rw [magnitude]
    norm_num

end Binary64

end Overrides.Number
