import Overrides.Proofs.Json.Numbers
import Overrides.Proofs.Number.Shortest
import Overrides.Proofs.Rule.IntegerPrefix

/-!
# `Overrides.Proofs.Rule.Limits`: what a number sets a limit to

A number with a fraction or an exponent is read from its text, and the text is
that of its shortest decimal. Between 10^-5 and 10^16 it is written out in place,
so what stands in front of the point is the whole part, and the number sets a
limit by its value. Outside that range the text has an exponent, the reading
stops before it, and one digit is all that is left of the number: ten thousand
million million becomes one, and so does one millionth.

* `Decimal.order_spec`: the power of ten of the first digit.
* `front_inPlace`, `front_withExponent`: the digits that are read.
* `numbers_set_limits_by_value`: limits by value, and where they are not.
-/

set_option autoImplicit false

namespace Overrides

open Overrides.Text Overrides.Number

/-! ### Runs of digits -/

/-- The digits that a number is written with have its value. -/
theorem Draft.decimal_toDigits (n : Nat) : Draft.decimal (Nat.toDigits 10 n) = n := by
  obtain ⟨ds, hds, hchars⟩ := Json.exists_decimal n
  have hback : ∀ d < 10, (Nat.digitChar d).toNat - '0'.toNat = d := by decide
  have hmap : (ds.map Nat.digitChar).map (fun c => c.toNat - '0'.toNat) = ds := by
    rw [List.map_map]
    exact (List.map_congr_left fun d hd => hback d (hds.digit d hd)).trans (List.map_id ds)
  rw [hchars, Draft.decimal, hmap, ← Draft.digitsValue_eq_ofDigits, hds.value]

/-- A number is written with digits only. -/
theorem isDigit_of_mem_toDigits {n : Nat} {c : Char} (h : c ∈ Nat.toDigits 10 n) :
    c.isDigit = true := by
  obtain ⟨ds, hds, hchars⟩ := Json.exists_decimal n
  have hdigit : ∀ d < 10, (Nat.digitChar d).isDigit = true := by decide
  rw [hchars] at h
  obtain ⟨d, hd, rfl⟩ := List.mem_map.mp h
  exact hdigit d (hds.digit d hd)

/-- Zeros are worth nothing, however many there are. -/
theorem Draft.decimal_replicate_zero (k : Nat) : Draft.decimal (List.replicate k '0') = 0 := by
  induction k with
  | zero => rfl
  | succ k ih =>
    rw [List.replicate_succ', Draft.decimal_concat, ih]
    rfl

/-- The code points of the digits, as bounds for `omega`. -/
theorem toNat_of_isDigit {c : Char} (h : c.isDigit = true) : 48 ≤ c.toNat ∧ c.toNat ≤ 57 := by
  rw [Char.isDigit, Bool.and_eq_true, decide_eq_true_eq, decide_eq_true_eq] at h
  exact h

/-- A digit is no blank, so a number loses nothing when its text is trimmed. -/
theorem isBlank_of_isDigit {c : Char} (h : c.isDigit = true) : isBlank c = false := by
  have := toNat_of_isDigit h
  simp only [isBlank, Bool.or_eq_false_iff, Bool.and_eq_false_iff, decide_eq_false_iff_not,
    beq_eq_false_iff_ne]
  omega

/-- A number of `k` digits is less than `10 ^ k`, also with leading zeros. -/
theorem Draft.decimal_lt {ds : List Char} (h : ∀ c ∈ ds, c.isDigit = true) :
    Draft.decimal ds < 10 ^ ds.length := by
  have hten := Nat.ofDigits_lt_base_pow_length (b := 10)
    (l := (ds.map fun c => c.toNat - '0'.toNat).reverse) (by decide) (by
      intro d hd
      obtain ⟨c, hc, rfl⟩ := List.mem_map.mp (List.mem_reverse.mp hd)
      have := toNat_of_isDigit (h c hc)
      show c.toNat - 48 < 10
      omega)
  rwa [List.length_reverse, List.length_map] at hten

/-- The digits in front are the quotient by the power of ten of the others. This
is how cutting off a text becomes rounding down. -/
theorem Draft.decimal_take {ds : List Char} (h : ∀ c ∈ ds, c.isDigit = true) (k : Nat) :
    Draft.decimal (ds.take k) = Draft.decimal ds / 10 ^ (ds.length - k) := by
  have hrest : Draft.decimal (ds.drop k) < 10 ^ (ds.length - k) := by
    rw [← List.length_drop]
    exact Draft.decimal_lt fun c hc => h c (List.mem_of_mem_drop hc)
  conv_rhs => rw [← List.take_append_drop k ds, Draft.decimal_append, List.length_drop]
  rw [List.take_append_drop, Nat.mul_comm, Nat.mul_add_div (by positivity),
    Nat.div_eq_of_lt hrest, Nat.add_zero]

/-- A text that starts with a digit. It has no blanks and no sign in front, so
its front is the run of its digits. -/
theorem Front.of_digits {s : String} {ds rest : List Char} (htext : s.toList = ds ++ rest)
    (hds : ds ≠ []) (hdigits : ∀ c ∈ ds, c.isDigit = true)
    (hlongest : ∀ c ∈ rest.head?, c.isDigit = false) : Front s none ds rest := by
  obtain ⟨d, ds, rfl⟩ := List.exists_cons_of_ne_nil hds
  have hd := hdigits d (List.mem_cons_self ..)
  have hblank := isBlank_of_isDigit hd
  refine ⟨?_, by simp, ?_, hdigits, hlongest⟩
  · rw [htext, List.cons_append, List.dropWhile_cons_of_neg (by simp [hblank])]
    rfl
  · rintro - c ⟨⟩
    exact (Draft.Digits.head_ne ⟨hds, hdigits⟩).symm

/-- A text that starts with a minus is read as no positive number. It is read as
none at all where no digit follows. -/
theorem integerPrefix?_of_minus {s : String} {rest : List Char} (htext : s.toList = '-' :: rest)
    {n : Int} (h : integerPrefix? s = some n) : n < 1 := by
  obtain ⟨sign, ds, tail, hfront⟩ := exists_front s
  have hcs := hfront.text
  rw [htext, List.dropWhile_cons_of_neg (by decide)] at hcs
  -- The minus is no blank and no digit, so it is the sign of the front.
  have hsign : sign = some '-' := by
    cases sign with
    | none =>
      rw [Option.toList_none, List.nil_append] at hcs
      exact absurd rfl (hfront.unsigned rfl '-' (by rw [← hcs]; rfl)).2
    | some c => exact congrArg some (List.cons.inj hcs).1.symm
  rw [integerPrefix?_of_front hfront, withSign, if_pos hsign, Option.ite_none_left_eq_some] at h
  obtain ⟨-, h⟩ := h
  cases h
  omega

/-! ### The text of a double -/

/-- The power of ten of the first digit. -/
def Number.Decimal.order (d : Decimal) : Int :=
  if d.digits = 0 then 0 else d.exponent + digitCount d.digits - 1

/-- The first digit. -/
def Number.Decimal.leadingDigit (d : Decimal) : Nat := d.digits / 10 ^ (digitCount d.digits - 1)

/-- The order of a decimal is the exponent of the power of ten that its value
lies at or above, while it lies below the next one. -/
theorem Number.Decimal.order_spec {d : Decimal} (h : d.digits ≠ 0) :
    (10 : ℚ) ^ d.order ≤ d.toRat ∧ d.toRat < 10 ^ (d.order + 1) := by
  have hcount : 0 < digitCount d.digits := Nat.length_toDigits_pos
  have hlow : ((10 ^ (digitCount d.digits - 1) : Nat) : ℚ) ≤ d.digits := by
    exact_mod_cast pow_digitCount_le h
  have hhigh : (d.digits : ℚ) < (10 ^ digitCount d.digits : Nat) := by
    exact_mod_cast lt_pow_digitCount d.digits
  have hten : (0 : ℚ) < 10 ^ d.exponent := by positivity
  rw [order, if_neg h, toRat]
  constructor
  · calc (10 : ℚ) ^ (d.exponent + digitCount d.digits - 1)
        = (10 ^ (digitCount d.digits - 1) : Nat) * 10 ^ d.exponent := by
          rw [Nat.cast_pow, Nat.cast_ofNat, ← zpow_natCast, ← zpow_add₀ (by norm_num)]
          congr 1
          omega
      _ ≤ d.digits * 10 ^ d.exponent := by gcongr
  · calc d.digits * (10 : ℚ) ^ d.exponent < (10 ^ digitCount d.digits : Nat) * 10 ^ d.exponent := by
          gcongr
      _ = 10 ^ (d.exponent + digitCount d.digits - 1 + 1) := by
          rw [Nat.cast_pow, Nat.cast_ofNat, ← zpow_natCast, ← zpow_add₀ (by norm_num)]
          congr 1
          omega

/-- The leading digit of a decimal that is not zero is a digit from one to nine.
-/
theorem Number.Decimal.leadingDigit_bounds {d : Decimal} (h : d.digits ≠ 0) :
    1 ≤ d.leadingDigit ∧ d.leadingDigit ≤ 9 := by
  have hcount : 0 < digitCount d.digits := Nat.length_toDigits_pos
  have hpos : 0 < 10 ^ (digitCount d.digits - 1) := by positivity
  rw [leadingDigit]
  refine ⟨(Nat.one_le_div_iff hpos).mpr (pow_digitCount_le h), ?_⟩
  have hlt := lt_pow_digitCount d.digits
  rw [← Nat.sub_add_cancel hcount, Nat.pow_succ'] at hlt
  have := (Nat.div_lt_iff_lt_mul hpos).mpr hlt
  omega

/-- The order tells which powers of ten a decimal reaches. Where a number
changes its layout is stated by powers, so this turns it into a bound on the
order. -/
theorem Number.Decimal.le_order_iff {d : Decimal} (h : d.digits ≠ 0) (k : Int) :
    k ≤ d.order ↔ 10 ^ k ≤ d.toRat := by
  obtain ⟨hlow, hhigh⟩ := d.order_spec h
  constructor
  · intro hle
    exact (zpow_le_zpow_right₀ (by norm_num) hle).trans hlow
  · intro hle
    have := (zpow_lt_zpow_iff_right₀ (by norm_num : (1 : ℚ) < 10)).mp (hle.trans_lt hhigh)
    omega

/-- Where the exponent is not negative, the zeros behind the digits are part of the
whole part. -/
theorem Number.Decimal.floor_of_nonneg {d : Decimal} (h : 0 ≤ d.exponent) :
    ⌊d.toRat⌋₊ = d.digits * 10 ^ d.exponent.toNat := by
  have hvalue : d.toRat = (d.digits * 10 ^ d.exponent.toNat : Nat) := by
    rw [toRat, Nat.cast_mul, Nat.cast_pow, ← zpow_natCast, Int.toNat_of_nonneg h]
    rfl
  rw [hvalue, Nat.floor_natCast]

/-- Where it is negative, as many digits as it says are behind the point. -/
theorem Number.Decimal.floor_of_neg {d : Decimal} (h : d.exponent ≤ 0) :
    ⌊d.toRat⌋₊ = d.digits / 10 ^ (-d.exponent).toNat := by
  have hvalue : d.toRat = d.digits / (10 ^ (-d.exponent).toNat : Nat) := by
    rw [toRat, Nat.cast_pow, ← zpow_natCast, Int.toNat_of_nonneg (by omega), zpow_neg,
      div_inv_eq_mul]
    rfl
  rw [hvalue, Nat.floor_div_eq_div]

section Texts

variable {cs : List Char} {e : Int}

/-- Below one, a zero stands in front of the point. It is all that a parser of
leading digits sees of such a number. -/
theorem front_inPlace_of_neg (cs : List Char) (he : e < 0) :
    ∃ rest, Front (inPlace true cs e) none ['0'] rest := by
  refine ⟨'.' :: (List.replicate (-e - 1).toNat '0' ++ cs), ?_⟩
  have hzero : ∀ c ∈ ['0'], c.isDigit = true := by
    intro c hc
    rw [List.mem_singleton.mp hc]
    rfl
  refine Front.of_digits ?_ (by simp) hzero (by rintro c ⟨⟩; rfl)
  simp only [inPlace, if_pos he, zeros, String.toList_append, String.toList_ofList]
  rfl

/-- Digits that end in front of the point are filled up with zeros. A parser of
leading digits sees all of them, so it reads the number as it is. -/
theorem front_inPlace_of_le (hcs : cs ≠ []) (hdigits : ∀ c ∈ cs, c.isDigit = true) (he : 0 ≤ e)
    (hle : cs.length ≤ e.toNat + 1) :
    Front (inPlace true cs e) none (cs ++ List.replicate (e.toNat + 1 - cs.length) '0')
      ['.', '0'] := by
  refine Front.of_digits ?_ (by simp [hcs]) ?_ (by rintro c ⟨⟩; rfl)
  · simp only [inPlace, if_neg (Int.not_lt.mpr he), if_pos hle, if_true, zeros,
      String.toList_append, String.toList_ofList]
    rfl
  · intro c hc
    obtain hc | hc := List.mem_append.mp hc
    · exact hdigits c hc
    · rw [List.eq_of_mem_replicate hc]
      rfl

/-- Of more digits, so many stand in front of the point. -/
theorem front_inPlace_of_lt (hcs : cs ≠ []) (hdigits : ∀ c ∈ cs, c.isDigit = true) (he : 0 ≤ e)
    (hlt : e.toNat + 1 < cs.length) :
    Front (inPlace true cs e) none (cs.take (e.toNat + 1)) ('.' :: cs.drop (e.toNat + 1)) := by
  refine Front.of_digits ?_ (by simp [hcs]) ?_ (by rintro c ⟨⟩; rfl)
  · simp only [inPlace, if_neg (Int.not_lt.mpr he), if_neg (Nat.not_le.mpr hlt),
      String.toList_append, String.toList_ofList, List.append_assoc]
    rfl
  · exact fun c hc => hdigits c (List.mem_of_mem_take hc)

/-- With an exponent, one digit stands in front of the point, or of the exponent
if there are no more digits. A parser of leading digits sees no more than that
digit. -/
theorem front_withExponent (hcs : cs ≠ []) (hdigits : ∀ c ∈ cs, c.isDigit = true) :
    ∃ rest, Front (withExponent cs e) none (cs.take 1) rest := by
  refine ⟨(if cs.length ≤ 1 then [] else '.' :: cs.drop 1) ++
    ((if e < 0 then ['e', '-'] else ['e', '+']) ++ (Nat.repr e.natAbs).toList),
    Front.of_digits ?_ (by simp [hcs]) (fun c hc => hdigits c (List.mem_of_mem_take hc)) ?_⟩
  · simp only [withExponent, String.toList_append, String.toList_ofList, List.append_assoc]
    congr 2
    · split
      · rfl
      · rw [String.toList_append, String.toList_ofList, String.toList_ofList]
        rfl
    · split <;> rfl
  · split <;> split <;> (rintro c ⟨⟩; rfl)

end Texts

/-- In place, the digits in front of the point are those of the whole part.
Zeros are filled in behind the digits of a great number, and a small one has a
zero in front of the point. -/
theorem front_inPlace (d : Decimal) (hexponent : d.digits = 0 → d.exponent = 0) :
    ∃ ds rest, Front (inPlace true (Nat.toDigits 10 d.digits) d.order) none ds rest ∧ ds ≠ [] ∧
      Draft.decimal ds = ⌊d.toRat⌋₊ := by
  have hdigits : ∀ c ∈ Nat.toDigits 10 d.digits, c.isDigit = true :=
    fun c hc => isDigit_of_mem_toDigits hc
  have hne : Nat.toDigits 10 d.digits ≠ [] := Nat.toDigits_ne_nil
  have hlength : (Nat.toDigits 10 d.digits).length = digitCount d.digits := rfl
  have horder : d.order = d.exponent + digitCount d.digits - 1 := by
    rw [Decimal.order]
    split
    · rename_i hzero
      rw [hexponent hzero, hzero]
      rfl
    · rfl
  by_cases hneg : d.order < 0
  · -- Nothing but the zero in front of the point, as there should be.
    obtain ⟨rest, hfront⟩ := front_inPlace_of_neg (Nat.toDigits 10 d.digits) hneg
    refine ⟨['0'], rest, hfront, by decide, ?_⟩
    have hpos : d.digits ≠ 0 := by
      intro hzero
      rw [Decimal.order, if_pos hzero] at hneg
      exact absurd hneg (by decide)
    have hbelow := (Decimal.le_order_iff hpos 0).not.mp (Int.not_le.mpr hneg)
    rw [zpow_zero, not_le] at hbelow
    rw [Nat.floor_eq_zero.mpr hbelow]
    rfl
  -- The point stands behind the last digit or within them: zeros are filled in, or some digits are
  -- cut off.
  · have hcount : 0 < digitCount d.digits := Nat.length_toDigits_pos
    rw [Int.not_lt] at hneg
    by_cases hle : (Nat.toDigits 10 d.digits).length ≤ d.order.toNat + 1
    · refine ⟨_, _, front_inPlace_of_le hne hdigits hneg hle, by simp [hne], ?_⟩
      rw [Draft.decimal_append, Draft.decimal_toDigits, Draft.decimal_replicate_zero,
        List.length_replicate, Nat.add_zero, Decimal.floor_of_nonneg (by omega), hlength]
      congr 2
      omega
    · rw [Nat.not_le] at hle
      refine ⟨_, _, front_inPlace_of_lt hne hdigits hneg hle, by simp [hne], ?_⟩
      rw [Draft.decimal_take hdigits, Draft.decimal_toDigits, Decimal.floor_of_neg (by omega),
        hlength]
      congr 2
      omega

/-! ### Doubles -/

section Doubles

variable {x : Binary64}

/-- In plain layout a double is written in place when its order is from -5 to
15, and with an exponent otherwise. The flags of the layout are evaluated once,
here. -/
theorem write_plain (x : Binary64) : Layout.plain.write x =
    (if x.negative = true then "-" else "") ++
      if -5 ≤ x.shortest.order ∧ x.shortest.order ≤ 15 then
        inPlace true (Nat.toDigits 10 x.shortest.digits) x.shortest.order
      else withExponent (Nat.toDigits 10 x.shortest.digits) x.shortest.order := by
  show (if (x.negative && true) = true then "-" else "") ++
      (if (decide (-5 ≤ x.shortest.order) && decide (x.shortest.order ≤ 15)) = true then _
        else _) = _
  rw [Bool.and_true]
  simp only [Bool.and_eq_true, decide_eq_true_eq]
  rfl

/-- A negative double, and negative zero, stands for no positive number. Its
text starts with a minus in either layout. -/
theorem coerceInteger_of_negative (hneg : x.negative = true) {n : Int}
    (h : coerceInteger (.number (.double x)) = some n) : n < 1 := by
  have htext := write_plain x
  rw [if_pos hneg] at htext
  generalize (if -5 ≤ x.shortest.order ∧ x.shortest.order ≤ 15 then _ else _ : String) = text
    at htext
  have hminus : (Layout.plain.write x).toList = '-' :: text.toList := by
    rw [htext, String.toList_append]
    rfl
  exact integerPrefix?_of_minus hminus h

/-- Written in place, a double stands for the whole part of its decimal. The
fraction behind the point is where the digits of the front end. -/
theorem coerceInteger_of_in_place (hpos : x.negative = false)
    (hexponent : x.shortest.digits = 0 → x.shortest.exponent = 0)
    (horder : -5 ≤ x.shortest.order ∧ x.shortest.order ≤ 15) :
    coerceInteger (.number (.double x)) = some (⌊x.shortest.toRat⌋₊ : Int) := by
  obtain ⟨ds, rest, hfront, hds, hvalue⟩ := front_inPlace x.shortest hexponent
  have htext := write_plain x
  rw [if_neg (by rw [hpos]; decide), if_pos horder, String.empty_append] at htext
  rw [← htext] at hfront
  -- The whole part has sixteen digits at most, so nothing is saturated.
  have hbound : ⌊x.shortest.toRat⌋₊ ≤ maxInt64 := by
    by_cases hzero : x.shortest.digits = 0
    · rw [Decimal.toRat, hzero, Nat.cast_zero, zero_mul, Nat.floor_zero]
      exact Nat.zero_le _
    · have hlt := (Decimal.le_order_iff hzero 16).not.mp (by omega)
      rw [not_le] at hlt
      have : ⌊x.shortest.toRat⌋₊ < 10 ^ 16 := by
        rw [Nat.floor_lt' (by norm_num)]
        exact_mod_cast hlt
      exact this.le.trans (by decide)
  show integerPrefix? _ = _
  rw [integerPrefix?_of_front hfront, if_neg hds, hvalue, Nat.min_eq_left hbound]
  rfl

/-- Written with an exponent, a double stands for the first digit of its
decimal. The exponent itself is never read. -/
theorem coerceInteger_of_with_exponent (hpos : x.negative = false)
    (hdigits : x.shortest.digits ≠ 0)
    (horder : ¬ (-5 ≤ x.shortest.order ∧ x.shortest.order ≤ 15)) :
    coerceInteger (.number (.double x)) = some (x.shortest.leadingDigit : Int) := by
  have hne : Nat.toDigits 10 x.shortest.digits ≠ [] := Nat.toDigits_ne_nil
  have hdigit : ∀ c ∈ Nat.toDigits 10 x.shortest.digits, c.isDigit = true :=
    fun c hc => isDigit_of_mem_toDigits hc
  obtain ⟨rest, hfront⟩ := front_withExponent (e := x.shortest.order) hne hdigit
  have htext := write_plain x
  rw [if_neg (by rw [hpos]; decide), if_neg horder, String.empty_append] at htext
  rw [← htext] at hfront
  -- The point follows the first digit, so the front ends there.
  have hvalue : Draft.decimal ((Nat.toDigits 10 x.shortest.digits).take 1)
      = x.shortest.leadingDigit := by
    rw [Draft.decimal_take hdigit, Draft.decimal_toDigits]
    rfl
  have hbound : x.shortest.leadingDigit ≤ maxInt64 :=
    (Decimal.leadingDigit_bounds hdigits).2.trans (by decide)
  show integerPrefix? _ = _
  rw [integerPrefix?_of_front hfront, if_neg (by simp [hne]), hvalue, Nat.min_eq_left hbound]
  rfl

end Doubles

/-! ### Numbers -/

/-- The value of a number. -/
def Json.Number.toRat : Json.Number → ℚ
  | .integer n => n
  | .double x => x.toRat

/-- The number can be read: a double is in normal form. -/
def Json.Number.Finite : Json.Number → Prop
  | .integer _ => True
  | .double x => x.Finite

/-- The number is kept as an integer, or it is not positive, or it is neither tiny
nor huge. -/
def Json.Number.Plain : Json.Number → Prop
  | .integer _ => True
  | .double x => x.toRat ≤ 0 ∨ 10 ^ (-5 : Int) ≤ x.toRat ∧ x.toRat < 10 ^ 16

/-- The limit that a value sets by itself: nothing below one, else the value cut
to an integer and to the ceiling. -/
def limitOf (ceiling : UInt32) (v : ℚ) : Option Nat :=
  if v < 1 then none else some (min ⌊v⌋₊ ceiling.toNat)

/-- The limit that a natural number sets is the number itself, cut to the
ceiling. -/
theorem limitOf_natCast (ceiling : UInt32) (n : Nat) :
    limitOf ceiling n = if n < 1 then none else some (min n ceiling.toNat) := by
  have hone : (n : ℚ) < 1 ↔ n < 1 := by exact_mod_cast Iff.rfl
  simp only [limitOf, Nat.floor_natCast, hone]

/-- Only the whole part counts. -/
theorem limitOf_floor (ceiling : UInt32) (v : ℚ) :
    limitOf ceiling (⌊v⌋₊ : Nat) = limitOf ceiling v := by
  have hone : ((⌊v⌋₊ : Nat) : ℚ) < 1 ↔ v < 1 := by
    rw [← Nat.cast_one, Nat.cast_lt, Nat.lt_one_iff, Nat.floor_eq_zero, Nat.cast_one]
  simp only [limitOf, Nat.floor_natCast, hone]

/-- A greater value sets no smaller limit. Setting nothing counts as zero for
this. -/
theorem limitOf_mono (ceiling : UInt32) {v w : ℚ} (h : v ≤ w) :
    (limitOf ceiling v).getD 0 ≤ (limitOf ceiling w).getD 0 := by
  rw [limitOf, limitOf]
  by_cases hv : v < 1
  · rw [if_pos hv]
    exact Nat.zero_le _
  · rw [if_neg hv, if_neg (by linarith)]
    exact min_le_min_right _ (Nat.floor_le_floor h)

/-- What stands for a natural number sets the limit of its value. -/
theorem limit_of_coerceInteger {v : Json} {n : Nat} (ceiling : UInt32)
    (h : coerceInteger v = some (n : Int)) :
    (coerceLimit ceiling v).map UInt32.toNat = limitOf ceiling n := by
  rw [map_toNat_coerceLimit, h, Option.bind_some, limitOf_natCast, Int.toNat_natCast]
  simp only [Nat.cast_lt_one]
  split <;> split <;> first | rfl | omega

/-- What stands for no positive number sets no limit. -/
theorem limit_of_not_positive {v : Json} (ceiling : UInt32)
    (h : ∀ n, coerceInteger v = some n → n < 1) :
    (coerceLimit ceiling v).map UInt32.toNat = none := by
  rw [map_toNat_coerceLimit]
  cases hn : coerceInteger v with
  | none => rfl
  | some n => exact if_pos (h n hn)

/-- An integer sets the limit of its value, also where it is beyond 64 bits. It
saturates there, and every ceiling is lower than that. -/
theorem limit_of_integer (ceiling : UInt32) (n : Int) :
    (coerceLimit ceiling (.number (.integer n))).map UInt32.toNat = limitOf ceiling n := by
  have hbound : maxInt64 = 9223372036854775807 := rfl
  by_cases hpos : n < 1
  · have hvalue : (n : ℚ) < 1 := by exact_mod_cast hpos
    rw [limitOf, if_pos hvalue]
    refine limit_of_not_positive ceiling fun k hk => ?_
    cases hk
    omega
  · -- An integer beyond 64 bits is beyond every ceiling.
    have hword := ceiling.toNat_lt
    have hcast : (n : ℚ) = (n.toNat : Nat) := by
      rw [← Int.cast_natCast, Int.toNat_of_nonneg (by omega)]
    rw [limit_of_coerceInteger (n := min n.toNat maxInt64) ceiling (by
        show some (min n maxInt64) = _
        congr 1
        omega), hcast, limitOf_natCast, limitOf_natCast, if_neg (by omega), if_neg (by omega)]
    congr 1
    omega

section Doubles

variable {x : Binary64}

/-- A double without the sign is its magnitude. -/
theorem toRat_of_positive (hpos : x.negative = false) : x.toRat = x.magnitude := by
  rw [Binary64.toRat, hpos]
  rfl

/-- A double with the sign is not positive. It may be zero, as the negative zero
is. -/
theorem toRat_nonpos (hneg : x.negative = true) : x.toRat ≤ 0 := by
  have : (0 : ℚ) ≤ x.significand * 2 ^ x.exponent := by positivity
  rw [Binary64.toRat, if_pos hneg, Binary64.magnitude]
  linarith

/-- The shortest decimal of a double between 10^-5 and 10^16 is written in place,
and that of any other positive double is not. -/
theorem order_in_place_iff (hfinite : x.Finite) (hx : x.significand ≠ 0) :
    (-5 ≤ x.shortest.order ∧ x.shortest.order ≤ 15) ↔
      10 ^ (-5 : Int) ≤ x.magnitude ∧ x.magnitude < 10 ^ 16 := by
  have hdigits := Binary64.shortest_digits_ne_zero hfinite hx
  have hlow := Binary64.pow_le_shortest_iff Binary64.writtenAsPower_neg_five hfinite hx
  have hhigh := Binary64.pow_le_shortest_iff Binary64.writtenAsPower_sixteen hfinite hx
  have hsixteen : (10 : ℚ) ^ (16 : Int) = 10 ^ 16 := by norm_num
  rw [← Decimal.le_order_iff hdigits] at hlow hhigh
  rw [hsixteen] at hhigh
  rw [← hlow, ← not_le, ← hhigh]
  omega

/-- A double that is plain sets the limit of its value: not positive, it sets
nothing, and in the middle range it is written in place, so the whole part is
read. -/
theorem limit_of_plain_double (ceiling : UInt32) (hfinite : x.Finite)
    (hplain : Json.Number.Plain (.double x)) :
    (coerceLimit ceiling (.number (.double x))).map UInt32.toNat = limitOf ceiling x.toRat := by
  cases hsign : x.negative with
  | true =>
    rw [limitOf, if_pos (by linarith [toRat_nonpos hsign])]
    exact limit_of_not_positive ceiling fun n => coerceInteger_of_negative hsign
  | false =>
    rw [Json.Number.Plain] at hplain
    rw [toRat_of_positive hsign] at hplain ⊢
    by_cases hx : x.significand = 0
    -- Zero is written in place as well, but its order is a convention.
    · have hshortest : x.shortest = ⟨0, 0⟩ := if_pos hx
      have hzero := coerceInteger_of_in_place hsign (by simp [hshortest])
        (by rw [hshortest]; decide)
      rw [limit_of_coerceInteger ceiling hzero, limitOf_floor, hshortest, Decimal.toRat,
        Binary64.magnitude, hx, Nat.cast_zero, zero_mul, zero_mul]
    · have hrange := hplain.resolve_left (by linarith [Binary64.magnitude_pos hx])
      have hdigits := Binary64.shortest_digits_ne_zero hfinite hx
      have hwhole := coerceInteger_of_in_place hsign (absurd · hdigits)
        ((order_in_place_iff hfinite hx).mpr hrange)
      rw [limit_of_coerceInteger ceiling hwhole, Binary64.floor_shortest hfinite hx hrange.2.le,
        limitOf_floor]

/-- Of a double outside the range only the first digit counts. This holds for
the tiny as for the huge ones, whatever the ceiling is. -/
theorem limit_of_tiny_or_huge_double (ceiling : UInt32) (hfinite : x.Finite)
    (hplain : ¬ Json.Number.Plain (.double x)) :
    1 ≤ x.shortest.leadingDigit ∧ x.shortest.leadingDigit ≤ 9 ∧
      (coerceLimit ceiling (.number (.double x))).map UInt32.toNat =
        some (min x.shortest.leadingDigit ceiling.toNat) := by
  rw [Json.Number.Plain, not_or, not_le] at hplain
  obtain ⟨hpos, hrange⟩ := hplain
  have hsign : x.negative = false := by
    by_contra hneg
    exact absurd hpos (not_lt.mpr (toRat_nonpos (Bool.eq_true_of_not_eq_false hneg)))
  rw [toRat_of_positive hsign] at hpos hrange
  have hx : x.significand ≠ 0 := by
    intro hzero
    rw [Binary64.magnitude, hzero, Nat.cast_zero, zero_mul] at hpos
    exact lt_irrefl _ hpos
  have hdigits := Binary64.shortest_digits_ne_zero hfinite hx
  obtain ⟨hone, hnine⟩ := Decimal.leadingDigit_bounds hdigits
  refine ⟨hone, hnine, ?_⟩
  -- It is written with an exponent, and a digit from one to nine is never below one.
  rw [limit_of_coerceInteger ceiling (coerceInteger_of_with_exponent hsign hdigits
    ((order_in_place_iff hfinite hx).not.mpr hrange)), limitOf_natCast, if_neg (by omega)]

end Doubles

/-- **Which numbers set limits by their value.** Every number that is kept as an
integer does, every double that is not positive, and every double from 10^-5 up to
10^16, that one excluded. Among all of these a greater number sets no smaller limit.
Any other double sets the limit of a single digit, between one and nine. Doubles are
in normal form here, as all doubles are that a literal stands for. -/
theorem numbers_set_limits_by_value (ceiling : UInt32) :
    (∀ (l : Literal) x, l.value = .double x → x.Finite) ∧
      (∀ n : Json.Number, n.Finite → n.Plain →
        (coerceLimit ceiling (.number n)).map UInt32.toNat = limitOf ceiling n.toRat) ∧
      (∀ m n : Json.Number, m.Finite → m.Plain → n.Finite → n.Plain → m.toRat ≤ n.toRat →
        ((coerceLimit ceiling (.number m)).map UInt32.toNat).getD 0 ≤
          ((coerceLimit ceiling (.number n)).map UInt32.toNat).getD 0) ∧
      ∀ x : Binary64, x.Finite → ¬ Json.Number.Plain (.double x) →
        1 ≤ x.shortest.leadingDigit ∧ x.shortest.leadingDigit ≤ 9 ∧
          (coerceLimit ceiling (.number (.double x))).map UInt32.toNat =
            some (min x.shortest.leadingDigit ceiling.toNat) := by
  have hvalue : ∀ n : Json.Number, n.Finite → n.Plain →
      (coerceLimit ceiling (.number n)).map UInt32.toNat = limitOf ceiling n.toRat := by
    intro n hfinite hplain
    cases n with
    | integer n => exact limit_of_integer ceiling n
    | double x => exact limit_of_plain_double ceiling hfinite hplain
  refine ⟨fun l x => Literal.finite_of_value, hvalue, fun m n hm hplainm hn hplainn hle => ?_,
    fun x => limit_of_tiny_or_huge_double ceiling⟩
  rw [hvalue m hm hplainm, hvalue n hn hplainn]
  exact limitOf_mono ceiling hle

/-- The literal `1e16`, submitted for a limit with the ceiling 120000, sets the
limit one, where its value would be cut to the ceiling; the number two sets more.
The literal `1e-7` sets one as well, where its value sets nothing. -/
theorem huge_and_tiny_literals_set_one :
    Literal.value ⟨false, [1], none, some 16⟩ = .double ⟨false, 5000000000000000, 1⟩ ∧
      Json.Number.toRat (.double ⟨false, 5000000000000000, 1⟩) = 10 ^ 16 ∧
      coerceLimit 120000 (.number (.double ⟨false, 5000000000000000, 1⟩)) = some 1 ∧
      limitOf 120000 (10 ^ 16) = some 120000 ∧
      coerceLimit 120000 (Json.ofNat 2) = some 2 ∧
      Literal.value ⟨false, [1], none, some (-7)⟩ = .double ⟨false, 7555786372591432, -76⟩ ∧
      Json.Number.toRat (.double ⟨false, 7555786372591432, -76⟩) < 1 ∧
      coerceLimit 120000 (.number (.double ⟨false, 7555786372591432, -76⟩)) = some 1 := by
  refine ⟨by decide +kernel, ?_, by decide +kernel, ?_, by decide +kernel, by decide +kernel, ?_,
    by decide +kernel⟩
  · show (5000000000000000 : Nat) * (2 : ℚ) ^ (1 : Int) = 10 ^ 16
    norm_num
  · rw [show (10 : ℚ) ^ 16 = (10 ^ 16 : Nat) by norm_num, limitOf_natCast]
    rfl
  · show (7555786372591432 : Nat) * (2 : ℚ) ^ (-76 : Int) < 1
    norm_num

end Overrides
