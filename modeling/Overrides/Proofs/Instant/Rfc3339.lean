import Overrides.Proofs.Instant.Written

/-!
# `Overrides.Proofs.Instant.Rfc3339`: the form that is written

The profile of RFC 3339 in which instants are written, said without the
writer: numbers of a fixed width, a fraction of the second that does not
end with zero, and the offset from UTC, `Z` where there is none.

* `Rfc3339`: the text of a date and a time of day.
* `rfc3339_of_written?`: what is written for an instant is the text of
  what clock and calendar show.
-/

set_option autoImplicit false

namespace Overrides.Instant

open Overrides.Calendar Overrides.Number

/-! ### The grammar -/

/-- Decimal digits, as many as the width says, with this value. -/
structure Digits (width : Nat) (value : Int) (cs : List Char) : Prop where
  length : cs.length = width
  isDigit : ∀ c ∈ cs, c.isDigit = true
  value : (Nat.ofDigitChars 10 cs 0 : Int) = value

/-- The fraction of a second, in nanoseconds: nothing for a whole second, and
otherwise a point and digits, the last of them not zero. -/
inductive Subsecond : Nat → List Char → Prop
  | whole : Subsecond 0 []
  | part {nano width value : Nat} {cs : List Char} :
      Digits width value cs → (∃ c ∈ cs.getLast?, c ≠ '0') →
      value * tenTo 9 = nano * tenTo width → Subsecond nano ('.' :: cs)

/-- The offset from UTC, in minutes. -/
inductive Zone : Int → List Char → Prop
  | utc : Zone 0 ['Z']
  | ahead {hour minute : Nat} {hs ms : List Char} :
      hour < 24 → minute < 60 → 0 < hour * 60 + minute →
      Digits 2 hour hs → Digits 2 minute ms →
      Zone (hour * 60 + minute : Nat) ('+' :: hs ++ ':' :: ms)
  | behind {hour minute : Nat} {hs ms : List Char} :
      hour < 24 → minute < 60 → 0 < hour * 60 + minute →
      Digits 2 hour hs → Digits 2 minute ms →
      Zone (-(hour * 60 + minute : Nat)) ('-' :: hs ++ ':' :: ms)

/-- The text of RFC 3339 for what clock and calendar show. Each part is
described by the digits that it may have, so the grammar does not mention how
the writer pads or cuts them. -/
inductive Rfc3339 (l : Local) : List Char → Prop
  | text {year month day hour minute second fraction zone : List Char} :
      Digits 4 l.date.year year → Digits 2 l.date.month month → Digits 2 l.date.day day →
      Digits 2 l.hour hour → Digits 2 l.minute minute → Digits 2 l.second second →
      Subsecond l.nano fraction → Zone l.offset zone →
      Rfc3339 l (year ++ '-' :: (month ++ '-' :: (day ++ 'T' :: (hour ++ ':' :: (minute
        ++ ':' :: (second ++ (fraction ++ zone)))))))

/-! ### The parts -/

/-- A number is written in its digits. There have to be enough of them: a wider
number would be cut. -/
theorem digits_padded {width n : Nat} (h : n < tenTo width) :
    Digits width n (padded width n) := by
  obtain ⟨ds, hlength, hdigit, hpadded, hvalue⟩ := exists_padded width n
  refine ⟨?_, padded_isDigit width n, ?_⟩
  · rw [hpadded, List.length_map, hlength]
  · have hfold := foldl_digitChar hdigit 0
    rw [hvalue, Nat.mod_eq_of_lt h] at hfold
    rw [hpadded, Nat.ofDigitChars_eq_foldl, ← hfold]
    congr 2
    funext n c
    rw [Nat.mul_comm]

/-- The digits that are left have the value of all nine, and the last of them is not zero.
-/
theorem subsecond_fractionText {nano : Nat} (h : nano < 1000000000) :
    Subsecond nano (fractionText nano) := by
  rw [fractionText]
  split
  · rename_i hzero
    rw [hzero]
    exact .whole
  · rename_i hpos
    obtain ⟨hlength, -, hvalue⟩ := digits_padded (show nano < tenTo 9 from h)
    -- The zeros that were dropped are put back, so that values can be compared.
    obtain ⟨zeros, hzeros⟩ := rdropWhile_append_zeros (padded 9 nano)
    rw [← hzeros, List.length_append, List.length_replicate] at hlength
    rw [← hzeros, Nat.ofDigitChars_append, Nat.ofDigitChars_replicate_zero] at hvalue
    have hnano : tenTo zeros * Nat.ofDigitChars 10 (fractionDigits nano) 0 = nano :=
      Int.ofNat_inj.mp hvalue
    refine .part ⟨rfl, fractionDigits_isDigit nano, rfl⟩ ?_ ?_
    -- The last digit that is left was not dropped, so it is no zero.
    · have hne : fractionDigits nano ≠ [] := by
        intro hnil
        rw [hnil] at hnano
        exact hpos hnano.symm
      refine ⟨_, List.getLast?_eq_some_getLast hne, ?_⟩
      have hlast := List.rdropWhile_last_not (· == '0') (padded 9 nano) hne
      rwa [beq_iff_eq] at hlast
    -- Nine digits are those that are left and the zeros.
    · have hten : tenTo 9 = tenTo (fractionDigits nano).length * tenTo zeros := by
        rw [← hlength]
        exact Nat.pow_add ..
      calc Nat.ofDigitChars 10 (fractionDigits nano) 0 * tenTo 9
          = tenTo zeros * Nat.ofDigitChars 10 (fractionDigits nano) 0
              * tenTo (fractionDigits nano).length := by
            rw [hten, ← Nat.mul_assoc, Nat.mul_right_comm, Nat.mul_comm _ (tenTo zeros)]
        _ = nano * tenTo (fractionDigits nano).length := by rw [hnano]

/-- What is written for an offset of less than a day is a zone of that offset.
No offset is written as a sign with zeros: that is what `Z` is for. -/
theorem zone_offsetText {offset : Int} (h : WritableOffset offset) :
    Zone offset (offsetText offset) := by
  have hbound : offset.natAbs < 1440 := h
  have hhour : Digits 2 (offset.natAbs / 60 : Nat) (padded 2 (offset.natAbs / 60)) :=
    digits_padded (show offset.natAbs / 60 < 100 by omega)
  have hminute : Digits 2 (offset.natAbs % 60 : Nat) (padded 2 (offset.natAbs % 60)) :=
    digits_padded (show offset.natAbs % 60 < 100 by omega)
  rw [offsetText]
  split
  · rename_i hzero
    rw [hzero]
    exact .utc
  -- Hours and minutes make up the magnitude.
  · have hsum : offset.natAbs / 60 * 60 + offset.natAbs % 60 = offset.natAbs := by omega
    split
    · rename_i hneg
      have hoffset : offset = -(offset.natAbs / 60 * 60 + offset.natAbs % 60 : Nat) := by omega
      have hzone := Zone.behind (by omega) (by omega) (by omega) hhour hminute
      rwa [← hoffset] at hzone
    · have hoffset : offset = (offset.natAbs / 60 * 60 + offset.natAbs % 60 : Nat) := by omega
      have hzone := Zone.ahead (by omega) (by omega) (by omega) hhour hminute
      rwa [← hoffset] at hzone

/-! ### The whole -/

/-- What is written is the text of what clock and calendar show, part by part.
The fraction is left out when it is zero, and its last digit is no zero
otherwise. -/
theorem rfc3339_of_written? {t : Instant} {s : String} (h : t.written? = some s) :
    Rfc3339 t.toLocal s.toList := by
  obtain ⟨⟨⟨hyear0, hyear1⟩, hoffset⟩, rfl⟩ := written?_eq_some_iff.mp h
  obtain ⟨hhour, hminute, hsecond, hnano⟩ := toLocal_bounds t
  obtain ⟨⟨hmo1, hmo2⟩, hd1, hd2⟩ := (isValid_iff _).mp (isValid_toLocal t)
  have hday := (monthLength_bounds t.toLocal.date.year t.toLocal.date.month).2
  -- Month, day, hour, minute and second all have two digits.
  have two {n : Nat} (hn : n < 100) : Digits 2 n (padded 2 n) := digits_padded hn
  have hyear : Digits 4 t.toLocal.date.year (padded 4 t.toLocal.date.year.toNat) := by
    have hfour := digits_padded (show t.toLocal.date.year.toNat < tenTo 4 by
      show _ < 10000
      omega)
    rwa [Int.toNat_of_nonneg hyear0] at hfour
  rw [String.toList_ofList]
  exact .text hyear (two (by omega)) (two (by omega)) (two (by omega)) (two (by omega))
    (two (by omega)) (subsecond_fractionText hnano) (zone_offsetText hoffset)

end Overrides.Instant
