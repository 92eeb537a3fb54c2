import Mathlib.Data.Int.Init
import Overrides.Proofs.Instant.Calendar

/-!
# `Overrides.Proofs.Instant.Days`: the calendar day by day

Days become dates through eras of 400 years. `FallsOn` is the same
calendar without arithmetic: 1970-01-01 is day 0, and `Date.next` leads
from the date of a day to that of the next one, by the lengths of the
months and by the leap days. Both give every day the same date.

* `toDays_next`: the next date has the next number.
* `fallsOn_iff`: a day falls on the date that is computed for it.
* `le_year_iff`: a year starts with its first of January.
-/

set_option autoImplicit false

namespace Overrides.Calendar

/-! ### The next date -/

/-- The date of the next day. The calendar is walked here a day at a time, with
nothing but the lengths of the months, so that the closed formulas have
something to be compared with. -/
def Date.next (d : Date) : Date :=
  if d.day < monthLength d.year d.month then ⟨d.year, d.month, d.day + 1⟩
  else if d.month < 12 then ⟨d.year, d.month + 1, 1⟩
  else ⟨d.year + 1, 1, 1⟩

/-- Days of one month follow each other. -/
theorem toDays_add (year : Int) (month day n : Nat) :
    Date.toDays ⟨year, month, day + n⟩ = Date.toDays ⟨year, month, day⟩ + n := by
  simp only [Date.toDays]
  omega

/-- A month starts behind the days of the month before it. The formula counts
months from March, so this covers the turn from February to March with its two
lengths. -/
theorem toDays_nextMonth (year : Int) {month : Nat} (h1 : 1 ≤ month) (h2 : month < 12) :
    Date.toDays ⟨year, month + 1, 1⟩
      = Date.toDays ⟨year, month, 1⟩ + monthLength year month := by
  have hcases : month = 1 ∨ month = 2 ∨ 3 ≤ month := by omega
  -- January and February are counted to the year before, and the other months are not.
  obtain rfl | rfl | hmarch := hcases
  · simp only [Date.toDays, monthLength, Nat.reduceEqDiff, Nat.reduceAdd, Nat.reduceLeDiff, or_self,
      if_true, if_false, Std.le_refl]
    omega
  · -- The year counted from March ends here, with the leap day.
    simp only [Date.toDays, monthLength, isLeap, Nat.reduceAdd, Nat.reduceLeDiff, if_true, if_false,
      Std.le_refl, Bool.and_eq_true, Bool.or_eq_true, beq_iff_eq, bne_iff_ne]
    split <;> omega
  · have hnot : ¬ month + 1 ≤ 2 ∧ ¬ month ≤ 2 := by omega
    have hmonth : ((month : Int) - 3 + 3).toNat = month := by omega
    have hlength := monthStart_succ year (m := month - 3) (by omega) (by omega)
    rw [if_pos (by omega), hmonth, monthStart, monthStart] at hlength
    simp only [Date.toDays, hnot.1, hnot.2, if_false]
    omega

/-- A year starts behind the days of the December before it. -/
theorem toDays_nextYear (year : Int) :
    Date.toDays ⟨year + 1, 1, 1⟩ = Date.toDays ⟨year, 12, 1⟩ + 31 := by
  simp only [Date.toDays]
  omega

/-- The next date has the next number, be it in the same month, in the next one
or in the next year. The date has to exist, since the end of the month is told
by its length. -/
theorem toDays_next {d : Date} (h : d.isValid = true) : d.next.toDays = d.toDays + 1 := by
  obtain ⟨year, month, day⟩ := d
  obtain ⟨⟨hmonth1, hmonth2⟩, hday1, hday2⟩ := (isValid_iff _).mp h
  dsimp only at hmonth1 hmonth2 hday1 hday2
  rw [Date.next]
  dsimp only
  by_cases hday : day < monthLength year month
  · rw [if_pos hday]
    exact toDays_add year month day 1
  · -- The last day of the month.
    have hlast : Date.toDays ⟨year, month, day⟩ + 1
        = Date.toDays ⟨year, month, 1⟩ + monthLength year month := by
      have hadd := toDays_add year month 1 (day - 1)
      rw [Nat.add_sub_cancel' hday1] at hadd
      omega
    rw [if_neg hday, hlast]
    by_cases hmonth : month < 12
    · rw [if_pos hmonth]
      exact toDays_nextMonth year hmonth1 hmonth
    · obtain rfl : month = 12 := by omega
      exact toDays_nextYear year

/-- The next date exists. Only the first days of months are new, and every month
has one. -/
theorem isValid_next {d : Date} (h : d.isValid = true) : d.next.isValid = true := by
  rw [isValid_iff] at h ⊢
  rw [Date.next]
  split
  · dsimp only
    omega
  · split
    · have := (monthLength_bounds d.year (d.month + 1)).1
      dsimp only
      omega
    · have := (monthLength_bounds (d.year + 1) 1).1
      dsimp only
      omega

/-- The date of the next day is the next date. -/
theorem ofDays_succ (n : Int) : Date.ofDays (n + 1) = (Date.ofDays n).next := by
  have hvalid := isValid_ofDays n
  have hnumber : (Date.ofDays n).next.toDays = n + 1 := by
    rw [toDays_next hvalid, toDays_ofDays]
  rw [← hnumber, ofDays_toDays (isValid_next hvalid)]

/-! ### The calendar -/

/-- The proleptic Gregorian calendar: on which date a day falls, counted from
1970-01-01. Days after that one are reached by going on to the next date, and
days before it by a date that exists and has the later one next. -/
inductive FallsOn : Int → Date → Prop
  | epoch : FallsOn 0 ⟨1970, 1, 1⟩
  | after {n : Int} {d : Date} : FallsOn n d → FallsOn (n + 1) d.next
  | before {n : Int} {d : Date} : d.isValid = true → FallsOn (n + 1) d.next → FallsOn n d

/-- Every day falls on the date that is computed for it. The induction goes from
the epoch in both directions, a day at a time. -/
theorem fallsOn_ofDays (n : Int) : FallsOn n (Date.ofDays n) := by
  induction n using Int.induction_on with
  | zero => exact .epoch
  | succ n ih =>
    rw [ofDays_succ]
    exact .after ih
  | pred n ih =>
    refine .before (isValid_ofDays _) ?_
    rw [← ofDays_succ, Int.sub_add_cancel]
    exact ih

/-- A day falls on the date that is computed for it, and on no other. The walk
through the calendar and the division by eras agree on every day, however far
away. -/
theorem fallsOn_iff {n : Int} {d : Date} : FallsOn n d ↔ d = Date.ofDays n := by
  constructor
  · intro h
    -- Going on from day to day and back agrees with the computed date.
    induction h with
    | epoch => rfl
    | after _ ih => rw [ofDays_succ, ih]
    | @before n d hvalid _ ih =>
      -- The day before is the one whose next date this is.
      have hnumber : d.toDays = n := by
        have hnext := toDays_next hvalid
        rw [ih, toDays_ofDays] at hnext
        omega
      rw [← hnumber, ofDays_toDays hvalid]
  · rintro rfl
    exact fallsOn_ofDays n

/-! ### Years -/

/-- The year of the next date is no earlier one. -/
theorem year_le_next (d : Date) : d.year ≤ d.next.year := by
  rw [Date.next]
  split
  · exact Int.le_refl _
  · split
    · exact Int.le_refl _
    · exact Int.le_add_one (Int.le_refl _)

/-- Years do not go back. -/
theorem year_ofDays_mono {n k : Int} (h : n ≤ k) :
    (Date.ofDays n).year ≤ (Date.ofDays k).year := by
  induction k, h using Int.leInduction with
  | base => exact Int.le_refl _
  | succ k _ ih =>
    rw [ofDays_succ]
    exact Int.le_trans ih (year_le_next _)

/-- The day before a year starts lies in the year before it. -/
theorem ofDays_pred_newYear (year : Int) :
    Date.ofDays (Date.toDays ⟨year, 1, 1⟩ - 1) = ⟨year - 1, 12, 31⟩ := by
  have hnext : (⟨year - 1, 12, 31⟩ : Date).next = ⟨year, 1, 1⟩ := by
    show (⟨year - 1 + 1, 1, 1⟩ : Date) = _
    rw [Int.sub_add_cancel]
  have hvalid : (⟨year - 1, 12, 31⟩ : Date).isValid = true := rfl
  rw [← hnext, toDays_next hvalid, Int.add_sub_cancel, ofDays_toDays hvalid]

/-- A year has come once its first of January has. This turns a limit on years
into one on days, which is how the range of instants is stated. -/
theorem le_year_iff {year n : Int} :
    year ≤ (Date.ofDays n).year ↔ Date.toDays ⟨year, 1, 1⟩ ≤ n := by
  constructor
  · intro hyear
    refine Int.not_lt.mp fun hbefore => ?_
    have hmono := year_ofDays_mono (Int.le_sub_one_of_lt hbefore)
    rw [ofDays_pred_newYear] at hmono
    dsimp only at hmono
    omega
  · intro hn
    have hfirst : Date.ofDays (Date.toDays ⟨year, 1, 1⟩) = ⟨year, 1, 1⟩ := ofDays_toDays rfl
    have hmono := year_ofDays_mono hn
    rwa [hfirst] at hmono

end Overrides.Calendar
