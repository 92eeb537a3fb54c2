import Overrides.Instant.Calendar

/-!
# `Overrides.Proofs.Instant.Calendar`: days become dates and back

A day is placed in its era of 400 years, in a year of that era, and in
a month of that year. The arithmetic behind the second step is the
delicate one: `yearOfEra_spec` bounds the year and what is left of the
days after it.

* `toDays_ofDays`: the date of a day has the number of that day.
* `isValid_ofDays`: the date of a day exists.
* `ofDays_toDays`: a date that exists is the date of its day.
-/

set_option autoImplicit false

namespace Overrides.Calendar

/-- The year of the era in which a day of the era lies. -/
def yearOfEra (dayOfEra : Int) : Int :=
  (dayOfEra - dayOfEra / 1460 + dayOfEra / 36524 - dayOfEra / 146096) / 365

/-- The first day of a year of the era. -/
def yearStart (y : Int) : Int := 365 * y + y / 4 - y / 100

/-- A day of the era lies in its year, and on the last day of a leap year only
if the year, counted from March, ends with a leap day. The divisions in
`yearOfEra` take back one day for each leap day that was counted too many; that
they do so on every day is what is shown. -/
theorem yearOfEra_spec {d y : Int} (h0 : 0 ≤ d) (h1 : d < 146097) (hy : y = yearOfEra d) :
    0 ≤ y ∧ y ≤ 399 ∧ yearStart y ≤ d ∧ d ≤ yearStart y + 365 ∧
      (d = yearStart y + 365 → (y + 1) % 4 = 0 ∧ ((y + 1) % 100 ≠ 0 ∨ y = 399)) := by
  rw [yearOfEra] at hy
  rw [yearStart]
  by_cases hlast : d = 146096
  · -- The leap day that ends the era.
    have : y = 399 := by omega
    omega
  · have hera : d / 146096 = 0 := by omega
    have hcentury : d / 36524 = 0 ∨ d / 36524 = 1 ∨ d / 36524 = 2 ∨ d / 36524 = 3 := by omega
    rw [hera] at hy
    generalize hquad : d / 1460 = q at hy
    generalize hcent : d / 36524 = c at hy hcentury
    -- The year lies in the century of the day.
    have hlow : 100 * c ≤ y := by omega
    have hhigh : y < 100 * c + 100 := by omega
    have hyear : y / 100 = c := by omega
    rw [hyear]
    have hstart : 365 * y + y / 4 - c ≤ d := by omega
    have hend : d ≤ 365 * y + y / 4 - c + 365 := by omega
    refine ⟨by omega, by omega, hstart, hend, ?_⟩
    intro hleap
    -- Day 365 is left over only where a leap day has been counted in already.
    have hstep : q = y / 4 ∨ q = y / 4 + 1 := by omega
    have hrem : y % 4 = 0 ∨ y % 4 = 1 ∨ y % 4 = 2 ∨ y % 4 = 3 := by omega
    have hthree : y % 4 = 3 := by
      rcases hstep with hq | hq
      all_goals rcases hrem with hr | hr | hr | hr <;> omega
    refine ⟨by omega, .inl ?_⟩
    rcases hcentury with hc | hc | hc | hc <;> omega

/-- The first day of a month in a year that starts in March. -/
def monthStart (m : Int) : Int := (153 * m + 2) / 5

/-- Where a day is placed: in its era, in a year of the era, and in a
month of that year, both counted from March. -/
structure PlacedDay (n era y doy m : Int) : Prop where
  day : n + 719468 = era * 146097 + yearStart y + doy
  year : 0 ≤ y ∧ y ≤ 399
  dayOfYear : 0 ≤ doy ∧ doy ≤ 365
  leap : doy = 365 → (y + 1) % 4 = 0 ∧ ((y + 1) % 100 ≠ 0 ∨ y = 399)
  month : 0 ≤ m ∧ m ≤ 11
  dayOfMonth : monthStart m ≤ doy ∧ doy < monthStart (m + 1)

/-- The date of a placed day; January and February belong to the next
calendar year. -/
def placedDate (era y doy m : Int) : Date :=
  if m < 10 then ⟨y + era * 400, (m + 3).toNat, (doy - monthStart m + 1).toNat⟩
  else ⟨y + era * 400 + 1, (m - 9).toNat, (doy - monthStart m + 1).toNat⟩

/-- Every day is placed somewhere, and its date is the date of that place. The
lemmas on dates take the place from here and do not look at the divisions again.
-/
theorem ofDays_spec (n : Int) :
    ∃ era y doy m, PlacedDay n era y doy m ∧ Date.ofDays n = placedDate era y doy m := by
  have h0 : 0 ≤ (n + 719468) % 146097 := by omega
  have h1 : (n + 719468) % 146097 < 146097 := by omega
  obtain ⟨hy0, hy1, hstart, hend, hleap⟩ := yearOfEra_spec h0 h1 rfl
  have hday : n + 719468 = (n + 719468) / 146097 * 146097 + (n + 719468) % 146097 := by omega
  refine ⟨(n + 719468) / 146097, yearOfEra ((n + 719468) % 146097),
    (n + 719468) % 146097 - yearStart (yearOfEra ((n + 719468) % 146097)),
    (5 * ((n + 719468) % 146097 - yearStart (yearOfEra ((n + 719468) % 146097))) + 2) / 153,
    ?_, rfl⟩
  -- From here on only the bounds of the day and of its year matter.
  generalize (n + 719468) % 146097 = d at *
  generalize yearOfEra d = y at *
  generalize hdoy : d - yearStart y = doy
  refine ⟨by omega, ⟨hy0, hy1⟩, by omega, fun h => hleap (by omega), by omega, ?_⟩
  rw [monthStart, monthStart]
  omega

/-- The date of a day has the number of that day. Both directions go through the
place of the day in its era, so the number is put together from the same parts
it was taken apart into. -/
theorem toDays_ofDays (n : Int) : (Date.ofDays n).toDays = n := by
  obtain ⟨era, y, doy, m, h, hdate⟩ := ofDays_spec n
  obtain ⟨hday, ⟨hy0, hy1⟩, -, -, ⟨hm0, hm1⟩, ⟨hstart, -⟩⟩ := h
  rw [yearStart] at hday
  rw [hdate, placedDate]
  -- From March to December the calendar year is the year of the era.
  by_cases hmarch : m < 10
  · have hnot : ¬ (m + 3).toNat ≤ 2 := by omega
    have hyear : (y + era * 400) / 400 = era ∧ (y + era * 400) % 400 = y := by omega
    have hmonth : (153 * (((m + 3).toNat : Int) - 3) + 2) / 5 = monthStart m := by
      rw [monthStart]
      omega
    rw [if_pos hmarch]
    simp only [Date.toDays, hnot, if_false, hyear.1, hyear.2, hmonth]
    omega
  · have hle : (m - 9).toNat ≤ 2 := by omega
    have hyear : (y + era * 400 + 1 - 1) / 400 = era ∧ (y + era * 400 + 1 - 1) % 400 = y := by
      omega
    have hmonth : (153 * (((m - 9).toNat : Int) + 9) + 2) / 5 = monthStart m := by
      rw [monthStart]
      omega
    rw [if_neg hmarch]
    simp only [Date.toDays, hle, if_true, hyear.1, hyear.2, hmonth]
    omega

/-- Every month but the last one of a year that starts in March has the
same length in every year. -/
theorem monthStart_succ (year : Int) {m : Int} (h0 : 0 ≤ m) (h1 : m < 11) :
    monthStart (m + 1) - monthStart m
      = monthLength year (if m < 10 then (m + 3).toNat else (m - 9).toNat) := by
  have hm : m = 0 ∨ m = 1 ∨ m = 2 ∨ m = 3 ∨ m = 4 ∨ m = 5 ∨ m = 6 ∨ m = 7 ∨ m = 8 ∨ m = 9 ∨
      m = 10 := by omega
  rcases hm with rfl | rfl | rfl | rfl | rfl | rfl | rfl | rfl | rfl | rfl | rfl
  all_goals rfl

/-- A month has 28 to 31 days. -/
theorem monthLength_bounds (year : Int) (month : Nat) :
    28 ≤ monthLength year month ∧ monthLength year month ≤ 31 := by
  rw [monthLength]
  split
  · split <;> decide
  · split <;> decide

/-- A date exists when its month is one of twelve and its day is one of that
month. -/
theorem isValid_iff (d : Date) : d.isValid = true ↔
    (1 ≤ d.month ∧ d.month ≤ 12) ∧ 1 ≤ d.day ∧ d.day ≤ monthLength d.year d.month := by
  simp only [Date.isValid, Bool.and_eq_true, decide_eq_true_eq]
  omega

/-- The date of a day exists: its month and its day are within their bounds,
also in a leap year. Nothing is assumed of the number, so this holds before year
zero as well. -/
theorem isValid_ofDays (n : Int) : (Date.ofDays n).isValid = true := by
  obtain ⟨era, y, doy, m, h, hdate⟩ := ofDays_spec n
  obtain ⟨-, ⟨hy0, hy1⟩, ⟨-, hdoy⟩, hleap, ⟨hm0, hm1⟩, ⟨hstart, hend⟩⟩ := h
  rw [hdate, placedDate, isValid_iff]
  by_cases hlast : m = 11
  · -- February, where the year decides.
    rw [hlast] at hstart ⊢
    have hfirst : monthStart 11 = 337 := rfl
    have hlength : (doy - monthStart 11 + 1).toNat
        ≤ monthLength (y + era * 400 + 1) (11 - 9 : Int).toNat := by
      rw [monthLength, if_pos (by decide)]
      split
      · omega
      · rename_i hcommon
        have hne : doy ≠ 365 := by
          intro h365
          apply hcommon
          rw [isLeap, Bool.and_eq_true, Bool.or_eq_true, beq_iff_eq, bne_iff_ne, beq_iff_eq]
          have := hleap h365
          omega
        omega
    rw [if_neg (by decide)]
    refine ⟨⟨Nat.le_succ 1, Nat.le_add_left 2 10⟩, ?_, hlength⟩
    show 1 ≤ (doy - monthStart 11 + 1).toNat
    omega
  · -- In the other months the next one starts behind the last day.
    have hsucc := fun year => monthStart_succ year hm0 (by omega)
    by_cases hmarch : m < 10
    · rw [if_pos hmarch] at hsucc ⊢
      have := hsucc (y + era * 400)
      refine ⟨?_, ?_, ?_⟩
      all_goals dsimp only
      all_goals omega
    · rw [if_neg hmarch] at hsucc ⊢
      have := hsucc (y + era * 400 + 1)
      refine ⟨?_, ?_, ?_⟩
      all_goals dsimp only
      all_goals omega

/-! ### Existing dates -/

/-- The days of a year of the era come before the days of the later years. So a
day that lies in a year lies in no other. -/
theorem day_lt_yearStart {y y' doy : Int} (h1 : y' ≤ 399) (hlt : y < y')
    (hdoy : doy ≤ 365)
    (hleap : doy = 365 → (y + 1) % 4 = 0 ∧ ((y + 1) % 100 ≠ 0 ∨ y = 399)) :
    yearStart y + doy < yearStart y' := by
  have hnext : yearStart y + doy < yearStart (y + 1) := by
    rw [yearStart, yearStart]
    omega
  have hlater : yearStart (y + 1) ≤ yearStart y' := by
    rw [yearStart, yearStart]
    omega
  exact Int.lt_of_lt_of_le hnext hlater

/-- There is one place only for a day. So a date can be computed in any way that ends with
a place. -/
theorem PlacedDay.unique {n era y doy m era' y' doy' m' : Int} (h : PlacedDay n era y doy m)
    (h' : PlacedDay n era' y' doy' m') : era = era' ∧ y = y' ∧ doy = doy' ∧ m = m' := by
  obtain ⟨hday, ⟨hy0, hy1⟩, ⟨hd0, hd1⟩, hleap, -, ⟨hstart, hend⟩⟩ := h
  obtain ⟨hday', ⟨hy0', hy1'⟩, ⟨hd0', hd1'⟩, hleap', -, ⟨hstart', hend'⟩⟩ := h'
  -- Any year starts within its era, so the days of an era tell the era.
  have hbounds : 0 ≤ yearStart y ∧ yearStart y ≤ 145731 ∧
      0 ≤ yearStart y' ∧ yearStart y' ≤ 145731 := by
    rw [yearStart, yearStart]
    omega
  have hera : era = era' := by omega
  -- A later year starts behind all days of an earlier one.
  have hyear : y = y' := by
    obtain hlt | heq | hgt := Int.lt_trichotomy y y'
    · have := day_lt_yearStart hy1' hlt hd1 hleap
      omega
    · exact heq
    · have := day_lt_yearStart hy1 hgt hd1' hleap'
      omega
  have hdoy : doy = doy' := by
    rw [hera, hyear] at hday
    omega
  refine ⟨hera, hyear, hdoy, ?_⟩
  rw [monthStart] at hstart hend hstart' hend'
  omega

/-- A day of a month other than February has its place in that month. The
lengths of those months do not depend on the year. -/
theorem placedDay_of_month {n era y m day : Int} (hy : 0 ≤ y ∧ y ≤ 399) (hm0 : 0 ≤ m)
    (hm1 : m < 11) (hday : 1 ≤ day) (hlength : day ≤ monthStart (m + 1) - monthStart m)
    (hn : n + 719468 = era * 146097 + yearStart y + (monthStart m + day - 1)) :
    PlacedDay n era y (monthStart m + day - 1) m := by
  have hend : monthStart m + day - 1 < monthStart (m + 1) := by omega
  have hlast : 0 ≤ monthStart m ∧ monthStart (m + 1) ≤ 337 := by
    rw [monthStart, monthStart]
    omega
  exact ⟨hn, hy, by omega, by omega, by omega, by omega, hend⟩

/-- A date that exists has a place. Years of the era start in March, so January and
February belong to the year before. -/
theorem exists_placed {d : Date} (h : d.isValid = true) :
    ∃ era y doy m, PlacedDay d.toDays era y doy m ∧ d = placedDate era y doy m := by
  obtain ⟨year, month, day⟩ := d
  obtain ⟨⟨hmo1, hmo2⟩, hd1, hd2⟩ := (isValid_iff _).mp h
  dsimp only at hmo1 hmo2 hd1 hd2
  by_cases hmarch : month ≤ 2
  · -- January and February end a year of the era.
    refine ⟨(year - 1) / 400, (year - 1) % 400, monthStart (month + 9) + day - 1, month + 9,
      ?_, ?_⟩
    · have hdays : (Date.toDays ⟨year, month, day⟩) + 719468 = (year - 1) / 400 * 146097
          + yearStart ((year - 1) % 400) + (monthStart (month + 9) + day - 1) := by
        simp only [Date.toDays, if_pos hmarch, yearStart, monthStart]
        omega
      -- The end of February is the end of a year, and a leap day is the last of it.
      by_cases hfebruary : month = 2
      · subst hfebruary
        have hfirst : monthStart ((2 : Nat) + 9) = 337 ∧ monthStart ((2 : Nat) + 9 + 1) = 367 :=
          ⟨rfl, rfl⟩
        rw [monthLength, if_pos rfl] at hd2
        refine ⟨hdays, by omega, ?_, ?_, by omega, by omega, ?_⟩
        · split at hd2 <;> omega
        · intro h365
          split at hd2
          · rename_i hleap
            rw [isLeap, Bool.and_eq_true, Bool.or_eq_true, beq_iff_eq, bne_iff_ne, beq_iff_eq]
              at hleap
            omega
          · omega
        · split at hd2 <;> omega
      · obtain rfl : month = 1 := by omega
        exact placedDay_of_month (by omega) (by omega) (by omega) (by omega)
          (by rw [monthStart_succ year (by decide) (by decide)]; exact Int.ofNat_le.mpr hd2) hdays
    · rw [placedDate, if_neg (by omega)]
      congr 1
      all_goals omega
  -- From March on the year is the one of the date.
  · refine ⟨year / 400, year % 400, monthStart (month - 3) + day - 1, month - 3, ?_, ?_⟩
    · have hdays : (Date.toDays ⟨year, month, day⟩) + 719468 = year / 400 * 146097
          + yearStart (year % 400) + (monthStart (month - 3) + day - 1) := by
        simp only [Date.toDays, if_neg hmarch, yearStart, monthStart]
        omega
      refine placedDay_of_month (by omega) (by omega) (by omega) (by omega) ?_ hdays
      have hsame : ((month : Int) - 3 + 3).toNat = month := by omega
      rw [monthStart_succ year (by omega) (by omega), if_pos (by omega), hsame]
      exact Int.ofNat_le.mpr hd2
    · rw [placedDate, if_pos (by omega)]
      congr 1
      all_goals omega

/-- A date that exists is the date of its day. Only existing dates are meant:
the thirtieth of February has a number too, but that is the number of a day in
March. -/
theorem ofDays_toDays {d : Date} (h : d.isValid = true) : Date.ofDays d.toDays = d := by
  obtain ⟨era, y, doy, m, hplaced, hd⟩ := exists_placed h
  obtain ⟨era', y', doy', m', hplaced', hofDays⟩ := ofDays_spec d.toDays
  obtain ⟨rfl, rfl, rfl, rfl⟩ := hplaced.unique hplaced'
  rw [hofDays, ← hd]

end Overrides.Calendar
