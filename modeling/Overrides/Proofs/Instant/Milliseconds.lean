import Overrides.Proofs.Instant.Days
import Overrides.Proofs.Instant.Reading
import Overrides.Proofs.Instant.Rfc3339

/-!
# `Overrides.Proofs.Instant.Milliseconds`: instants survive storage

Stores keep an instant as a number of milliseconds, and everything else
keeps it as a text. `Local.ShowsMillis` says what clock and calendar show
after so many milliseconds, before 1970 too: the date is the one of the
calendar day by day. The limits of instants and of their texts are limits
of the year that is shown.

* `Local.showsMillis_iff`: clock and calendar show one thing at a time.
* `exists_ofMillis_iff`: the numbers that are instants.
* `instants_survive_storage`: numbers and texts give the instant back.
-/

set_option autoImplicit false

namespace Overrides

open Overrides.Calendar

namespace Instant

/-! ### What is shown -/

/-- What clock and calendar show in UTC so many milliseconds after the start of
1970: the date of that day, and the time since midnight. Before 1970 the number
is negative, and the time is still counted forward from midnight. -/
structure Local.ShowsMillis (l : Local) (millis : Int) : Prop where
  date : FallsOn (millis / 86400000) l.date
  valid : l.Valid
  time : (((l.hour * 60 + l.minute) * 60 + l.second) * 1000000000 + l.nano : Nat)
    = millis % 86400000 * 1000000
  offset : l.offset = 0

/-- Clock and calendar show what a count of milliseconds stands for. The
conversion divides the count into days and the rest, also where the count is
negative. -/
theorem showsMillis_toLocal (m : Int) :
    (⟨m * 1000000, 0⟩ : Instant).toLocal.ShowsMillis m where
  date := by
    -- The offset is zero, so the day is that of the count.
    have hday : (m * 1000000 + 0 * 60 * perSecond) / perDay = m / 86400000 := by
      simp only [perDay, perSecond]
      omega
    simp only [toLocal, hday]
    exact fallsOn_ofDays _
  valid := by
    obtain ⟨hhour, hminute, hsecond, hnano⟩ := toLocal_bounds ⟨m * 1000000, 0⟩
    exact ⟨isValid_toLocal _, ⟨hhour, hminute, hsecond⟩, hnano⟩
  time := by
    simp only [toLocal, perDay, perSecond]
    omega
  offset := rfl

/-- Clock and calendar show one thing at a time. So the description by days and
midnights and the conversion that the program does are the same. -/
theorem Local.showsMillis_iff {l : Local} {m : Int} :
    l.ShowsMillis m ↔ l = (⟨m * 1000000, 0⟩ : Instant).toLocal := by
  constructor
  · rintro ⟨hdate, hvalid, htime, hoffset⟩
    -- The instant of what is shown is the one with this number.
    have hinstant : ofLocal l = ⟨m * 1000000, 0⟩ := by
      rw [ofLocal, hoffset, fallsOn_iff.mp hdate, toDays_ofDays]
      congr 1
      simp only [perSecond]
      omega
    rw [← hinstant, toLocal_ofLocal hvalid]
  · rintro rfl
    exact showsMillis_toLocal m

/-! ### Numbers that are instants -/

/-- The first day that an instant can fall on, counted from the start of 1970. -/
theorem firstDay_lowest : Date.toDays ⟨-9999, 1, 1⟩ = -4371587 := rfl

/-- The first day that is beyond all instants. -/
theorem firstDay_beyond : Date.toDays ⟨10000, 1, 1⟩ = 2932897 := rfl

/-- A number of milliseconds is an instant if the calendar shows a year in -9999
to 9999 then. The program compares with two fixed numbers; they are the first
midnights of two years. -/
theorem exists_ofMillis_iff {m : Int} {l : Local} (h : l.ShowsMillis m) :
    (∃ t, ofMillis m = some t) ↔ -9999 ≤ l.date.year ∧ l.date.year ≤ 9999 := by
  have hdate : l.date = Date.ofDays (m / 86400000) := fallsOn_iff.mp h.date
  -- Both limits are the midnight at which a year starts.
  have hlow : -9999 ≤ l.date.year ↔ minMillis ≤ m := by
    rw [hdate, le_year_iff, firstDay_lowest, minMillis]
    omega
  have hhigh : l.date.year ≤ 9999 ↔ m ≤ maxMillis := by
    rw [← Int.lt_add_one_iff, ← Int.not_le, hdate, le_year_iff]
    show ¬ Date.toDays ⟨10000, 1, 1⟩ ≤ _ ↔ _
    rw [firstDay_beyond, maxMillis]
    omega
  rw [hlow, hhigh, ofMillis]
  constructor
  · rintro ⟨t, ht⟩
    split at ht
    · assumption
    · cases ht
  · intro hrange
    exact ⟨_, if_pos hrange⟩

/-- An instant made from milliseconds has a text if its year has four digits. It
is in UTC, so the offset never stands in the way. -/
theorem exists_written?_iff {m : Int} {t : Instant} (h : ofMillis m = some t) :
    (∃ s, t.written? = some s) ↔ 0 ≤ t.toLocal.date.year ∧ t.toLocal.date.year ≤ 9999 := by
  have hoffset : WritableOffset t.offset := by
    rw [eq_of_ofMillis h]
    exact Nat.zero_lt_succ _
  constructor
  · rintro ⟨s, hs⟩
    exact (written?_eq_some_iff.mp hs).1.year
  · intro hyear
    exact ⟨_, written?_of_hasWrittenForm ⟨hyear, hoffset⟩⟩

end Instant

open Instant

/-- **Instants survive storage.** After any number of milliseconds clock and
calendar show exactly one thing. The number is an instant exactly when the
year that is shown lies in -9999 to 9999, and the instant has this number,
before 1970 too. It has a written form exactly when the year lies in 0 to
9999. The written form is the text of RFC 3339 for what is shown, and the
same instant is read from it. -/
theorem instants_survive_storage (m : Int) :
    ∃ l : Local, (∀ shown : Local, shown.ShowsMillis m ↔ shown = l) ∧
      ((∃ t, ofMillis m = some t) ↔ -9999 ≤ l.date.year ∧ l.date.year ≤ 9999) ∧
      ∀ t, ofMillis m = some t →
        t.millis = m ∧
        ((∃ s, t.written? = some s) ↔ 0 ≤ l.date.year ∧ l.date.year ≤ 9999) ∧
        ∀ s, t.written? = some s → Rfc3339 l s.toList ∧ parse s = .ok t := by
  refine ⟨_, fun _ => Local.showsMillis_iff, exists_ofMillis_iff (showsMillis_toLocal m),
    fun t ht => ?_⟩
  rw [← eq_of_ofMillis ht]
  exact ⟨millis_of_ofMillis ht, exists_written?_iff ht,
    fun s hs => ⟨rfc3339_of_written? hs, parse_of_written? hs⟩⟩

/-- The leap day of the year 0, a tenth of a second before it ends: a negative
number, a year of four digits, and one digit left of the fraction. -/
theorem leapDay_survives_storage :
    ∃ t, ofMillis (-62162035200100) = some t ∧ t.millis = -62162035200100 ∧
      t.written? = some "0000-02-29T23:59:59.9Z" ∧
      parse "0000-02-29T23:59:59.9Z" = .ok t := by
  obtain ⟨l, -, -, hkept⟩ := instants_survive_storage (-62162035200100)
  have ht : ofMillis (-62162035200100) = some ⟨-62162035200100000000, 0⟩ := by decide
  have hs : (⟨-62162035200100000000, 0⟩ : Instant).written? = some "0000-02-29T23:59:59.9Z" := rfl
  obtain ⟨hmillis, -, htext⟩ := hkept _ ht
  exact ⟨_, ht, hmillis, hs, (htext _ hs).2⟩

end Overrides
