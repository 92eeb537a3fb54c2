import Overrides.Proofs.Instant.Written
import Overrides.Proofs.Outcome

/-!
# `Overrides.Proofs.Instant.Reading`: what was read can be written

A text that is read as an instant has four digits for its year and an
offset of hours and minutes of the clock. Clock and calendar show the
date that was read, so the instant has a written form again.

* `toLocal_ofLocal`: clock and calendar show what the instant was made of.
* `hasWrittenForm_of_parse`: what was read can be written.
-/

set_option autoImplicit false

namespace Overrides.Instant

open Overrides.Calendar Overrides.Number

/-! ### Clock and calendar -/

/-- The date exists, and the time of day is one of the clock. There are no leap
seconds here, so no minute has more than sixty. -/
structure Local.Valid (l : Local) : Prop where
  date : l.date.isValid = true
  clock : l.hour < 24 ∧ l.minute < 60 ∧ l.second < 60
  nano : l.nano < 1000000000

/-- Clock and calendar show what the instant was made of. The fields have to be
valid: the instant of an hour beyond midnight, say, is shown as one of the next
day. -/
theorem toLocal_ofLocal {l : Local} (h : l.Valid) : (ofLocal l).toLocal = l := by
  obtain ⟨date, hour, minute, second, nano, offset⟩ := l
  obtain ⟨hdate, ⟨hhour, hminute, hsecond⟩, hnano⟩ := h
  dsimp only at hdate hhour hminute hsecond hnano
  -- Local time counts the nanoseconds of the date and of the time of day.
  have htotal : (ofLocal ⟨date, hour, minute, second, nano, offset⟩).nanos
      + offset * 60 * perSecond
      = (date.toDays * 86400 + hour * 3600 + minute * 60 + second) * 1000000000 + nano := by
    simp only [ofLocal, perSecond]
    omega
  have hday : ((date.toDays * 86400 + hour * 3600 + minute * 60 + second) * 1000000000 + nano)
      / perDay = date.toDays := by
    simp only [perDay, perSecond]
    omega
  have hsecondOfDay : (((date.toDays * 86400 + hour * 3600 + minute * 60 + second) * 1000000000
      + nano) % perDay / perSecond).toNat = hour * 3600 + minute * 60 + second := by
    simp only [perDay, perSecond]
    omega
  have hnano : ((date.toDays * 86400 + hour * 3600 + minute * 60 + second) * 1000000000 + nano)
      % perSecond = nano := by
    simp only [perSecond]
    omega
  have hoffset : (ofLocal ⟨date, hour, minute, second, nano, offset⟩).offset = offset := rfl
  simp only [toLocal, hoffset, htotal, hday, hsecondOfDay, hnano, ofDays_toDays hdate,
    Int.toNat_natCast, Local.mk.injEq, true_and, and_true]
  omega

/-! ### What readers give -/

/-- A digit is worth nine at most. -/
theorem digit_le {c : Char} (h : c.isDigit = true) : c.toNat - '0'.toNat ≤ 9 := by
  rw [Char.isDigit, Bool.and_eq_true, decide_eq_true_eq, decide_eq_true_eq] at h
  have hhigh : c.val.toNat ≤ '9'.val.toNat := UInt32.le_iff_toNat_le.mp h.2
  have hnine : '9'.val.toNat = '0'.toNat + 9 := rfl
  show c.val.toNat - '0'.toNat ≤ 9
  omega

/-- One digit more leaves room for one digit less. -/
theorem lt_of_digit {value d width n : Nat} (hd : d ≤ 9)
    (h : n < (value * 10 + d + 1) * tenTo width) : n < (value + 1) * tenTo (width + 1) := by
  have hten : tenTo (width + 1) = 10 * tenTo width := Nat.mul_comm ..
  have hvalue : value * 10 + d + 1 ≤ (value + 1) * 10 := by omega
  rw [hten, ← Nat.mul_assoc]
  exact Nat.lt_of_lt_of_le h (Nat.mul_le_mul_right _ hvalue)

/-- A number is below the power of ten for its digits. The bound is said for a number that
goes on behind a value, since that is what the recursion reads. -/
theorem number_yields (name : String) (width value : Nat) :
    Yields (number name width value) fun n => n < (value + 1) * tenTo width := by
  induction width generalizing value with
  | zero =>
    refine Yields.pure ?_
    show value < (value + 1) * 1
    omega
  | succ width ih =>
    rw [number]
    refine Yields.bind (.any _) fun cs _ => ?_
    split
    · split
      · rename_i hdigit
        -- A digit makes room for ten values in the place of one.
        exact Yields.bind (.any _) fun _ _ s n s' hn =>
          lt_of_digit (digit_le hdigit) (ih _ s n s' hn)
      · exact .throw _
    · exact .throw _

/-- The value of a run of digits is below the power of ten for it. The start is
general, since the fold carries the digits before along. -/
theorem foldl_digits_lt {cs : List Char} (h : ∀ c ∈ cs, c.isDigit = true) (value : Nat) :
    cs.foldl (fun n c => n * 10 + (c.toNat - '0'.toNat)) value
      < (value + 1) * tenTo cs.length := by
  induction cs generalizing value with
  | nil =>
    show value < (value + 1) * 1
    omega
  | cons c cs ih =>
    rw [List.foldl_cons, List.length_cons]
    exact lt_of_digit (digit_le (h c (List.mem_cons_self ..)))
      (ih (fun d hd => h d (List.mem_cons_of_mem _ hd)) _)

/-- The first nine digits of a fraction are less than a second. Further digits
are read and dropped, so they cannot carry. -/
theorem fractionValue_lt {ds : List Char} (h : ∀ c ∈ ds, c.isDigit = true) :
    fractionValue ds < 1000000000 := by
  have hdigit : ∀ c ∈ (ds ++ List.replicate 9 '0').take 9, c.isDigit = true := by
    intro c hc
    obtain hc | hc := List.mem_append.mp (List.mem_of_mem_take hc)
    · exact h c hc
    · rw [List.eq_of_mem_replicate hc]
      rfl
  -- Nine zeros are put behind before nine digits are taken, so there are nine.
  have hlength : ((ds ++ List.replicate 9 '0').take 9).length = 9 := by
    rw [List.length_take, List.length_append, List.length_replicate]
    omega
  have hlt := foldl_digits_lt hdigit 0
  rw [hlength] at hlt
  exact hlt

/-- A fraction that was read is less than a second. Without a point it is zero.
-/
theorem fraction_yields : Yields fraction fun nano => nano < 1000000000 := by
  rw [fraction]
  refine Yields.bind (.any _) fun cs _ => ?_
  split
  · rename_i rest
    split
    -- A point without digits is refused.
    · exact .throw _
    · rename_i ds _ hspan
      refine Yields.bind (.any _) fun _ _ => .pure (fractionValue_lt fun c hc => ?_)
      rw [List.span_eq_takeWhile_dropWhile] at hspan
      rw [← (Prod.mk.inj hspan).1] at hc
      exact List.mem_takeWhile_imp hc
  · exact .pure (by decide)

/-- An offset that was read is less than a day. The parser checks its hours and
its minutes, each against the clock. -/
theorem offsetPart_yields : Yields offsetPart WritableOffset := by
  rw [offsetPart]
  refine Yields.bind (.any _) fun cs _ => ?_
  split
  -- A sign with hours and minutes, or nothing that can be read.
  · split
    · -- `Z` stands for no offset.
      exact Yields.bind (.any _) fun _ _ => .pure (Nat.zero_lt_succ _)
    · split
      · refine Yields.bind (.any _) fun _ _ => Yields.bind (.any _) fun hour _ => ?_
        refine Yields.refuse fun hhour => Yields.bind (.any _) fun _ _ => ?_
        refine Yields.bind (.any _) fun minute _ => Yields.refuse fun hminute => .pure ?_
        have htotal : ((hour : Int) * 60 + minute).natAbs < 1440 := by omega
        split
        · exact (Int.natAbs_neg _).trans_lt htotal
        · exact htotal
      · exact .throw _
  · exact .throw _

/-- What shows a year of four digits and a writable offset can be written. -/
theorem hasWrittenForm_ofLocal {l : Local} (h : l.Valid)
    (hyear : 0 ≤ l.date.year ∧ l.date.year ≤ 9999) (hoffset : WritableOffset l.offset) :
    (ofLocal l).HasWrittenForm := by
  refine ⟨?_, hoffset⟩
  rw [HasWrittenYear, toLocal_ofLocal h]
  exact hyear

/-- What the reader of instants gives can be written: its year has four digits, its offset
is less than a day, and date and time of day exist. -/
theorem parser_yields : Yields parser HasWrittenForm := by
  rw [parser]
  refine Yields.bind (number_yields _ _ _) fun year hyear => ?_
  -- Between the year and the fraction stands what is checked later on.
  iterate 10 refine Yields.bind (.any _) fun _ _ => ?_
  refine Yields.bind fraction_yields fun nano hnano => ?_
  refine Yields.bind offsetPart_yields fun offset hoffset => ?_
  refine Yields.bind (.any _) fun _ _ => Yields.check fun _ => ?_
  -- What the reader checks makes the date and the time of day valid.
  refine Yields.check fun _ => Yields.check fun hdate => ?_
  refine Yields.check fun hhour => Yields.check fun hminute => Yields.check fun hsecond => ?_
  refine Yields.refuse fun _ => .pure
    (hasWrittenForm_ofLocal ⟨hdate, ⟨hhour, hminute, hsecond⟩, ?_⟩ ?_ hoffset)
  · show (if _ then 999999999 else nano) < 1000000000
    split <;> omega
  · have hfour : (0 + 1) * tenTo 4 = 10000 := rfl
    rw [hfour] at hyear
    show 0 ≤ (year : Int) ∧ (year : Int) ≤ 9999
    omega

/-- An instant that was read can be written: the text had four digits for the
year and an offset of less than a day, and the parser accepts no others. -/
theorem hasWrittenForm_of_parse {text : String} {t : Instant} (h : parse text = .ok t) :
    t.HasWrittenForm := parser_yields.of_run' h

/-- An instant that was read from a value can be written. So whatever has come
in over the wire can go out again. -/
theorem hasWrittenForm_of_ofJson {v : Json} {t : Instant} (h : ofJson v = .ok t) :
    t.HasWrittenForm := by
  cases v with
  | string text =>
    rw [ofJson] at h
    split at h
    · rename_i u hparse
      rw [← Except.ok.inj h]
      exact hasWrittenForm_of_parse hparse
    · cases h
  -- Only a text can be read as an instant.
  | _ => cases h

/-- An instant that can be written has a value, from which it is read back. -/
theorem HasWrittenForm.exists_toJson? {t : Instant} (h : t.HasWrittenForm) :
    ∃ v, t.toJson? = some v ∧ ofJson v = .ok t := by
  have hv : t.toJson? = some (.string _) :=
    Option.map_eq_some_iff.mpr ⟨_, written?_of_hasWrittenForm h, rfl⟩
  exact ⟨_, hv, ofJson_of_toJson? hv⟩

end Overrides.Instant
