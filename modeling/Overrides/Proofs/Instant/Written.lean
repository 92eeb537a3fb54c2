import Mathlib.Data.List.DropRight
import Mathlib.Data.List.TakeDrop
import Overrides.Instant
import Overrides.Proofs.Instant.Calendar

/-!
# `Overrides.Proofs.Instant.Written`: written instants are read back

The written form shows clock and calendar at the offset of the
instant. Nothing is lost in it: the fraction goes down to the
nanosecond, and the offset is written too. Reading checks that what
was written is a date and a time of day, which it always is.

* `ofLocal_toLocal`: clock and calendar determine the instant.
* `parse_of_written?`: what was written is read back.
-/

set_option autoImplicit false

namespace Overrides.Instant

open Overrides.Calendar Overrides.Number

/-! ### Milliseconds -/

/-- An instant made from milliseconds is a whole number of them, without an
offset. -/
theorem eq_of_ofMillis {m : Int} {t : Instant} (h : ofMillis m = some t) :
    t = ⟨m * 1000000, 0⟩ := by
  rw [ofMillis] at h
  split at h
  · exact (Option.some.inj h).symm
  · cases h

/-- An instant made from milliseconds has these milliseconds. -/
theorem millis_of_ofMillis {m : Int} {t : Instant} (h : ofMillis m = some t) : t.millis = m := by
  rw [eq_of_ofMillis h]
  exact Int.mul_tdiv_cancel m (by decide)

/-! ### Clock and calendar -/

/-- Clock and calendar, with the offset, determine the instant. This direction
needs no condition: whatever an instant is, its own fields lead back to it. -/
theorem ofLocal_toLocal (t : Instant) : ofLocal t.toLocal = t := by
  obtain ⟨nanos, offset⟩ := t
  simp only [toLocal, ofLocal, toDays_ofDays, perDay, perSecond]
  congr 1
  generalize hn : nanos + offset * 60 * 1000000000 = n
  omega

/-- The clock shows hours, minutes, seconds and nanoseconds within their bounds, whatever
the instant and its offset. -/
theorem toLocal_bounds (t : Instant) :
    t.toLocal.hour < 24 ∧ t.toLocal.minute < 60 ∧ t.toLocal.second < 60 ∧
      t.toLocal.nano < 1000000000 := by
  simp only [toLocal, perDay, perSecond]
  omega

/-- The calendar shows a date that exists. -/
theorem isValid_toLocal (t : Instant) : t.toLocal.date.isValid = true := isValid_ofDays _

/-! ### Digits -/

/-- One part of a text after the other. -/
theorem parser_bind_ok {α β : Type} {p : Parser α} {s rest : List Char} {a : α}
    (h : p s = .ok (a, rest)) (f : α → Parser β) : (p >>= f) s = f a rest := by
  show (p s).bind (fun x => f x.1 x.2) = _
  rw [h]
  rfl

/-- Looking at all that is left takes none of it away. -/
theorem parser_get_bind {α : Type} (f : List Char → Parser α) (s : List Char) :
    (get >>= f) s = f s s := rfl

/-- A reader may put other characters in the place of what is left. -/
theorem parser_set_bind {α : Type} (t : List Char) (f : PUnit → Parser α) (s : List Char) :
    (set t >>= f) s = f ⟨⟩ t := rfl

/-- Digits are read as the number that they write, behind the value of those that were
read before. -/
theorem number_digits (name : String) {ds : List Nat} (h : ∀ d ∈ ds, d < 10) (value : Nat)
    (rest : List Char) :
    number name ds.length value (ds.map Nat.digitChar ++ rest)
      = .ok (ds.foldl (fun n d => n * 10 + d) value, rest) := by
  induction ds generalizing value with
  | nil => rfl
  | cons d ds ih =>
    -- Ten digits are few enough to be gone through.
    have hchar : ∀ d < 10, (Nat.digitChar d).isDigit = true ∧
        (Nat.digitChar d).toNat - '0'.toNat = d := by decide
    obtain ⟨hdigit, hvalue⟩ := hchar d (h d (List.mem_cons_self ..))
    have hrest := ih (fun e he => h e (List.mem_cons_of_mem _ he)) (value * 10 + d)
    rw [List.foldl_cons, ← hrest, List.length_cons, List.map_cons, List.cons_append, number]
    show (if (Nat.digitChar d).isDigit = true then _ else _ : Parser Nat) _ = _
    rw [if_pos hdigit]
    show number name ds.length (value * 10 + ((Nat.digitChar d).toNat - '0'.toNat)) _ = _
    rw [hvalue]

/-- A padded number has exactly so many digits. It is the number itself as long as it has
no more of them, and its last digits otherwise. -/
theorem exists_padded (width n : Nat) :
    ∃ ds : List Nat, ds.length = width ∧ (∀ d ∈ ds, d < 10) ∧
      padded width n = ds.map Nat.digitChar ∧
      ds.foldl (fun n d => n * 10 + d) 0 = n % tenTo width := by
  induction width generalizing n with
  | zero => exact ⟨[], rfl, (fun _ h => nomatch h), rfl, (Nat.mod_one n).symm⟩
  | succ width ih =>
    obtain ⟨ds, hlength, hdigit, hpadded, hvalue⟩ := ih (n / 10)
    refine ⟨ds ++ [n % 10], by rw [List.length_append, hlength]; rfl, ?_, ?_, ?_⟩
    · intro d hd
      rcases List.mem_append.mp hd with hd | hd
      · exact hdigit d hd
      · rw [List.mem_singleton.mp hd]
        omega
    · rw [padded, hpadded, List.map_append]
      rfl
    -- The last digit is split off on both sides.
    · have hten : tenTo (width + 1) = 10 * tenTo width := Nat.mul_comm ..
      rw [List.foldl_append, hvalue, hten, Nat.mod_mul]
      show n / 10 % tenTo width * 10 + n % 10 = _
      omega

/-- A padded number is made of digits. -/
theorem padded_isDigit (width n : Nat) : ∀ c ∈ padded width n, c.isDigit = true := by
  obtain ⟨ds, -, hdigit, hpadded, -⟩ := exists_padded width n
  have hchar : ∀ d < 10, (Nat.digitChar d).isDigit = true := by decide
  intro c hc
  rw [hpadded] at hc
  obtain ⟨d, hd, rfl⟩ := List.mem_map.mp hc
  exact hchar d (hdigit d hd)

/-- A number that is not too wide is read back from its padded form, whatever follows. -/
theorem number_padded (name : String) {width n : Nat} (h : n < tenTo width) (rest : List Char) :
    number name width 0 (padded width n ++ rest) = .ok (n, rest) := by
  obtain ⟨ds, hlength, hdigit, hpadded, hvalue⟩ := exists_padded width n
  have hnumber := number_digits name hdigit 0 rest
  rw [hlength, ← hpadded, hvalue, Nat.mod_eq_of_lt h] at hnumber
  exact hnumber

/-- Two digits, as in a month, a day, an hour, a minute or a second. -/
theorem number_two (name : String) {n : Nat} (h : n < 100) (rest : List Char) :
    number name 2 0 (padded 2 n ++ rest) = .ok (n, rest) :=
  number_padded name h rest

/-- Four digits, as in a year. -/
theorem number_four (name : String) {n : Nat} (h : n < 10000) (rest : List Char) :
    number name 4 0 (padded 4 n ++ rest) = .ok (n, rest) :=
  number_padded name h rest

/-! ### Fractions -/

/-- Zeros are all that is dropped at the end. -/
theorem rdropWhile_append_zeros (cs : List Char) :
    ∃ n, cs.rdropWhile (· == '0') ++ List.replicate n '0' = cs := by
  have hzeros : cs.rtakeWhile (· == '0')
      = List.replicate (cs.rtakeWhile (· == '0')).length '0' :=
    List.eq_replicate_of_mem fun c hc => by simpa using List.mem_rtakeWhile_imp hc
  refine ⟨(cs.rtakeWhile (· == '0')).length, ?_⟩
  rw [← hzeros, List.rdropWhile_append_rtakeWhile]

/-- Filling zeros in again undoes dropping them at the end. -/
theorem take_append_zeros {cs : List Char} {n : Nat} (h : cs.length = n) :
    (cs.rdropWhile (· == '0') ++ List.replicate n '0').take n = cs := by
  obtain ⟨zeros, hzeros⟩ := rdropWhile_append_zeros cs
  have hlength := congrArg List.length hzeros
  rw [List.length_append, List.length_replicate, h] at hlength
  have hfill : n - (cs.rdropWhile (· == '0')).length = zeros := by omega
  rw [List.take_append, List.take_of_length_le (by omega), List.take_replicate,
    Nat.min_eq_left (Nat.sub_le ..), hfill, hzeros]

/-- The value of characters that are digits. The reader subtracts the zero
character again, which the writer had added. -/
theorem foldl_digitChar {ds : List Nat} (h : ∀ d ∈ ds, d < 10) (value : Nat) :
    (ds.map Nat.digitChar).foldl (fun n c => n * 10 + (c.toNat - '0'.toNat)) value
      = ds.foldl (fun n d => n * 10 + d) value := by
  induction ds generalizing value with
  | nil => rfl
  | cons d ds ih =>
    have hchar : ∀ d < 10, (Nat.digitChar d).toNat - '0'.toNat = d := by decide
    rw [List.map_cons, List.foldl_cons, List.foldl_cons, hchar d (h d (List.mem_cons_self ..)),
      ih fun e he => h e (List.mem_cons_of_mem _ he)]

/-- Zeros at the end do not change a fraction. The writer drops them, and the
reader counts the places that are missing. -/
theorem fractionValue_fractionDigits {nano : Nat} (h : nano < 1000000000) :
    fractionValue (fractionDigits nano) = nano := by
  obtain ⟨ds, hlength, hdigit, hpadded, hvalue⟩ := exists_padded 9 nano
  have hnine : (padded 9 nano).length = 9 := by rw [hpadded, List.length_map, hlength]
  have htake : (fractionDigits nano ++ List.replicate 9 '0').take 9 = padded 9 nano :=
    take_append_zeros hnine
  have hten : tenTo 9 = 1000000000 := rfl
  rw [fractionValue, htake, hpadded, foldl_digitChar hdigit, hvalue, hten, Nat.mod_eq_of_lt h]

/-- The digits of a fraction are digits, also when the zeros behind them are gone. -/
theorem fractionDigits_isDigit (nano : Nat) : ∀ c ∈ fractionDigits nano, c.isDigit = true :=
  fun c hc => padded_isDigit 9 nano c ((List.rdropWhile_prefix ..).subset hc)

/-- What follows a fraction does not go on with it. -/
def EndsFraction (rest : List Char) : Prop := ∀ c ∈ rest.head?, c.isDigit = false ∧ c ≠ '.'

/-- The fraction as it is written: nothing for a whole second. -/
def fractionText (nano : Nat) : List Char :=
  if nano = 0 then [] else '.' :: fractionDigits nano

/-- A run of digits is taken whole, up to the first character that is none. That
there is such a character, or nothing, behind it is what `EndsFraction` is for.
-/
theorem span_digits {cs rest : List Char} (h : ∀ c ∈ cs, c.isDigit = true)
    (hrest : EndsFraction rest) : (cs ++ rest).span Char.isDigit = (cs, rest) := by
  have hend : rest.takeWhile Char.isDigit = [] ∧ rest.dropWhile Char.isDigit = rest := by
    cases rest with
    | nil => exact ⟨rfl, rfl⟩
    | cons c rest =>
      have hc : ¬ c.isDigit = true := by
        rw [(hrest c rfl).1]
        decide
      exact ⟨List.takeWhile_cons_of_neg hc, List.dropWhile_cons_of_neg hc⟩
  rw [List.span_eq_takeWhile_dropWhile, List.takeWhile_append_of_pos h,
    List.dropWhile_append_of_pos h, hend.1, hend.2, List.append_nil]

/-- A fraction is read back from its text, and zero from no text. What follows must not
look like a fraction. -/
theorem fraction_fractionText {nano : Nat} (h : nano < 1000000000) {rest : List Char}
    (hrest : EndsFraction rest) : fraction (fractionText nano ++ rest) = .ok (nano, rest) := by
  rw [fractionText]
  split
  · rename_i hzero
    have hpoint : ∀ tail, rest ≠ '.' :: tail := by
      intro tail heq
      rw [heq] at hrest
      exact (hrest '.' rfl).2 rfl
    -- No point follows, so no fraction is read.
    rw [hzero, List.nil_append, fraction, parser_get_bind]
    simp only
    rfl
  · rename_i hpos
    have hvalue := fractionValue_fractionDigits h
    have hspan := span_digits (fractionDigits_isDigit nano) hrest
    cases hdigits : fractionDigits nano with
    -- Without any digit the fraction would be zero.
    | nil =>
      rw [hdigits] at hvalue
      exact absurd hvalue.symm hpos
    | cons d ds =>
      rw [hdigits] at hspan hvalue
      rw [List.cons_append, fraction, parser_get_bind]
      simp only [hspan]
      show Except.ok (fractionValue (d :: ds), rest) = _
      rw [hvalue]

/-! ### Offsets -/

/-- The offsets that can be written: less than a day. -/
def WritableOffset (offset : Int) : Prop := offset.natAbs < 1440

/-- What is written for an offset starts with `Z` or a sign, so it ends a fraction. -/
theorem endsFraction_offsetText (offset : Int) (rest : List Char) :
    EndsFraction (offsetText offset ++ rest) := by
  intro c hc
  rw [offsetText] at hc
  split at hc
  · cases hc
    decide
  · split at hc
    all_goals
      cases hc
      decide

/-- A separator is taken where it stands. -/
theorem separator_cons (c : Char) (rest : List Char) :
    separator c (c :: rest) = .ok ((), rest) := by
  rw [separator, parser_get_bind]
  simp only [if_true]
  rfl

/-- A sign with two numbers is read as the offset in minutes. The numbers have
two digits each, as the writer pads them. -/
theorem offsetPart_signed {sign : Char} (hsign : sign = '+' ∨ sign = '-') {hour minute : Nat}
    (hhour : hour < 24) (hminute : minute < 60) :
    offsetPart (sign :: (padded 2 hour ++ ':' :: padded 2 minute))
      = .ok (if sign = '-' then -((hour * 60 + minute : Nat) : Int) else (hour * 60 + minute : Nat),
          []) := by
  -- A sign is no `Z`.
  have hz : ¬ (sign = 'Z' ∨ sign = 'z') := by
    rcases hsign with rfl | rfl <;> decide
  have hh : number "offset hour" 2 0 (padded 2 hour ++ ':' :: padded 2 minute) = .ok (hour, _) :=
    number_two _ (by omega) _
  -- Nothing follows the minutes, so the text is put in front of an empty one.
  have hm : number "offset minute" 2 0 (padded 2 minute ++ []) = .ok (minute, []) :=
    number_two _ (by omega) []
  rw [List.append_nil] at hm
  rw [offsetPart, parser_get_bind]
  simp only [hz, hsign, if_false, if_true]
  rw [parser_set_bind, parser_bind_ok hh, if_neg (by omega), parser_bind_ok (separator_cons ..),
    parser_bind_ok hm, if_neg (by omega)]
  show Except.ok _ = _
  congr 2

/-- An offset of less than a day is read back from its text. It is taken apart
into hours and minutes and put together again, with the sign in front of both.
-/
theorem offsetPart_offsetText {offset : Int} (h : WritableOffset offset) :
    offsetPart (offsetText offset) = .ok (offset, []) := by
  have hbound : offset.natAbs < 1440 := h
  rw [offsetText]
  split
  · rename_i hzero
    rw [hzero]
    rfl
  · have hhour : offset.natAbs / 60 < 24 := by omega
    have hminute : offset.natAbs % 60 < 60 := by omega
    split
    -- Hours and minutes are those of the magnitude, and the sign stands before them.
    · rename_i hneg
      rw [List.cons_append, offsetPart_signed (.inr rfl) hhour hminute, if_pos rfl]
      congr 2
      omega
    · rename_i hpos
      rw [List.cons_append, offsetPart_signed (.inl rfl) hhour hminute, if_neg (by decide)]
      congr 2
      omega

/-! ### The written form -/

/-- The characters that show clock and calendar. -/
def localText (l : Local) : List Char :=
  padded 4 l.date.year.toNat ++ '-' :: (padded 2 l.date.month ++ '-' :: (padded 2 l.date.day
    ++ 'T' :: (padded 2 l.hour ++ ':' :: (padded 2 l.minute ++ ':' :: (padded 2 l.second
    ++ (fractionText l.nano ++ offsetText l.offset))))))

/-- The local year of the instant has four digits. It is the year in the offset
of the instant, which near midnight may be another one than in UTC. -/
def HasWrittenYear (t : Instant) : Prop :=
  0 ≤ t.toLocal.date.year ∧ t.toLocal.date.year ≤ 9999

/-- There is room for the year and the offset of the instant. Nothing else can
stop an instant from being written, since its other parts are in range by
themselves. -/
structure HasWrittenForm (t : Instant) : Prop where
  year : t.HasWrittenYear
  offset : WritableOffset t.offset

/-- An instant with a year and an offset that can be written is written with all its
parts. -/
theorem written?_of_hasWrittenForm {t : Instant} (h : t.HasWrittenForm) :
    t.written? = some (String.ofList (localText t.toLocal)) := by
  have hroom : (0 ≤ t.toLocal.date.year ∧ t.toLocal.date.year ≤ 9999) ∧
      t.toLocal.offset.natAbs < 1440 := ⟨h.year, h.offset⟩
  rw [written?]
  simp only [hroom, and_self, if_true, localText, fractionText, List.append_assoc,
    List.cons_append]

/-- An instant is written exactly when its year and its offset can be, and then with all
its parts. -/
theorem written?_eq_some_iff {t : Instant} {s : String} :
    t.written? = some s ↔ t.HasWrittenForm ∧ s = String.ofList (localText t.toLocal) := by
  by_cases h : t.HasWrittenForm
  · rw [written?_of_hasWrittenForm h, Option.some.injEq, eq_comm]
    exact (and_iff_right h).symm
  · constructor
    · intro hs
      have hroom : ¬ ((0 ≤ t.toLocal.date.year ∧ t.toLocal.date.year ≤ 9999) ∧
          t.toLocal.offset.natAbs < 1440) := fun hroom => h ⟨hroom.1, hroom.2⟩
      rw [written?] at hs
      simp only [hroom, if_false] at hs
      exact nomatch hs
    · exact fun hs => absurd hs.1 h

/-- Date and time of day are told apart by a `T`. -/
theorem between_cons (rest : List Char) : between ('T' :: rest) = .ok ((), rest) := rfl

/-- The reader takes what shows clock and calendar for the instant. Each part is
read by the lemma about its text, and the checks at the end are passed because
the fields are valid. -/
theorem parser_localText {t : Instant} (h : t.HasWrittenForm) :
    parser (localText t.toLocal) = .ok (t, []) := by
  obtain ⟨⟨hy0, hy1⟩, hoffset⟩ := h
  obtain ⟨hhour, hminute, hsecond, hnano⟩ := toLocal_bounds t
  have hvalid := isValid_toLocal t
  obtain ⟨⟨hmo1, hmo2⟩, hd1, hd2⟩ := (isValid_iff _).mp hvalid
  have hday : t.toLocal.date.day ≤ 31 := Nat.le_trans hd2 (monthLength_bounds ..).2
  have hleap : (t.toLocal.second == 60) = false := beq_eq_false_iff_ne.mpr (by omega)
  have hdate : (⟨t.toLocal.date.year.toNat, t.toLocal.date.month, t.toLocal.date.day⟩ : Date)
      = t.toLocal.date := by
    rw [Int.toNat_of_nonneg hy0]
  have hlocal : ofLocal ⟨t.toLocal.date, t.toLocal.hour, t.toLocal.minute, t.toLocal.second,
      t.toLocal.nano, t.toLocal.offset⟩ = t := ofLocal_toLocal t
  have hpart : offsetPart (offsetText t.toLocal.offset) = .ok (t.toLocal.offset, []) :=
    offsetPart_offsetText hoffset
  have hends : EndsFraction (offsetText t.toLocal.offset) := by
    have := endsFraction_offsetText t.toLocal.offset []
    rwa [List.append_nil] at this
  rw [parser, localText,
    parser_bind_ok (number_four _ (by omega) _), parser_bind_ok (separator_cons ..),
    parser_bind_ok (number_two _ (by omega) _), parser_bind_ok (separator_cons ..),
    parser_bind_ok (number_two _ (by omega) _), parser_bind_ok (between_cons _),
    parser_bind_ok (number_two _ (by omega) _), parser_bind_ok (separator_cons ..),
    parser_bind_ok (number_two _ (by omega) _), parser_bind_ok (separator_cons ..),
    parser_bind_ok (number_two _ (by omega) _),
    parser_bind_ok (fraction_fractionText hnano hends),
    parser_bind_ok hpart,
    parser_get_bind]
  -- what was written is a date and a time of day, so no check fails
  simp only [List.isEmpty_nil, if_true, hdate, hleap, hvalid, hmo1, hmo2, hhour, hminute, hsecond,
    and_self, Bool.false_eq_true, Bool.false_and, if_false, hlocal]
  rfl

/-- What was written is read back, with the offset that it was written with, so
not only the moment is the same but the instant. -/
theorem parse_of_written? {t : Instant} {s : String} (hs : t.written? = some s) :
    parse s = .ok t := by
  obtain ⟨hwritable, rfl⟩ := written?_eq_some_iff.mp hs
  show (parser (String.ofList (localText t.toLocal)).toList).map Prod.fst = _
  rw [String.toList_ofList, parser_localText hwritable]
  rfl

/-- The value of an instant is read back. -/
theorem ofJson_of_toJson? {t : Instant} {v : Json} (hv : t.toJson? = some v) :
    ofJson v = .ok t := by
  obtain ⟨s, hs, rfl⟩ := Option.map_eq_some_iff.mp hv
  rw [ofJson, parse_of_written? hs]

end Overrides.Instant
