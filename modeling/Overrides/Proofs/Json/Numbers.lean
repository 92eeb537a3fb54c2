import Overrides.Json.Writer
import Overrides.Proofs.Json.Run
import Overrides.Proofs.Text.Utf8

/-!
# `Overrides.Proofs.Json.Numbers`: written integers are read back

The decimal text of a number is a run of digits without a leading
zero. The reader takes the whole run and computes the number from it;
as long as the number fits 64 bits it stays an integer. What follows
must not go on with the number.

* `exists_decimal`: the digits of a number.
* `run_number`: the reader undoes a written integer.
-/

set_option autoImplicit false

namespace Overrides.Json

open Overrides.Number Overrides.Text.Utf8
open Reader

/-! ### Decimal digits -/

/-- The digits of a number in decimal, without leading zeros. -/
structure Decimal (m : Nat) (ds : List Nat) : Prop where
  digit : ∀ d ∈ ds, d < 10
  value : digitsValue ds = m
  lead : ds = [0] ∨ ∃ d rest, ds = d :: rest ∧ d ≠ 0

/-- A digit at the end moves the others up by one place. -/
theorem digitsValue_append (ds : List Nat) (d : Nat) :
    digitsValue (ds ++ [d]) = digitsValue ds * 10 + d := by
  rw [digitsValue, List.foldl_append]
  rfl

/-- Every number has decimal digits, and they are the ones written. The digits
come with what is known of them: their value, their range and that they do not
start with a zero. -/
theorem exists_decimal (m : Nat) :
    ∃ ds, Decimal m ds ∧ Nat.toDigits 10 m = ds.map Nat.digitChar := by
  -- `Nat.toDigits` goes on with `m / 10`, so the induction is a strong one.
  induction m using Nat.strongRecOn with
  | ind m ih =>
    by_cases hm : m < 10
    · refine ⟨[m], ⟨by simpa using hm, by simp [digitsValue], ?_⟩, Nat.toDigits_of_lt_base hm⟩
      by_cases h0 : m = 0
      · exact .inl (by rw [h0])
      · exact .inr ⟨m, [], rfl, h0⟩
    · obtain ⟨ds, hds, hchars⟩ := ih (m / 10) (by omega)
      refine ⟨ds ++ [m % 10], ⟨?_, ?_, ?_⟩, ?_⟩
      · intro d hd
        rcases List.mem_append.mp hd with hd | hd
        · exact hds.digit d hd
        · rw [List.mem_singleton.mp hd]
          omega
      · rw [digitsValue_append, hds.value]
        omega
      · -- The digits before the last one are those of a positive number.
        rcases hds.lead with hzero | ⟨d, rest, hcons, hd⟩
        · have hvalue := hds.value
          rw [hzero] at hvalue
          have : m / 10 = 0 := hvalue.symm
          omega
        · exact .inr ⟨d, rest ++ [m % 10], by rw [hcons]; rfl, hd⟩
      · rw [Nat.toDigits_of_base_le (by decide) (by omega), hchars, List.map_append]
        rfl

/-- The byte of a digit. -/
def digitByte (d : Nat) : UInt8 := UInt8.ofNat (d + 0x30)

/-- The byte of a digit is one for the reader. -/
theorem isDigit_digitByte {d : Nat} (h : d < 10) : isDigit (digitByte d) = true := by
  have : ∀ d < 10, isDigit (digitByte d) = true := by decide
  exact this d h

/-- The bytes of the digits stand one behind the other from `0` on. -/
theorem toNat_digitByte {d : Nat} (h : d < 10) : (digitByte d).toNat = d + 0x30 := by
  rw [digitByte, UInt8.toNat_ofNat']
  omega

/-- The bytes of a written number are the bytes of its digits. -/
theorem exists_encode_repr (m : Nat) :
    ∃ ds, Decimal m ds ∧ encode (Nat.repr m) = ds.map digitByte := by
  obtain ⟨ds, hds, hchars⟩ := exists_decimal m
  refine ⟨ds, hds, ?_⟩
  have hbyte : ∀ d < 10, String.utf8EncodeChar (Nat.digitChar d) = [digitByte d] := by decide
  rw [Nat.repr, hchars, encode_ofList, List.flatMap_map, List.map_eq_flatMap, List.flatMap_def,
    List.flatMap_def, List.map_congr_left fun d hd => hbyte d (hds.digit d hd)]

/-! ### Reading digits -/

/-- The bytes that follow do not go on with a number: no digit, no point and no
exponent. A comma, a bracket and the end of the text are all fine. -/
def Ends (rest : List UInt8) : Prop :=
  ∀ b ∈ rest.head?, isDigit b = false ∧ b ≠ 0x2e ∧ b ≠ 0x65 ∧ b ≠ 0x45

variable {m limit : Nat} {ds : List Nat} {rest : List UInt8}

/-- A run of digits is taken whole. It ends where the text ends or at a byte that is no
digit, and what is done stands in front of it. -/
theorem digitRun_map (h : ∀ d ∈ ds, d < 10) (hrest : Ends rest) (done : List Nat) :
    digitRun (ds.map digitByte ++ rest) done = (done.reverse ++ ds, rest) := by
  induction ds generalizing done with
  | nil =>
    rw [List.append_nil, List.map_nil, List.nil_append]
    cases rest with
    -- At the end of the text there is no byte to look at.
    | nil => rfl
    | cons b rest => rw [digitRun, (hrest b rfl).1]; rfl
  | cons d ds ih =>
    have hd := h d (List.mem_cons_self ..)
    rw [List.map_cons, List.cons_append, digitRun, if_pos (isDigit_digitByte hd),
      toNat_digitByte hd, ih fun e he => h e (List.mem_cons_of_mem _ he), Nat.add_sub_cancel,
      List.reverse_cons, List.append_assoc]
    rfl

/-- A number has a first digit, also when it is zero. -/
theorem Decimal.exists_cons (h : Decimal m ds) : ∃ d tail, ds = d :: tail ∧ d < 10 := by
  rcases h.lead with rfl | ⟨d, tail, rfl, -⟩
  · exact ⟨0, [], rfl, by decide⟩
  · exact ⟨d, tail, rfl, h.digit d (List.mem_cons_self ..)⟩

/-- The digits of a number are taken by the reader of whole parts. Zero is a case of its
own there: no digit may follow it. -/
theorem run_wholePart (h : Decimal m ds) (hrest : Ends rest) :
    wholePart true limit (ds.map digitByte ++ rest) = .ok (ds, rest) := by
  rcases h.lead with rfl | ⟨d, tail, rfl, hd⟩
  · rw [wholePart, run_peek_bind]
    show (drop >>= fun _ => _) limit (0x30 :: rest) = _
    rw [run_drop_bind, run_peek_bind]
    cases rest with
    | nil => rfl
    | cons b rest =>
      show (if isDigit b = true then _ else _ : Reader (List Nat)) limit (b :: rest) = _
      rw [(hrest b rfl).1]
      rfl
  · rw [wholePart, run_peek_bind, List.map_cons, List.cons_append, List.head?_cons]
    have hne : some (digitByte d) ≠ some 0x30 := by
      intro heq
      have hnat := toNat_digitByte (h.digit d (List.mem_cons_self ..))
      rw [Option.some.inj heq] at hnat
      have hzero : 0x30 = d + 0x30 := hnat
      omega
    have hdigits : digits limit (digitByte d :: (tail.map digitByte ++ rest))
        = .ok (d :: tail, rest) := by
      have hrun := digitRun_map h.digit hrest []
      rw [List.map_cons, List.cons_append] at hrun
      rw [digits, run_get_bind, hrun]
      rfl
    -- The first digit is no zero, which decides the match.
    simp only
    rw [someDigits, run_bind_ok hdigits]
    rfl

/-- Where no point follows there is no fraction, and nothing is taken. -/
theorem run_fractionPart (hrest : Ends rest) :
    fractionPart true limit rest = .ok (none, rest) := by
  rw [fractionPart, run_peek_bind]
  have hpoint : rest.head? ≠ some 0x2e := fun heq => (hrest _ heq).2.1 rfl
  simp only
  rfl

/-- Where no `e` follows there is no exponent, and nothing is taken. -/
theorem run_exponentPart (hrest : Ends rest) :
    exponentPart true limit rest = .ok (none, rest) := by
  rw [exponentPart, run_peek_bind]
  have hsmall : rest.head? ≠ some 0x65 := fun heq => (hrest _ heq).2.2.1 rfl
  have hcapital : rest.head? ≠ some 0x45 := fun heq => (hrest _ heq).2.2.2 rfl
  simp only
  rfl

/-! ### Integers -/

/-- Every digit is taken while the whole number fits 64 bits. So an integer that
fits is read in full, and the count of dropped digits is zero. -/
theorem takeDigits_eq (ds : List Nat) (value count : Nat)
    (h : ds.foldl (fun n d => n * 10 + d) value < wordSize) :
    takeDigits value count ds
      = (ds.foldl (fun n d => n * 10 + d) value, count + ds.length) := by
  -- The value never goes down along the digits, so a bound on the last one
  -- is a bound on all of them.
  have hgrow : ∀ (ds : List Nat) (value : Nat),
      value ≤ ds.foldl (fun n d => n * 10 + d) value := by
    intro ds
    induction ds with
    | nil => intro value; exact Nat.le_refl _
    | cons d ds ih =>
      intro value
      have hstep := ih (value * 10 + d)
      rw [List.foldl_cons]
      omega
  induction ds generalizing value count with
  | nil => rfl
  | cons d ds ih =>
    rw [List.foldl_cons] at h ⊢
    have hd := hgrow ds (value * 10 + d)
    rw [takeDigits, if_pos (by omega), ih _ _ h, List.length_cons]
    congr 1
    omega

/-- A run of digits that fits 64 bits stands for an integer; with a
minus sign it has to be a positive number that fits 63 bits. -/
theorem value_digits (h : Decimal m ds) (negative : Bool) (hm : m < wordSize)
    (hneg : negative = true → 0 < m ∧ m ≤ wordSize / 2) :
    (Literal.mk negative ds none none).value = .integer (if negative then -m else m) := by
  have htake := takeDigits_eq ds 0 0 (by rw [← digitsValue, h.value]; exact hm)
  rw [← digitsValue, h.value, Nat.zero_add] at htake
  -- No digit is left over and there is no fraction and no exponent, so this
  -- is the case of an integer.
  rw [Literal.value]
  simp only [htake, Nat.sub_self, and_self, if_true]
  cases negative with
  | false => rfl
  | true =>
    simp only [Bool.not_true, Bool.false_eq_true, if_false, if_true]
    rw [if_pos (hneg rfl)]

/-- The integers that a literal stands for without loss: those of 64 bits with a
sign, and those of 64 bits without one. -/
def Fits (n : Int) : Prop := -9223372036854775808 ≤ n ∧ n < 18446744073709551616

/-- Digits without a leading zero, with a minus sign or without one, are a literal. It has
no fraction and no exponent, and its digits are kept as they stand. -/
theorem run_literal (h : Decimal m ds) (hrest : Ends rest) (negative : Bool) :
    literal true limit ((if negative then [0x2d] else []) ++ ds.map digitByte ++ rest)
      = .ok (⟨negative, ds, none, none⟩, rest) := by
  cases negative with
  | false =>
    obtain ⟨d, tail, hcons, hd⟩ := h.exists_cons
    -- A digit is no minus sign, so no sign is taken.
    have hsign : (((ds.map digitByte ++ rest).head? == some 0x2d) : Bool) = false := by
      rw [hcons, List.map_cons, List.cons_append, List.head?_cons, beq_eq_false_iff_ne]
      intro heq
      have hdigit := isDigit_digitByte hd
      rw [Option.some.inj heq] at hdigit
      exact absurd hdigit (by decide)
    rw [if_neg (by decide), List.nil_append, literal, run_peek_bind, hsign]
    simp only [Bool.false_eq_true, if_false]
    rw [run_bind_ok (run_wholePart h hrest), run_bind_ok (run_fractionPart hrest),
      run_bind_ok (run_exponentPart hrest)]
    rfl
  | true =>
    rw [if_pos rfl, List.singleton_append, List.cons_append, literal, run_peek_bind]
    show (drop >>= fun _ => _) limit (0x2d :: _) = _
    rw [run_drop_bind, run_bind_ok (run_wholePart h hrest), run_bind_ok (run_fractionPart hrest),
      run_bind_ok (run_exponentPart hrest)]
    rfl

/-- The bytes of a written integer are those of its magnitude, with a minus sign before
them when it is negative. -/
theorem exists_encode_intRepr (n : Int) :
    ∃ ds, Decimal n.natAbs ds ∧
      encode (Int.repr n) = (if n < 0 then [0x2d] else []) ++ ds.map digitByte := by
  obtain ⟨ds, hds, hbytes⟩ := exists_encode_repr n.natAbs
  refine ⟨ds, hds, ?_⟩
  cases n with
  | ofNat m =>
    rw [if_neg (by simp), List.nil_append, ← hbytes]
    rfl
  -- The magnitude of a negative integer is a successor.
  | negSucc m =>
    rw [if_pos (Int.negSucc_lt_zero m), ← hbytes]
    show encode ("-" ++ Nat.repr (m + 1)) = _
    rw [encode_append, encode_eq "-"]
    rfl

/-- A written integer starts with a minus sign or a digit. The reader of values
tells numbers from all else by this byte. -/
theorem intRepr_starts (n : Int) :
    ∃ b tail, encode (Int.repr n) = b :: tail ∧ (b = 0x2d ∨ ∃ d < 10, b = digitByte d) := by
  obtain ⟨ds, hds, hbytes⟩ := exists_encode_intRepr n
  obtain ⟨d, tail, rfl, hd⟩ := hds.exists_cons
  rw [hbytes]
  by_cases hn : n < 0
  · rw [if_pos hn]
    exact ⟨0x2d, _, rfl, .inl rfl⟩
  · rw [if_neg hn]
    exact ⟨digitByte d, _, rfl, .inr ⟨d, hd, rfl⟩⟩

/-- The reader gives a written integer back, whatever stands behind it that is
no part of a number. The integer has to fit, since the reader takes greater ones
for doubles. -/
theorem run_number {n : Int} (h : Fits n) (hrest : Ends rest) :
    Reader.number limit (encode (Int.repr n) ++ rest) = .ok (.integer n, rest) := by
  obtain ⟨ds, hds, hbytes⟩ := exists_encode_intRepr n
  -- The sign and the digits are read apart, and so are their bounds.
  have hfits : n.natAbs < wordSize ∧ (n < 0 → 0 < n.natAbs ∧ n.natAbs ≤ wordSize / 2) := by
    obtain ⟨hlow, hhigh⟩ := h
    rw [wordSize]
    omega
  have hliteral : literal true limit ((if n < 0 then [0x2d] else []) ++ ds.map digitByte ++ rest)
      = .ok (⟨decide (n < 0), ds, none, none⟩, rest) := by
    simpa using run_literal hds hrest (decide (n < 0))
  have hvalue := value_digits hds (decide (n < 0)) hfits.1 (by simpa using hfits.2)
  have habs : (if n < 0 then -(n.natAbs : Int) else n.natAbs) = n := by
    split <;> omega
  simp only [decide_eq_true_eq, habs] at hvalue
  rw [hbytes, Reader.number, run_bind_ok hliteral, hvalue]
  rfl

end Overrides.Json
