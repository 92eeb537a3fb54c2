import Overrides.Proofs.Json.Strings
import Overrides.Proofs.Outcome
import Overrides.Proofs.Rule.Grammar

/-!
# `Overrides.Proofs.Rule.IntegerPrefix`: the integer at the front of a text

A number that is submitted as a text is read from its front: blanks, a sign,
digits, and then anything. `Front` says where these parts end without saying
how they are found, and every text has such a front. The digits are added up
with saturation at each of them, which comes to a single bound on their value.

The program does this on machine words and on the bytes of the text. There a
step could overflow, or cut a character in two. `Words.parse` is the parse with
these two outcomes, and neither of them occurs.

* `saturatedValue_eq`: saturation at each digit is one bound on the value.
* `integerPrefix?_of_front`: the integer, from the parts of the text.
* `Words.parse_eq`: on words and bytes there is the same integer.
* `text_read_by_leading_integer`: what a text sets a limit to.
-/

set_option autoImplicit false

namespace Overrides

open Overrides.Text Overrides.Number

/-! ### The front of a text -/

/-- Behind its leading blanks the text is a sign, if it has one there, then the
digits `ds`, all that follow, and then `rest`. -/
structure Front (s : String) (sign : Option Char) (ds rest : List Char) : Prop where
  text : s.toList.dropWhile isBlank = sign.toList ++ (ds ++ rest)
  signed : ∀ c ∈ sign, c = '+' ∨ c = '-'
  unsigned : sign = none → ∀ c ∈ (ds ++ rest).head?, c ≠ '+' ∧ c ≠ '-'
  digits : ∀ c ∈ ds, c.isDigit = true
  longest : ∀ c ∈ rest.head?, c.isDigit = false

/-- The number with the sign in front of it. -/
def withSign (sign : Option Char) (n : Nat) : Int := if sign = some '-' then -(n : Int) else n

/-- Every list of characters starts with a longest run of digits. -/
theorem exists_digits (cs : List Char) : ∃ ds rest, cs = ds ++ rest ∧
    (∀ c ∈ ds, c.isDigit = true) ∧ ∀ c ∈ rest.head?, c.isDigit = false := by
  refine ⟨cs.takeWhile Char.isDigit, cs.dropWhile Char.isDigit,
    List.takeWhile_append_dropWhile.symm, fun c => List.mem_takeWhile_imp, fun c hc => ?_⟩
  have hstop := List.head?_dropWhile_not Char.isDigit cs
  rw [Option.mem_def.mp hc] at hstop
  exact hstop

/-- Every text has a front: blanks, perhaps a sign, as many digits as follow and
the rest. There may be no digits, as in the empty text. -/
theorem exists_front (s : String) : ∃ sign ds rest, Front s sign ds rest := by
  rcases htext : s.toList.dropWhile isBlank with _ | ⟨c, cs⟩
  · exact ⟨none, [], [], htext, by simp, by simp, by simp, by simp⟩
  -- The sign, if there is one, is the first character behind the blanks.
  by_cases hc : c = '+' ∨ c = '-'
  · obtain ⟨ds, rest, rfl, hdigits, hlongest⟩ := exists_digits cs
    refine ⟨some c, ds, rest, htext, ?_, by simp, hdigits, hlongest⟩
    rintro _ ⟨⟩
    exact hc
  · obtain ⟨ds, rest, hcs, hdigits, hlongest⟩ := exists_digits (c :: cs)
    refine ⟨none, ds, rest, htext.trans hcs, by simp, ?_, hdigits, hlongest⟩
    rw [← hcs]
    rintro _ _ ⟨⟩
    exact not_or.mp hc

namespace Front

variable {s : String} {sign : Option Char} {ds rest : List Char}

/-- The digits of the front are those that the parser takes, because the rest
starts with none. -/
theorem takeWhile_isDigit (h : Front s sign ds rest) :
    (ds ++ rest).takeWhile Char.isDigit = ds := by
  rw [List.takeWhile_append_of_pos h.digits]
  cases rest with
  | nil => rw [List.takeWhile_nil, List.append_nil]
  | cons c cs => rw [List.takeWhile_cons_of_neg (by simp [h.longest c rfl]), List.append_nil]

end Front

/-! ### Saturation -/

/-- Digits in front count as many places more as there are digits behind them. -/
theorem Draft.decimal_append (ds es : List Char) :
    Draft.decimal (ds ++ es) = Draft.decimal ds * 10 ^ es.length + Draft.decimal es := by
  rw [Draft.decimal, Draft.decimal, Draft.decimal, List.map_append, List.reverse_append,
    Nat.ofDigits_append, List.length_reverse, List.length_map, Nat.add_comm, Nat.mul_comm]

/-- The value of one digit. -/
theorem Draft.decimal_singleton (c : Char) : Draft.decimal [c] = c.toNat - '0'.toNat :=
  Nat.ofDigits_singleton

/-- One more digit. -/
theorem Draft.decimal_concat (ds : List Char) (c : Char) :
    Draft.decimal (ds ++ [c]) = Draft.decimal ds * 10 + (c.toNat - '0'.toNat) := by
  rw [Draft.decimal_append, Draft.decimal_singleton, List.length_singleton, Nat.pow_one]

/-- Once the bound is reached no digit leaves it: a bound at each digit is one
bound on the value. So the number of digits does not matter, nor do zeros in
front. -/
theorem saturatedValue_eq (ds : List Char) :
    saturatedValue ds = min (Draft.decimal ds) maxInt64 := by
  -- The fold takes the digits from the left, so the last one is split off.
  induction ds using List.reverseRecOn with
  | nil => rfl
  | append_singleton ds c ih =>
    rw [saturatedValue] at ih ⊢
    rw [List.foldl_concat, ih, Draft.decimal_concat]
    omega

/-- The front determines what is parsed. Without digits nothing is, and
otherwise it is the value of the digits with the sign, cut to 64 bits. -/
theorem integerPrefix?_of_front {s : String} {sign : Option Char} {ds rest : List Char}
    (h : Front s sign ds rest) :
    integerPrefix? s =
      if ds = [] then none else some (withSign sign (min (Draft.decimal ds) maxInt64)) := by
  rw [integerPrefix?, h.text, ← saturatedValue_eq]
  split
  rename_i negative digits hsplit
  -- The parser looks for the sign in the text; the front has it split off already.
  have hsign : negative = decide (sign = some '-') ∧ digits = ds ++ rest := by
    cases sign with
    | none =>
      rw [Option.toList_none, List.nil_append] at hsplit
      split at hsplit
      · rename_i heq
        exact absurd rfl (h.unsigned rfl '-' (by rw [heq]; rfl)).2
      · rename_i heq
        exact absurd rfl (h.unsigned rfl '+' (by rw [heq]; rfl)).1
      · obtain ⟨rfl, rfl⟩ := Prod.mk.inj hsplit
        exact ⟨rfl, rfl⟩
    | some c =>
      obtain rfl | rfl := h.signed c rfl
      all_goals
        obtain ⟨rfl, rfl⟩ := Prod.mk.inj hsplit
        exact ⟨rfl, rfl⟩
  rw [hsign.1, hsign.2, h.takeWhile_isDigit, withSign]
  cases ds with
  | nil => rfl
  | cons d ds =>
    rw [if_neg (List.cons_ne_nil d ds)]
    simp only [decide_eq_true_eq]
    rfl

/-! ### Words and bytes -/

/-- Characters of ASCII are one byte and keep their number; the first byte of any
other one is above all of ASCII. -/
theorem exists_first_byte (c : Char) : ∃ b tail, String.utf8EncodeChar c = b :: tail ∧
    (b.toNat = c.toNat ∧ tail = [] ∨ 0x7f < b.toNat ∧ 0x7f < c.toNat) := by
  by_cases hascii : c.toNat ≤ 0x7f
  · have hb : (UInt8.ofNat c.toNat).toNat = c.toNat := by rw [UInt8.toNat_ofNat']; omega
    exact ⟨UInt8.ofNat c.toNat, [], if_pos hascii, .inl ⟨hb, rfl⟩⟩
  · obtain ⟨b, tail, hbytes, -⟩ := Utf8.step_utf8EncodeChar c
    have hbeyond : 0x7f < c.toNat := Nat.lt_of_not_le hascii
    exact ⟨b, tail, hbytes, .inr ⟨Json.le_of_mem_utf8EncodeChar hbeyond b (by simp [hbytes]),
      hbeyond⟩⟩

namespace Words

/-- Why a step on machine words, or on the bytes of a text, has no result. Such
a step would stop the program, so it is shown that none of them is taken. -/
inductive Slip where
  | overflow
  | cutCharacter

/-- The word of 64 bits that is nearest to the integer. -/
def saturate (n : Int) : Int64 := Int64.ofInt (max (-9223372036854775808) (min n maxInt64))

/-- The byte of a digit. -/
def isDigit (b : UInt8) : Bool := 0x30 ≤ b && b ≤ 0x39

/-- The product with ten and the sum with a digit saturate, each for itself.
The difference of the bytes does not. -/
def push (total : Int64) (b : UInt8) : Except Slip Int64 :=
  if b < 0x30 then .error .overflow
  else .ok (saturate ((saturate (total.toInt * 10)).toInt + (b - 0x30).toNat))

/-- The opposite word; the least of all words has none. -/
def negate (n : Int64) : Except Slip Int64 :=
  if n.toInt = -9223372036854775808 then .error .overflow else .ok (-n)

/-- The text behind its first byte, which has to be a character by itself. If it
is only the first byte of one, what is left is no text. -/
def behindFirstByte (s : String) : Except Slip String :=
  match Utf8.decode? ((Utf8.encode s).drop 1) with
  | some rest => .ok rest
  | none => .error .cutCharacter

/-- Whether a minus stands in front, and the text behind the sign. -/
def splitSign (s : String) : Except Slip (Bool × String) :=
  if (Utf8.encode s).head? = some 0x2d then (true, ·) <$> behindFirstByte s
  else if (Utf8.encode s).head? = some 0x2b then (false, ·) <$> behindFirstByte s
  else .ok (false, s)

/-- The integer at the front of a text, on words and bytes. -/
def parse (s : String) : Except Slip (Option Int64) := do
  let (negative, digits) ← splitSign (trimStart s)
  match (Utf8.encode digits).takeWhile isDigit with
  | [] => .ok none
  | bytes =>
    let total ← bytes.foldlM push 0
    if negative then some <$> negate total else .ok (some total)

/-- A saturated word has the value that was cut to the bounds, so it never
wraps. -/
theorem toInt_saturate (n : Int) :
    (saturate n).toInt = max (-9223372036854775808) (min n maxInt64) := by
  have hbound : maxInt64 = 9223372036854775807 := rfl
  rw [saturate, Int64.toInt_ofInt_of_le (by omega) (by omega)]

/-- A word that is not negative has an opposite. -/
theorem negate_of_nonneg {n : Int64} (h : 0 ≤ n.toInt) :
    ∃ w, negate n = .ok w ∧ w.toInt = -n.toInt := by
  have hlt := n.toInt_lt
  refine ⟨-n, if_neg (by omega), ?_⟩
  rw [Int64.toInt_neg, Int.bmod_eq_of_le (by omega) (by omega)]

/-- A first byte is that of a digit when its character is one. The two agree on
ASCII, and beyond it neither is a digit. -/
theorem isDigit_eq {b : UInt8} {c : Char}
    (h : b.toNat = c.toNat ∨ 0x7f < b.toNat ∧ 0x7f < c.toNat) : isDigit b = c.isDigit := by
  rw [Bool.eq_iff_iff, isDigit, Char.isDigit]
  simp only [Bool.and_eq_true, decide_eq_true_eq, UInt8.le_iff_toNat_le, ge_iff_le,
    UInt32.le_iff_toNat_le]
  show 48 ≤ b.toNat ∧ b.toNat ≤ 57 ↔ 48 ≤ c.toNat ∧ c.toNat ≤ 57
  omega

/-- The bytes of digits are the digits, one for each, and with the same number.
-/
theorem utf8EncodeChar_digit {c : Char} (h : c.isDigit = true) :
    ∃ b, String.utf8EncodeChar c = [b] ∧ isDigit b = true ∧ b.toNat = c.toNat := by
  obtain ⟨b, tail, hbytes, hb⟩ := exists_first_byte c
  have hdigit : isDigit b = true := (isDigit_eq (hb.imp_left And.left)).trans h
  obtain ⟨hb, rfl⟩ | hb := hb
  · exact ⟨b, hbytes, hdigit, hb⟩
  · rw [isDigit, Bool.and_eq_true, decide_eq_true_eq, decide_eq_true_eq, UInt8.le_iff_toNat_le,
      UInt8.le_iff_toNat_le] at hdigit
    exact absurd hb.1 (Nat.not_lt.mpr (hdigit.2.trans (by decide)))

/-- The run of digits, on the bytes, ends where it ends on the characters.
Digits are one byte each, and the first byte of a longer character is no
digit. -/
theorem takeWhile_isDigit {ds rest : List Char} (hdigits : ∀ c ∈ ds, c.isDigit = true)
    (hlongest : ∀ c ∈ rest.head?, c.isDigit = false) :
    (Utf8.encode (String.ofList (ds ++ rest))).takeWhile isDigit
      = ds.flatMap String.utf8EncodeChar := by
  rw [Utf8.encode_ofList, List.flatMap_append, List.takeWhile_append_of_pos]
  · cases rest with
    | nil => simp
    | cons c cs =>
      obtain ⟨b, tail, hbytes, hb⟩ := exists_first_byte c
      -- The rest starts with no digit, and its first byte says so.
      have hstop : isDigit b = false :=
        (isDigit_eq (hb.imp_left And.left)).trans (hlongest c rfl)
      rw [List.flatMap_cons, hbytes, List.cons_append, List.takeWhile_cons_of_neg (by simp [hstop]),
        List.append_nil]
  · intro b hb
    obtain ⟨c, hc, hbc⟩ := List.mem_flatMap.mp hb
    obtain ⟨d, hbytes, hd, -⟩ := utf8EncodeChar_digit (hdigits c hc)
    rw [hbytes] at hbc
    rwa [List.mem_singleton.mp hbc]

/-- One digit more. The word stays within the bound of the totals, and both
saturating steps together are one bound. -/
theorem push_digit {total : Int64} {n : Nat} (htotal : total.toInt = n) (hn : n ≤ maxInt64)
    {b : UInt8} {c : Char} (hb : b.toNat = c.toNat) (hdigit : c.isDigit = true) :
    ∃ w, push total b = .ok w ∧
      w.toInt = (min (n * 10 + (c.toNat - '0'.toNat)) maxInt64 : Nat) := by
  have hbound : maxInt64 = 9223372036854775807 := rfl
  have hzero : '0'.toNat = 48 := rfl
  have hge : 48 ≤ c.toNat := by
    rw [Char.isDigit, Bool.and_eq_true, decide_eq_true_eq] at hdigit
    exact hdigit.1
  have hle : (0x30 : UInt8) ≤ b := by
    rw [UInt8.le_iff_toNat_le, hb]
    exact hge
  refine ⟨_, if_neg (UInt8.not_lt.mpr hle), ?_⟩
  rw [toInt_saturate, toInt_saturate, htotal, UInt8.toNat_sub_of_le b 0x30 hle, hb]
  -- Both saturations are spelled out for `omega`: the product first and then the sum.
  show max _ (min (max _ (min _ _) + ((c.toNat - 48 : Nat) : Int)) _) = _
  omega

/-- The totals over the digits are the values of the digits so far, cut to the
bound, and no step overflows. -/
theorem foldlM_push {ds : List Char} (hdigits : ∀ c ∈ ds, c.isDigit = true) :
    ∃ w, (ds.flatMap String.utf8EncodeChar).foldlM push 0 = .ok w ∧
      w.toInt = (min (Draft.decimal ds) maxInt64 : Nat) := by
  induction ds using List.reverseRecOn with
  | nil => exact ⟨0, rfl, rfl⟩
  | append_singleton ds c ih =>
    rw [List.forall_mem_append] at hdigits
    -- The digits before the last have their total; the last one is pushed on top of it.
    obtain ⟨total, htotal, hvalue⟩ := ih hdigits.1
    have hdigit := hdigits.2 c (List.mem_singleton_self c)
    obtain ⟨b, hbytes, -, hb⟩ := utf8EncodeChar_digit hdigit
    obtain ⟨w, hw, hnext⟩ := push_digit hvalue (Nat.min_le_right ..) hb hdigit
    refine ⟨w, ?_, ?_⟩
    · rw [List.flatMap_append, List.flatMap_singleton, hbytes, List.foldlM_append, htotal]
      show push total b >>= pure = _
      rw [hw]
      rfl
    · rw [hnext, Draft.decimal_concat]
      congr 1
      omega

/-- A sign is a byte by itself, so the text behind it starts with a character.
Cutting there is safe. -/
theorem behindFirstByte_sign {c : Char} {cs : List Char} (h : c = '+' ∨ c = '-') :
    behindFirstByte (String.ofList (c :: cs)) = .ok (String.ofList cs) := by
  have hbytes : ∃ b, String.utf8EncodeChar c = [b] := by
    rcases h with rfl | rfl
    · exact ⟨0x2b, rfl⟩
    · exact ⟨0x2d, rfl⟩
  obtain ⟨b, hb⟩ := hbytes
  rw [behindFirstByte, Utf8.encode_ofList, List.flatMap_cons, hb, List.singleton_append,
    List.drop_one, List.tail_cons, ← Utf8.encode_ofList, Utf8.decode?_encode]

/-- The bytes are split where the characters are: the sign is one byte, so
cutting behind it cuts no character in two. -/
theorem splitSign_of_front {s : String} {sign : Option Char} {ds rest : List Char}
    (h : Front s sign ds rest) :
    splitSign (trimStart s) = .ok (decide (sign = some '-'), String.ofList (ds ++ rest)) := by
  rw [trimStart, h.text, splitSign]
  cases sign with
  | none =>
    -- The first byte is that of a sign when the first character is the sign.
    have hfirst : ∀ n, n ≤ 0x7f → (Utf8.encode (String.ofList (ds ++ rest))).head? = some n →
        ∃ c ∈ (ds ++ rest).head?, c.toNat = n.toNat := by
      intro n hn hhead
      rw [Utf8.encode_ofList] at hhead
      cases hcs : ds ++ rest with
      | nil =>
        rw [hcs] at hhead
        cases hhead
      | cons c cs =>
        obtain ⟨b, tail, hbytes, hb⟩ := exists_first_byte c
        rw [hcs, List.flatMap_cons, hbytes, List.cons_append, List.head?_cons] at hhead
        cases hhead
        refine ⟨c, rfl, ?_⟩
        have := UInt8.le_iff_toNat_le.mp hn
        have hlimit : (0x7f : UInt8).toNat = 0x7f := rfl
        omega
    rw [Option.toList_none, List.nil_append, if_neg, if_neg]
    · rfl
    · intro hhead
      obtain ⟨c, hc, hplus⟩ := hfirst 0x2b (by decide) hhead
      exact (h.unsigned rfl c hc).1 (Char.toNat_inj.mp hplus)
    · intro hhead
      obtain ⟨c, hc, hminus⟩ := hfirst 0x2d (by decide) hhead
      exact (h.unsigned rfl c hc).2 (Char.toNat_inj.mp hminus)
  | some c =>
    have hsign := h.signed c rfl
    rw [Option.toList_some, List.singleton_append, behindFirstByte_sign hsign,
      Utf8.encode_ofList, List.flatMap_cons]
    rcases hsign with rfl | rfl <;> rfl

/-- No step of the parse overflows and none cuts a character in two, and what
it finds is the integer at the front of the text. -/
theorem parse_eq (s : String) :
    ∃ found, parse s = .ok found ∧ found.map Int64.toInt = integerPrefix? s := by
  obtain ⟨sign, ds, rest, h⟩ := exists_front s
  rw [parse, splitSign_of_front h, integerPrefix?_of_front h, ok_bind]
  show ∃ found, (match (Utf8.encode (String.ofList (ds ++ rest))).takeWhile isDigit with
    | [] => .ok none
    | bytes => bytes.foldlM push 0 >>= fun total =>
        if decide (sign = some '-') = true then some <$> negate total else .ok (some total)) =
      Except.ok found ∧ _
  rw [takeWhile_isDigit h.digits h.longest]
  cases ds with
  | nil => exact ⟨none, rfl, rfl⟩
  | cons d ds =>
    obtain ⟨b, hbytes, -⟩ := utf8EncodeChar_digit (h.digits d (List.mem_cons_self ..))
    obtain ⟨total, htotal, hvalue⟩ := foldlM_push h.digits
    rw [List.flatMap_cons, hbytes] at htotal ⊢
    rw [List.singleton_append] at htotal ⊢
    show ∃ found, ((b :: _).foldlM push 0 >>= _) = Except.ok found ∧ _
    rw [htotal, ok_bind, if_neg (List.cons_ne_nil d ds), withSign, ← hvalue]
    by_cases hminus : sign = some '-'
    · -- The total is not negative, so it has an opposite.
      obtain ⟨w, hw, hneg⟩ := negate_of_nonneg (n := total) (by omega)
      rw [if_pos (decide_eq_true hminus), if_pos hminus, hw]
      exact ⟨some w, rfl, congrArg some hneg⟩
    · rw [if_neg (by rwa [decide_eq_true_eq]), if_neg hminus]
      exact ⟨some total, rfl, rfl⟩

end Words

/-! ### Limits -/

/-- A limit that is set is the integer, cut to the ceiling; what is below one
sets nothing. -/
theorem map_toNat_coerceLimit (ceiling : UInt32) (v : Json) :
    (coerceLimit ceiling v).map UInt32.toNat = (coerceInteger v).bind fun n =>
      if n < 1 then none else some (min n.toNat ceiling.toNat) := by
  rw [coerceLimit]
  cases coerceInteger v with
  | none => rfl
  | some n =>
    show Option.map UInt32.toNat (if n ≤ 0 then none
      else if n ≤ ceiling.toNat then some (UInt32.ofNat n.toNat) else some ceiling)
        = if n < 1 then none else some (min n.toNat ceiling.toNat)
    -- A number up to the ceiling is a machine word, as the ceiling is one.
    have hword := ceiling.toNat_lt
    by_cases hpos : n ≤ 0
    · rw [if_pos hpos, if_pos (show n < 1 by omega), Option.map_none]
    · rw [if_neg hpos, if_neg (show ¬ n < 1 by omega)]
      by_cases hn : n ≤ ceiling.toNat
      · rw [if_pos hn, Option.map_some, UInt32.toNat_ofNat', Nat.mod_eq_of_lt (by omega),
          Nat.min_eq_left (by omega)]
      · rw [if_neg hn, Option.map_some, Nat.min_eq_right (by omega)]

/-- **The integer at the front of a text decides what the text stands for.** Blanks
in front of it, a sign, leading zeros and everything behind the digits make no
other difference, and no length of the digits is too great: an integer saturates
at 64 bits, a limit at its ceiling. The parse on words and bytes gets there without
an overflow and without cutting a character in two. -/
theorem text_read_by_leading_integer (s : String) (ceiling : UInt32) :
    (∃ sign ds rest, Front s sign ds rest) ∧
      (∀ sign ds rest, Front s sign ds rest →
        coerceInteger (.string s) =
            (if ds = [] then none else some (withSign sign (min (Draft.decimal ds) maxInt64))) ∧
          (coerceLimit ceiling (.string s)).map UInt32.toNat =
            if ds = [] ∨ sign = some '-' ∨ Draft.decimal ds = 0 then none
            else some (min (Draft.decimal ds) ceiling.toNat)) ∧
      ∃ found, Words.parse s = .ok found ∧ found.map Int64.toInt = coerceInteger (.string s) := by
  refine ⟨exists_front s, fun sign ds rest h => ?_, Words.parse_eq s⟩
  have hinteger : coerceInteger (.string s) =
      if ds = [] then none else some (withSign sign (min (Draft.decimal ds) maxInt64)) :=
    integerPrefix?_of_front h
  refine ⟨hinteger, ?_⟩
  rw [map_toNat_coerceLimit, hinteger]
  -- The three ways to set nothing, in the order of the statement: no digit, a minus, a zero.
  by_cases hds : ds = []
  · rw [if_pos hds, if_pos (.inl hds), Option.bind_none]
  · rw [if_neg hds, Option.bind_some, withSign]
    have hbound : maxInt64 = 9223372036854775807 := rfl
    have hword := ceiling.toNat_lt
    by_cases hminus : sign = some '-'
    · rw [if_pos hminus, if_pos (by omega), if_pos (.inr (.inl hminus))]
    · rw [if_neg hminus]
      by_cases hzero : Draft.decimal ds = 0
      · rw [if_pos (by omega), if_pos (.inr (.inr hzero))]
      · rw [if_neg (by omega), if_neg (by simp [hds, hminus, hzero])]
        congr 1
        omega

/-- Blanks of two kinds, a sign, zeros in front, and a unit behind the digits. -/
example : coerceLimit 50 (.string "\u00a0 +0012 ms") = some 12 := by decide +kernel

end Overrides
