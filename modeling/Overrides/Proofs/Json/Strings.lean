import Overrides.Json.Writer
import Overrides.Proofs.Json.Run
import Overrides.Proofs.Text.Utf8

/-!
# `Overrides.Proofs.Json.Strings`: written strings are read back

The writer spells a character in one of three ways, `Spelling`: by a
letter, by its number, or by its own bytes. The reader undoes each of
them, so it reads every string back, whatever follows the closing
quote.

* `spelling`: what the writer writes for a character.
* `stringBytes_spelling`: the reader undoes the spelling of one
  character.
* `run_stringBody`: the reader undoes a written string.
-/

set_option autoImplicit false

namespace Overrides.Json

open Overrides.Text Overrides.Text.Utf8
open Reader

/-! ### What the writer writes -/

/-- The ways to spell a character inside a string. The writer uses one of them
for each character, and the reader takes any of them, so the two meet here and
not in each other's cases. -/
inductive Spelling (c : Char) : List UInt8 → Prop where
  /-- A backslash and a letter. -/
  | letter (b k : UInt8) : letterEscape? b = some k → String.utf8EncodeChar c = [k] →
      Spelling c [0x5c, b]
  /-- A backslash and four digits, the first two of them zero. -/
  | number (h l : UInt8) (x y : Nat) : hexDigit? h = some x → hexDigit? l = some y →
      c.toNat = x * 16 + y → c.toNat < 0x20 → Spelling c [0x5c, 0x75, 0x30, 0x30, h, l]
  /-- The bytes of the character. -/
  | plain : (∀ b ∈ String.utf8EncodeChar c, 0x20 ≤ b.toNat ∧ b ≠ 0x22 ∧ b ≠ 0x5c) →
      Spelling c (String.utf8EncodeChar c)

/-- Outside ASCII every byte of a character is above the ASCII bytes. So none of
them is taken for a quote, a backslash or a control. -/
theorem le_of_mem_utf8EncodeChar {c : Char} (h : 0x7f < c.toNat) :
    ∀ b ∈ String.utf8EncodeChar c, 0x80 ≤ b.toNat := by
  have hlt : c.toNat < 0x110000 := by
    have := c.valid
    rcases this with h | h
    · exact Nat.lt_trans h (by decide)
    · exact h.2
  have hn : c.val.toNat = c.toNat := rfl
  rw [String.utf8EncodeChar, hn, if_neg (by omega)]
  -- Two, three and four bytes: the leading one and those behind it are above 0x80.
  split_ifs
  all_goals
    simp only [List.mem_cons, List.not_mem_nil, or_false, forall_eq_or_imp, forall_eq,
      UInt8.toNat_ofNat']
    omega

/-- The hexadecimal digit of a number below 16 is read back. -/
theorem hexDigit?_digitChar : ∀ k < 16,
    ∃ b, String.utf8EncodeChar (Nat.digitChar k) = [b] ∧ hexDigit? b = some k := by
  intro k hk
  -- Sixteen digits are few enough to be gone through.
  have h : ∀ k < 16, hexDigit? (UInt8.ofNat (Nat.digitChar k).toNat) = some k ∧
      (Nat.digitChar k).toNat ≤ 0x7f := by decide
  refine ⟨UInt8.ofNat (Nat.digitChar k).toNat, ?_, (h k hk).1⟩
  rw [String.utf8EncodeChar]
  exact if_pos (h k hk).2

/-- A text of a backslash and a letter spells the character of the letter. -/
theorem Spelling.ofLetter {c : Char} {text : String} (b k : UInt8)
    (htext : encode text = [0x5c, b]) (hb : letterEscape? b = some k)
    (hk : String.utf8EncodeChar c = [k]) : Spelling c (encode text) := by
  rw [htext]
  exact .letter b k hb hk

/-- Four digits spell a control character: two zeros, then its number. This
covers the controls that have no letter of their own. -/
theorem spelling_number {c : Char} (h : c.toNat < 0x20) :
    Spelling c (encode (if c.toNat < 0x10 then "\\u000" ++ hex c.toNat
      else "\\u00" ++ hex c.toNat)) := by
  split
  · rename_i hone
    obtain ⟨l, hl, hl'⟩ := hexDigit?_digitChar c.toNat hone
    have hbytes : encode ("\\u000" ++ hex c.toNat) = [0x5c, 0x75, 0x30, 0x30, 0x30, l] := by
      rw [encode_append, hex, Nat.toDigits_of_lt_base hone, encode_ofList [_],
        List.flatMap_singleton, hl, encode_eq]
      rfl
    rw [hbytes]
    exact .number 0x30 l 0 c.toNat (by decide) hl' (by omega) h
  · rename_i htwo
    obtain ⟨l, hl, hl'⟩ := hexDigit?_digitChar (c.toNat - 16) (by omega)
    -- Below U+0020 the number has two digits, and the first one is 1.
    have hdigits : ∀ n < 0x20, ¬ n < 0x10 →
        Nat.toDigits 16 n = ['1'] ++ [Nat.digitChar (n - 16)] := by decide
    have hbytes : encode ("\\u00" ++ hex c.toNat) = [0x5c, 0x75, 0x30, 0x30, 0x31, l] := by
      rw [encode_append, hex, hdigits _ h htwo, encode_ofList (_ ++ _), List.flatMap_append,
        List.flatMap_singleton, List.flatMap_singleton, hl, encode_eq]
      rfl
    rw [hbytes]
    exact .number 0x31 l 1 (c.toNat - 16) (by decide) hl' (by omega) h

/-- A character that needs no escape spells itself. It is no quote, no backslash
and no control, and its bytes are none of these either. -/
theorem spelling_plain {c : Char} (hquote : c ≠ '"') (hslash : c ≠ '\\')
    (hcontrol : ¬ c.toNat < 0x20) : Spelling c (String.utf8EncodeChar c) := by
  refine .plain ?_
  by_cases hascii : c.toNat ≤ 0x7f
  · have hb : (UInt8.ofNat c.toNat).toNat = c.toNat := by rw [UInt8.toNat_ofNat']; omega
    have hbytes : String.utf8EncodeChar c = [UInt8.ofNat c.toNat] := if_pos hascii
    rw [hbytes]
    intro b hmem
    rw [List.mem_singleton.mp hmem, hb]
    -- In ASCII a character has one byte, so an escaped byte would be its own character.
    refine ⟨Nat.le_of_not_lt hcontrol, fun h => hquote ?_, fun h => hslash ?_⟩
    all_goals
      rw [← Char.ofNat_toNat c, ← hb, h]
      rfl
  · -- Quote, backslash and controls are ASCII, and none of these bytes is.
    intro b hmem
    have hb := le_of_mem_utf8EncodeChar (Nat.lt_of_not_le hascii) b hmem
    refine ⟨by omega, fun h => ?_, fun h => ?_⟩
    all_goals
      rw [h] at hb
      exact absurd hb (by decide)

/-- What the writer writes for a character spells it. Two bytes for those with a
letter of their own, six for the other controls, and the bytes of the character
for all else. -/
theorem spelling (c : Char) : Spelling c (encode (escapedChar c)) := by
  rw [escapedChar]
  simp only [beq_iff_eq]
  -- The cases stand in the order in which the writer tries them.
  split_ifs with h1 h2 h3 h4 h5 h6 h7 h8 h9
  · subst h1
    exact .ofLetter 0x22 0x22 (encode_eq _) (by decide) (by decide)
  · subst h2
    exact .ofLetter 0x5c 0x5c (encode_eq _) (by decide) (by decide)
  · rw [← Char.ofNat_toNat c, h3]
    exact .ofLetter 0x62 0x08 (encode_eq _) (by decide) (by decide)
  · rw [← Char.ofNat_toNat c, h4]
    exact .ofLetter 0x74 0x09 (encode_eq _) (by decide) (by decide)
  · rw [← Char.ofNat_toNat c, h5]
    exact .ofLetter 0x6e 0x0a (encode_eq _) (by decide) (by decide)
  · rw [← Char.ofNat_toNat c, h6]
    exact .ofLetter 0x66 0x0c (encode_eq _) (by decide) (by decide)
  · rw [← Char.ofNat_toNat c, h7]
    exact .ofLetter 0x72 0x0d (encode_eq _) (by decide) (by decide)
  -- Below U+0010 the number has one digit, and a third zero in front of it.
  · have hnumber := spelling_number (Nat.lt_trans h8 (by decide))
    rwa [if_pos h8] at hnumber
  · have hnumber := spelling_number h9
    rwa [if_neg h8] at hnumber
  · rw [encode_toString]
    exact spelling_plain h1 h2 h9

/-! ### What the reader reads -/

variable {limit : Nat} {bytes rest : List UInt8}

/-- Bytes that are no control, no quote and no backslash are taken as
they stand. -/
theorem stringBytes_plain (h : ∀ b ∈ bytes, 0x20 ≤ b.toNat ∧ b ≠ 0x22 ∧ b ≠ 0x5c)
    (fuel : Nat) (done : List UInt8) :
    stringBytes true (bytes.length + fuel) done limit (bytes ++ rest)
      = stringBytes true fuel (bytes.reverse ++ done) limit rest := by
  -- Every byte uses up one step and goes on top of those that are done.
  induction bytes generalizing done with
  | nil => rw [List.length_nil, Nat.zero_add]; rfl
  | cons b bytes ih =>
    obtain ⟨hcontrol, hquote, hslash⟩ := h b (List.mem_cons_self ..)
    have hcontrol : ¬ b < 0x20 := by
      rw [UInt8.lt_iff_toNat_lt]
      exact Nat.not_lt_of_le hcontrol
    rw [List.length_cons, Nat.add_right_comm, List.cons_append, stringBytes, run_get_bind]
    simp only [hcontrol, beq_iff_eq, hquote, hslash, if_false]
    rw [run_set_bind, ih (fun c hc => h c (List.mem_cons_of_mem _ hc)), List.reverse_cons,
      List.append_assoc]
    rfl

/-- A backslash starts an escape, and what it stands for is put on top of what is done. -/
theorem stringBytes_slash {piece : List UInt8} (h : escape true limit bytes = .ok (piece, rest))
    (fuel : Nat) (done : List UInt8) :
    stringBytes true (fuel + 1) done limit (0x5c :: bytes)
      = stringBytes true fuel (piece.reverse ++ done) limit rest := by
  rw [stringBytes, run_get_bind]
  simp only [show ¬ (0x5c : UInt8) < 0x20 by decide, if_false]
  rw [run_set_bind]
  exact run_bind_ok h _

/-- A quote ends the string. -/
theorem stringBytes_quote (fuel : Nat) (done : List UInt8) :
    stringBytes true (fuel + 1) done limit (0x22 :: rest) = .ok (done.reverse, rest) := rfl

/-- An escape by a letter gives the one byte that the letter stands for. The letter of the
numeric escapes is none of these. -/
theorem escape_letter {b k : UInt8} (h : letterEscape? b = some k) :
    escape true limit (b :: rest) = .ok ([k], rest) := by
  have hu : (b == 0x75) = false := by
    rw [beq_eq_false_iff_ne]
    intro hb
    rw [hb] at h
    exact nomatch h
  rw [escape, run_peek_bind, List.head?_cons]
  simp only [hu, h]
  rfl

/-- A numeric escape below U+0020 is no surrogate. So the reader does not look
for a second half behind it. -/
theorem escape_number {c : Char} {h l : UInt8} {x y : Nat} (hh : hexDigit? h = some x)
    (hl : hexDigit? l = some y) (hc : c.toNat = x * 16 + y) (hlt : c.toNat < 0x20) :
    escape true limit (0x75 :: 0x30 :: 0x30 :: h :: l :: rest)
      = .ok (String.utf8EncodeChar c, rest) := by
  have hhex : hexEscape limit (0x30 :: 0x30 :: h :: l :: rest) = .ok (c.toNat, rest) := by
    rw [hexEscape, run_get_bind]
    simp only [hh, hl, show hexDigit? 0x30 = some 0 from rfl]
    rw [run_set_bind, run_pure, hc]
    simp
  have hpoint : escapedCodePoint limit (0x30 :: 0x30 :: h :: l :: rest) = .ok (c, rest) := by
    have hlow : isLowSurrogate c.toNat = false := by
      simp only [isLowSurrogate, Bool.and_eq_false_imp, decide_eq_true_eq, decide_eq_false_iff_not]
      omega
    have hhigh : isHighSurrogate c.toNat = false := by
      simp only [isHighSurrogate, Bool.and_eq_false_imp, decide_eq_true_eq,
        decide_eq_false_iff_not]
      omega
    rw [escapedCodePoint, run_bind_ok hhex, hlow, hhigh, Char.ofNat_toNat]
    rfl
  rw [escape, run_peek_bind, List.head?_cons]
  simp only [beq_self_eq_true, if_true]
  rw [run_drop_bind, run_bind_ok hpoint, run_pure, encode_toString]

/-- The reader takes the spelling of a character for the character. It needs one
step for each byte at most, so fuel that covers the bytes of the text is enough.
-/
theorem stringBytes_spelling {c : Char} (h : Spelling c bytes) {fuel : Nat}
    (hfuel : bytes.length < fuel) (done : List UInt8) (limit : Nat) (rest : List UInt8) :
    ∃ left, fuel ≤ left + bytes.length ∧
      stringBytes true fuel done limit (bytes ++ rest)
        = stringBytes true left ((String.utf8EncodeChar c).reverse ++ done) limit rest := by
  -- Two bytes, six bytes, or as many as the character has: the fuel is counted in bytes.
  cases h with
  | letter b k hb hk =>
    obtain ⟨left, rfl⟩ : ∃ left, fuel = left + 1 := ⟨fuel - 1, by omega⟩
    refine ⟨left, by simp, ?_⟩
    rw [hk]
    exact stringBytes_slash (escape_letter hb) left done
  | number h l x y hh hl hc hlt =>
    obtain ⟨left, rfl⟩ : ∃ left, fuel = left + 1 := ⟨fuel - 1, by omega⟩
    exact ⟨left, by simp, stringBytes_slash (escape_number hh hl hc hlt) left done⟩
  | plain h =>
    obtain ⟨left, rfl⟩ : ∃ left, fuel = (String.utf8EncodeChar c).length + left :=
      ⟨fuel - (String.utf8EncodeChar c).length, by omega⟩
    exact ⟨left, by omega, stringBytes_plain h left done⟩

/-- The spellings of characters, as far as the closing quote. The
induction is on the characters, with the fuel for the bytes to come. -/
theorem stringBytes_escaped (cs : List Char) (limit : Nat) (rest : List UInt8) {fuel : Nat}
    (hfuel : (cs.flatMap fun c => encode (escapedChar c)).length < fuel) (done : List UInt8) :
    stringBytes true fuel done limit
        ((cs.flatMap fun c => encode (escapedChar c)) ++ 0x22 :: rest)
      = .ok (done.reverse ++ cs.flatMap String.utf8EncodeChar, rest) := by
  induction cs generalizing fuel done with
  | nil =>
    obtain ⟨left, rfl⟩ : ∃ left, fuel = left + 1 := ⟨fuel - 1, by omega⟩
    rw [List.flatMap_nil, List.flatMap_nil, List.nil_append, List.append_nil, stringBytes_quote]
  | cons c cs ih =>
    rw [List.flatMap_cons, List.length_append] at hfuel
    have hc : (encode (escapedChar c)).length < fuel := by omega
    -- One character is done, and the fuel that is left is enough for the others.
    obtain ⟨left, hleft, hstep⟩ := stringBytes_spelling (spelling c) hc done limit
      ((cs.flatMap fun c => encode (escapedChar c)) ++ 0x22 :: rest)
    rw [List.flatMap_cons, List.append_assoc, hstep, ih (by omega), List.reverse_append,
      List.reverse_reverse, List.flatMap_cons, List.append_assoc]

/-- The bytes of a written string: a quote, the spellings of the
characters, a quote. -/
theorem encode_stringText (s : String) :
    encode (stringText s)
      = 0x22 :: (s.toList.flatMap fun c => encode (escapedChar c)) ++ [0x22] := by
  -- Said of any text in front, as the fold has more of it at each step.
  have hfold : ∀ (cs : List Char) (text : String),
      encode (cs.foldl (fun text c => text ++ escapedChar c) text)
        = encode text ++ cs.flatMap fun c => encode (escapedChar c) := by
    intro cs
    induction cs with
    | nil => intro text; rw [List.foldl_nil, List.flatMap_nil, List.append_nil]
    | cons c cs ih =>
      intro text
      rw [List.foldl_cons, ih, encode_append, List.append_assoc, List.flatMap_cons]
  rw [stringText, encode_append, String.foldl_eq_foldl_toList, hfold, encode_eq "\""]
  rfl

/-- The reader of strings, opening quote already taken, gives back what was
written, and leaves what stands behind the closing quote. -/
theorem run_stringBody (s : String) (h : (encode (stringText s)).length ≤ limit) :
    stringBody limit ((encode (stringText s)).tail ++ rest) = .ok (s, rest) := by
  rw [encode_stringText] at h ⊢
  rw [List.length_append, List.length_cons] at h
  -- The reader gives itself one step more than the whole text has bytes.
  have hfuel : (s.toList.flatMap fun c => encode (escapedChar c)).length < limit + 1 := by omega
  have hbytes := stringBytes_escaped s.toList limit rest hfuel []
  rw [stringBody, run_read_bind, List.cons_append, List.tail_cons, List.append_assoc,
    show ([0x22] ++ rest : List UInt8) = 0x22 :: rest from rfl, run_bind_ok hbytes,
    List.reverse_nil, List.nil_append, ← encode_eq, decode?_encode]
  rfl

end Overrides.Json
