import Mathlib.Tactic.SplitIfs
import Overrides.Text.Utf8

/-!
# `Overrides.Proofs.Text.Utf8`: encoded text is read back

The encoding of a text is the encodings of its characters one after
the other. One step of the decoder undoes the encoding of one
character, whatever stands behind it, so the strict reader gives every
text back.

* `step_utf8EncodeChar`: one step of the decoder takes one character.
* `decode?_encode`: the whole text is read back.
-/

set_option autoImplicit false

namespace Overrides.Text.Utf8

/-! ### Encoded text -/

/-- The list of the bytes of an array, from the position that the loop
has reached. -/
theorem toList_loop (bytes : ByteArray) (i : Nat) (done : List UInt8) :
    ByteArray.toList.loop bytes i done = done.reverse ++ bytes.data.toList.drop i := by
  -- The induction follows the loop, which stops at the end of the array.
  induction i, done using ByteArray.toList.loop.induct bytes with
  | case1 i done h ih =>
    have hi : i < bytes.data.toList.length := h
    rw [ByteArray.toList.loop, if_pos h, ih, List.drop_eq_getElem_cons hi,
      List.reverse_cons, List.append_assoc, List.singleton_append]
    congr 2
    show bytes.data[i]! = _
    rw [getElem!_pos bytes.data i h]
    rfl
  | case2 i done h =>
    rw [ByteArray.toList.loop, if_neg h, List.drop_eq_nil_of_le (Nat.le_of_not_lt h),
      List.append_nil]

/-- The bytes of a text are the bytes of its characters in order. -/
theorem encode_eq (s : String) : encode s = s.toList.flatMap String.utf8EncodeChar := by
  have h : s.toByteArray = s.toList.utf8Encode := String.utf8Encode_toList.symm
  show s.toByteArray.toList = _
  rw [ByteArray.toList, toList_loop, List.drop_zero, List.reverse_nil, List.nil_append, h]
  exact List.toList_data_toByteArray

/-- The bytes of a text that is put together from characters. -/
theorem encode_ofList (cs : List Char) :
    encode (String.ofList cs) = cs.flatMap String.utf8EncodeChar := by
  rw [encode_eq, String.toList_ofList]

/-- The bytes of two texts stand one behind the other. As a `simp` lemma it takes longer
texts apart. -/
@[simp] theorem encode_append (s t : String) : encode (s ++ t) = encode s ++ encode t := by
  rw [encode_eq, encode_eq, encode_eq, String.toList_append, List.flatMap_append]

/-- A text of one character has the bytes of that character. -/
theorem encode_toString (c : Char) : encode c.toString = String.utf8EncodeChar c := by
  rw [encode_eq, show c.toString.toList = [c] from String.toList_singleton c,
    List.flatMap_singleton]

/-! ### One character -/

variable {n : Nat} {b c d e : UInt8}

/-- A byte that carries six bits behind a first byte. -/
theorem isContinuation_of_toNat (hc : c.toNat = n % 64 + 0x80) : isContinuation c = true := by
  simp only [isContinuation, UInt8.le_iff_toNat_le, UInt8.reduceToNat, hc, Bool.and_eq_true,
    decide_eq_true_eq]
  omega

/-- Two bytes are taken for the character that they were written for, whatever follows.
The lemmas for three and four bytes go the same way. -/
theorem step_two (h1 : 0x80 ≤ n) (h2 : n ≤ 0x7ff) (hb : b.toNat = n / 64 + 0xc0)
    (hc : c.toNat = n % 64 + 0x80) (rest : List UInt8) :
    step b (c :: rest) = (some (Char.ofNat n), 2) := by
  -- The leading byte says that one byte follows, and that this one is not restricted.
  have hlead : lead b = some (0x80, 0xbf, 1) := by
    simp only [lead, UInt8.le_iff_toNat_le, hb, Bool.and_eq_true, decide_eq_true_eq,
      UInt8.reduceToNat]
    rw [if_pos (by omega)]
  have hcont := isContinuation_of_toNat hc
  have hn : n / 64 * 64 + n % 64 = n := by omega
  rw [isContinuation] at hcont
  simp only [step, hlead, leadBits, UInt8.lt_iff_toNat_lt, UInt8.reduceToNat, hb, hcont]
  rw [if_neg (by omega)]
  simp [hc, hn]

/-- The bounds of the second byte keep out overlong forms and
surrogates. -/
theorem step_three (h1 : 0x800 ≤ n) (h2 : n ≤ 0xffff) (hs : n < 0xd800 ∨ 0xdfff < n)
    (hb : b.toNat = n / 4096 + 0xe0) (hc : c.toNat = n / 64 % 64 + 0x80)
    (hd : d.toNat = n % 64 + 0x80) (rest : List UInt8) :
    step b (c :: d :: rest) = (some (Char.ofNat n), 3) := by
  -- The first byte says which second bytes there may be, and this is one.
  have hlead : ∃ lo hi, lead b = some (lo, hi, 2) ∧ lo ≤ c ∧ c ≤ hi := by
    simp only [lead, UInt8.le_iff_toNat_le, hb, hc, UInt8.reduceToNat, beq_iff_eq,
      Bool.and_eq_true, decide_eq_true_eq, ← UInt8.toNat_inj]
    rw [if_neg (by omega)]
    split_ifs with he0 hed hee
    · exact ⟨0xa0, 0xbf, rfl, by simp; omega, by simp; omega⟩
    · exact ⟨0x80, 0x9f, rfl, by simp, by simp; omega⟩
    · exact ⟨0x80, 0xbf, rfl, by simp, by simp; omega⟩
    all_goals omega
  obtain ⟨lo, hi, hlead, hlo, hhi⟩ := hlead
  have hcont := isContinuation_of_toNat hd
  have hn : (n / 4096 * 64 + n / 64 % 64) * 64 + n % 64 = n := by omega
  simp only [step, hlead, leadBits, UInt8.lt_iff_toNat_lt, hcont, UInt8.reduceToNat, hb, hlo, hhi]
  rw [if_neg (by omega)]
  simp [hc, hd, hn]

/-- The bounds of the second byte keep out overlong forms and values
past U+10FFFF. -/
theorem step_four (h1 : 0x10000 ≤ n) (h2 : n ≤ 0x10ffff) (hb : b.toNat = n / 262144 + 0xf0)
    (hc : c.toNat = n / 4096 % 64 + 0x80) (hd : d.toNat = n / 64 % 64 + 0x80)
    (he : e.toNat = n % 64 + 0x80) (rest : List UInt8) :
    step b (c :: d :: e :: rest) = (some (Char.ofNat n), 4) := by
  -- As for three bytes, but the bounds are others.
  have hlead : ∃ lo hi, lead b = some (lo, hi, 3) ∧ lo ≤ c ∧ c ≤ hi := by
    simp only [lead, UInt8.le_iff_toNat_le, hb, hc, UInt8.reduceToNat, beq_iff_eq,
      Bool.and_eq_true, decide_eq_true_eq, ← UInt8.toNat_inj]
    rw [if_neg (by omega), if_neg (by omega), if_neg (by omega), if_neg (by omega)]
    split_ifs with hf0 hf1 hf4
    · exact ⟨0x90, 0xbf, rfl, by simp; omega, by simp; omega⟩
    · exact ⟨0x80, 0xbf, rfl, by simp, by simp; omega⟩
    · exact ⟨0x80, 0x8f, rfl, by simp, by simp; omega⟩
    · omega
  obtain ⟨lo, hi, hlead, hlo, hhi⟩ := hlead
  have hcont := isContinuation_of_toNat hd
  have hcont' := isContinuation_of_toNat he
  have hn : ((n / 262144 * 64 + n / 4096 % 64) * 64 + n / 64 % 64) * 64 + n % 64 = n := by omega
  simp only [step, hlead, leadBits, UInt8.lt_iff_toNat_lt, hcont, hcont', UInt8.reduceToNat, hb,
    hlo, hhi]
  rw [if_neg (by omega)]
  simp [hc, hd, he, hn]

/-- One step of the decoder takes the encoding of one character, whatever stands
behind it, and counts its bytes. The four lengths are the four cases. -/
theorem step_utf8EncodeChar (ch : Char) :
    ∃ b tail, String.utf8EncodeChar ch = b :: tail ∧
      ∀ rest, step b (tail ++ rest) = (some ch, tail.length + 1) := by
  have hvalid : ch.val.toNat < 0xd800 ∨ 0xdfff < ch.val.toNat ∧ ch.val.toNat < 0x110000 := ch.valid
  have hch : Char.ofNat ch.val.toNat = ch := Char.ofNat_toNat ch
  -- The encoding has one to four bytes, by the size of the code point.
  rw [String.utf8EncodeChar]
  generalize ch.val.toNat = n at hvalid hch
  rw [← hch]
  split_ifs with h1 h2 h3
  · refine ⟨_, _, rfl, fun rest => ?_⟩
    have hb : (UInt8.ofNat n).toNat = n := by rw [UInt8.toNat_ofNat']; omega
    rw [step, if_pos (by rw [UInt8.lt_iff_toNat_lt, hb]; simp; omega), hb]
    rfl
  · refine ⟨_, _, rfl, step_two (by omega) h2 ?_ ?_⟩
    all_goals rw [UInt8.toNat_ofNat']; omega
  · refine ⟨_, _, rfl, step_three (by omega) h3 (by omega) ?_ ?_ ?_⟩
    all_goals rw [UInt8.toNat_ofNat']; omega
  · refine ⟨_, _, rfl, step_four (by omega) (by omega) ?_ ?_ ?_ ?_⟩
    all_goals rw [UInt8.toNat_ofNat']; omega

/-! ### Whole texts -/

/-- The pieces of encoded characters are the characters. One step for
each byte is more than enough. -/
theorem pieces_flatMap (cs : List Char) (fuel : Nat) (done : List (Option Char))
    (h : (cs.flatMap String.utf8EncodeChar).length ≤ fuel) :
    pieces fuel (cs.flatMap String.utf8EncodeChar) done = (cs.map some).reverse ++ done := by
  induction cs generalizing fuel done with
  | nil => cases fuel <;> rfl
  | cons ch cs ih =>
    -- A character has one byte at least, so the bytes run out before the fuel.
    obtain ⟨b, tail, hbytes, hstep⟩ := step_utf8EncodeChar ch
    rw [List.flatMap_cons, hbytes, List.cons_append] at h ⊢
    cases fuel with
    | zero => simp at h
    | succ fuel =>
      rw [pieces, hstep]
      show pieces fuel ((tail ++ _).drop tail.length) (some ch :: done) = _
      rw [List.length_cons, List.length_append] at h
      rw [List.drop_left, ih fuel _ (by omega)]
      simp

/-- The strict reader gives every text back. Encoded texts have no ill-formed
piece, so nothing is refused and nothing is replaced. -/
theorem decode?_encode (s : String) : decode? (encode s) = some s := by
  -- No piece is ill-formed, so the fold collects every character.
  have hfold : ∀ (cs done : List Char),
      (cs.map some).foldl (fun text c => do let text ← text; let c ← c; pure (c :: text))
        (some done) = some (cs.reverse ++ done) := by
    intro cs
    induction cs with
    | nil => intro done; rfl
    | cons c cs ih =>
      intro done
      rw [List.map_cons, List.foldl_cons]
      show List.foldl _ (some (c :: done)) _ = _
      rw [ih, List.reverse_cons, List.append_assoc, List.singleton_append]
  rw [decode?, encode_eq, pieces_flatMap _ _ _ (Nat.le_refl _), List.append_nil,
    ← List.map_reverse, hfold]
  simp

end Overrides.Text.Utf8
