import Overrides.Proofs.Json.RoundTrip
import Overrides.Text.Blank

/-!
# `Overrides.Proofs.Json.Lengths`: how long canonical text gets

A bound for each kind of value. In a string a byte becomes six bytes at
most, as in `\u0000`, and two where there are no control characters. Lists
and objects add the commas between their elements and the brackets around
them.

* `length_string_le_six`, `length_string_le_two`: strings.
* `length_ofNat_le`: numbers.
* `length_array_le`, `length_object_le`: values of which every part has a
  bound.
-/

set_option autoImplicit false

namespace Overrides.Json

open Overrides.Text Overrides.Text.Utf8

/-! ### Texts put together from parts -/

/-- Texts put together from longer parts are longer. The factor is the same for
all the parts, so it holds of the whole. -/
theorem length_flatMap_le {α β γ : Type} {f : α → List β} {g : α → List γ} {n : Nat}
    {as : List α} (h : ∀ a ∈ as, (f a).length ≤ n * (g a).length) :
    (as.flatMap f).length ≤ n * (as.flatMap g).length := by
  induction as with
  | nil => exact Nat.zero_le _
  | cons a as ih =>
    have ha := h a (List.mem_cons_self ..)
    have hrest := ih fun b hb => h b (List.mem_cons_of_mem _ hb)
    rw [List.flatMap_cons, List.flatMap_cons, List.length_append, List.length_append, Nat.mul_add]
    omega

/-- Encoded text is as long as the text says. -/
theorem length_encode (s : String) : (encode s).length = s.utf8ByteSize := by
  show s.toByteArray.toList.length = s.toByteArray.size
  rw [ByteArray.toList, toList_loop, List.drop_zero, List.reverse_nil, List.nil_append,
    Array.length_toList]
  rfl

/-- A character takes four bytes at most. -/
theorem utf8ByteSize_le (s : String) : s.utf8ByteSize ≤ 4 * s.toList.length := by
  have hle : ∀ c ∈ s.toList, (String.utf8EncodeChar c).length ≤ 4 * [c].length := by
    intro c _
    rw [String.length_utf8EncodeChar]
    exact c.utf8Size_le_four
  have hbytes := length_flatMap_le hle
  rwa [← encode_eq, length_encode, List.flatMap_singleton'] at hbytes

/-! ### Strings -/

/-- A spelling takes six bytes for every byte of the character at most. Controls
are where it takes that many; they have one byte themselves. -/
theorem Spelling.length_le {c : Char} {bytes : List UInt8} (h : Spelling c bytes) :
    bytes.length ≤ 6 * (String.utf8EncodeChar c).length := by
  have hpos := c.utf8Size_pos
  rw [← String.length_utf8EncodeChar] at hpos
  cases h with
  | letter => simp only [List.length_cons, List.length_nil]; omega
  | number => simp only [List.length_cons, List.length_nil]; omega
  | plain => omega

/-- A character that is no control character has no number as its spelling. So
two bytes for each byte of it are enough, where a number would take six for one.
-/
theorem Spelling.length_le_of_printable {c : Char} {bytes : List UInt8} (h : Spelling c bytes)
    (hc : isControl c = false) : bytes.length ≤ 2 * (String.utf8EncodeChar c).length := by
  have hpos := c.utf8Size_pos
  rw [← String.length_utf8EncodeChar] at hpos
  cases h with
  | letter => simp only [List.length_cons, List.length_nil]; omega
  | number h l x y hh hl hvalue hlow =>
    rw [isControl, Bool.or_eq_false_iff, decide_eq_false_iff_not] at hc
    omega
  | plain => omega

/-- A string is as long as the spellings of its characters, and the quotes. With
a bound on each spelling this becomes a bound by the bytes of the text. -/
theorem length_string_le {s : String} {n : Nat}
    (h : ∀ c ∈ s.toList, (encode (escapedChar c)).length ≤ n * (String.utf8EncodeChar c).length) :
    (canonicalBytes (.string s)).length ≤ n * s.utf8ByteSize + 2 := by
  have hbytes := length_flatMap_le h
  rw [← encode_eq, length_encode] at hbytes
  rw [canonicalBytes_string, encode_stringText, List.length_append, List.length_cons,
    List.length_singleton]
  omega

/-- No character takes more than six bytes, and six are what an escaped control
takes. So a text of which nothing is known has six bytes for each of its own at
most. -/
theorem length_string_le_six (s : String) :
    (canonicalBytes (.string s)).length ≤ 6 * s.utf8ByteSize + 2 :=
  length_string_le fun c _ => (spelling c).length_le

/-- Without control characters none takes more than two for one, and only quotes
and backslashes take that. The bound is what makes filters short, whose values
are printable. -/
theorem length_string_le_two {s : String} (h : s.toList.any isControl = false) :
    (canonicalBytes (.string s)).length ≤ 2 * s.utf8ByteSize + 2 := by
  refine length_string_le fun c hc => (spelling c).length_le_of_printable ?_
  exact Bool.eq_false_iff.mpr (List.any_eq_false.mp h c hc)

/-! ### Numbers -/

/-- A number of 64 bits has twenty digits at most, as the greatest one has. They
are bytes as well, since digits are ASCII. -/
theorem length_ofNat_le {n : Nat} (h : n < 18446744073709551616) :
    (canonicalBytes (ofNat n)).length ≤ 20 := by
  have hdigits : (Nat.toDigits 10 n).length ≤ 20 :=
    (Nat.length_toDigits_le_iff (by decide) (by decide)).mpr (Nat.lt_trans h (by decide))
  -- Every digit is one byte.
  have hbyte : ∀ d < 10, (String.utf8EncodeChar (Nat.digitChar d)).length = 1 := by decide
  obtain ⟨ds, hds, hchars⟩ := exists_decimal n
  rw [hchars, List.length_map] at hdigits
  rw [ofNat, ofInt, canonicalBytes_integer]
  show (encode (Nat.repr n)).length ≤ 20
  rw [Nat.repr, encode_ofList, hchars, List.flatMap_map, List.length_flatMap,
    List.map_congr_left fun d hd => hbyte d (hds.digit d hd), List.map_const',
    List.sum_replicate_nat, Nat.mul_one]
  exact hdigits

/-! ### Lists and objects -/

/-- Texts of bounded length, with a comma for each. The first one has none, so the bound
is one byte more than it has to be. -/
theorem length_listed_le {texts : List (List UInt8)} {n : Nat} (h : ∀ t ∈ texts, t.length ≤ n) :
    (listed texts).length ≤ texts.length * (n + 1) := by
  -- The texts behind the first one each have their comma.
  have hrest : ∀ ts : List (List UInt8), (∀ t ∈ ts, t.length ≤ n) →
      (commaBefore ts).length ≤ ts.length * (n + 1) := by
    intro ts hts
    have hle : ∀ t ∈ ts, (0x2c :: t).length ≤ (n + 1) * [t].length := by
      intro t ht
      have := hts t ht
      rw [List.length_cons, List.length_singleton]
      omega
    have hcommas := length_flatMap_le hle
    rwa [List.flatMap_singleton', Nat.mul_comm] at hcommas
  cases texts with
  | nil => exact Nat.zero_le _
  | cons t ts =>
    have ht := h t (List.mem_cons_self ..)
    have hle := hrest ts fun u hu => h u (List.mem_cons_of_mem _ hu)
    rw [listed, List.length_append, List.length_cons, Nat.succ_mul]
    omega

/-- A list of few short values is short. Each value is counted with its comma,
so the bound has room for one comma that is not there. -/
theorem length_array_le {items : List Json} {n k : Nat} (hfew : items.length ≤ k)
    (h : ∀ v ∈ items, (canonicalBytes v).length ≤ n) :
    (canonicalBytes (.array items)).length ≤ k * (n + 1) + 2 := by
  have htexts : ∀ t ∈ items.map canonicalBytes, t.length ≤ n := List.forall_mem_map.mpr h
  have hlisted := length_listed_le htexts
  have hk : items.length * (n + 1) ≤ k * (n + 1) := Nat.mul_le_mul_right _ hfew
  rw [List.length_map] at hlisted
  rw [canonicalBytes_array, List.length_cons, List.length_append, List.length_singleton]
  omega

/-- An object of few short members is short. The members have to be sorted and
plainly named here, since this is what makes the text of an object the texts of
its members. -/
theorem length_object_le {members : List (String × Json)} {n k : Nat}
    (hsorted : members.Pairwise fun a b => a.1 < b.1) (hplain : ∀ m ∈ members, PlainName m.1)
    (hfew : members.length ≤ k)
    (h : ∀ m ∈ members, (memberBytes m.1 (canonicalBytes m.2)).length ≤ n) :
    (canonicalBytes (.object members)).length ≤ k * (n + 1) + 2 := by
  have htexts : ∀ t ∈ members.map (fun m => memberBytes m.1 (canonicalBytes m.2)),
      t.length ≤ n := List.forall_mem_map.mpr h
  have hlisted := length_listed_le htexts
  have hk : members.length * (n + 1) ≤ k * (n + 1) := Nat.mul_le_mul_right _ hfew
  rw [List.length_map] at hlisted
  rw [canonicalBytes_object hsorted hplain, List.length_cons, List.length_append,
    List.length_singleton]
  omega

end Overrides.Json
