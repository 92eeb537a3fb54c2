import Overrides.Proofs.Json.Listed
import Overrides.Proofs.Json.Members

/-!
# `Overrides.Proofs.Json.RoundTrip`: canonical text is read back

The canonical text of a value loses nothing when its integers fit 64
bits, it holds no doubles, and the names in its objects need no
escapes; then the reader gives the value back.

* `Writable`: the values of which this is said, with the number of
  lists and objects that are open at once.
* `run_value_canonical`: the reader undoes the canonical text.
-/

set_option autoImplicit false

namespace Overrides.Json

open Overrides.Text.Utf8
open Reader

/-! ### Names that need no escapes -/

/-- No character of the name is escaped, and all of them come after the
quote in the order of characters. -/
def PlainName (name : String) : Prop := ∀ c ∈ name.toList, '"' < c ∧ c ≠ '\\'

instance (name : String) : Decidable (PlainName name) :=
  List.decidableBAll (fun c => '"' < c ∧ c ≠ '\\') name.toList

/-- A character above the quote that is no backslash is written as it is: all controls
come before the quote. -/
theorem escapedChar_of_plain {c : Char} (h : '"' < c) (hslash : c ≠ '\\') :
    escapedChar c = c.toString := by
  have hn : 0x22 < c.toNat := h
  have hquote : c ≠ '"' := by
    rintro rfl
    exact absurd hn (by decide)
  simp only [escapedChar, beq_iff_eq, hquote, hslash, if_false]
  rw [if_neg (by omega), if_neg (by omega), if_neg (by omega), if_neg (by omega),
    if_neg (by omega), if_neg (by omega), if_neg (by omega)]

/-- A plain name is written between quotes as it is. Nothing in it is escaped,
so the order of names can be told from the order of their texts. -/
theorem toList_stringText {name : String} (h : PlainName name) :
    (stringText name).toList = '"' :: name.toList ++ ['"'] := by
  -- The fold starts with the opening quote, so it is followed from any text.
  have hfold : ∀ (cs : List Char) (text : String), (∀ c ∈ cs, '"' < c ∧ c ≠ '\\') →
      (cs.foldl (fun text c => text ++ escapedChar c) text).toList = text.toList ++ cs := by
    intro cs
    induction cs with
    | nil => intro text _; exact (List.append_nil _).symm
    | cons c cs ih =>
      intro text hcs
      obtain ⟨hc, hslash⟩ := hcs c (List.mem_cons_self ..)
      rw [List.foldl_cons, ih _ fun d hd => hcs d (List.mem_cons_of_mem _ hd),
        escapedChar_of_plain hc hslash, String.toList_append,
        show c.toString.toList = [c] from String.toList_singleton c, List.append_assoc]
      rfl
  rw [stringText, String.toList_append, String.foldl_eq_foldl_toList, hfold _ _ h]
  rfl

/-- Quoting plain names keeps their order. The writer sorts the texts of
members, quotes included, and this is why they come out in the order of the
names. -/
theorem stringText_lt {a b : String} (ha : PlainName a) (hb : PlainName b) (h : a < b) :
    stringText a < stringText b := by
  -- The closing quote comes before every character of a plain name, so it
  -- ends the shorter name first.
  have hlist : ∀ cs ds : List Char, cs < ds → (∀ d ∈ ds, '"' < d ∧ d ≠ '\\') →
      cs ++ ['"'] < ds ++ ['"'] := by
    intro cs ds hlt
    induction hlt with
    | nil =>
      intro hds
      exact List.cons_lt_cons_iff.mpr (.inl (hds _ (List.mem_cons_self ..)).1)
    | rel hcd => exact fun _ => List.cons_lt_cons_iff.mpr (.inl hcd)
    | cons _ ih =>
      intro hds
      exact List.cons_lt_cons_iff.mpr
        (.inr ⟨rfl, ih fun d hd => hds d (List.mem_cons_of_mem _ hd)⟩)
  rw [String.lt_iff, toList_stringText ha, toList_stringText hb, List.cons_append,
    List.cons_append]
  exact List.cons_lt_cons_iff.mpr (.inr ⟨rfl, hlist _ _ h hb⟩)

/-! ### Writable values -/

/-- The values that the canonical text loses nothing of, with at most
`room` lists and objects open at once. -/
inductive Writable : Nat → Json → Prop where
  | null {room : Nat} : Writable room .null
  | bool {room : Nat} (b : Bool) : Writable room (.bool b)
  | integer {room : Nat} {n : Int} : Fits n → Writable room (.number (.integer n))
  | string {room : Nat} (s : String) : Writable room (.string s)
  | array {room : Nat} {items : List Json} :
      (∀ v ∈ items, Writable room v) → Writable (room + 1) (.array items)
  | object {room : Nat} {members : List (String × Json)} :
      members.Pairwise (fun a b => a.1 < b.1) → (∀ m ∈ members, PlainName m.1) →
      (∀ m ∈ members, Writable room m.2) → Writable (room + 1) (.object members)

/-- The bytes of the canonical text. -/
def canonicalBytes (v : Json) : List UInt8 := encode v.canonical

/-- The mutual recursion over items is a map of the recursion over values. -/
theorem canonicalItems_eq (items : List Json) : canonicalItems items = items.map canonical := by
  induction items with
  | nil => rfl
  | cons v items ih => rw [canonicalItems, ih, List.map_cons]

/-- The mutual recursion over members is a map, name and value apart. -/
theorem canonicalMembers_eq (members : List (String × Json)) :
    canonicalMembers members = members.map fun m => (stringText m.1, m.2.canonical) := by
  induction members with
  | nil => rfl
  | cons m members ih => rw [canonicalMembers, ih, List.map_cons]

/-- The canonical text of a string is its quoted form. -/
theorem canonicalBytes_string (s : String) :
    canonicalBytes (.string s) = encode (stringText s) := by
  rw [canonicalBytes, canonical]

/-- The canonical text of an integer is its decimal form. -/
theorem canonicalBytes_integer (n : Int) :
    canonicalBytes (.number (.integer n)) = encode (Int.repr n) := by
  rw [canonicalBytes, canonical]
  rfl

/-- A list is written between brackets, with commas between the canonical texts of its
items. -/
theorem canonicalBytes_array (items : List Json) :
    canonicalBytes (.array items) = 0x5b :: (listed (items.map canonicalBytes) ++ [0x5d]) := by
  rw [canonicalBytes, canonical, encode_append, encode_append, encode_commaList,
    canonicalItems_eq, List.map_map, encode_eq "[", encode_eq "]"]
  rfl

/-- The members of an object are written in their order. Ordering them once more by their
quoted names changes nothing, since plain names are quoted in the same order. -/
theorem canonicalBytes_object {members : List (String × Json)}
    (hsorted : members.Pairwise fun a b => a.1 < b.1) (hplain : ∀ m ∈ members, PlainName m.1) :
    canonicalBytes (.object members)
      = 0x7b :: (listed (members.map fun m => memberBytes m.1 (canonicalBytes m.2)) ++ [0x7d]) := by
  -- A quote comes before every character of a plain name, so it sorts a name before its longer
  -- ones, as the end of the name does.
  have htexts : sortMembers (canonicalMembers members) = canonicalMembers members := by
    refine sortMembers_of_pairwise ?_
    rw [canonicalMembers_eq, List.pairwise_map]
    exact hsorted.imp_of_mem fun ha hb h => stringText_lt (hplain _ ha) (hplain _ hb) h
  have hmembers : ((canonicalMembers members).map memberText).map encode
      = members.map fun m => memberBytes m.1 (canonicalBytes m.2) := by
    rw [canonicalMembers_eq, List.map_map, List.map_map]
    exact List.map_congr_left fun m _ => encode_memberText m.1 m.2.canonical
  rw [canonicalBytes, canonical, encode_append, encode_append, encode_commaList, htexts, hmembers,
    encode_eq "\x7b", encode_eq "\x7d"]
  rfl

/-- The items of a list are no more than the bytes of its text, and none
is longer. -/
theorem array_bounds {items : List Json} {limit : Nat}
    (hlimit : (canonicalBytes (.array items)).length ≤ limit) :
    items.length ≤ limit ∧ ∀ v ∈ items, (canonicalBytes v).length ≤ limit := by
  rw [canonicalBytes_array, List.length_cons, List.length_append] at hlimit
  have hcount := length_texts_le (items.map canonicalBytes)
  rw [List.length_map] at hcount
  refine ⟨by omega, fun v hv => ?_⟩
  have hle := length_le_listed (List.mem_map_of_mem hv (f := canonicalBytes))
  omega

/-- The members of an object are no more than the bytes of its text, and
no name and no value is longer. -/
theorem object_bounds {members : List (String × Json)} {limit : Nat}
    (hsorted : members.Pairwise fun a b => a.1 < b.1) (hplain : ∀ m ∈ members, PlainName m.1)
    (hlimit : (canonicalBytes (.object members)).length ≤ limit) :
    members.length ≤ limit ∧ ∀ m ∈ members,
      (encode (stringText m.1)).length ≤ limit ∧ (canonicalBytes m.2).length ≤ limit := by
  rw [canonicalBytes_object hsorted hplain, List.length_cons, List.length_append] at hlimit
  have hcount := length_texts_le (members.map fun m => memberBytes m.1 (canonicalBytes m.2))
  rw [List.length_map] at hcount
  refine ⟨by omega, fun m hm => ?_⟩
  have hle := length_le_listed
    (List.mem_map_of_mem hm (f := fun m => memberBytes m.1 (canonicalBytes m.2)))
  rw [memberBytes, List.length_append, List.length_cons] at hle
  omega

/-- The canonical text of every value can stand as an element of a list: it starts with no
white space and with no closing bracket. -/
theorem startsElement_canonicalBytes {room : Nat} {v : Json} (h : Writable room v) :
    StartsElement (canonicalBytes v) := by
  -- Every kind of value has its own first byte.
  cases h with
  | null => exact ⟨0x6e, [0x75, 0x6c, 0x6c], encode_eq _, by decide, by decide⟩
  | bool b =>
    cases b with
    | true => exact ⟨0x74, [0x72, 0x75, 0x65], encode_eq _, by decide, by decide⟩
    | false => exact ⟨0x66, [0x61, 0x6c, 0x73, 0x65], encode_eq _, by decide, by decide⟩
  | @integer _ n hn =>
    obtain ⟨b, tail, hbytes, hb⟩ := intRepr_starts n
    refine ⟨b, tail, by rw [canonicalBytes_integer, hbytes], ?_⟩
    rcases hb with rfl | ⟨d, hd, rfl⟩
    · decide
    · have hdigits : ∀ d < 10, isGap (digitByte d) = false ∧ digitByte d ≠ 0x5d := by decide
      exact hdigits d hd
  | string s =>
    rw [canonicalBytes_string, encode_stringText]
    exact ⟨0x22, _, rfl, by decide, by decide⟩
  | array hitems =>
    rw [canonicalBytes_array]
    exact ⟨0x5b, _, rfl, by decide, by decide⟩
  | object hsorted hplain hmembers =>
    rw [canonicalBytes_object hsorted hplain]
    exact ⟨0x7b, _, rfl, by decide, by decide⟩

/-! ### Reading values -/

/-- Items put on top of each other end up in reverse. -/
theorem foldlM_cons_ok {α ε : Type} (items done : List α) :
    items.foldlM (fun done a => (.ok (a :: done) : Except ε (List α))) done
      = .ok (items.reverse ++ done) := by
  induction items generalizing done with
  | nil => rfl
  | cons a items ih =>
    rw [List.foldlM_cons, List.reverse_cons, List.append_assoc]
    exact ih (a :: done)

variable {room limit : Nat} {rest : List UInt8} {v : Json}

/-- A value that opens no list and no object is read at any depth. So whether
room is left does not have to be asked for it. -/
theorem run_value_scalar {b : UInt8} {bytes : List UInt8} (hgap : isGap b = false)
    (hlist : b ≠ 0x5b) (hobject : b ≠ 0x7b) :
    value room limit (b :: bytes) = scalar b limit (b :: bytes) := by
  have hlist : (b == 0x5b) = false := beq_eq_false_iff_ne.mpr hlist
  have hobject : (b == 0x7b) = false := beq_eq_false_iff_ne.mpr hobject
  -- Room matters for lists and objects only.
  cases room with
  | zero =>
    rw [value, run_peekToken_bind hgap]
    simp only [hlist, hobject, Bool.or_self, Bool.false_eq_true, if_false]
  | succ room =>
    rw [value, run_peekToken_bind hgap]
    simp only [hlist, hobject, Bool.false_eq_true, if_false]

/-- A written integer is read back as a value, where it ends. The first byte is
a digit or a minus, which sends the reader to numbers. -/
theorem run_value_integer {n : Int} (h : Fits n) (hrest : Ends rest) :
    value room limit (encode (Int.repr n) ++ rest) = .ok (.number (.integer n), rest) := by
  obtain ⟨b, tail, hbytes, hb⟩ := intRepr_starts n
  -- No other kind of value starts with a minus sign or a digit.
  have hkind : isGap b = false ∧ b ≠ 0x5b ∧ b ≠ 0x7b ∧ (b == 0x6e) = false ∧ (b == 0x74) = false ∧
      (b == 0x66) = false ∧ (b == 0x22) = false ∧ (b == 0x2d || isDigit b) = true := by
    rcases hb with rfl | ⟨d, hd, rfl⟩
    · decide
    · clear hbytes
      revert d
      decide
  obtain ⟨hgap, hlist, hobject, hnull, htrue, hfalse, hstring, hnumber⟩ := hkind
  have hrun : Reader.number limit (encode (Int.repr n) ++ rest) = .ok (.integer n, rest) :=
    run_number h hrest
  rw [hbytes, List.cons_append] at hrun ⊢
  rw [run_value_scalar hgap hlist hobject, scalar, hnull, htrue, hfalse, hstring, hnumber]
  show (Reader.number >>= fun _ => _) limit _ = _
  rw [run_bind_ok hrun]
  rfl

/-- A written string is read back as a value. Behind its opening quote this is
the reader of the body of a string. -/
theorem run_value_string (s : String) (h : (encode (stringText s)).length ≤ limit) :
    value room limit (encode (stringText s) ++ rest) = .ok (.string s, rest) := by
  obtain ⟨tail, htail⟩ := stringText_startsQuote s
  have hbody : stringBody limit ((encode (stringText s)).tail ++ rest) = .ok (s, rest) :=
    run_stringBody s h
  rw [htail, List.tail_cons] at hbody
  rw [htail, List.cons_append, run_value_scalar (by decide) (by decide) (by decide)]
  show (drop >>= fun _ => _) limit (0x22 :: (tail ++ rest)) = _
  rw [run_drop_bind, run_bind_ok hbody]
  rfl

/-- The value is read back from its canonical text, with room for so many
open lists and objects. -/
def ReadBack (room limit : Nat) (v : Json) : Prop :=
  ∀ rest, Ends rest → value room limit (canonicalBytes v ++ rest) = .ok (v, rest)

/-- A list is read back when its items are. Inside there is room for one list or
object less, and the fuel is the length of the whole text. -/
theorem run_value_array {items : List Json} (hstart : ∀ v ∈ items, StartsElement (canonicalBytes v))
    (hread : ∀ v ∈ items, ReadBack room limit v) (hcount : items.length ≤ limit) :
    ReadBack (room + 1) limit (.array items) := by
  intro rest _
  -- The state is the list of the items that were read, the last one first.
  have htakes : TakesElements (fun done => do return (← value room) :: done) canonicalBytes
      (fun done v => .ok (v :: done)) limit items := by
    intro v hv
    refine ⟨hstart v hv, fun done rest hrest => ?_⟩
    show (value room >>= fun v => pure (v :: done)) limit _ = _
    rw [run_bind_ok (hread v hv rest hrest)]
    rfl
  have hfold := run_foldElements htakes (Nat.lt_succ_of_le hcount) [] rest
  rw [foldlM_cons_ok] at hfold
  rw [canonicalBytes_array, List.cons_append, List.append_assoc, value,
    run_peekToken_bind (by decide)]
  show (drop >>= fun _ => _) limit (0x5b :: _) = _
  rw [run_drop_bind, run_read_bind]
  show (foldElements _ _ _ _ >>= fun _ => _) limit (_ ++ 0x5d :: rest) = _
  rw [run_bind_ok hfold]
  simp

/-- An object is read back when its values are and its members stand in
order. -/
theorem run_value_object {members : List (String × Json)}
    (hsorted : members.Pairwise fun a b => a.1 < b.1) (hplain : ∀ m ∈ members, PlainName m.1)
    (hname : ∀ m ∈ members, (encode (stringText m.1)).length ≤ limit)
    (hread : ∀ m ∈ members, ReadBack room limit m.2) (hcount : members.length ≤ limit) :
    ReadBack (room + 1) limit (.object members) := by
  intro rest _
  -- The state is the list of the members that were read, the last one first.
  have htakes : TakesMembers (fun n done => do colon; return (n, ← value room) :: done)
      (fun m => (m.1, canonicalBytes m.2)) (fun done m => .ok (m :: done)) limit members := by
    intro m hm
    refine ⟨hname m hm, fun done rest hrest => ?_⟩
    show (colon >>= fun _ => value room >>= fun v => pure ((m.1, v) :: done)) limit _ = _
    rw [run_bind_ok run_colon, run_bind_ok (hread m hm rest hrest)]
    rfl
  have hfold := run_foldMembers htakes (Nat.lt_succ_of_le hcount) [] rest
  rw [foldlM_cons_ok] at hfold
  rw [canonicalBytes_object hsorted hplain, List.cons_append, List.append_assoc, value,
    run_peekToken_bind (by decide)]
  show (drop >>= fun _ => _) limit (0x7b :: _) = _
  rw [run_drop_bind, run_read_bind]
  show (foldMembers _ _ _ _ >>= fun _ => _) limit (_ ++ 0x7d :: rest) = _
  -- The members are in order already, so putting them there again does nothing.
  rw [run_bind_ok hfold, List.append_nil, List.reverse_reverse, ofMembers,
    sortMembers_of_pairwise hsorted]
  rfl

/-- The reader of values gives a writable value back from its canonical text.
The induction is on how the value is writable; lists and objects use the lemmas
on what is listed, with room for one less inside. -/
theorem run_value_canonical (h : Writable room v) (hlimit : (canonicalBytes v).length ≤ limit) :
    ReadBack room limit v := by
  induction h with
  | null =>
    intro rest _
    rw [show canonicalBytes .null = [0x6e, 0x75, 0x6c, 0x6c] from encode_eq _,
      List.cons_append, run_value_scalar (by decide) (by decide) (by decide)]
    rfl
  | bool b =>
    intro rest _
    cases b with
    | true =>
      rw [show canonicalBytes (.bool true) = [0x74, 0x72, 0x75, 0x65] from encode_eq _,
        List.cons_append, run_value_scalar (by decide) (by decide) (by decide)]
      rfl
    | false =>
      rw [show canonicalBytes (.bool false) = [0x66, 0x61, 0x6c, 0x73, 0x65] from encode_eq _,
        List.cons_append, run_value_scalar (by decide) (by decide) (by decide)]
      rfl
  | integer hn =>
    intro rest hrest
    rw [canonicalBytes_integer]
    exact run_value_integer hn hrest
  | string s =>
    intro rest _
    rw [canonicalBytes_string] at hlimit ⊢
    exact run_value_string s hlimit
  | @array room items hitems ih =>
    -- No item is longer than the list, so the limit holds for every item too.
    obtain ⟨hcount, hlength⟩ := array_bounds hlimit
    exact run_value_array (fun v hv => startsElement_canonicalBytes (hitems v hv))
      (fun v hv => ih v hv (hlength v hv)) hcount
  | @object room members hsorted hplain hmembers ih =>
    obtain ⟨hcount, hlength⟩ := object_bounds hsorted hplain hlimit
    exact run_value_object hsorted hplain (fun m hm => (hlength m hm).1)
      (fun m hm => ih m hm (hlength m hm).2) hcount

end Overrides.Json
