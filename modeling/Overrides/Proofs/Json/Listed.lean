import Overrides.Json.Writer
import Overrides.Proofs.Json.Numbers
import Overrides.Proofs.Json.Strings

/-!
# `Overrides.Proofs.Json.Listed`: written lists and objects are read one by one

A list and an object are written as texts with commas between them. If
the reader of an element takes the text of each element and does with
it what `next` says, then the reader of the whole takes all of them
and does what `next` says one after the other; it stops where `next`
fails.

* `run_foldElements`: the elements of a list.
* `run_foldMembers`: the members of an object.
-/

set_option autoImplicit false

namespace Overrides.Json

open Overrides.Text.Utf8
open Reader

/-! ### Texts with commas between them -/

/-- The texts, with a comma before each. -/
def commaBefore (texts : List (List UInt8)) : List UInt8 := texts.flatMap (0x2c :: ·)

/-- The texts with commas between them. -/
def listed : List (List UInt8) → List UInt8
  | [] => []
  | t :: ts => t ++ commaBefore ts

/-- The bytes of texts with commas between them, as the bytes of the texts with commas
between them. -/
theorem encode_commaList (texts : List String) :
    encode (commaList texts) = listed (texts.map encode) := by
  have hrest : ∀ (t : String) (ts : List String),
      encode (commaList (t :: ts)) = encode t ++ commaBefore (ts.map encode) := by
    intro t ts
    induction ts generalizing t with
    | nil =>
      rw [commaList, String.intercalate_singleton]
      exact (List.append_nil _).symm
    | cons u us ih =>
      -- `intercalate` puts the comma behind a text, `commaBefore` before the next.
      rw [commaList, String.intercalate_cons_cons, encode_append, encode_append, ← commaList, ih,
        encode_eq ",", List.append_assoc]
      rfl
  cases texts with
  | nil =>
    rw [commaList, String.intercalate_nil, encode_eq]
    rfl
  | cons t ts => exact hrest t ts

/-- No text of a list is longer than the list. So fuel that covers the list
covers what is read of any of its items. -/
theorem length_le_listed {texts : List (List UInt8)} {t : List UInt8} (h : t ∈ texts) :
    t.length ≤ (listed texts).length := by
  cases texts with
  | nil => exact nomatch h
  | cons u us =>
    rw [listed, List.length_append]
    rcases List.mem_cons.mp h with rfl | h
    · exact Nat.le_add_right ..
    -- It stands behind its comma in what is put together for the others.
    · have hmem : 0x2c :: t ∈ us.map (0x2c :: ·) := List.mem_map_of_mem h
      have hsub := (List.sublist_flatten_of_mem hmem).length_le
      rw [List.length_cons] at hsub
      rw [commaBefore, List.flatMap_def]
      omega

/-- There are at most as many texts as bytes, the first one aside. This is why
the length of the whole text is enough fuel for a loop over items. -/
theorem length_texts_le (texts : List (List UInt8)) :
    texts.length ≤ (listed texts).length + 1 := by
  -- Every comma stands for the text behind it.
  have hrest : ∀ ts : List (List UInt8), ts.length ≤ (commaBefore ts).length := by
    intro ts
    induction ts with
    | nil => exact Nat.le_refl 0
    | cons t ts ih =>
      rw [commaBefore, List.flatMap_cons, List.length_append, ← commaBefore]
      rw [List.length_cons, List.length_cons]
      omega
  cases texts with
  | nil => exact Nat.zero_le _
  | cons t ts =>
    have := hrest ts
    rw [listed, List.length_append, List.length_cons]
    omega

/-! ### Elements of a list -/

/-- The text starts with a byte that can start an element of a list. -/
def StartsElement (text : List UInt8) : Prop :=
  ∃ b tail, text = b :: tail ∧ isGap b = false ∧ b ≠ 0x5d

/-- No number goes on over a comma or a closing bracket or brace. These are the
bytes that follow the values inside a list or an object. -/
theorem ends_cons {b : UInt8} (h : b = 0x2c ∨ b = 0x5d ∨ b = 0x7d) (rest : List UInt8) :
    Ends (b :: rest) := by
  intro c hc
  obtain rfl := Option.mem_some.mp hc
  rcases h with rfl | rfl | rfl <;> decide

/-- What stands behind an element of a list ends a number. -/
theorem ends_commaBefore (texts : List (List UInt8)) {rest : List UInt8} (h : Ends rest) :
    Ends (commaBefore texts ++ rest) := by
  cases texts with
  | nil => exact h
  | cons t ts => exact ends_cons (by decide) _

variable {α σ : Type} {limit fuel : Nat} {rest : List UInt8}

/-- At the closing bracket there is no further element, whether one came before or not. -/
theorem elementAhead_end (first : Bool) :
    elementAhead first limit (0x5d :: rest) = .ok (false, 0x5d :: rest) := by
  rw [elementAhead, run_peekToken_bind (by decide)]
  rfl

/-- Before the first element nothing has to be taken. -/
theorem elementAhead_first {text : List UInt8} (h : StartsElement text) :
    elementAhead true limit (text ++ rest) = .ok (true, text ++ rest) := by
  -- No element starts with a closing bracket, so the list does not end here.
  obtain ⟨b, tail, rfl, hgap, hb⟩ := h
  rw [elementAhead, List.cons_append, run_peekToken_bind hgap]
  have hne : some b ≠ some 0x5d := fun heq => hb (Option.some.inj heq)
  simp only
  rfl

/-- Before a further element its comma is taken. Nothing else is, as an element
does not start with a blank or with the closing bracket. -/
theorem elementAhead_next {text : List UInt8} (h : StartsElement text) :
    elementAhead false limit (0x2c :: (text ++ rest)) = .ok (true, text ++ rest) := by
  obtain ⟨b, tail, rfl, hgap, hb⟩ := h
  rw [elementAhead, run_peekToken_bind (by decide)]
  show (drop >>= fun _ => _) limit (0x2c :: _) = _
  rw [run_drop_bind, List.cons_append, run_peekToken_bind hgap]
  have hne : some b ≠ some 0x5d := fun heq => hb (Option.some.inj heq)
  simp only
  rfl

/-- The reader of an element takes the text of each of these elements
and does with the state what `next` says. -/
def TakesElements (element : σ → Reader σ) (text : α → List UInt8)
    (next : σ → α → Except Fault σ) (limit : Nat) (items : List α) : Prop :=
  ∀ a ∈ items, StartsElement (text a) ∧ ∀ s rest, Ends rest →
    element s limit (text a ++ rest) = (next s a).map (·, rest)

variable {element : σ → Reader σ} {text : α → List UInt8} {next : σ → α → Except Fault σ}
  {items : List α}

/-- The end of a list gives back the state. -/
theorem foldElements_end (first : Bool) (s : σ) :
    foldElements element (fuel + 1) first s limit (0x5d :: rest) = .ok (s, rest) := by
  rw [foldElements, run_bind_ok (elementAhead_end first)]
  rfl

/-- An element whose text has been found is taken, and the others follow. -/
theorem foldElements_step {first : Bool} {bytes left : List UInt8} {a : α} {s : σ}
    (hahead : elementAhead first limit bytes = .ok (true, text a ++ left))
    (hread : element s limit (text a ++ left) = (next s a).map (·, left)) :
    foldElements element (fuel + 1) first s limit bytes
      = (next s a).bind fun s' => foldElements element fuel false s' limit left := by
  rw [foldElements, run_bind_ok hahead, if_pos rfl, run_bind, hread]
  cases next s a <;> rfl

/-- The elements behind the first one. The induction is on the elements,
and each of them uses up one unit of fuel. -/
theorem run_foldElements_rest (h : TakesElements element text next limit items)
    (hfuel : items.length < fuel) (s : σ) (rest : List UInt8) :
    foldElements element fuel false s limit (commaBefore (items.map text) ++ 0x5d :: rest)
      = (items.foldlM next s).map (·, rest) := by
  induction items generalizing fuel s with
  | nil =>
    -- The closing bracket takes a unit of fuel as well.
    obtain ⟨left, rfl⟩ : ∃ left, fuel = left + 1 := ⟨fuel - 1, by omega⟩
    exact foldElements_end false s
  | cons a items ih =>
    obtain ⟨left, rfl⟩ : ∃ left, fuel = left + 1 := ⟨fuel - 1, by omega⟩
    obtain ⟨hstart, hread⟩ := h a (List.mem_cons_self ..)
    -- What follows the element ends a number, be it a comma or the bracket.
    have hends := ends_commaBefore (items.map text) (ends_cons (b := 0x5d) (by decide) rest)
    rw [List.length_cons] at hfuel
    rw [List.map_cons, commaBefore, List.flatMap_cons, ← commaBefore, List.append_assoc,
      List.cons_append, List.foldlM_cons,
      foldElements_step (elementAhead_next hstart) (hread s _ hends)]
    -- A step that fails stops the reader there, as it stops the fold.
    cases next s a with
    | error e => rfl
    | ok s' => exact ih (fun b hb => h b (List.mem_cons_of_mem _ hb)) (by omega) s'

/-- The elements of a written list, opening bracket already taken. Each of them
is read back and handed to the step, so reading the list is folding the step
over the items. The fuel covers the items, with one left for the bracket that
ends the list. -/
theorem run_foldElements (h : TakesElements element text next limit items)
    (hfuel : items.length < fuel) (s : σ) (rest : List UInt8) :
    foldElements element fuel true s limit (listed (items.map text) ++ 0x5d :: rest)
      = (items.foldlM next s).map (·, rest) := by
  obtain ⟨left, rfl⟩ : ∃ left, fuel = left + 1 := ⟨fuel - 1, by omega⟩
  cases items with
  | nil => exact foldElements_end true s
  | cons a items =>
    obtain ⟨hstart, hread⟩ := h a (List.mem_cons_self ..)
    have hends := ends_commaBefore (items.map text) (ends_cons (b := 0x5d) (by decide) rest)
    rw [List.length_cons] at hfuel
    -- No comma stands before the first element.
    rw [List.map_cons, listed, List.append_assoc, List.foldlM_cons,
      foldElements_step (elementAhead_first hstart) (hread s _ hends)]
    cases next s a with
    | error e => rfl
    | ok s' =>
      have hleft : items.length < left := by omega
      exact run_foldElements_rest (fun b hb => h b (List.mem_cons_of_mem _ hb)) hleft s' rest

/-! ### Members of an object -/

/-- The text of a member: the quoted name, a colon, the text of the value. -/
def memberBytes (name : String) (value : List UInt8) : List UInt8 :=
  encode (stringText name) ++ 0x3a :: value

/-- The bytes of a member are its quoted name, a colon and its value. -/
theorem encode_memberText (name text : String) :
    encode (memberText (stringText name, text)) = memberBytes name (encode text) := by
  rw [memberText, encode_append, encode_append, encode_eq ":", List.append_assoc]
  rfl

/-- A written string starts with a quote. -/
theorem stringText_startsQuote (s : String) :
    ∃ tail, encode (stringText s) = 0x22 :: tail :=
  ⟨_, encode_stringText s⟩

/-- At the closing brace there is no further member. -/
theorem memberAhead_end (first : Bool) :
    memberAhead first limit (0x7d :: rest) = .ok (false, 0x7d :: rest) := by
  rw [memberAhead, run_peekToken_bind (by decide)]
  rfl

/-- A member starts with the quote of its name. -/
theorem memberBytes_startsQuote (name : String) (value : List UInt8) :
    ∃ tail, memberBytes name value = 0x22 :: tail := by
  rw [memberBytes, encode_stringText]
  exact ⟨_, rfl⟩

/-- Before the first member nothing has to be taken. -/
theorem memberAhead_first (name : String) (value : List UInt8) :
    memberAhead true limit (memberBytes name value ++ rest)
      = .ok (true, memberBytes name value ++ rest) := by
  obtain ⟨tail, htail⟩ := memberBytes_startsQuote name value
  rw [htail, List.cons_append, memberAhead, run_peekToken_bind (by decide)]
  rfl

/-- Before a further member its comma is taken. -/
theorem memberAhead_next (name : String) (value : List UInt8) :
    memberAhead false limit (0x2c :: (memberBytes name value ++ rest))
      = .ok (true, memberBytes name value ++ rest) := by
  obtain ⟨tail, htail⟩ := memberBytes_startsQuote name value
  rw [htail, List.cons_append, memberAhead, run_peekToken_bind (by decide)]
  show (drop >>= fun _ => _) limit (0x2c :: _) = _
  rw [run_drop_bind, run_peekToken_bind (by decide)]
  rfl

/-- The reader of names gives a written name back. -/
theorem run_name (s : String) (h : (encode (stringText s)).length ≤ limit) :
    Reader.name limit (encode (stringText s) ++ rest) = .ok (s, rest) := by
  obtain ⟨tail, htail⟩ := stringText_startsQuote s
  have hbody : stringBody limit ((encode (stringText s)).tail ++ rest) = .ok (s, rest) :=
    run_stringBody s h
  rw [htail, List.tail_cons] at hbody
  rw [htail, List.cons_append, Reader.name, run_drop_bind]
  exact hbody

/-- The colon behind a name is taken. -/
theorem run_colon : colon limit (0x3a :: rest) = .ok ((), rest) := by
  rw [colon, run_peekToken_bind (by decide)]
  rfl

/-- The reader of a member takes what stands behind the name of each of
these members and does with the state what `next` says. -/
def TakesMembers (member : String → σ → Reader σ) (text : α → String × List UInt8)
    (next : σ → α → Except Fault σ) (limit : Nat) (items : List α) : Prop :=
  ∀ a ∈ items, (encode (stringText (text a).1)).length ≤ limit ∧ ∀ s rest, Ends rest →
    member (text a).1 s limit (0x3a :: ((text a).2 ++ rest)) = (next s a).map (·, rest)

variable {member : String → σ → Reader σ} {parts : α → String × List UInt8}

/-- The end of an object gives back the state. -/
theorem foldMembers_end (first : Bool) (s : σ) :
    foldMembers member (fuel + 1) first s limit (0x7d :: rest) = .ok (s, rest) := by
  rw [foldMembers, run_bind_ok (memberAhead_end first)]
  rfl

/-- A member whose text has been found is taken, and the others follow. What
comes before it, a comma or nothing, has been passed by then. -/
theorem foldMembers_step {first : Bool} {bytes left : List UInt8} {a : α} {s : σ}
    (hahead : memberAhead first limit bytes
      = .ok (true, memberBytes (parts a).1 (parts a).2 ++ left))
    (hname : (encode (stringText (parts a).1)).length ≤ limit)
    (hread : member (parts a).1 s limit (0x3a :: ((parts a).2 ++ left))
      = (next s a).map (·, left)) :
    foldMembers member (fuel + 1) first s limit bytes
      = (next s a).bind fun s' => foldMembers member fuel false s' limit left := by
  rw [foldMembers, run_bind_ok hahead, if_pos rfl, memberBytes, List.append_assoc,
    List.cons_append, run_bind_ok (run_name _ hname), run_bind, hread]
  cases next s a <;> rfl

/-- The members behind the first one, by induction as for the elements of
a list. -/
theorem run_foldMembers_rest (h : TakesMembers member parts next limit items)
    (hfuel : items.length < fuel) (s : σ) (rest : List UInt8) :
    foldMembers member fuel false s limit
        (commaBefore (items.map fun a => memberBytes (parts a).1 (parts a).2) ++ 0x7d :: rest)
      = (items.foldlM next s).map (·, rest) := by
  induction items generalizing fuel s with
  | nil =>
    obtain ⟨left, rfl⟩ : ∃ left, fuel = left + 1 := ⟨fuel - 1, by omega⟩
    exact foldMembers_end false s
  | cons a items ih =>
    obtain ⟨left, rfl⟩ : ∃ left, fuel = left + 1 := ⟨fuel - 1, by omega⟩
    obtain ⟨hname, hread⟩ := h a (List.mem_cons_self ..)
    -- What follows the value ends a number, be it a comma or the brace.
    have hends := ends_commaBefore
      (items.map fun a => memberBytes (parts a).1 (parts a).2) (ends_cons (b := 0x7d) (by decide) rest)
    rw [List.length_cons] at hfuel
    rw [List.map_cons, commaBefore, List.flatMap_cons, ← commaBefore, List.append_assoc,
      List.cons_append, List.foldlM_cons,
      foldMembers_step (memberAhead_next ..) hname (hread s _ hends)]
    cases next s a with
    | error e => rfl
    | ok s' => exact ih (fun b hb => h b (List.mem_cons_of_mem _ hb)) (by omega) s'

/-- The members of a written object, opening brace already taken. The first one
stands without a comma, the others are those of the lemma before. -/
theorem run_foldMembers (h : TakesMembers member parts next limit items)
    (hfuel : items.length < fuel) (s : σ) (rest : List UInt8) :
    foldMembers member fuel true s limit
        (listed (items.map fun a => memberBytes (parts a).1 (parts a).2) ++ 0x7d :: rest)
      = (items.foldlM next s).map (·, rest) := by
  obtain ⟨left, rfl⟩ : ∃ left, fuel = left + 1 := ⟨fuel - 1, by omega⟩
  cases items with
  | nil => exact foldMembers_end true s
  | cons a items =>
    obtain ⟨hname, hread⟩ := h a (List.mem_cons_self ..)
    have hends := ends_commaBefore
      (items.map fun a => memberBytes (parts a).1 (parts a).2) (ends_cons (b := 0x7d) (by decide) rest)
    rw [List.length_cons] at hfuel
    rw [List.map_cons, listed, List.append_assoc, List.foldlM_cons,
      foldMembers_step (memberAhead_first ..) hname (hread s _ hends)]
    -- Behind the first member the members go on as above.
    cases next s a with
    | error e => rfl
    | ok s' =>
      have hleft : items.length < left := by omega
      exact run_foldMembers_rest (fun b hb => h b (List.mem_cons_of_mem _ hb)) hleft s' rest

end Overrides.Json
