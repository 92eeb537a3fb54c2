import Overrides.Proofs.Json.Lengths
import Overrides.Proofs.Text.Blank
import Overrides.Text.Lowercase

/-!
# `Overrides.Proofs.Text.Lowercase`: what lower case does to a text

A character is settled when lower case leaves it alone, wherever it stands.
Every letter that another one is sent to is settled: the table of letters is
looked at once, one run against another, and all that is said of a single
letter follows from that. What is said of a text follows piece by piece,
since every character of it is replaced by a piece of one or two.

* `lowerChar_eq_or`: what becomes of a letter.
* `lower_lower`: lower case a second time changes nothing.
* `trimmed_lower`: a trimmed text stays trimmed.
* `utf8ByteSize_lower_le`: a text grows by half at most. Of the letters that
  grow, one of two bytes gains one, and there are no others.
* `utf8ByteSize_lower_of_ascii`: a text of ASCII does not grow.
-/

set_option autoImplicit false

namespace Overrides.Text

/-! ### Bytes of a character -/

/-- The bytes of a character by its code point. The library compares machine
words here; this form compares natural numbers, so `omega` can use the bounds of
a run. -/
theorem utf8Size_eq (c : Char) :
    c.utf8Size = if c.toNat ≤ 0x7f then 1 else if c.toNat ≤ 0x7ff then 2
      else if c.toNat ≤ 0xffff then 3 else 4 := by
  simp only [Char.utf8Size, UInt32.le_iff_toNat_le]
  rfl

/-- `Char.ofNat` answers NUL for a number that is no code point, so the round
trip holds for valid numbers only. -/
theorem toNat_ofNat {n : Nat} (h : n.isValidChar) : (Char.ofNat n).toNat = n := by
  rw [Char.ofNat, dif_pos h]
  rfl

/-! ### The table of letters -/

/-- The number is in the run. -/
def InRun (run : Nat × Nat × Nat × Int) (n : Nat) : Prop :=
  run.1 ≤ n ∧ n ≤ run.2.1 ∧ (n - run.1) % run.2.2.1 = 0

/-- The number that a run moves a number to. -/
def target (run : Nat × Nat × Nat × Int) (n : Nat) : Nat := (n + run.2.2.2 : Int).toNat

/-- What becomes of a letter: if it is in a run, it is moved as the run says,
and otherwise nothing. -/
theorem lowerChar_eq_or (c : Char) :
    (∃ run ∈ caseRuns, InRun run c.toNat
      ∧ lowerChar c = Char.ofNat (target run c.toNat))
    ∨ (∀ run ∈ caseRuns, ¬ InRun run c.toNat) ∧ lowerChar c = c := by
  rw [lowerChar]
  dsimp only
  split
  · -- The run that was found holds the letter.
    rename_i first last stride shift hrun
    have hrange := List.find?_some hrun
    simp only [Bool.and_eq_true, decide_eq_true_eq, beq_iff_eq] at hrange
    exact .inl ⟨_, List.mem_of_find?_eq_some hrun, ⟨hrange.1.1, hrange.1.2, hrange.2⟩, rfl⟩
  · rename_i hnone
    -- The search found nothing, so it refused every run.
    refine .inr ⟨?_, rfl⟩
    intro run hrun hin
    have hout := List.find?_eq_none.mp hnone run hrun
    simp only [Bool.and_eq_true, decide_eq_true_eq, beq_iff_eq] at hout
    exact hout ⟨⟨hin.1, hin.2.1⟩, hin.2.2⟩

/-- One run is not moved into another one: it is moved to a place before it or
after it, or every second number is in either, and the two alternate. -/
def apart (run other : Nat × Nat × Nat × Int) : Bool :=
  -- Compared by the functions on numbers that the kernel computes by itself.
  Nat.blt (target run run.2.1) other.1 || Nat.blt other.2.1 (target run run.1)
    || (Nat.beq run.2.2.1 2 || Nat.beq run.1 run.2.1) && Nat.beq other.2.2.1 2
      && Nat.beq ((target run run.1 + other.1) % 2) 1

/-- No run is moved into a run. -/
theorem caseRuns_apart : caseRuns.all (fun run => caseRuns.all (apart run)) = true := by
  decide +kernel

/-- Letters are moved to characters, and not to one of the two that lower
case treats on its own. -/
theorem caseRuns_valid : ∀ run ∈ caseRuns, 0 ≤ run.1 + run.2.2.2
    ∧ (target run run.2.1 < 0xd800
      ∨ 0xdfff < target run run.1 ∧ target run run.2.1 < 0x110000)
    ∧ (target run run.2.1 < 0x130 ∨ 0x130 < target run run.1)
    ∧ (target run run.2.1 < 0x3a3 ∨ 0x3a3 < target run run.1) := by
  decide +kernel

/-- Letters of one byte are moved to such ones, and letters of two bytes to
ones of three at most. -/
theorem caseRuns_bytes : ∀ run ∈ caseRuns,
    (run.1 ≤ 0x7f → target run run.2.1 ≤ 0x7f) ∧ (run.1 ≤ 0x7ff → target run run.2.1 ≤ 0xffff) := by
  decide +kernel

/-- The numbers of the blank characters. -/
def blanks : List Nat :=
  [0x09, 0x0a, 0x0b, 0x0c, 0x0d, 0x20, 0x85, 0xa0, 0x1680, 0x2000, 0x2001, 0x2002, 0x2003, 0x2004,
    0x2005, 0x2006, 0x2007, 0x2008, 0x2009, 0x200a, 0x2028, 0x2029, 0x202f, 0x205f, 0x3000]

/-- The blanks as a list, to be compared with the runs one by one. The
definition of a blank is a disjunction of ranges, and the kernel would have to
run it for every letter. -/
theorem isBlank_iff_mem (c : Char) : isBlank c = true ↔ c.toNat ∈ blanks := by
  simp only [isBlank, blanks, Bool.or_eq_true, Bool.and_eq_true, decide_eq_true_eq, beq_iff_eq,
    List.mem_cons, List.not_mem_nil, or_false]
  omega

/-- No letter is moved to a blank. -/
theorem caseRuns_blanks : ∀ run ∈ caseRuns, ∀ n ∈ blanks,
    target run run.2.1 < n ∨ n < target run run.1 := by
  decide +kernel

/-! ### Letters -/

/-- A letter of a run stays in its place within the run. So the targets of a run
lie between the targets of its ends. -/
theorem target_eq {run : Nat × Nat × Nat × Int} {n : Nat} (hrun : run ∈ caseRuns)
    (hin : InRun run n) :
    target run n = target run run.1 + (n - run.1)
      ∧ target run n + (run.2.1 - n) = target run run.2.1 := by
  obtain ⟨hfirst, hlast, -⟩ := hin
  -- Nothing is cut off at zero, since the first letter of the run is not moved below it.
  have hpos := (caseRuns_valid run hrun).1
  unfold target
  omega

/-- What a run moves a letter to is a code point. A run lies on one side of the
surrogates, and so does all that it reaches. -/
theorem toNat_ofNat_target {run : Nat × Nat × Nat × Int} {n : Nat} (hrun : run ∈ caseRuns)
    (hin : InRun run n) : (Char.ofNat (target run n)).toNat = target run n := by
  obtain ⟨hstart, hend⟩ := target_eq hrun hin
  obtain ⟨-, hvalid, -⟩ := caseRuns_valid run hrun
  refine toNat_ofNat ?_
  rcases hvalid with h | ⟨h, h'⟩
  -- Below the surrogates, or else above them and within the planes.
  · exact .inl (by omega)
  · exact .inr ⟨by omega, by omega⟩

/-- What a run moves a letter to is in no run. It may lie among the letters of
one where every second letter is a capital, so it takes the stride to see it. -/
theorem not_inRun_target {run other : Nat × Nat × Nat × Int} {n : Nat} (hrun : run ∈ caseRuns)
    (hother : other ∈ caseRuns) (hin : InRun run n) : ¬ InRun other (target run n) := by
  intro hin'
  obtain ⟨hstart, hend⟩ := target_eq hrun hin
  obtain ⟨hfirst, hlast, hstride⟩ := hin
  obtain ⟨hfirst', hlast', hstride'⟩ := hin'
  have hapart := List.all_eq_true.mp (List.all_eq_true.mp caseRuns_apart run hrun) other hother
  simp only [apart, Bool.or_eq_true, Bool.and_eq_true, Nat.blt_eq, Nat.beq_eq] at hapart
  obtain (h | h) | ⟨⟨h | h, hevery⟩, hodd⟩ := hapart
  · omega
  · omega
  · -- Both runs have every second number, and the target is one of those between.
    rw [h] at hstride
    rw [hevery] at hstride'
    omega
  · rw [hevery] at hstride'
    omega

/-- Lower case leaves the character alone, wherever it stands. The two letters
whose small form is not a matter of the letter alone are never settled. -/
def Settled (c : Char) : Prop := c.toNat ≠ 0x130 ∧ c.toNat ≠ 0x3a3 ∧ lowerChar c = c

/-- A letter in lower case is settled, but for the capital sigma and the dotted
capital I. -/
theorem settled_lowerChar {c : Char} (hdotted : c.toNat ≠ 0x130) (hsigma : c.toNat ≠ 0x3a3) :
    Settled (lowerChar c) := by
  obtain ⟨run, hrun, hin, heq⟩ | ⟨-, heq⟩ := lowerChar_eq_or c
  -- The letter was moved: no run holds its target, and a second step does nothing.
  · have hto := toNat_ofNat_target hrun hin
    obtain ⟨hstart, hend⟩ := target_eq hrun hin
    obtain ⟨-, -, hI, hS⟩ := caseRuns_valid run hrun
    rw [Settled, heq, hto]
    refine ⟨by omega, by omega, ?_⟩
    obtain ⟨other, hother, hin', -⟩ | ⟨-, hstay⟩ := lowerChar_eq_or (Char.ofNat (target run c.toNat))
    · rw [hto] at hin'
      exact absurd hin' (not_inRun_target hrun hother hin)
    · exact hstay
  · rw [heq]
    exact ⟨hdotted, hsigma, heq⟩

/-- A letter in lower case is not blank. No run reaches a blank, and a letter in
no run is what it was. -/
theorem isBlank_lowerChar {c : Char} (h : isBlank c = false) : isBlank (lowerChar c) = false := by
  obtain ⟨run, hrun, hin, heq⟩ | ⟨-, heq⟩ := lowerChar_eq_or c
  · obtain ⟨hstart, hend⟩ := target_eq hrun hin
    rw [heq, Bool.eq_false_iff, ne_eq, isBlank_iff_mem, toNat_ofNat_target hrun hin]
    intro hblank
    have hapart := caseRuns_blanks run hrun _ hblank
    omega
  · rw [heq]
    exact h

/-- A letter in lower case takes at most half more bytes. It takes more only
where two bytes become three. -/
theorem utf8Size_lowerChar_le (c : Char) : 2 * (lowerChar c).utf8Size ≤ 3 * c.utf8Size := by
  obtain ⟨run, hrun, hin, heq⟩ | ⟨-, heq⟩ := lowerChar_eq_or c
  · obtain ⟨hstart, hend⟩ := target_eq hrun hin
    obtain ⟨hone, htwo⟩ := caseRuns_bytes run hrun
    rw [heq, utf8Size_eq, utf8Size_eq c, toNat_ofNat_target hrun hin]
    obtain ⟨hfirst, -⟩ := hin
    -- The cases are the numbers of bytes before and after; three and four need no table.
    split_ifs <;> omega
  · rw [heq]
    omega

/-- A character of ASCII stays one. -/
theorem toNat_lowerChar_of_ascii {c : Char} (h : c.toNat ≤ 0x7f) : (lowerChar c).toNat ≤ 0x7f := by
  obtain ⟨run, hrun, hin, heq⟩ | ⟨-, heq⟩ := lowerChar_eq_or c
  · obtain ⟨hstart, hend⟩ := target_eq hrun hin
    have hone := (caseRuns_bytes run hrun).1 (Nat.le_trans hin.1 h)
    rw [heq, toNat_ofNat_target hrun hin]
    omega
  · rw [heq]
    exact h

/-! ### Pieces of a text -/

/-- What a character is replaced by, with those before it, nearest first, and
those after it. -/
def lowerPiece (before : List Char) (c : Char) (rest : List Char) : List Char :=
  if c.toNat == 0x130 then ['i', Char.ofNat 0x307]
  else if c.toNat == 0x3a3 then
    [Char.ofNat (if startsCased before && !startsCased rest then 0x3c2 else 0x3c3)]
  else [lowerChar c]

/-- The pieces of a text, one after the other. -/
def lowerPieces (before : List Char) : List Char → List Char
  | [] => []
  | c :: rest => lowerPiece before c rest ++ lowerPieces (c :: before) rest

/-- The walk over a text writes its pieces. It keeps them in reverse on the way,
which is undone at its end. -/
theorem lowerFrom_eq (rest before done : List Char) :
    lowerFrom rest before done = done.reverse ++ lowerPieces before rest := by
  induction rest generalizing before done with
  | nil => simp only [lowerFrom, lowerPieces, List.append_nil]
  | cons c rest ih =>
    rw [lowerFrom, lowerPieces, lowerPiece]
    dsimp only
    -- What is done is kept last first, so a piece of two goes in back to front.
    split
    · simp only [ih, List.reverse_cons, List.append_assoc, List.cons_append, List.nil_append]
    · split
      · simp only [ih, List.reverse_cons, List.append_assoc]
      · simp only [ih, List.reverse_cons, List.append_assoc]

/-- Lower-casing a text is lower-casing its characters from left to right, each
with what stands before and after it. The accumulator of the loop is gone from
this form. -/
theorem toList_lower (s : String) : (lower s).toList = lowerPieces [] s.toList := by
  rw [lower, String.toList_ofList, lowerFrom_eq, List.reverse_nil, List.nil_append]

/-- The three kinds of pieces: the dotted capital I becomes two characters, the
capital sigma one of two, and every other character one that depends on nothing
else. -/
theorem lowerPiece_eq_or (before : List Char) (c : Char) (rest : List Char) :
    c.toNat = 0x130 ∧ lowerPiece before c rest = ['i', Char.ofNat 0x307]
    ∨ c.toNat = 0x3a3 ∧ (lowerPiece before c rest = [Char.ofNat 0x3c2]
        ∨ lowerPiece before c rest = [Char.ofNat 0x3c3])
    ∨ (c.toNat ≠ 0x130 ∧ c.toNat ≠ 0x3a3) ∧ lowerPiece before c rest = [lowerChar c] := by
  rw [lowerPiece]
  by_cases hdotted : c.toNat = 0x130
  · rw [if_pos (beq_iff_eq.mpr hdotted)]
    exact .inl ⟨hdotted, rfl⟩
  · rw [if_neg (mt beq_iff_eq.mp hdotted)]
    by_cases hsigma : c.toNat = 0x3a3
    · rw [if_pos (beq_iff_eq.mpr hsigma)]
      refine .inr (.inl ⟨hsigma, ?_⟩)
      split
      · exact .inl rfl
      · exact .inr rfl
    · rw [if_neg (mt beq_iff_eq.mp hsigma)]
      exact .inr (.inr ⟨⟨hdotted, hsigma⟩, rfl⟩)

/-- The letters that the two characters become which lower case treats on
their own. -/
def lowerExceptions : List Char := ['i', Char.ofNat 0x307, Char.ofNat 0x3c2, Char.ofNat 0x3c3]

/-- What can be in a piece: one of the few characters that the two special
letters are mapped to, or the image of a letter that is mapped alone. -/
theorem mem_lowerPiece {before rest : List Char} {c d : Char} (h : d ∈ lowerPiece before c rest) :
    d ∈ lowerExceptions ∨ (c.toNat ≠ 0x130 ∧ c.toNat ≠ 0x3a3) ∧ d = lowerChar c := by
  obtain ⟨-, heq⟩ | ⟨-, heq | heq⟩ | ⟨hplain, heq⟩ := lowerPiece_eq_or before c rest
  · rw [heq] at h
    exact .inl (List.mem_append_left [Char.ofNat 0x3c2, Char.ofNat 0x3c3] h)
  · rw [heq, List.mem_singleton] at h
    rw [h]
    exact .inl (by decide)
  · rw [heq, List.mem_singleton] at h
    rw [h]
    exact .inl (by decide)
  · rw [heq, List.mem_singleton] at h
    exact .inr ⟨hplain, h⟩

/-- All that is in a piece is settled. -/
theorem settled_of_mem_lowerPiece {before rest : List Char} {c d : Char}
    (h : d ∈ lowerPiece before c rest) : Settled d := by
  obtain hd | ⟨⟨hdotted, hsigma⟩, rfl⟩ := mem_lowerPiece h
  · simp only [lowerExceptions, List.mem_cons, List.not_mem_nil, or_false] at hd
    rcases hd with rfl | rfl | rfl | rfl <;>
    · rw [Settled]
      decide +kernel
  · exact settled_lowerChar hdotted hsigma

/-- A character that is not blank is replaced by such ones. -/
theorem isBlank_of_mem_lowerPiece {before rest : List Char} {c d : Char}
    (hc : isBlank c = false) (h : d ∈ lowerPiece before c rest) : isBlank d = false := by
  obtain hd | ⟨-, rfl⟩ := mem_lowerPiece h
  · simp only [lowerExceptions, List.mem_cons, List.not_mem_nil, or_false] at hd
    rcases hd with rfl | rfl | rfl | rfl <;> decide
  · exact isBlank_lowerChar hc

/-- No character vanishes. A text that is not empty stays so, and its ends are
the ends of the first and last pieces. -/
theorem lowerPiece_ne_nil (before : List Char) (c : Char) (rest : List Char) :
    lowerPiece before c rest ≠ [] := by
  obtain ⟨-, heq⟩ | ⟨-, heq | heq⟩ | ⟨-, heq⟩ := lowerPiece_eq_or before c rest <;> simp [heq]

/-! ### Lower case of a text -/

/-- All that is in lower case is settled, and lower case leaves settled
characters alone. Together this makes a second time do nothing. -/
theorem settled_of_mem_lowerPieces {before rest : List Char} :
    ∀ d ∈ lowerPieces before rest, Settled d := by
  induction rest generalizing before with
  | nil => intro d hd; exact nomatch hd
  | cons c rest ih =>
    intro d hd
    rw [lowerPieces, List.mem_append] at hd
    rcases hd with hd | hd
    · exact settled_of_mem_lowerPiece hd
    · exact ih d hd

/-- Settled characters are left as they are. None of them is one of the two
letters that are mapped in a way of their own, so what stands before them is of
no account. -/
theorem lowerPieces_of_settled {before rest : List Char} (h : ∀ c ∈ rest, Settled c) :
    lowerPieces before rest = rest := by
  induction rest generalizing before with
  | nil => rfl
  | cons c rest ih =>
    obtain ⟨hdotted, hsigma, hstay⟩ := h c (List.mem_cons_self ..)
    rw [lowerPieces, lowerPiece, if_neg (mt beq_iff_eq.mp hdotted),
      if_neg (mt beq_iff_eq.mp hsigma), hstay, ih fun d hd => h d (List.mem_cons_of_mem _ hd)]
    rfl

/-- Lower case a second time changes nothing. The letters that are mapped alone
land where no run starts, and the pieces of the two others are in lower case
already. -/
theorem lower_lower (s : String) : lower (lower s) = lower s := by
  rw [← String.toList_inj, toList_lower, toList_lower]
  exact lowerPieces_of_settled settled_of_mem_lowerPieces

/-- The pieces of a text that is not empty are not empty together. -/
theorem lowerPieces_ne_nil {before rest : List Char} (h : rest ≠ []) :
    lowerPieces before rest ≠ [] := by
  obtain ⟨c, rest, rfl⟩ := List.exists_cons_of_ne_nil h
  rw [lowerPieces]
  exact List.append_ne_nil_of_left_ne_nil (lowerPiece_ne_nil before c rest) _

/-- A name that was not empty is not empty in lower case, so a check made before
holds after. -/
theorem lower_ne_empty {s : String} (h : s ≠ "") : lower s ≠ "" := by
  rw [ne_eq, ← String.toList_inj] at h ⊢
  rw [toList_lower]
  exact lowerPieces_ne_nil h

/-- The first character is in the first piece. So a text that starts with no
blank still does so in lower case. -/
theorem isBlank_head?_lowerPieces {before rest : List Char}
    (h : ∀ c ∈ rest.head?, isBlank c = false) :
    ∀ d ∈ (lowerPieces before rest).head?, isBlank d = false := by
  intro d hd
  cases rest with
  | nil => exact nomatch hd
  | cons c rest =>
    rw [lowerPieces, List.head?_append_of_ne_nil _ (lowerPiece_ne_nil before c rest)] at hd
    exact isBlank_of_mem_lowerPiece (h c rfl) (List.mem_of_head? hd)

/-- The last character is in the last piece. If the text does not end with a
blank, its lower case does not either. -/
theorem isBlank_getLast?_lowerPieces {before rest : List Char}
    (h : ∀ c ∈ rest.getLast?, isBlank c = false) :
    ∀ d ∈ (lowerPieces before rest).getLast?, isBlank d = false := by
  induction rest generalizing before with
  | nil => intro d hd; exact nomatch hd
  | cons c rest ih =>
    intro d hd
    rw [lowerPieces] at hd
    -- The last piece is this one only when no character follows.
    by_cases hrest : rest = []
    · rw [hrest, lowerPieces, List.append_nil] at hd
      have hc : isBlank c = false := h c (by rw [hrest]; rfl)
      exact isBlank_of_mem_lowerPiece hc (List.mem_of_getLast? hd)
    · rw [List.getLast?_append_of_ne_nil _ (lowerPieces_ne_nil hrest)] at hd
      have hlast : (c :: rest).getLast? = rest.getLast? := by
        rw [← List.singleton_append, List.getLast?_append_of_ne_nil _ hrest]
      rw [hlast] at h
      exact ih h d hd

/-- A trimmed text stays trimmed in lower case: its ends are the ends of the
first and last pieces, and no letter is mapped to a blank. -/
theorem trimmed_lower {s : String} (h : Trimmed s) : Trimmed (lower s) := by
  rw [Trimmed, toList_lower]
  exact ⟨isBlank_head?_lowerPieces h.1, isBlank_getLast?_lowerPieces h.2⟩

/-! ### Bytes of a text -/

/-- How many bytes characters take. -/
def byteCount : List Char → Nat
  | [] => 0
  | c :: cs => c.utf8Size + byteCount cs

/-- The bytes of two lists together, which lets pieces be counted one at a time.
-/
theorem byteCount_append (cs ds : List Char) :
    byteCount (cs ++ ds) = byteCount cs + byteCount ds := by
  induction cs with
  | nil => exact (Nat.zero_add _).symm
  | cons c cs ih => rw [List.cons_append, byteCount, byteCount, ih, Nat.add_assoc]

/-- A text takes the bytes of its characters. The size of a text is a primitive,
and this is its recursion. -/
theorem utf8ByteSize_eq_byteCount (s : String) : s.utf8ByteSize = byteCount s.toList := by
  have hcount : ∀ cs : List Char, (cs.flatMap String.utf8EncodeChar).length = byteCount cs := by
    intro cs
    induction cs with
    | nil => rfl
    | cons c cs ih =>
      rw [List.flatMap_cons, List.length_append, String.length_utf8EncodeChar, ih, byteCount]
  rw [← Json.length_encode, Utf8.encode_eq]
  exact hcount s.toList

/-- A piece has at most half more bytes than its character. Three of the four
kinds are fixed texts that are counted. -/
theorem byteCount_lowerPiece_le (before : List Char) (c : Char) (rest : List Char) :
    2 * byteCount (lowerPiece before c rest) ≤ 3 * c.utf8Size := by
  have hsize := utf8Size_eq c
  obtain ⟨hc, heq⟩ | ⟨hc, heq | heq⟩ | ⟨-, heq⟩ := lowerPiece_eq_or before c rest
  -- The dotted capital I has two bytes and its piece has three: the bound is met exactly.
  · have hcount : byteCount ['i', Char.ofNat 0x307] = 3 := by decide
    rw [heq, hcount, hsize, hc]
    decide
  · have hcount : byteCount [Char.ofNat 0x3c2] = 2 := by decide
    rw [heq, hcount, hsize, hc]
    decide
  · have hcount : byteCount [Char.ofNat 0x3c3] = 2 := by decide
    rw [heq, hcount, hsize, hc]
    decide
  · rw [heq]
    exact utf8Size_lowerChar_le c

/-- The bound for one piece holds of all of them together. A text grows in lower
case by half its bytes at most. -/
theorem byteCount_lowerPieces_le (before rest : List Char) :
    2 * byteCount (lowerPieces before rest) ≤ 3 * byteCount rest := by
  induction rest generalizing before with
  | nil => exact Nat.le_refl 0
  | cons c rest ih =>
    have hpiece := byteCount_lowerPiece_le before c rest
    have hrest := ih (c :: before)
    rw [lowerPieces, byteCount_append, byteCount]
    omega

/-- A text in lower case has at most half more bytes. Some letters of two bytes
have a small form of three, and none grows more than that. -/
theorem utf8ByteSize_lower_le (s : String) : 2 * (lower s).utf8ByteSize ≤ 3 * s.utf8ByteSize := by
  rw [utf8ByteSize_eq_byteCount, utf8ByteSize_eq_byteCount, toList_lower]
  exact byteCount_lowerPieces_le [] s.toList

/-- An ASCII text keeps its number of bytes. None of its characters is the
capital sigma or the dotted capital I, so each piece is one ASCII letter again.
-/
theorem byteCount_lowerPieces_of_ascii {before rest : List Char}
    (h : ∀ c ∈ rest, c.toNat ≤ 0x7f) : byteCount (lowerPieces before rest) = byteCount rest := by
  induction rest generalizing before with
  | nil => rfl
  | cons c rest ih =>
    have hc := h c (List.mem_cons_self ..)
    -- The two special letters are not ASCII.
    have hpiece : lowerPiece before c rest = [lowerChar c] := by
      obtain ⟨hbig, -⟩ | ⟨hbig, -⟩ | ⟨-, heq⟩ := lowerPiece_eq_or before c rest
      · omega
      · omega
      · exact heq
    have hone : (lowerChar c).utf8Size = c.utf8Size := by
      rw [utf8Size_eq, utf8Size_eq, if_pos (toNat_lowerChar_of_ascii hc), if_pos hc]
    rw [lowerPieces, hpiece, List.singleton_append, byteCount, byteCount, hone,
      ih fun d hd => h d (List.mem_cons_of_mem _ hd)]

/-- A text of one letter over and over, so long that it cannot be evaluated. Its
lower case is the small letter over and over. -/
theorem lower_replicate (n : Nat) {c : Char} (hdotted : c.toNat ≠ 0x130) (hsigma : c.toNat ≠ 0x3a3) :
    lower (String.ofList (List.replicate n c))
      = String.ofList (List.replicate n (lowerChar c)) := by
  rw [← String.toList_inj, toList_lower, String.toList_ofList, String.toList_ofList]
  generalize [] = before
  induction n generalizing before with
  | zero => rfl
  | succ n ih =>
    rw [List.replicate_succ, List.replicate_succ, lowerPieces, ih, lowerPiece,
      if_neg (mt beq_iff_eq.mp hdotted), if_neg (mt beq_iff_eq.mp hsigma), List.singleton_append]

/-- A text that repeats one character is trimmed unless that is a blank. -/
theorem trimmed_replicate (n : Nat) {c : Char} (h : isBlank c = false) :
    Trimmed (String.ofList (List.replicate n c)) := by
  have hall : ∀ d ∈ List.replicate n c, isBlank d = false := by
    intro d hd
    rw [List.eq_of_mem_replicate hd]
    exact h
  rw [Trimmed, String.toList_ofList]
  exact ⟨fun d hd => hall d (List.mem_of_head? hd), fun d hd => hall d (List.mem_of_getLast? hd)⟩

/-- The bytes of a text that repeats one character, for texts too long to be
evaluated. -/
theorem utf8ByteSize_replicate (n : Nat) (c : Char) :
    (String.ofList (List.replicate n c)).utf8ByteSize = n * c.utf8Size := by
  rw [utf8ByteSize_eq_byteCount, String.toList_ofList]
  induction n with
  | zero => exact (Nat.zero_mul _).symm
  | succ n ih => rw [List.replicate_succ, byteCount, ih, Nat.succ_mul, Nat.add_comm]

/-- A text of ASCII has as many bytes in lower case, so a limit on bytes that
was checked before holds after. -/
theorem utf8ByteSize_lower_of_ascii {s : String} (h : ∀ c ∈ s.toList, c.toNat ≤ 0x7f) :
    (lower s).utf8ByteSize = s.utf8ByteSize := by
  rw [utf8ByteSize_eq_byteCount, utf8ByteSize_eq_byteCount, toList_lower]
  exact byteCount_lowerPieces_of_ascii h

end Overrides.Text
