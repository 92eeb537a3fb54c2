import Mathlib.Data.List.DropRight
import Overrides.Text.Blank

/-!
# `Overrides.Proofs.Text.Blank`: trimmed texts

A text is trimmed when neither its first nor its last character is
blank. Trimming makes every text trimmed and leaves trimmed texts
alone.

* `trimmed_trim`: the result of trimming is trimmed.
* `trim_eq_self_iff`: trimming leaves exactly the trimmed texts alone.
* `trim_eq_empty_iff`: nothing is left of exactly the blank texts.
* `trim_padded`: blanks around a text do not change what is left of it.
-/

set_option autoImplicit false

namespace Overrides.Text

/-- Neither the first nor the last character is blank. An empty text is trimmed,
having neither. -/
def Trimmed (s : String) : Prop :=
  (∀ c ∈ s.toList.head?, isBlank c = false) ∧ (∀ c ∈ s.toList.getLast?, isBlank c = false)

/-- Dropping blanks at the end is the library's `List.rdropWhile`. -/
theorem dropBlankEnd_eq (cs : List Char) : dropBlankEnd cs = cs.rdropWhile isBlank := rfl

/-- What is left without the blanks in front does not start with a blank. -/
theorem head?_dropWhile_isBlank (cs : List Char) :
    ∀ c ∈ (cs.dropWhile isBlank).head?, isBlank c = false := by
  intro c hc
  have hnot := List.head?_dropWhile_not isBlank cs
  rw [hc] at hnot
  exact hnot

/-- Trimming makes a text trimmed: neither its first nor its last character is a
blank, if it has any. -/
theorem trimmed_trim (s : String) : Trimmed (trim s) := by
  rw [Trimmed, trim_toList, dropBlankEnd_eq]
  -- What is said of the start has to survive dropping blanks at the end.
  generalize hstart : s.toList.dropWhile isBlank = cs
  constructor
  · -- Dropping blanks at the end leaves a prefix, which starts alike.
    intro c hc
    have hhead : cs.head? = some c := by
      obtain ⟨tail, htail⟩ := List.rdropWhile_prefix isBlank cs
      cases hcs : cs.rdropWhile isBlank with
      | nil => rw [hcs] at hc; exact nomatch hc
      | cons d ds => rw [hcs] at hc htail; rw [← htail]; exact hc
    rw [← hstart] at hhead
    exact head?_dropWhile_isBlank _ c hhead
  · intro c hc
    have hne : cs.rdropWhile isBlank ≠ [] := by
      intro hnil
      rw [hnil] at hc
      exact nomatch hc
    -- What is left does not end with a blank either.
    have hlast := List.rdropWhile_last_not isBlank cs hne
    rw [List.getLast?_eq_some_getLast hne] at hc
    rw [Option.some.inj hc] at hlast
    simpa using hlast

/-- Where no blank stands in front, none is dropped. -/
theorem dropWhile_of_head? {cs : List Char} (h : ∀ c ∈ cs.head?, isBlank c = false) :
    cs.dropWhile isBlank = cs := by
  cases cs with
  | nil => rfl
  | cons c cs =>
    rw [List.dropWhile_cons_of_neg]
    rw [h c rfl]
    decide

/-- Trimming leaves exactly the trimmed texts alone. So the check whether a text
is its own trimmed form is the check whether it is trimmed. -/
theorem trim_eq_self_iff (s : String) : trim s = s ↔ Trimmed s := by
  constructor
  · intro h
    rw [← h]
    exact trimmed_trim s
  · intro h
    have hend : s.toList.rdropWhile isBlank = s.toList := by
      rw [List.rdropWhile_eq_self_iff]
      intro hne
      rw [h.2 _ (List.getLast?_eq_some_getLast hne)]
      decide
    rw [← String.toList_inj, trim_toList, dropWhile_of_head? h.1, dropBlankEnd_eq, hend]

/-- Trimming twice is trimming once. -/
theorem trim_trim (s : String) : trim (trim s) = trim s :=
  (trim_eq_self_iff _).mpr (trimmed_trim s)

/-! ### Blank texts -/

/-- There is nothing but blanks in the text. -/
def Blank (s : String) : Prop := ∀ c ∈ s.toList, isBlank c = true

/-- Blanks at the end do not count. -/
theorem dropBlankEnd_append {cs blanks : List Char} (h : ∀ c ∈ blanks, isBlank c = true) :
    dropBlankEnd (cs ++ blanks) = dropBlankEnd cs := by
  rw [dropBlankEnd, List.reverse_append, List.dropWhile_append_of_pos]
  · rfl
  · intro c hc
    exact h c (List.mem_reverse.mp hc)

/-- Nothing is left of a text exactly if it is blank. Blanks inside a text count
for nothing here, since the text then has something around them. -/
theorem trim_eq_empty_iff {s : String} : trim s = "" ↔ Blank s := by
  rw [← String.toList_inj, trim_toList, dropBlankEnd_eq]
  show _ = [] ↔ _
  constructor
  · intro h
    -- What is left starts with a character that is not blank, so there is none.
    have hstart : s.toList.dropWhile isBlank = [] := by
      cases hrest : s.toList.dropWhile isBlank with
      | nil => rfl
      | cons c rest =>
        rw [hrest, List.rdropWhile_eq_nil_iff] at h
        have hc := head?_dropWhile_isBlank s.toList c (by rw [hrest]; rfl)
        rw [h c (List.mem_cons_self ..)] at hc
        cases hc
    exact List.dropWhile_eq_nil_iff.mp hstart
  · intro h
    rw [List.dropWhile_eq_nil_iff.mpr h]
    rfl

/-- Blanks around a text do not change what is left of it. The blanks in front
go first, and the text itself may start with some. -/
theorem trim_padded {before after : String} (s : String) (hbefore : Blank before)
    (hafter : Blank after) : trim (before ++ s ++ after) = trim s := by
  rw [← String.toList_inj, trim_toList, trim_toList, String.toList_append, String.toList_append,
    List.append_assoc, List.dropWhile_append_of_pos hbefore, List.dropWhile_append]
  cases hstart : s.toList.dropWhile isBlank with
  | nil =>
    -- The text itself is blank, and so is all that is there.
    rw [List.isEmpty_nil, if_pos rfl, List.dropWhile_eq_nil_iff.mpr hafter]
  | cons c rest =>
    rw [List.isEmpty_cons, if_neg (by decide)]
    exact dropBlankEnd_append hafter

/-- A text counts as absent exactly if it is blank. -/
theorem nonBlank?_eq_some_iff {s t : String} : nonBlank? s = some t ↔ ¬ Blank s ∧ t = trim s := by
  rw [nonBlank?, ← trim_eq_empty_iff, ← String.isEmpty_iff]
  cases (trim s).isEmpty <;> simp [eq_comm]

end Overrides.Text
