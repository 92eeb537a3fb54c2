import Overrides.Proofs.Server.Headers
import Overrides.Proofs.Text.Lowercase
import Overrides.Server.Auth

/-!
# `Overrides.Proofs.Server.Actor`: the form of an actor that is kept

An actor is trimmed, then measured, and then put in lower case, where a letter
may take more bytes. So a name that is kept is trimmed and in lower case, but
it may be longer than the one that was given: by half at most, and by nothing
in ASCII, which is all that a header can carry. A name that has outgrown the
limit is refused where it is given again, and every other one is kept as it
is.

* `normalizeActor_eq_ok_iff`: which names are kept.
* `utf8ByteSize_of_normalizeActor`: a rough bound on their length.
* `normalForm_of_normalizeActor`: their form, and what becomes of them if
  they are given again.
* `normalizeActor_outgrows`: a name that is kept and refused afterwards.
-/

set_option autoImplicit false

namespace Overrides

open Overrides.Text

/-- A name is kept if something that is short enough is left of the text, and it
is what is left, in lower case. The length is that of the trimmed text: what
lower case makes of it is not measured again. -/
theorem normalizeActor_eq_ok_iff {raw : Option String} {name : String} :
    normalizeActor raw = .ok (some name) ↔ ∃ given, raw.bind nonBlank? = some given
      ∧ given.utf8ByteSize ≤ maxActorBytes ∧ name = lower given := by
  -- Nothing is left of the text, or too much, or just enough.
  rw [normalizeActor]
  split
  · rename_i hnone
    rw [hnone]
    constructor
    · intro h
      cases Except.ok.inj h
    · rintro ⟨given, hgiven, -⟩
      cases hgiven
  · rename_i given hgiven
    rw [hgiven]
    split
    · rename_i hlong
      constructor
      · intro h
        cases h
      · rintro ⟨_, ⟨⟩, hshort, _⟩
        exact absurd hshort (Nat.not_le_of_lt hlong)
    · rename_i hshort
      constructor
      · intro h
        exact ⟨given, rfl, Nat.le_of_not_lt hshort, (Option.some.inj (Except.ok.inj h)).symm⟩
      · rintro ⟨_, ⟨⟩, _, rfl⟩
        rfl

/-- Of a name that is not empty and trimmed already, only the length is looked
at. -/
theorem normalizeActor_of_trimmed {name : String} (hname : name ≠ "") (htrimmed : Trimmed name) :
    normalizeActor (some name)
      = if maxActorBytes < name.utf8ByteSize then .error .tooLong else .ok (some (lower name)) := by
  have hleft : nonBlank? name = some name := by
    have htrim := (trim_eq_self_iff name).mpr htrimmed
    rw [nonBlank?_eq_some_iff, ← trim_eq_empty_iff, htrim]
    exact ⟨hname, rfl⟩
  rw [normalizeActor, Option.bind_some, hleft]

/-- An actor that is kept has at most twice the bytes that one may be given
with. Lower case adds half at most, so the bound is not sharp, but it is what
the size of a row is planned with. -/
theorem utf8ByteSize_of_normalizeActor {raw actor : Option String}
    (h : normalizeActor raw = .ok actor) :
    ∀ name ∈ actor, name.utf8ByteSize ≤ 2 * maxActorBytes := by
  intro name hname
  rw [Option.mem_def.mp hname] at h
  obtain ⟨given, -, hshort, rfl⟩ := normalizeActor_eq_ok_iff.mp h
  have hle := utf8ByteSize_lower_le given
  omega

/-- Trimming takes characters away and brings none. -/
theorem ascii_trim {s : String} (h : Ascii s) : Ascii (trim s) := by
  intro c hc
  rw [trim_toList, dropBlankEnd_eq] at hc
  exact h c ((List.dropWhile_sublist _).subset ((List.rdropWhile_prefix _ _).subset hc))

/-- **An actor that is kept is a trimmed name in lower case, and nothing else
is looked at but its length if it is given again.** It is not empty. It has at
most half more bytes than an actor may have, and if the text was in ASCII, no
more than an actor may have. If it is given again, it is kept as it is, unless
it has outgrown the limit: then it is refused. -/
theorem normalForm_of_normalizeActor {raw : Option String} {name : String}
    (h : normalizeActor raw = .ok (some name)) :
    name ≠ "" ∧ Trimmed name ∧ lower name = name
      ∧ 2 * name.utf8ByteSize ≤ 3 * maxActorBytes
      ∧ ((∀ text ∈ raw, Ascii text) → name.utf8ByteSize ≤ maxActorBytes)
      ∧ normalizeActor (some name)
          = if maxActorBytes < name.utf8ByteSize then .error .tooLong else .ok (some name) := by
  obtain ⟨given, hgiven, hshort, rfl⟩ := normalizeActor_eq_ok_iff.mp h
  obtain ⟨text, rfl, hleft⟩ := Option.bind_eq_some_iff.mp hgiven
  obtain ⟨hblank, rfl⟩ := nonBlank?_eq_some_iff.mp hleft
  have hne : lower (trim text) ≠ "" := lower_ne_empty (mt trim_eq_empty_iff.mp hblank)
  have htrimmed : Trimmed (lower (trim text)) := trimmed_lower (trimmed_trim text)
  have hagain := normalizeActor_of_trimmed hne htrimmed
  rw [lower_lower] at hagain
  -- The limit was on the trimmed text, so what is left are the bytes that lower case adds.
  refine ⟨hne, htrimmed, lower_lower _, ?_, fun hascii => ?_, hagain⟩
  · have hle := utf8ByteSize_lower_le (trim text)
    omega
  · rw [utf8ByteSize_lower_of_ascii (ascii_trim (hascii text rfl))]
    exact hshort

/-- A name with blanks around it and with capitals. All of it is ASCII, so the
normal form is short enough to be normalised again. -/
theorem normalForm_of_normalizeActor_padded :
    normalizeActor (some "  Ops@Example.com ") = .ok (some "ops@example.com")
      ∧ "ops@example.com" ≠ "" ∧ Trimmed "ops@example.com"
      ∧ lower "ops@example.com" = "ops@example.com"
      ∧ normalizeActor (some "ops@example.com") = .ok (some "ops@example.com") := by
  have hkept : normalizeActor (some "  Ops@Example.com ") = .ok (some "ops@example.com") := by
    decide +kernel
  obtain ⟨hne, htrimmed, hlower, -, hshort, hagain⟩ := normalForm_of_normalizeActor hkept
  have hascii : ∀ text ∈ some "  Ops@Example.com ", Ascii text := by decide
  rw [if_neg (Nat.not_lt_of_le (hshort hascii))] at hagain
  exact ⟨hkept, hne, htrimmed, hlower, hagain⟩

/-- A name of 256 bytes is kept with 384, and is too long if it is given again:
the small letter takes three bytes, the capital two. So what is on record need
not be a name that is accepted. -/
theorem normalizeActor_outgrows :
    normalizeActor (some (String.ofList (List.replicate 128 'Ⱥ')))
        = .ok (some (String.ofList (List.replicate 128 'ⱥ')))
      ∧ (String.ofList (List.replicate 128 'ⱥ')).utf8ByteSize = 384
      ∧ maxActorBytes = 256
      ∧ normalizeActor (some (String.ofList (List.replicate 128 'ⱥ'))) = .error .tooLong := by
  -- The lengths follow from the one letter. The long texts are not evaluated.
  have hlower : lower (String.ofList (List.replicate 128 'Ⱥ'))
      = String.ofList (List.replicate 128 'ⱥ') := by
    have hletter : lowerChar 'Ⱥ' = 'ⱥ' := by decide +kernel
    rw [lower_replicate 128 (by decide) (by decide), hletter]
  have hsize : (String.ofList (List.replicate 128 'Ⱥ')).utf8ByteSize = 256 :=
    utf8ByteSize_replicate 128 'Ⱥ'
  have hsize' : (String.ofList (List.replicate 128 'ⱥ')).utf8ByteSize = 384 :=
    utf8ByteSize_replicate 128 'ⱥ'
  have hgiven : String.ofList (List.replicate 128 'Ⱥ') ≠ "" := by
    rw [ne_eq, ← String.utf8ByteSize_eq_zero_iff, hsize]
    decide
  have hkept : String.ofList (List.replicate 128 'ⱥ') ≠ "" := by
    rw [ne_eq, ← String.utf8ByteSize_eq_zero_iff, hsize']
    decide
  refine ⟨?_, hsize', rfl, ?_⟩
  · rw [normalizeActor_of_trimmed hgiven (trimmed_replicate 128 (by decide)), hsize, hlower]
    rfl
  · rw [normalizeActor_of_trimmed hkept (trimmed_replicate 128 (by decide)), hsize']
    rfl

end Overrides
