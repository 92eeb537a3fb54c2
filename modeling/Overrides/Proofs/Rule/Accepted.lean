import Overrides.Proofs.Instant.Reading
import Overrides.Proofs.Rule.Text

/-!
# `Overrides.Proofs.Rule.Accepted`: what was read as a rule can be written

Reading a stored rule is lenient: values are coerced, texts trimmed,
limits cut to their ceilings. The rule that comes out is in the form in
which rules are written, so writing it and reading it again gives the
same rule.

* `HasWireForm`: validated content, and instants that can be written.
* `HasWireForm.exists_toJson?`: such a rule is read back from its value and
  from its canonical text.
* `hasWireForm_of_ofJson`, `hasWireForm_of_reader`: every rule that was read
  is such a rule.
-/

set_option autoImplicit false

namespace Overrides.Rule

open Overrides.Json

/-- The content passed validation, and both instants can be written. Then
nothing about the rule stands in the way of its wire form, whoever wrote it and
whatever its revision is. -/
structure HasWireForm (r : Rule) : Prop where
  content : ∃ draft : Draft, draft.validate = .ok r.content
  createdAt : r.createdAt.HasWrittenForm
  updatedAt : r.updatedAt.HasWrittenForm

/-- A rule with a wire form is valid: its content came out of the validation. -/
theorem HasWireForm.valid {r : Rule} (h : r.HasWireForm) : r.content.Valid := by
  obtain ⟨draft, hdraft⟩ := h.content
  exact Content.valid_of_validate hdraft

/-- The rule is read back from its value and from the text of that. Two readers
are behind this, the one of values and the one of stored texts, and both give
the same rule. -/
theorem HasWireForm.exists_toJson? {r : Rule} (h : r.HasWireForm) :
    ∃ v, r.toJson? = some v ∧ ofJson v = .ok r ∧ Rule.reader.run (canonicalBytes v) = .ok r := by
  obtain ⟨createdAt, hcreated, -⟩ := h.createdAt.exists_toJson?
  obtain ⟨updatedAt, hupdated, -⟩ := h.updatedAt.exists_toJson?
  have hv := toJson?_eq_some_iff.mpr ⟨createdAt, updatedAt, hcreated, hupdated, rfl⟩
  exact ⟨_, hv, ofJson_of_toJson? h.valid hv, reader_of_toJson? h.valid hv⟩

/-! ### Reading -/

/-- The instants read so far can be written. -/
structure Parts.Recordable (p : Parts) : Prop where
  createdAt : ∀ t ∈ p.createdAt, t.HasWrittenForm
  updatedAt : ∀ t ∈ p.updatedAt, t.HasWrittenForm

/-- Before the first member there is nothing that could not be written. -/
theorem Parts.recordable_empty : Parts.empty.Recordable :=
  ⟨fun _ h => (nomatch h), fun _ h => (nomatch h)⟩

/-- A field that is read once gets the value that was read. -/
theorem once_eq_ok {α : Type} {name : String} {old new : Option α} {read : Except Mismatch α}
    (h : once name old read = .ok new) : ∃ a, read = .ok a ∧ new = some a := by
  cases old with
  | some a => exact nomatch h
  | none =>
    cases read with
    | error e => exact nomatch h
    | ok a => exact ⟨a, rfl, (Except.ok.inj h).symm⟩

/-- Reading a member keeps the instants recordable. A member of another name
leaves both, and the members of the instants are read by a parser that accepts
none that cannot be written. -/
theorem Parts.Recordable.put {p p' : Parts} (h : p.Recordable) {name : String} {v : Json}
    (hput : p.put name v = .ok p') : p'.Recordable := by
  rw [Parts.put] at hput
  -- Only two of the members are instants; every other one leaves both alone.
  split at hput
  · obtain ⟨_, -, hp⟩ := bind_eq_ok_iff.mp hput
    rw [← Except.ok.inj hp]
    exact ⟨h.createdAt, h.updatedAt⟩
  split at hput
  · obtain ⟨_, honce, hp⟩ := bind_eq_ok_iff.mp hput
    obtain ⟨t, ht, rfl⟩ := once_eq_ok honce
    rw [← Except.ok.inj hp]
    refine ⟨fun u hu => ?_, h.updatedAt⟩
    rw [← Option.some.inj hu]
    exact Instant.hasWrittenForm_of_ofJson ht
  split at hput
  · obtain ⟨_, honce, hp⟩ := bind_eq_ok_iff.mp hput
    obtain ⟨t, ht, rfl⟩ := once_eq_ok honce
    rw [← Except.ok.inj hp]
    refine ⟨h.createdAt, fun u hu => ?_⟩
    rw [← Option.some.inj hu]
    exact Instant.hasWrittenForm_of_ofJson ht
  split at hput
  · obtain ⟨_, -, hp⟩ := bind_eq_ok_iff.mp hput
    rw [← Except.ok.inj hp]
    exact ⟨h.createdAt, h.updatedAt⟩
  split at hput
  · obtain ⟨_, -, hp⟩ := bind_eq_ok_iff.mp hput
    rw [← Except.ok.inj hp]
    exact ⟨h.createdAt, h.updatedAt⟩
  · rw [← Except.ok.inj hput]
    exact ⟨h.createdAt, h.updatedAt⟩

/-- What is put together of recordable parts has a wire form. Its content went
through validation again, and the instants are among the parts that were read.
-/
theorem Parts.Recordable.finish {p : Parts} (h : p.Recordable) {r : Rule}
    (hfinish : p.finish = .ok r) : r.HasWireForm := by
  rw [Parts.finish] at hfinish
  obtain ⟨revision, -, hfinish⟩ := bind_eq_ok_iff.mp hfinish
  obtain ⟨createdAt, hcreated, hfinish⟩ := bind_eq_ok_iff.mp hfinish
  obtain ⟨updatedAt, hupdated, hfinish⟩ := bind_eq_ok_iff.mp hfinish
  obtain ⟨draft, -, hfinish⟩ := bind_eq_ok_iff.mp hfinish
  obtain ⟨content, hcontent, hfinish⟩ := bind_eq_ok_iff.mp hfinish
  rw [← Except.ok.inj hfinish]
  exact ⟨⟨draft, mapError_eq_ok_iff.mp hcontent⟩,
    h.createdAt _ (required_eq_ok hcreated), h.updatedAt _ (required_eq_ok hupdated)⟩

/-- A rule that was read from a value can be written: the reader validates the
content again, and it reads both instants from texts. -/
theorem hasWireForm_of_ofJson {v : Json} {r : Rule} (h : ofJson v = .ok r) : r.HasWireForm := by
  cases v with
  | object members =>
    obtain ⟨p, hp, hfinish⟩ := bind_eq_ok_iff.mp h
    have hrecordable : p.Recordable :=
      foldlM_invariant (fun _ _ _ _ hs hput => hs.put hput) Parts.recordable_empty hp
    exact hrecordable.finish hfinish
  | _ => exact nomatch h

open Json.Reader in
/-- A rule that was read from a text can be written, for the same reasons as one
that was read from a value. -/
theorem hasWireForm_of_reader {bytes : List UInt8} {r : Rule} (h : Rule.reader.run bytes = .ok r) :
    r.HasWireForm := by
  refine Gives.run ?_ h
  -- The members of an object are put together as those of a value are, and no
  -- other text gives a rule.
  rw [Rule.reader]
  refine Gives.bind (.any _) fun b _ => ?_
  split
  · exact .throw _
  split
  · refine Gives.bind (.any _) fun _ _ => Gives.bind (.any _) fun limit _ => ?_
    refine Gives.bind (Gives.foldMembers (fun name p hp => ?_) _ _ Parts.recordable_empty)
      fun p hp => ?_
    · refine Gives.bind (.any _) fun _ _ => Gives.bind (.any _) fun v _ => ?_
      split
      · rename_i p' hput
        exact .pure (hp.put hput)
      · exact .throw _
    · split
      · rename_i r hfinish
        exact .pure (hp.finish hfinish)
      · exact .throw _
  split
  · exact .throw _
  · exact Gives.bind (.any _) fun _ _ => .throw _

end Overrides.Rule
