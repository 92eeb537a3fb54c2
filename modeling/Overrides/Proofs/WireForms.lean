import Overrides.Proofs.Rule.Accepted
import Overrides.Proofs.Snapshot.Wire
import Overrides.Proofs.Store.Rows

/-!
# `Overrides.Proofs.WireForms`: what is written is read back

Rules, audit records and snapshots have a wire form, and rules have the
row of a database beside it. Each of them is read back as it was, and
what was read as a rule is written in a form that reads the same.

* `AuditRecord.HasWireForm.exists_toJson?`: audit records.
* `wire_forms_read_back`: all forms together.
-/

set_option autoImplicit false

namespace Overrides

open Overrides.Json

/-! ### Rows of rules -/

/-- Where the canonical text is not too long, the rule is encoded, and the
row with its own key holds it. -/
theorem Rule.HasWireForm.exists_row {r : Rule} (h : r.HasWireForm) {v : Json}
    (hv : r.toJson? = some v) (hfits : (canonicalBytes v).length ≤ maxRuleBytes) :
    ∃ text, encodeRule r = .ok text ∧ (RuleRow.ofRule r text).rule = .ok r := by
  have htext : encodeRule r = .ok (canonicalBytes v) :=
    encodeRule_eq_ok_iff.mpr ⟨v, hv, rfl, hfits⟩
  refine ⟨_, htext, ?_⟩
  rw [Rule.ofRule_of_encodeRule htext]
  exact (Rule.storable_of_encodeRule h.valid htext).rule_row

/-! ### Audit records -/

/-- An action of the trail is read back from its name. -/
theorem AuditAction.ofJson_toJson (a : AuditAction) : AuditAction.ofJson a.toJson = .ok a := by
  cases a <;> rfl

namespace AuditRecord

/-- The rules in the record have a wire form, and its time can be written. The
rule before may be missing, as it is where the record is of a creation. -/
structure HasWireForm (a : AuditRecord) : Prop where
  before : ∀ r ∈ a.before, r.HasWireForm
  after : a.after.HasWireForm
  time : a.time.HasWrittenForm

/-- The members of the wire form, with the values of the two rules and of the
time. -/
def members (a : AuditRecord) (before after time : Json) : List (String × Json) :=
  [("action", a.action.toJson), ("actor", Json.ofOption .string a.actor), ("after", after),
    ("audit_id", Json.ofNat a.id.toNat), ("before", before), ("recorded_at", time),
    ("rule_key", .string a.ruleKey.text)]

/-- The rule before the write on the wire. -/
def beforeJson? (a : AuditRecord) : Option Json :=
  match a.before with
  | some old => old.toJson?
  | none => some .null

/-- The wire form of an audit record. The rule before is `null` where there was
none, and its instants have to be written like those of the rule after. -/
theorem toJson?_eq (a : AuditRecord) : a.toJson? = (do
    let before ← a.beforeJson?
    let after ← a.after.toJson?
    let time ← a.time.toJson?
    return .object (a.members before after time)) := by
  obtain ⟨_, _, _, _, _ | old, _, _⟩ := a <;> rfl

/-- The rule before is read back, also where there is none. The reader takes
`null` for a missing rule, and no rule is written as `null`. -/
theorem HasWireForm.exists_beforeJson? {a : AuditRecord} (h : a.HasWireForm) :
    ∃ v, a.beforeJson? = some v ∧ asOptional Rule.ofJson v = .ok a.before := by
  have hbefore := h.before
  rw [beforeJson?]
  cases hold : a.before with
  | none => exact ⟨.null, rfl, rfl⟩
  | some old =>
    obtain ⟨v, hv, hread, -⟩ := (hbefore old hold).exists_toJson?
    refine ⟨v, hv, ?_⟩
    -- The wire form of a rule is an object, so it does not count as none.
    obtain ⟨_, _, -, -, rfl⟩ := Rule.toJson?_eq_some_iff.mp hv
    show some <$> Rule.ofJson _ = _
    rw [hread]
    rfl

/-- The record is read back from its wire form. Both rules in it are, and so is
the time; the other parts can always be written. -/
theorem HasWireForm.exists_toJson? {a : AuditRecord} (h : a.HasWireForm) :
    ∃ v, a.toJson? = some v ∧ ofJson v = .ok a := by
  obtain ⟨before, hbefore, hreadBefore⟩ := h.exists_beforeJson?
  obtain ⟨after, hafter, hreadAfter, -⟩ := h.after.exists_toJson?
  obtain ⟨time, htime, hreadTime⟩ := h.time.exists_toJson?
  have hv : a.toJson? = some (.object (a.members before after time)) := by
    rw [toJson?_eq, hbefore, hafter, htime]
    rfl
  refine ⟨_, hv, ?_⟩
  rw [ofJson, foldRecord_object (by simp [members, shape]), members]
  simp [Parts.put, hreadBefore, hreadAfter, hreadTime, asUInt64_ofNat, asOptional_ofOption,
    AuditAction.ofJson_toJson, Json.asText, required]

/-- The row of the record holds it, with the time cut to its millisecond,
where its rules can be encoded. -/
theorem HasWireForm.record_row {a : AuditRecord} (h : a.HasWireForm)
    (hbefore : ∀ r ∈ a.before, ∃ text, encodeRule r = .ok text)
    (hafter : ∃ text, encodeRule a.after = .ok text) {t : Instant}
    (ht : Instant.ofMillis a.time.millis = some t) :
    a.row.record = .ok { a with time := t } := by
  -- The column has the same milliseconds for both times.
  have hmillis : t.millis = a.time.millis := Instant.millis_of_ofMillis ht
  have hrow : a.row = ({ a with time := t } : AuditRecord).row := by
    rw [row, row, hmillis]
  rw [hrow]
  refine Storable.record_row ⟨fun r hr => ?_, ?_, ?_⟩
  · obtain ⟨text, htext⟩ := hbefore r hr
    exact Rule.storable_of_encodeRule (h.before r hr).valid htext
  · obtain ⟨text, htext⟩ := hafter
    exact Rule.storable_of_encodeRule h.after.valid htext
  · show Instant.ofMillis t.millis = some t
    rw [hmillis]
    exact ht

end AuditRecord

/-- **What is written is read back.** A rule whose content passed validation
and whose instants can be written has a wire form, and is read back from
it, and from its row where its text is not too long. So is an audit record
of such rules; a row keeps its time as a number of milliseconds.
The snapshot of any rules is read back from its wire form. What was read
as a rule, from a value or from a text, stays the same when it is written
and read again. -/
theorem wire_forms_read_back :
    (∀ r : Rule, r.HasWireForm → ∃ v, r.toJson? = some v ∧ Rule.ofJson v = .ok r ∧
      ((canonicalBytes v).length ≤ maxRuleBytes →
        ∃ text, encodeRule r = .ok text ∧ (RuleRow.ofRule r text).rule = .ok r)) ∧
    (∀ a : AuditRecord, a.HasWireForm →
      (∃ v, a.toJson? = some v ∧ AuditRecord.ofJson v = .ok a) ∧
      ((∀ r ∈ a.before, ∃ text, encodeRule r = .ok text) →
        (∃ text, encodeRule a.after = .ok text) →
        ∀ t, Instant.ofMillis a.time.millis = some t →
          a.row.record = .ok { a with time := t })) ∧
    (∀ (compiler : Compiler) (rules : List Rule) (c : Context) (time : Instant),
      time.HasWrittenForm →
      let snapshot := Snapshot.compile compiler rules c time
      ∃ v, snapshot.toJson? = some v ∧ Snapshot.ofJson v = .ok snapshot) ∧
    (∀ (v : Json) (r : Rule), Rule.ofJson v = .ok r →
      ∃ w, r.toJson? = some w ∧ Rule.ofJson w = .ok r) ∧
    ∀ (bytes : List UInt8) (r : Rule), Rule.reader.run bytes = .ok r →
      ∃ w, r.toJson? = some w ∧ Rule.reader.run (canonicalBytes w) = .ok r := by
  refine ⟨fun r h => ?_,
    fun a h => ⟨h.exists_toJson?, fun hbefore hafter _ ht => h.record_row hbefore hafter ht⟩,
    fun compiler rules c time h => ?_, fun v r h => ?_, fun bytes r h => ?_⟩
  · obtain ⟨v, hv, hread, -⟩ := h.exists_toJson?
    exact ⟨v, hv, hread, h.exists_row hv⟩
  · obtain ⟨compiledAt, hcompiled, -⟩ := h.exists_toJson?
    have hv := Snapshot.toJson?_eq_some_iff (s := Snapshot.compile compiler rules c time).mpr
      ⟨compiledAt, hcompiled, rfl⟩
    exact ⟨_, hv, Snapshot.ofJson_of_toJson? hv⟩
  · obtain ⟨w, hw, hread, -⟩ := (Rule.hasWireForm_of_ofJson h).exists_toJson?
    exact ⟨w, hw, hread⟩
  · obtain ⟨w, hw, -, hread⟩ := (Rule.hasWireForm_of_reader h).exists_toJson?
    exact ⟨w, hw, hread⟩

end Overrides
