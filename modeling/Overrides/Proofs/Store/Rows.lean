import Overrides.Proofs.Outcome
import Overrides.Proofs.Precedence.Order
import Overrides.Proofs.Rule.Text
import Overrides.Store.Database

/-!
# `Overrides.Proofs.Store.Rows`: the rows of rules and of audit records

`Rule.row` is the row that a write leaves for a rule, `AuditRecord.row`
the row of an audit record. A storable rule is valid and has a
canonical text of a size that the store takes.

* `Rule.Storable.rule_row`: the row of a storable rule passes every check, and
  holds that rule.
* `AuditRecord.Storable.record_row`: the row of a storable record holds that record.
* `Rule.selectedBy_row` and `Rule.precedes_row`: the columns select and
  order the rows as the rules themselves are selected and ordered.
-/

set_option autoImplicit false

namespace Overrides

open Overrides.Json Overrides.Text

/-- A key is its text. -/
theorem RuleKey.text_inj {k k' : RuleKey} : k.text = k'.text ↔ k = k' := by
  obtain ⟨text⟩ := k
  obtain ⟨text'⟩ := k'
  rw [RuleKey.mk.injEq]

/-! ### Texts of rules -/

/-- A rule has a canonical text when it can be written, in no more bytes
than a row takes. -/
theorem encodeRule_eq_ok_iff {r : Rule} {text : List UInt8} :
    encodeRule r = .ok text ↔
      ∃ v, r.toJson? = some v ∧ text = canonicalBytes v ∧ text.length ≤ maxRuleBytes := by
  -- Rewriting by the equations of `encodeRule` would evaluate its comparison.
  delta encodeRule
  cases r.toJson? with
  | none =>
    constructor
    · exact fun h => nomatch h
    · rintro ⟨v, h, -⟩
      exact nomatch h
  | some v =>
    show (if maxRuleBytes < (canonicalBytes v).length
      then Except.error (StoreFault.tooLarge (canonicalBytes v).length)
      else Except.ok (canonicalBytes v)) = Except.ok text ↔ _
    by_cases hlong : maxRuleBytes < (canonicalBytes v).length
    · rw [if_pos hlong]
      constructor
      · exact fun h => nomatch h
      · rintro ⟨w, hw, rfl, hfits⟩
        rw [← Option.some.inj hw] at hfits
        exact absurd hfits (Nat.not_le_of_lt hlong)
    · rw [if_neg hlong]
      constructor
      · intro h
        rw [← Except.ok.inj h]
        exact ⟨v, rfl, rfl, Nat.le_of_not_lt hlong⟩
      · rintro ⟨w, hw, rfl, -⟩
        rw [Option.some.inj hw]

/-- A row holds a rule when its text is not too long, has the hash that the
row names, and is the text of a rule with the key of the row. -/
theorem RuleRow.rule_eq_ok_iff {row : RuleRow} {r : Rule} :
    row.rule = .ok r ↔ row.text.length ≤ maxRuleBytes ∧
      ∃ a, HashAlgorithm.ofLabel? row.algorithm = some a ∧
        (Digest.mk a row.hash).verifies row.text = true ∧ decodeRule row.text = .ok r ∧
        r.key.text = row.key := by
  rw [RuleRow.rule]
  -- The checks come one after the other: size, label, hash, text, key.
  by_cases hsize : maxRuleBytes < row.text.length
  · rw [if_pos hsize]
    constructor
    · exact fun h => nomatch h
    · exact fun h => absurd h.1 (Nat.not_le_of_lt hsize)
  rw [if_neg hsize, and_iff_right (Nat.le_of_not_lt hsize)]
  cases HashAlgorithm.ofLabel? row.algorithm with
  | none =>
    constructor
    · exact fun h => nomatch h
    · rintro ⟨a, h, -⟩
      exact nomatch h
  | some a =>
    show (if (Digest.mk a row.hash).verifies row.text = true
      then decodeRule row.text >>= fun rule =>
        if rule.key.text = row.key then Except.ok rule else Except.error StoreFault.keyMismatch
      else Except.error (StoreFault.hashMismatch row.key)) = _ ↔ _
    by_cases hhash : (Digest.mk a row.hash).verifies row.text = true
    · rw [if_pos hhash, bind_eq_ok_iff]
      constructor
      · rintro ⟨rule, hread, hrule⟩
        split at hrule
        · rename_i hkey
          rw [← Except.ok.inj hrule]
          exact ⟨a, rfl, hhash, hread, hkey⟩
        · exact nomatch hrule
      · rintro ⟨b, -, -, hread, hkey⟩
        exact ⟨r, hread, if_pos hkey⟩
    · rw [if_neg hhash]
      constructor
      · exact fun h => nomatch h
      · rintro ⟨b, hb, hverified, -⟩
        rw [← Option.some.inj hb] at hverified
        exact absurd hverified hhash

/-- A row of the audit table holds the record that its columns name. The
conditions are those that the reader checks, one for each column. -/
theorem AuditRow.record_eq_ok {row : AuditRow} {a : AuditRecord} (hid : row.id = a.id.toNat)
    (hkey : row.key = a.ruleKey.text) (hactor : row.actor = a.actor)
    (haction : AuditAction.ofName? row.action = some a.action)
    (hbefore : row.before.mapM decodeRule = .ok a.before)
    (hafter : decodeRule row.after = .ok a.after)
    (htime : Instant.ofMillis row.recordedAt = some a.time) : row.record = .ok a := by
  obtain ⟨id, key, actor, action, before, after, recordedAt⟩ := row
  obtain ⟨number, ⟨text⟩, writer, name, old, new, time⟩ := a
  simp only at hid hkey hactor haction hbefore hafter htime
  subst hid hkey hactor
  have hnonneg : ¬ (number.toNat : Int) < 0 := by omega
  rw [AuditRow.record]
  simp only [haction, hafter, htime, if_neg hnonneg, Int.toNat_natCast, UInt64.ofNat_toNat,
    ok_bind]
  cases before with
  | none =>
    rw [← Except.ok.inj hbefore]
    rfl
  | some bytes =>
    have hread : some <$> decodeRule bytes = .ok old := hbefore
    simp only [hread, ok_bind]
    rfl

namespace Rule

/-- The canonical text of a rule; nothing for a rule without one. -/
def text (r : Rule) : List UInt8 := (encodeRule r).toOption.getD []

/-- A store can keep the rule: its content is valid, and it has a canonical
text. -/
structure Storable (r : Rule) : Prop where
  valid : r.content.Valid
  encoded : encodeRule r = .ok r.text

/-- A valid rule that was encoded can be stored. -/
theorem storable_of_encodeRule {r : Rule} {text : List UInt8} (hvalid : r.content.Valid)
    (h : encodeRule r = .ok text) : r.Storable := by
  refine ⟨hvalid, ?_⟩
  rw [Rule.text, h]
  rfl

/-- The text of a rule that can be stored is no longer than a row takes. -/
theorem Storable.length_text {r : Rule} (h : r.Storable) : r.text.length ≤ maxRuleBytes := by
  obtain ⟨_, -, -, hlength⟩ := encodeRule_eq_ok_iff.mp h.encoded
  exact hlength

/-- A storable rule is read back from its text. -/
theorem Storable.decodeRule_text {r : Rule} (h : r.Storable) : decodeRule r.text = .ok r := by
  obtain ⟨v, hv, htext, -⟩ := encodeRule_eq_ok_iff.mp h.encoded
  rw [decodeRule, mapError_eq_ok_iff, htext]
  exact Rule.reader_of_toJson? h.valid hv

/-! ### Rows of rules -/

/-- The row that a write leaves for the rule. -/
def row (r : Rule) : RuleRow := .ofRule r r.text

/-- What a rule is encoded as is its text. -/
theorem ofRule_of_encodeRule {r : Rule} {text : List UInt8} (h : encodeRule r = .ok text) :
    RuleRow.ofRule r text = r.row := by
  rw [Rule.row, Rule.text, h]
  rfl

/-- The row of a storable rule passes every check and holds the rule. -/
theorem Storable.rule_row {r : Rule} (h : r.Storable) : r.row.rule = .ok r :=
  RuleRow.rule_eq_ok_iff.mpr
    ⟨h.length_text, .sha256, rfl, beq_self_eq_true _, h.decodeRule_text, rfl⟩

/-- The columns select the row where the query accepts the rule. Scopes are
compared by their names here, which differ. -/
theorem selectedBy_row (q : Query) (r : Rule) : r.row.selectedBy q = q.accepts r := by
  have hname : ∀ s t : Scope, s.name = t.name ↔ s = t := fun s t =>
    ⟨Scope.name_injective, congrArg Scope.name⟩
  have henabled : ((if r.content.enabled = true then 1 else 0 : Int) = 1)
      ↔ r.content.enabled = true := by
    cases r.content.enabled <;> decide
  have hscope : (q.scope.all (r.scope.name = ·.name)) = q.scope.all (r.scope = ·) := by
    simp only [hname]
  show (q.scope.all (r.scope.name = ·.name) && (!q.enabledOnly ||
    decide ((if r.content.enabled = true then 1 else 0 : Int) = 1))) = _
  rw [hscope, Query.accepts]
  simp only [henabled, Bool.decide_eq_true]

/-- The columns order two rows as the rules are ordered. -/
theorem precedes_row (a b : Rule) : a.row.precedes b.row = a.precedes b := by
  rw [Bool.eq_iff_iff, precedes_iff]
  show (decide ((b.priority.toNat : Int) < a.priority.toNat) ||
    decide ((a.priority.toNat : Int) = b.priority.toNat) &&
      decide ((b.revision.toNat : Int) ≤ a.revision.toNat)) = true ↔ _
  rw [Bool.or_eq_true, Bool.and_eq_true, decide_eq_true_iff, decide_eq_true_iff,
    decide_eq_true_iff]
  omega

end Rule

/-! ### Rows of audit records -/

namespace AuditRecord

/-- The row of the record. -/
def row (a : AuditRecord) : AuditRow :=
  ⟨a.id.toNat, a.ruleKey.text, a.actor, a.action.name, a.before.map Rule.text, a.after.text,
    a.time.millis⟩

/-- A store can keep the record: its rules are storable, and its time is a
whole number of milliseconds. -/
structure Storable (a : AuditRecord) : Prop where
  before : ∀ r ∈ a.before, r.Storable
  after : a.after.Storable
  time : Instant.ofMillis a.time.millis = some a.time

/-- The row of a storable record holds the record. Its time is kept in
milliseconds, which is why a storable record has no finer one. -/
theorem Storable.record_row {a : AuditRecord} (h : a.Storable) : a.row.record = .ok a := by
  refine AuditRow.record_eq_ok rfl rfl rfl ?_ ?_ h.after.decodeRule_text h.time
  · show AuditAction.ofName? a.action.name = _
    cases a.action <;> decide
  · have hstored := h.before
    show (a.before.map Rule.text).mapM decodeRule = _
    cases hold : a.before with
    | none => rfl
    | some old =>
      show some <$> decodeRule old.text = _
      rw [(hstored old hold).decodeRule_text]
      rfl

end AuditRecord

end Overrides
