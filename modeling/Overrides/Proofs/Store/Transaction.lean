import Overrides.Proofs.Outcome
import Overrides.Store.Database

/-!
# `Overrides.Proofs.Store.Transaction`: the transaction of a write

`transaction_eq_ok_iff` says when a transaction commits, and what it
leaves in the tables: one row in the place of its key, and one audit
row in front of the others.
-/

set_option autoImplicit false

namespace Overrides.Database

/-- The tables after a write: `text` is the text of the rule that was
written, `old` the text of the rule before it. -/
def commit (d : Database) (w : Written) (id : Int) (text : List UInt8)
    (old : Option (List UInt8)) : Database :=
  { d with
    rules := putRow (.ofRule w.rule text) d.rules
    records := .ofWrite id w.action w.rule old text :: d.records
    lastAuditId := id }

/-- The transaction, with everything that it may stop at in one line. The two
ways to find the text of the old rule are one step here. -/
theorem transaction_eq (d : Database) (request : WriteRequest) :
    d.transaction request = (do
      let before ← d.get? request.key
      let revision ← d.nextRevision
      let text ← encodeRule (request.rule before revision)
      if maxInteger < revision.toNat then .error .revisionOverflow
      else do
        let old ← before.mapM encodeRule
        let id ← d.nextAuditId
        let w : Written := ⟨request.rule before revision, .ofBefore before⟩
        return (w, d.commit w id text old)) := by
  rw [transaction]
  refine bind_congr fun before => bind_congr fun revision => bind_congr fun text => ?_
  -- The check of the column comes before the rule that was there is written.
  by_cases hcolumn : maxInteger < revision.toNat
  · simp only [if_pos hcolumn]
    rfl
  · simp only [if_neg hcolumn]
    cases before <;> rfl

/-- A transaction commits when the rule of the key can be read, a revision and
an audit number are left, and both rules can be written. The tables are then
those of the one commit. -/
theorem transaction_eq_ok_iff {d d' : Database} {request : WriteRequest} {w : Written} :
    d.transaction request = .ok (w, d') ↔
      ∃ before revision text old id, d.get? request.key = .ok before ∧
        d.nextRevision = .ok revision ∧ encodeRule (request.rule before revision) = .ok text ∧
        (revision.toNat : Int) ≤ maxInteger ∧ before.mapM encodeRule = .ok old ∧
        d.nextAuditId = .ok id ∧
        w = ⟨request.rule before revision, .ofBefore before⟩ ∧ d' = d.commit w id text old := by
  rw [transaction_eq]
  constructor
  · intro h
    obtain ⟨before, hbefore, h⟩ := bind_eq_ok_iff.mp h
    obtain ⟨revision, hrevision, h⟩ := bind_eq_ok_iff.mp h
    obtain ⟨text, htext, h⟩ := bind_eq_ok_iff.mp h
    split at h
    · exact nomatch h
    · rename_i hcolumn
      obtain ⟨old, hold, h⟩ := bind_eq_ok_iff.mp h
      obtain ⟨id, hid, h⟩ := bind_eq_ok_iff.mp h
      obtain ⟨rfl, rfl⟩ := Prod.mk.inj (Except.ok.inj h)
      exact ⟨before, revision, text, old, id, hbefore, hrevision, htext, Int.not_lt.mp hcolumn,
        hold, hid, rfl, rfl⟩
  · rintro ⟨before, revision, text, old, id, hbefore, hrevision, htext, hcolumn, hold, hid, rfl,
      rfl⟩
    rw [hbefore, ok_bind, hrevision, ok_bind, htext, ok_bind, if_neg (Int.not_lt.mpr hcolumn), hold,
      ok_bind, hid]
    rfl

end Overrides.Database
