import Overrides.Proofs.Store.Trail
import Overrides.Proofs.Store.Tables
import Overrides.Store.Backend

/-!
# `Overrides.Proofs.Store.Rollback`: a write happens whole or not at all

A database runs a write as statements on its open tables, and the row of
the rule is put there before everything that can fail has been tried.
`Database.statements` is the list of what is done, in its order, and
`Database.inTransaction` gives the tables back as they were when the
statements stop at a fault.

* `Database.write_eq_inTransaction`: this is the write of a database.
* `Database.run_statements_of_old_fault`: statements can stop with the new
  row already in the tables.
* `Ledger.Accounts.oneWrite`, `Database.oneWrite_of_write`: a write that
  succeeds changes one rule and adds one record.
-/

set_option autoImplicit false

namespace Overrides

/-! ### Statements in a transaction -/

namespace Database

/-- Statements on open tables. What they did before a fault stays done, until
the transaction around them takes it back. -/
abbrev Statements (α : Type) := ExceptT StoreFault (StateM Database) α

/-- The statements of a write. The row is put in its place before the text
of the rule before it is made, which the audit row needs. -/
def statements (request : WriteRequest) : Statements Written := do
  let before ← (← get).get? request.key
  let revision ← (← get).nextRevision
  let rule := request.rule before revision
  let text ← encodeRule rule
  if maxInteger < revision.toNat then throw .revisionOverflow
  else do
    modify fun d => { d with rules := putRow (.ofRule rule text) d.rules }
    let old ← (before.mapM encodeRule : Except StoreFault _)
    let id ← (← get).nextAuditId
    let action := AuditAction.ofBefore before
    modify fun d => { d with
      records := .ofWrite id action rule old text :: d.records
      lastAuditId := id }
    return ⟨rule, action⟩

/-- The end of a transaction on the tables of `d`: what the statements did is
kept when they came to their end, and undone when they stopped at a fault. -/
def endTransaction {α : Type} (d : Database) :
    Except StoreFault α × Database → Except StoreFault α × Database
  | (.ok a, tables) => (.ok a, tables)
  | (.error e, _) => (.error e, d)

/-- Runs statements as one transaction. -/
def inTransaction {α : Type} (d : Database) (body : Statements α) :
    Except StoreFault α × Database :=
  d.endTransaction (body.run.run d)

section

variable {α β : Type} {x : Except StoreFault α} {f : α → Statements β} {d tables : Database}

/-- A check that passes leaves the tables and goes on with its result. -/
theorem run_lift_ok {a : α} (h : x = .ok a) :
    (liftM x >>= f).run.run tables = (f a).run.run tables := by
  rw [h]
  rfl

/-- A check that fails ends the statements, with the tables as they were left.
-/
theorem run_lift_error {e : StoreFault} (h : x = .error e) :
    (liftM x >>= f).run.run tables = (.error e, tables) := by
  rw [h]
  rfl

/-- Reading the tables does not change them. -/
theorem run_get_bind (g : Database → Statements β) :
    (get >>= g).run.run tables = (g tables).run.run tables := rfl

/-- A statement that changes the tables leaves the changed ones to the next. -/
theorem run_modify_bind (change : Database → Database) (g : PUnit → Statements β) :
    (modify change >>= g).run.run tables = (g ⟨⟩).run.run (change tables) := rfl

/-- A fault of one statement ends the transaction as it ends a computation
whose state is settled at the end. -/
theorem endTransaction_lift {g : α → Except StoreFault (β × Database)}
    (h : ∀ a, d.endTransaction ((f a).run.run tables) = settle d (g a)) :
    d.endTransaction ((liftM x >>= f).run.run tables) = settle d (x >>= g) := by
  cases x with
  | error e => rfl
  | ok a => exact h a

end

variable {d : Database} {request : WriteRequest}

/-- The write of a database runs the statements in one transaction. The tables
that a fault leaves half changed are thrown away there, which is what `settle`
does at once. -/
theorem write_eq_inTransaction (d : Database) (request : WriteRequest) :
    d.write request = d.inTransaction (statements request) := by
  symm
  -- Up to the first change the tables are those of `d`, and so is every fault.
  rw [write, transaction_eq, inTransaction, statements, run_get_bind]
  refine endTransaction_lift fun before => ?_
  rw [run_get_bind]
  refine endTransaction_lift fun revision => endTransaction_lift fun text => ?_
  by_cases hcolumn : maxInteger < revision.toNat
  · rw [if_pos hcolumn, if_pos hcolumn]
    rfl
  · -- From here on the tables have the new row, which no read looks at.
    rw [if_neg hcolumn, if_neg hcolumn, run_modify_bind]
    refine endTransaction_lift fun old => ?_
    rw [run_get_bind]
    exact endTransaction_lift fun id => rfl

/-- Statements can stop with the new row in the tables: when the rule before
it could be read, but is too long to be written again. -/
theorem run_statements_of_old_fault {before : Option Rule} {revision : UInt64}
    {text : List UInt8} {e : StoreFault} (hbefore : d.get? request.key = .ok before)
    (hrevision : d.nextRevision = .ok revision)
    (htext : encodeRule (request.rule before revision) = .ok text)
    (hcolumn : (revision.toNat : Int) ≤ maxInteger) (hold : before.mapM encodeRule = .error e) :
    (statements request).run.run d = (.error e,
      { d with rules := putRow (.ofRule (request.rule before revision) text) d.rules }) := by
  rw [statements, run_get_bind, run_lift_ok hbefore, run_get_bind, run_lift_ok hrevision,
    run_lift_ok htext, if_neg (Int.not_lt.mpr hcolumn), run_modify_bind, run_lift_error hold]

/-- A transaction that fails gives the tables back as they were. -/
theorem eq_of_endTransaction_error {α : Type} {e : StoreFault}
    {outcome : Except StoreFault α × Database} (h : (d.endTransaction outcome).1 = .error e) :
    (d.endTransaction outcome).2 = d := by
  obtain ⟨a | e', tables⟩ := outcome
  · rfl
  · cases h

/-- A write that fails leaves the tables as they were. The statements before the
fault are undone. -/
theorem eq_of_write_error {e : StoreFault} (h : (d.write request).1 = .error e) :
    (d.write request).2 = d := by
  rw [write_eq_inTransaction] at h ⊢
  exact eq_of_endTransaction_error h

end Database

/-! ### One change -/

/-- The items afterwards are those before with one change: the new one stands
in the place of another one of its key, or behind items of other keys. -/
inductive OneChanged {α κ : Type} (key : α → κ) (new : α) : List α → List α → Prop where
  | replaced {front back : List α} {old : α} : key old = key new → old ≠ new →
      OneChanged key new (front ++ old :: back) (front ++ new :: back)
  | added {items : List α} : (∀ a ∈ items, key a ≠ key new) →
      OneChanged key new items (items ++ [new])

section

variable {α κ : Type} {key : α → κ} {new : α}

/-- An item of another key may stand in front. -/
theorem OneChanged.cons {before after : List α} (h : OneChanged key new before after) {a : α}
    (ha : key a ≠ key new) : OneChanged key new (a :: before) (a :: after) := by
  cases h with
  | @replaced front back old hkey hne =>
    rw [← List.cons_append, ← List.cons_append]
    exact .replaced hkey hne
  | added hothers => exact .added (List.forall_mem_cons.mpr ⟨ha, hothers⟩)

/-- Putting an item in the place of its key changes one item, if it was not
there before. -/
theorem PutsByKey.oneChanged [DecidableEq κ] {put : List α → List α}
    (hput : PutsByKey key new put) {items : List α} (h : new ∉ items) :
    OneChanged key new items (put items) := by
  induction items with
  | nil =>
    rw [hput.nil]
    exact .added fun _ ha => nomatch ha
  | cons a rest ih =>
    rw [List.mem_cons, not_or] at h
    rw [hput.cons]
    split
    · rename_i hkey
      show OneChanged key new ([] ++ a :: rest) ([] ++ new :: rest)
      exact .replaced hkey (Ne.symm h.1)
    · rename_i hkey
      exact (ih h.2).cons hkey

end

/-! ### A write to a ledger -/

namespace Ledger

/-- The ledger afterwards has one rule changed and one record more. -/
structure OneWrite (l : Ledger) (w : Written) (l' : Ledger) : Prop where
  rules : OneChanged Rule.key w.rule l.rules l'.rules
  records : ∃ a, l'.records = a :: l.records ∧ a.id.toNat = l.records.length + 1 ∧
    a.ruleKey = w.rule.key ∧ a.action = w.action ∧ a.after = w.rule
  lastRevision : w.rule.revision = l'.lastRevision

variable {l : Ledger} {done : List WriteRequest}

/-- No current rule has a revision that was not given out. -/
theorem Accounts.revision_le (h : l.Accounts done) {r : Rule} (hr : r ∈ l.rules) :
    r.revision.toNat ≤ l.lastRevision.toNat := by
  obtain ⟨a, ha, -⟩ := h.exists_record hr
  have hbound := (List.getElem?_eq_some_iff.mp ha).1
  rw [history, List.length_reverse, ← h.count] at hbound
  omega

/-- A write that fails leaves the ledger as it was. It fails before anything is
put. -/
theorem eq_of_write_error {request : WriteRequest} {e : StoreFault}
    (h : (l.write request).1 = .error e) : (l.write request).2 = l := by
  by_cases hroom : l.lastRevision.toNat + 1 < UInt64.size
  · rw [write_eq hroom] at h
    cases h
  · rw [write_of_exhausted hroom]

/-- A write that succeeds changes one rule and adds one record. The rule that
was there before is another one, since its revision is. -/
theorem Accounts.oneWrite (h : l.Accounts done) {request : WriteRequest} {w : Written}
    {l' : Ledger} (hwrite : l.write request = (.ok w, l')) : l.OneWrite w l' := by
  by_cases hroom : l.lastRevision.toNat + 1 < UInt64.size
  · rw [write_eq hroom] at hwrite
    obtain ⟨hw, rfl⟩ := Prod.mk.inj hwrite
    obtain rfl := Except.ok.inj hw
    have hrevision : (l.nextRule request).revision = l.lastRevision + 1 :=
      WriteRequest.revision_rule ..
    refine ⟨(putsByKey_putRule _).oneChanged fun hmem => ?_,
      ⟨l.nextRecord request, rfl, ?_, rfl, rfl, rfl⟩,
      hrevision⟩
    · -- The revision of the new rule was given to none of those that are there.
      have hold := h.revision_le hmem
      rw [hrevision, toNat_succ hroom] at hold
      omega
    -- The number of the record is the count of the records, which is a revision.
    · exact UInt64.toNat_ofNat_of_lt' (by rw [← h.count]; exact hroom)
  · rw [write_of_exhausted hroom] at hwrite
    cases (Prod.mk.inj hwrite).1

end Ledger

/-! ### A write to a database -/

namespace Database

/-- The database afterwards has one row changed and one record more. -/
structure OneWrite (d : Database) (w : Written) (d' : Database) : Prop where
  rows : ∃ text, encodeRule w.rule = .ok text ∧
    OneChanged RuleRow.key (.ofRule w.rule text) d.rules d'.rules
  records : ∃ record, d'.records = record :: d.records ∧ record.id = d'.lastAuditId ∧
    record.key = w.rule.key.text ∧ record.action = w.action.name ∧
    encodeRule w.rule = .ok record.after
  ids : d.lastAuditId < d'.lastAuditId ∧ ∀ row ∈ d.records, row.id < d'.lastAuditId
  version : d'.version = d.version

variable {d : Database}

/-- The next revision is above that of every row. Nothing is assumed of the
rows, so this holds of tables that somebody altered. -/
theorem lt_of_nextRevision {revision : UInt64} (h : d.nextRevision = .ok revision) {row : RuleRow}
    (hrow : row ∈ d.rules) : row.revision < revision.toNat := by
  -- The last revision is the greatest one in the table.
  have hgreatest : row.revision ≤ d.lastRevision := by
    rw [lastRevision]
    cases hrules : d.rules with
    | nil =>
      rw [hrules] at hrow
      cases hrow
    | cons first rest =>
      rw [hrules] at hrow
      exact (foldl_max_eq_iff (f := RuleRow.revision).mp rfl).2 row hrow
  rw [nextRevision] at h
  split at h
  · rename_i hroom
    rw [← Except.ok.inj h, UInt64.toNat_ofNat_of_lt' (by omega)]
    omega
  · cases h

/-- The next audit number is above every one that was used. The rows and the
counter are both below it, so numbers are not given out twice. -/
theorem lt_of_nextAuditId {id : Int} (h : d.nextAuditId = .ok id) :
    d.lastAuditId < id ∧ ∀ row ∈ d.records, row.id < id := by
  -- The number before it bounds the counter and the records, if there are any.
  have hlast : d.lastAuditId ≤ id - 1 ∧ ∀ row ∈ d.records, row.id ≤ id - 1 := by
    rw [nextAuditId] at h
    cases hrecords : d.records with
    | nil =>
      simp only [hrecords] at h
      split at h
      · have hid := Except.ok.inj h
        exact ⟨by omega, fun _ hrow => absurd hrow List.not_mem_nil⟩
      · cases h
    | cons first rest =>
      simp only [hrecords] at h
      split at h
      · have hid := Except.ok.inj h
        refine ⟨by omega, fun row hrow => ?_⟩
        have hgreatest : row.id ≤ rest.foldl (fun n r => max n r.id) first.id :=
          (foldl_max_eq_iff (f := AuditRow.id).mp rfl).2 row hrow
        omega
      · cases h
  refine ⟨by omega, fun row hrow => ?_⟩
  have hrow := hlast.2 row hrow
  omega

/-- A write that succeeds changes one row and adds one record. The row that is
replaced has a lower revision, so it is another one. -/
theorem oneWrite_of_write {request : WriteRequest} {w : Written} {d' : Database}
    (h : d.write request = (.ok w, d')) : d.OneWrite w d' := by
  rw [write] at h
  cases htransaction : d.transaction request with
  | error e =>
    rw [htransaction] at h
    cases (Prod.mk.inj h).1
  | ok p =>
    rw [htransaction] at h
    obtain ⟨hw, rfl⟩ := Prod.mk.inj h
    obtain rfl := Except.ok.inj hw
    obtain ⟨before, revision, text, old, id, -, hrevision, htext, -, -, hid, hw, hd⟩ :=
      transaction_eq_ok_iff.mp htransaction
    obtain ⟨hlast, hids⟩ := lt_of_nextAuditId hid
    have hrule : p.1.rule = request.rule before revision := by rw [hw]
    rw [← hrule] at htext
    rw [hd]
    refine ⟨⟨text, htext, (putsByKey_putRow _).oneChanged fun hmem => ?_⟩,
      ⟨_, rfl, rfl, rfl, rfl, htext⟩, ⟨hlast, hids⟩, rfl⟩
    -- The row has a greater revision than those that were there.
    have hless : (p.1.rule.revision.toNat : Int) < revision.toNat :=
      lt_of_nextRevision hrevision hmem
    rw [hrule, WriteRequest.revision_rule] at hless
    omega

end Database

end Overrides
