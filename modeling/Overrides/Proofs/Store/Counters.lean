import Overrides.Proofs.Store.Reachable
import Overrides.Proofs.Store.Refusals

/-!
# `Overrides.Proofs.Store.Counters`: how many writes a store has counted

A store that was new and has only had writes that succeeded gives the next
rule the number of the write as its revision, in memory and on disk alike.
`Backend.CountsTo` says where the counters stand. As long as they are below
the greatest integer of a column, nothing but a name or an instant without
room stops a valid write.

* `Backend.of_write_ok`: all that a write that succeeds can be.
* `Backend.Holds.rule_of_write`: the rule that it brings about.
* `Backend.CountsTo.write`: a write counts up by one.
* `Backend.CountsTo.writes`: a valid write succeeds while there is room.
-/

set_option autoImplicit false

namespace Overrides

/-! ### The counters of a database -/

namespace Database

variable {d : Database}

/-- The last revision is that of a row that no other one exceeds. There may be
several such rows; they have the same revision. -/
theorem lastRevision_eq {row : RuleRow} (hrow : row ∈ d.rules)
    (hgreatest : ∀ r ∈ d.rules, r.revision ≤ row.revision) : d.lastRevision = row.revision := by
  rw [lastRevision]
  cases hrules : d.rules with
  | nil =>
    rw [hrules] at hrow
    cases hrow
  | cons first rest =>
    rw [hrules] at hrow hgreatest
    exact (foldl_max_eq_iff (f := RuleRow.revision)).mpr ⟨⟨row, hrow, rfl⟩, hgreatest⟩

/-- The greatest revision column is that of the rule with the greatest revision.
The column has the number of the revision, as long as the row was written by the
store. -/
theorem lastRevision_of_rows {rules : List Rule} (hrows : d.rules = rules.map Rule.row) {r : Rule}
    (hr : r ∈ rules) (hgreatest : ∀ t ∈ rules, t.revision.toNat ≤ r.revision.toNat) :
    d.lastRevision = r.revision.toNat := by
  have hrow : r.row ∈ d.rules := by
    rw [hrows]
    exact List.mem_map_of_mem hr
  refine lastRevision_eq hrow ?_
  rw [hrows, List.forall_mem_map]
  exact fun t ht => Int.ofNat_le.mpr (hgreatest t ht)

/-- The next audit number is one above a bound of those that were used, at most.
The counter may be ahead of the rows, where rows are missing, so it is bounded
as well. -/
theorem nextAuditId_le {id n : Int} (h : d.nextAuditId = .ok id) (hlast : d.lastAuditId ≤ n)
    (hids : ∀ row ∈ d.records, row.id ≤ n) : id ≤ n + 1 := by
  rw [nextAuditId] at h
  cases hrecords : d.records with
  | nil =>
    simp only [hrecords] at h
    split at h
    · rw [← Except.ok.inj h]
      omega
    · cases h
  | cons first rest =>
    simp only [hrecords] at h hids
    split at h
    · obtain ⟨⟨row, hrow, hmax⟩, -⟩ :=
        (foldl_max_eq_iff (f := AuditRow.id)).mp (Eq.refl (rest.foldl _ _))
      have hle := hids row hrow
      rw [← Except.ok.inj h]
      omega
    · cases h

end Database

/-! ### Names -/

/-- By whom and when a rule can be written: the name is not far longer than
that of an actor, and the instant has a written form. -/
structure Attributable (actor : Option String) (time : Instant) : Prop where
  name : ∀ name ∈ actor, name.utf8ByteSize ≤ 2 * maxActorBytes
  time : time.HasWrittenForm

/-- No rule was first written under a name that is far too long. Who wrote it
last does not matter here, since the next write replaces that name. -/
def NamesFit (rules : List Rule) : Prop :=
  ∀ r ∈ rules, ∀ name ∈ r.createdBy, name.utf8ByteSize ≤ 2 * maxActorBytes

/-! ### What a write does -/

namespace Backend

variable {s next : Backend} {rules : List Rule} {request : WriteRequest} {w : Written} {n : Nat}

/-- A write that succeeds is a write to a ledger with a revision left, or the
commit of a transaction. -/
theorem of_write_ok (h : RuleStore.write s request = (.ok w, next)) :
    (∃ l, s = .memory l ∧ l.lastRevision.toNat + 1 < UInt64.size ∧
      w.rule = l.nextRule request ∧ next = .memory (l.next request)) ∨
    ∃ d before revision id text old, s = .disk d ∧ d.get? request.key = .ok before ∧
      d.nextRevision = .ok revision ∧ d.nextAuditId = .ok id ∧
      w.rule = request.rule before revision ∧ encodeRule w.rule = .ok text ∧
      next = .disk (d.commit w id text old) := by
  cases s with
  | memory l =>
    change ((l.write request).1, memory (l.write request).2) = _ at h
    -- A ledger stops when it has given out the greatest revision.
    by_cases hroom : l.lastRevision.toNat + 1 < UInt64.size
    · rw [Ledger.write_eq hroom] at h
      obtain ⟨hw, rfl⟩ := Prod.mk.inj h
      exact .inl ⟨l, rfl, hroom, by rw [← Except.ok.inj hw], rfl⟩
    · rw [Ledger.write_of_exhausted hroom] at h
      cases (Prod.mk.inj h).1
  | disk d =>
    change ((settle d (d.transaction request)).1,
      disk (settle d (d.transaction request)).2) = _ at h
    cases htransaction : d.transaction request with
    | error e =>
      rw [htransaction] at h
      cases (Prod.mk.inj h).1
    | ok p =>
      rw [htransaction] at h
      obtain ⟨hw, rfl⟩ := Prod.mk.inj h
      obtain rfl := Except.ok.inj hw
      obtain ⟨before, revision, text, old, id, hget, hrevision, htext, -, -, hid, hw, hd⟩ :=
        Database.transaction_eq_ok_iff.mp htransaction
      have hrule : p.1.rule = request.rule before revision := by rw [hw]
      rw [← hrule] at htext
      exact .inr ⟨d, before, revision, id, text, old, rfl, hget, hrevision, hid, hrule, htext,
        congrArg disk hd⟩

/-- The rule of a write is that of its request, over a rule that was held. Which
one that is follows from the key, but is not needed. -/
theorem Holds.rule_of_write (h : s.Holds rules)
    (hwrite : RuleStore.write s request = (.ok w, next)) :
    ∃ before revision, (∀ old ∈ before, old ∈ rules) ∧ w.rule = request.rule before revision := by
  obtain ⟨l, rfl, -, hrule, -⟩ |
      ⟨d, before, revision, id, text, old, rfl, hget, -, -, hrule, -, -⟩ := of_write_ok hwrite
  · cases h with
    | memory => exact ⟨_, _, fun old hold => List.mem_of_find?_eq_some hold, hrule⟩
  · cases h with
    | disk hrows hstorable _ =>
      rw [Database.get?_of_rows hrows hstorable] at hget
      refine ⟨before, revision, fun old hold => ?_, hrule⟩
      rw [← Except.ok.inj hget] at hold
      exact List.mem_of_find?_eq_some hold

/-! ### Counting -/

/-- The counters of the store stand at this number. The audit numbers on disk
may be behind the revisions, but not ahead of them. -/
inductive CountsTo : Backend → Nat → Prop where
  | memory {l : Ledger} {n : Nat} : l.lastRevision.toNat = n → CountsTo (.memory l) n
  | disk {d : Database} {n : Nat} : d.lastRevision = n → d.lastAuditId ≤ n →
      (∀ row ∈ d.records, row.id ≤ n) → CountsTo (.disk d) n

/-- A new store has counted nothing. -/
theorem Fresh.countsTo (h : s.Fresh) : s.CountsTo 0 := by
  cases h with
  | memory => exact .memory rfl
  | disk => exact .disk rfl (Int.le_refl 0) fun _ h => nomatch h

/-- A write counts up, and its rule gets the number. In memory and on disk the
number is found in different ways, but it is the same one. -/
theorem CountsTo.write (hcount : s.CountsTo n) (h : s.Holds rules) (hcounted : s.Counted)
    (hrequest : request.Proper) (hwrite : RuleStore.write s request = (.ok w, next)) :
    w.rule.revision.toNat = n + 1 ∧ next.CountsTo (n + 1) := by
  obtain ⟨l, rfl, hroom, hrule, rfl⟩ | ⟨d, before, revision, id, text, old, rfl, -, hrevision, hid,
    hrule, -, hnext⟩ := of_write_ok hwrite
  · cases hcount with
    | memory hlast =>
      have hnumber : (l.lastRevision + 1).toNat = n + 1 := by rw [Ledger.toNat_succ hroom, hlast]
      refine ⟨?_, .memory hnumber⟩
      rw [hrule, Ledger.nextRule, WriteRequest.revision_rule, hnumber]
  · cases hcount with
    | disk hlast haudit hids =>
      have hnumber : w.rule.revision.toNat = n + 1 := by
        have hrevision := Database.toNat_of_nextRevision hrevision
        rw [hrule, WriteRequest.revision_rule]
        omega
      have hbound := Database.nextAuditId_le hid haudit hids
      refine ⟨hnumber, ?_⟩
      obtain ⟨hless, -⟩ := h.lt_of_write hcounted hwrite
      obtain ⟨-, hholds⟩ := h.of_write hrequest hwrite
      subst hnext
      cases hholds with
      | disk hrows _ _ =>
        -- Of the rows after the write, the new one has the greatest revision.
        have hgreatest := Database.lastRevision_of_rows hrows ((Ledger.putsByKey_putRule _).self_mem _)
          fun t ht => by
            obtain rfl | hold := (Ledger.putsByKey_putRule _).mem ht
            · exact Nat.le_refl _
            · exact Nat.le_of_lt (hless t hold)
        refine .disk (by rw [hgreatest, hnumber]) hbound ?_
        intro row hrow
        rcases List.mem_cons.mp hrow with rfl | hold
        · exact hbound
        · have hle := hids row hold
          omega

/-! ### Room for a write -/

/-- The names that a request would leave on record are short, if those on record
are. -/
theorem Holds.not_longName (h : s.Holds rules) (hnames : NamesFit rules)
    (hby : Attributable request.actor request.time) : ¬ s.LongName request := by
  rintro ⟨name, hsize, hactor | ⟨r, hget, hname⟩⟩
  · exact Nat.not_lt_of_le (hby.name name hactor) hsize
  · rw [h.get?_eq] at hget
    have hmem : r ∈ rules := List.mem_of_find?_eq_some (Except.ok.inj hget)
    exact Nat.not_lt_of_le (hnames r hmem name hname) hsize

/-- While the counters are below their limit, a valid write succeeds. All other
limits of a store are out of reach: names are short and the instant can be
written. -/
theorem CountsTo.writes (hcount : s.CountsTo n) (h : s.Holds rules)
    (hroom : (n : Int) < Database.maxInteger) (hnames : NamesFit rules) (hrequest : request.Proper)
    (hby : Attributable request.actor request.time) :
    ∃ w next, RuleStore.write s request = (.ok w, next) := by
  obtain ⟨e, hfails⟩ | ⟨w, next, hwrite, -, -⟩ := h.write hrequest
  · -- A write is stopped at a limit of the store only, and none of them is reached.
    exfalso
    have hlimit := h.atLimit_of_write hrequest hfails
    rw [Database.maxInteger] at hroom
    cases hlimit with
    | exhausted hfull =>
      cases hcount with
      | memory hlast =>
        rw [hlast, UInt64.size] at hfull
        omega
    | counter hfull | column hfull =>
      cases hcount with
      | disk hlast _ _ =>
        rw [hlast, Database.maxInteger] at hfull
        omega
    | auditId hfull =>
      cases hcount with
      | disk _ haudit hids =>
        rw [Database.maxInteger] at hfull
        obtain hfull | ⟨row, hrow, hfull⟩ := hfull
        · omega
        · have hle := hids row hrow
          omega
    | size _ hlong => exact h.not_longName hnames hby hlong
    | instant htime => exact htime hby.time
  · exact ⟨w, next, hwrite⟩

end Backend

end Overrides
