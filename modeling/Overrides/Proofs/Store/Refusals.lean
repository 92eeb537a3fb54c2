import Overrides.Proofs.Instant.Reading
import Overrides.Proofs.Rule.Size
import Overrides.Proofs.Store.Holding
import Overrides.Server.Auth

/-!
# `Overrides.Proofs.Store.Refusals`: why a valid write is refused

A store that holds rules can read them again, so it finds the rule of the
key and its text. What is left to stop a valid write are limits: the
counters of revisions and audit records run out, an instant has no written
form, or the text of the rule does not fit a row. The last one takes a
name that is far longer than actors may be, since everything else in a
valid rule is short.

* `Backend.AtLimit`: the limits, each with its fault.
* `Database.atLimit_of_transaction`: the transaction, statement by statement.
* `Backend.Holds.atLimit_of_write`: a store of either kind.
-/

set_option autoImplicit false

namespace Overrides

/-! ### Limits -/

/-- The rule that the request brings about has a name of more than twice the
bytes that an actor may have. Actors are measured before they are put in
lower case, which may take more room, so the bound is doubled. -/
def Backend.LongName (s : Backend) (request : WriteRequest) : Prop :=
  ∃ name : String, 2 * maxActorBytes < name.utf8ByteSize ∧
    (request.actor = some name ∨
      ∃ r, RuleStore.get? s request.key = .ok (some r) ∧ r.createdBy = some name)

/-- The limits at which a store refuses a valid request. Each comes with the
fault that is reported; in memory there is one, and on disk there are five. -/
inductive Backend.AtLimit (request : WriteRequest) : Backend → StoreFault → Prop where
  /-- A ledger has given out the greatest revision. -/
  | exhausted {l : Ledger} : UInt64.size ≤ l.lastRevision.toNat + 1 →
      AtLimit request (.memory l) .revisionsExhausted
  /-- The greatest revision has no successor. -/
  | counter {d : Database} : Database.maxInteger ≤ d.lastRevision →
      AtLimit request (.disk d) .badRevisionCounter
  /-- The successor of the greatest revision is too great for its column. -/
  | column {d : Database} : Database.maxInteger ≤ d.lastRevision →
      AtLimit request (.disk d) .revisionOverflow
  /-- The greatest audit number is in use, or was. -/
  | auditId {d : Database} :
      (Database.maxInteger ≤ d.lastAuditId ∨ ∃ row ∈ d.records, Database.maxInteger ≤ row.id) →
      AtLimit request (.disk d) .engineFailure
  /-- The text of the rule is too long for a row, because of a name. -/
  | size {d : Database} {bytes : Nat} : maxRuleBytes < bytes → (Backend.disk d).LongName request →
      AtLimit request (.disk d) (.tooLarge bytes)
  /-- The instant of the request has no written form. -/
  | instant {d : Database} : ¬ request.time.HasWrittenForm →
      AtLimit request (.disk d) .unwritable

variable {e : StoreFault} {rules : List Rule} {request : WriteRequest}

/-! ### Texts -/

/-- A rule has a text unless an instant cannot be written, or the text is too
long. -/
theorem encodeRule_eq_error {r : Rule} (h : encodeRule r = .error e) :
    (r.toJson? = none ∧ e = .unwritable) ∨
    ∃ v, r.toJson? = some v ∧ maxRuleBytes < (Json.canonicalBytes v).length ∧
      e = .tooLarge (Json.canonicalBytes v).length := by
  -- Rewriting by the equations of `encodeRule` would evaluate its comparison.
  delta encodeRule at h
  cases hv : r.toJson? with
  | none =>
    simp only [hv] at h
    exact .inl ⟨rfl, (Except.error.inj h).symm⟩
  | some v =>
    simp only [hv] at h
    split at h
    · rename_i hlong
      exact .inr ⟨v, rfl, hlong, (Except.error.inj h).symm⟩
    · cases h

/-- A text that is too long is refused with its length. -/
theorem encodeRule_of_long {r : Rule} {v : Json} (hv : r.toJson? = some v)
    (hlong : maxRuleBytes < (Json.canonicalBytes v).length) :
    encodeRule r = .error (.tooLarge (Json.canonicalBytes v).length) := by
  delta encodeRule
  simp only [hv]
  exact if_pos hlong

/-- The name of a writer, if there is one, takes six bytes for one at most.
Where there is none, `null` takes four. -/
theorem length_ofOption_le {o : Option String} {n : Nat} (h : ∀ name ∈ o, name.utf8ByteSize ≤ n) :
    (Json.canonicalBytes (Json.ofOption .string o)).length ≤ 6 * n + 4 := by
  cases o with
  | none =>
    have hnull : (Json.canonicalBytes .null).length = 4 := by decide +kernel
    rw [Json.ofOption, hnull]
    exact Nat.le_add_left ..
  | some name =>
    have hname := h name rfl
    have hstring := Json.length_string_le_six name
    rw [Json.ofOption]
    omega

/-- A valid rule without long names fits its row. All other parts have bounds of
their own, and the sum leaves room. -/
theorem Rule.fitsRow_of_short {r : Rule} (hvalid : r.content.Valid)
    (hcreated : ∀ name ∈ r.createdBy, name.utf8ByteSize ≤ 2 * maxActorBytes)
    (hupdated : ∀ name ∈ r.updatedBy, name.utf8ByteSize ≤ 2 * maxActorBytes) : r.FitsRow := by
  intro v hv
  have htext := Rule.length_text_le hvalid hv
  have hcreatedBy := length_ofOption_le hcreated
  have hupdatedBy := length_ofOption_le hupdated
  show (Json.canonicalBytes v).length ≤ maxRuleBytes
  rw [maxActorBytes] at hcreatedBy hupdatedBy
  rw [maxRuleBytes]
  omega

/-- What a request brings about has a text, up to a limit, if what it replaces
has one. -/
theorem WriteRequest.Proper.atLimit_of_encodeRule {d : Database} (hrequest : request.Proper)
    {before : Option Rule} (hbefore : ∀ old ∈ before, old.Storable)
    (hget : RuleStore.get? (Backend.disk d) request.key = .ok before) {revision : UInt64}
    (h : encodeRule (request.rule before revision) = .error e) :
    (Backend.disk d).AtLimit request e := by
  obtain ⟨hnone, rfl⟩ | ⟨v, hv, hlong, rfl⟩ := encodeRule_eq_error h
  · refine .instant fun htime => ?_
    obtain ⟨updatedAt, hupdated, -⟩ := htime.exists_toJson?
    have hcreated : ∃ createdAt, (request.rule before revision).createdAt.toJson? = some createdAt := by
      cases before with
      | none => exact ⟨updatedAt, hupdated⟩
      | some old =>
        -- The rule keeps the first instant of its key, which was written before.
        obtain ⟨v, hv, -, -⟩ := encodeRule_eq_ok_iff.mp (hbefore old rfl).encoded
        obtain ⟨createdAt, -, hcreated, -, -⟩ := Rule.toJson?_eq_some_iff.mp hv
        exact ⟨createdAt, hcreated⟩
    obtain ⟨createdAt, hcreated⟩ := hcreated
    rw [← WriteRequest.updatedAt_rule request before revision] at hupdated
    have hsome := Rule.toJson?_eq_some_iff.mpr ⟨_, _, hcreated, hupdated, rfl⟩
    rw [hnone] at hsome
    cases hsome
  · refine .size hlong ?_
    -- Were all names short, the text would not be long.
    by_contra hshort
    have hactor : ∀ name ∈ request.actor, name.utf8ByteSize ≤ 2 * maxActorBytes := fun name hname =>
      Nat.le_of_not_lt fun hsize => hshort ⟨name, hsize, .inl hname⟩
    refine Nat.not_lt_of_le (Rule.fitsRow_of_short (hrequest.valid_rule before revision) ?_ ?_ v hv)
      hlong
    · cases before with
      | none => exact hactor
      | some old =>
        exact fun name hname =>
          Nat.le_of_not_lt fun hsize => hshort ⟨name, hsize, .inr ⟨old, hget, hname⟩⟩
    · rw [WriteRequest.updatedBy_rule]
      exact hactor

namespace Database

variable {d : Database}

/-- The last revision is no negative number, since the revisions of rules are
natural. -/
theorem lastRevision_nonneg (hrows : d.rules = rules.map Rule.row) : 0 ≤ d.lastRevision := by
  rw [lastRevision, hrows]
  cases rules with
  | nil => exact Int.le_refl 0
  | cons r rest =>
    -- The greatest revision is not below that of the first row, a natural number.
    have hgreatest : r.row.revision
        ≤ (rest.map Rule.row).foldl (fun n row => max n row.revision) r.row.revision :=
      (foldl_max_eq_iff (f := RuleRow.revision).mp rfl).2 r.row (List.mem_cons_self ..)
    have hrow : r.row.revision = r.revision.toNat := rfl
    show 0 ≤ (rest.map Rule.row).foldl (fun n row => max n row.revision) r.row.revision
    omega

/-- A revision is left below the greatest one. Revisions of rows written by the
store are natural, so the other check passes. -/
theorem nextRevision_eq_error (hrows : d.rules = rules.map Rule.row)
    (h : d.nextRevision = .error e) : e = .badRevisionCounter ∧ maxInteger ≤ d.lastRevision := by
  have hnonneg := lastRevision_nonneg hrows
  rw [nextRevision] at h
  split at h
  · cases h
  · rename_i hroom
    refine ⟨(Except.error.inj h).symm, ?_⟩
    rw [maxInteger]
    have hsize : (UInt64.size : Int) = 18446744073709551616 := rfl
    omega

/-- The next revision is one more than the last. -/
theorem toNat_of_nextRevision {revision : UInt64} (h : d.nextRevision = .ok revision) :
    (revision.toNat : Int) = d.lastRevision + 1 := by
  rw [nextRevision] at h
  split at h
  · rw [← Except.ok.inj h, UInt64.toNat_ofNat_of_lt' (by omega)]
    omega
  · cases h

/-- An audit number is left below the greatest one. The counter and the rows are
both looked at, and either may have reached it. -/
theorem nextAuditId_eq_error (h : d.nextAuditId = .error e) :
    e = .engineFailure ∧ (maxInteger ≤ d.lastAuditId ∨ ∃ row ∈ d.records, maxInteger ≤ row.id) := by
  rw [nextAuditId] at h
  cases hrecords : d.records with
  | nil =>
    simp only [hrecords] at h
    split at h
    · cases h
    · exact ⟨(Except.error.inj h).symm, .inl (by omega)⟩
  | cons first rest =>
    simp only [hrecords] at h
    split at h
    · cases h
    · refine ⟨(Except.error.inj h).symm, ?_⟩
      obtain ⟨⟨row, hrow, hmax⟩, -⟩ :=
        (foldl_max_eq_iff (f := AuditRow.id)).mp (Eq.refl (rest.foldl _ _))
      -- Either the counter has reached the limit or the number of a row has.
      by_cases hlast : maxInteger ≤ d.lastAuditId
      · exact .inl hlast
      · exact .inr ⟨row, hrow, by omega⟩

/-- A transaction over rows of storable rules stops at a limit. Reading the rule
of the key cannot fail there, so each fault comes from a later step. -/
theorem atLimit_of_transaction (hrows : d.rules = rules.map Rule.row)
    (hstorable : ∀ r ∈ rules, r.Storable) (hrequest : request.Proper)
    (h : d.transaction request = .error e) : (Backend.disk d).AtLimit request e := by
  have hget := get?_of_rows hrows hstorable request.key
  rw [transaction_eq, hget, ok_bind] at h
  -- The steps of the transaction in their order; each fault is one of the limits.
  cases hrevision : d.nextRevision with
  | error e' =>
    rw [hrevision] at h
    obtain ⟨rfl, hlast⟩ := nextRevision_eq_error hrows hrevision
    rw [← Except.error.inj h]
    exact .counter hlast
  | ok revision =>
    rw [hrevision, ok_bind] at h
    cases htext : encodeRule (request.rule (rules.find? (·.key = request.key)) revision) with
    | error e' =>
      rw [htext] at h
      rw [← Except.error.inj h]
      exact hrequest.atLimit_of_encodeRule
        (fun old hold => hstorable old (List.mem_of_find?_eq_some hold)) hget htext
    | ok text =>
      rw [htext, ok_bind, mapM_encodeRule_of_find? hstorable, ok_bind] at h
      split at h
      · rename_i hcolumn
        rw [toNat_of_nextRevision hrevision] at hcolumn
        rw [← Except.error.inj h]
        exact .column (by omega)
      · cases hid : d.nextAuditId with
        | error e' =>
          rw [hid] at h
          obtain ⟨rfl, hlast⟩ := nextAuditId_eq_error hid
          rw [← Except.error.inj h]
          exact .auditId hlast
        | ok id =>
          rw [hid] at h
          cases h

end Database

/-- A store that holds rules refuses a valid write at a limit only. Neither the
content of the request nor the rules that are there can be the reason. -/
theorem Backend.Holds.atLimit_of_write {s next : Backend} (h : s.Holds rules)
    (hrequest : request.Proper) (hfails : RuleStore.write s request = (.error e, next)) :
    s.AtLimit request e := by
  cases h with
  | @memory l _ =>
    change ((l.write request).1, Backend.memory (l.write request).2) = _ at hfails
    by_cases hroom : l.lastRevision.toNat + 1 < UInt64.size
    · rw [Ledger.write_eq hroom] at hfails
      cases (Prod.mk.inj hfails).1
    · rw [Ledger.write_of_exhausted hroom] at hfails
      rw [← Except.error.inj (Prod.mk.inj hfails).1]
      exact .exhausted (Nat.le_of_not_lt hroom)
  | @disk d _ hrows hstorable _ =>
    change ((settle d (d.transaction request)).1,
      Backend.disk (settle d (d.transaction request)).2) = _ at hfails
    cases htransaction : d.transaction request with
    | error e' =>
      rw [htransaction] at hfails
      rw [← Except.error.inj (Prod.mk.inj hfails).1]
      exact Database.atLimit_of_transaction hrows hstorable hrequest htransaction
    | ok p =>
      rw [htransaction] at hfails
      cases (Prod.mk.inj hfails).1

end Overrides
