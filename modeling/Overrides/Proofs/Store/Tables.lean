import Overrides.Proofs.Store.Ledger
import Overrides.Proofs.Store.Rows
import Overrides.Proofs.Store.Transaction

/-!
# `Overrides.Proofs.Store.Tables`: the tables that hold a ledger

`Database.ofLedger` is the database with a row for every rule and every
record of a ledger. A ledger is storable when everything in it is, and
its counters agree: the number of records is the last revision given
out, the last revision is that of some current rule, and the records
are numbered in descending order.

* `get?_ofLedger`, `list_ofLedger` and `trail_ofLedger`: the tables answer
  as the ledger does.
* `write_ofLedger`: a write to the tables is the write to the ledger.
* `Ledger.Storable.next`: writes keep the ledger storable.
-/

set_option autoImplicit false

namespace Overrides

/-! ### Greatest columns -/

/-- The greatest of the values at a list of items is the value at one of
them, and no other value is greater. -/
theorem foldl_max_eq_iff {α : Type} {f : α → Int} {first : α} {rest : List α} {m : Int} :
    rest.foldl (fun n a => max n (f a)) (f first) = m ↔
      (∃ a ∈ first :: rest, f a = m) ∧ ∀ a ∈ first :: rest, f a ≤ m := by
  have hmax : ((first :: rest).map f).max?
      = some (rest.foldl (fun n a => max n (f a)) (f first)) := by
    rw [List.map_cons, List.max?_cons', List.foldl_map]
  rw [← Option.some.injEq, ← hmax, List.max?_eq_some_iff, List.mem_map, List.forall_mem_map]

/-! ### Storable ledgers -/

/-- The tables with the rows of a ledger. They are what a database has after the
writes that led to the ledger, provided that each of these had a row. -/
def Database.ofLedger (l : Ledger) : Database where
  rules := l.rules.map Rule.row
  records := l.records.map AuditRecord.row
  lastAuditId := l.records.length
  version := some tableVersion

/-- Everything in the ledger can be stored, and its counters agree: revisions
and audit numbers are both counts of the records, and the greatest revision is
that of a rule. -/
structure Ledger.Storable (l : Ledger) : Prop where
  rules : ∀ r ∈ l.rules, r.Storable
  records : ∀ a ∈ l.records, a.Storable
  count : l.lastRevision.toNat = l.records.length
  revisions : ∀ r ∈ l.rules, r.revision.toNat ≤ l.records.length
  greatest : l.records = [] ∨ ∃ r ∈ l.rules, r.revision.toNat = l.records.length
  ids : ∀ a ∈ l.records, a.id.toNat ≤ l.records.length
  descending : l.records.Pairwise fun a b => b.id.toNat < a.id.toNat

/-- An empty ledger can be stored. -/
theorem Ledger.storable_empty : Ledger.empty.Storable where
  rules := fun _ h => nomatch h
  records := fun _ h => nomatch h
  count := rfl
  revisions := fun _ h => nomatch h
  greatest := .inl rfl
  ids := fun _ h => nomatch h
  descending := .nil

namespace Database

/-! ### Rows of storable rules -/

section

variable {d : Database} {rules : List Rule}

/-- Among the rows of storable rules the rule of a key is found. A database
looks for the text of the key, and keys are equal when their texts are. -/
theorem get?_of_rows (hrows : d.rules = rules.map Rule.row) (h : ∀ r ∈ rules, r.Storable)
    (key : RuleKey) : d.get? key = .ok (rules.find? (·.key = key)) := by
  -- The row of a key is the row of its rule.
  have hfind : d.rules.find? (·.key = key.text) = (rules.find? (·.key = key)).map Rule.row := by
    rw [hrows, List.find?_map]
    congr 2
    funext r
    show decide (r.key.text = key.text) = decide (r.key = key)
    rw [decide_eq_decide]
    exact RuleKey.text_inj
  rw [get?, hfind]
  cases hget : rules.find? (·.key = key) with
  | none => rfl
  | some r =>
    have hmem : r ∈ rules := List.mem_of_find?_eq_some hget
    show some <$> r.row.rule = _
    rw [(h r hmem).rule_row]
    rfl

/-- The texts of rules that were stored can be written again. A write needs the
text of the rule that it replaces, for the trail. -/
theorem mapM_encodeRule_of_find? (h : ∀ r ∈ rules, r.Storable) (key : RuleKey) :
    (rules.find? (·.key = key)).mapM encodeRule
      = .ok ((rules.find? (·.key = key)).map Rule.text) := by
  cases hfind : rules.find? (·.key = key) with
  | none => rfl
  | some old =>
    rw [Option.mapM_some, (h old (List.mem_of_find?_eq_some hfind)).encoded]
    rfl

/-- The rows of storable rules are listed as the rules are. Selecting, sorting
and reading are taken from the rows to the rules, one after the other. -/
theorem list_of_rows (hrows : d.rules = rules.map Rule.row) (h : ∀ r ∈ rules, r.Storable)
    (q : Query) : d.list q = .ok (Rule.sortByPrecedence (rules.filter q.accepts)) := by
  let chosen := Rule.sortByPrecedence (rules.filter q.accepts)
  have hselect : d.rules.filter (RuleRow.selectedBy q)
      = (rules.filter q.accepts).map Rule.row := by
    rw [hrows, List.filter_map]
    congr 2
    funext r
    exact r.selectedBy_row q
  -- Rows are sorted by their columns, and these columns are those of the rules.
  have hsort : ((rules.filter q.accepts).map Rule.row).mergeSort RuleRow.precedes
      = chosen.map Rule.row :=
    (List.map_mergeSort fun a _ b _ => (Rule.precedes_row a b).symm).symm
  have hread : ∀ r ∈ chosen, (RuleRow.rule ∘ Rule.row) r = .ok r := by
    intro r hr
    have hmem : r ∈ rules.filter q.accepts := List.mem_mergeSort.mp hr
    exact (h r (List.mem_filter.mp hmem).1).rule_row
  rw [list, hselect, hsort, List.mapM_map, mapM_eq_ok hread, List.map_id']

/-- A database puts a row in the place of its key. -/
theorem putsByKey_putRow (row : RuleRow) : PutsByKey RuleRow.key row (putRow row) :=
  ⟨rfl, fun _ _ => rfl⟩

/-- Putting the row of a rule among the rows of rules is putting the rule. Rows
are found by the text of the key, which determines it. -/
theorem putRow_map (r : Rule) (rules : List Rule) :
    putRow r.row (rules.map Rule.row) = (Ledger.putRule r rules).map Rule.row := by
  induction rules with
  | nil => rfl
  | cons first rest ih =>
    have hkey : first.row.key = r.row.key ↔ first.key = r.key := RuleKey.text_inj
    rw [List.map_cons, putRow, Ledger.putRule]
    by_cases hsame : first.key = r.key
    · rw [if_pos hsame, if_pos (hkey.mpr hsame)]
      rfl
    · rw [if_neg hsame, if_neg (hsame ∘ hkey.mp), ih]
      rfl

end

/-! ### Reading -/

variable {l : Ledger}

/-- The tables of a ledger give the rule that the ledger gives. All rows hold
storable rules, so none of the checks on reading stops it. -/
theorem get?_ofLedger (h : l.Storable) (key : RuleKey) :
    (ofLedger l).get? key = .ok (l.get? key) := get?_of_rows rfl h.rules key

/-- The tables of a ledger list what the ledger lists, in the same order: the
columns that the listing is sorted by are taken from the rules. -/
theorem list_ofLedger (h : l.Storable) (q : Query) :
    (ofLedger l).list q = .ok (l.list q) := list_of_rows rfl h.rules q

/-- The tables of a ledger have its trail, for one key or for all, up to any
limit. Rows are stored newest first, like the records of a ledger. -/
theorem trail_ofLedger (h : l.Storable) (key : Option RuleKey) (limit : Nat) :
    (ofLedger l).trail key limit = .ok (l.trail key limit) := by
  let chosen := l.records.filter fun a => key.all (a.ruleKey = ·)
  have hselect : (ofLedger l).records.filter (fun row => key.all (row.key = ·.text))
      = chosen.map AuditRecord.row := by
    rw [ofLedger, List.filter_map]
    congr 2
    funext a
    show key.all (fun k => decide (a.ruleKey.text = k.text)) = key.all (a.ruleKey = ·)
    simp only [RuleKey.text_inj]
  -- The rows stand newest first already, so sorting them changes nothing.
  have hdescending :
      (chosen.map AuditRecord.row).Pairwise fun a b => decide (b.id ≤ a.id) = true := by
    rw [List.pairwise_map]
    refine (h.descending.filter _).imp fun {a b} hab => ?_
    show decide ((b.id.toNat : Int) ≤ a.id.toNat) = true
    rw [decide_eq_true_iff]
    omega
  have hread : ∀ a ∈ chosen.take limit, (AuditRow.record ∘ AuditRecord.row) a = .ok a := by
    intro a ha
    exact (h.records a (List.mem_filter.mp (List.mem_of_mem_take ha)).1).record_row
  rw [trail, hselect, List.mergeSort_of_pairwise hdescending, ← List.map_take, List.mapM_map,
    mapM_eq_ok hread, List.map_id']
  rfl

/-! ### Counters -/

/-- The greatest revision in the tables of a ledger is the number of its
records. -/
theorem lastRevision_ofLedger (h : l.Storable) : (ofLedger l).lastRevision = l.records.length := by
  rw [lastRevision, ofLedger]
  -- There is no rule only as long as nothing was written.
  cases hrules : l.rules with
  | nil =>
    obtain hnone | ⟨r, hr, -⟩ := h.greatest
    · rw [hnone]
      rfl
    · rw [hrules] at hr
      exact nomatch hr
  | cons first rest =>
    show (rest.map Rule.row).foldl (fun n row => max n row.revision) first.row.revision = _
    rw [List.foldl_map, foldl_max_eq_iff (f := fun r : Rule => r.row.revision), ← hrules]
    constructor
    · obtain hnone | ⟨r, hr, hlast⟩ := h.greatest
      · have hfirst : first ∈ l.rules := by
          rw [hrules]
          exact List.mem_cons_self ..
        have hbound := h.revisions first hfirst
        refine ⟨first, hfirst, ?_⟩
        show (first.revision.toNat : Int) = _
        rw [hnone, List.length_nil] at hbound ⊢
        omega
      · exact ⟨r, hr, congrArg Nat.cast hlast⟩
    · intro r hr
      have hbound := h.revisions r hr
      show (r.revision.toNat : Int) ≤ _
      omega

/-- The next revision in the tables is the one that the ledger gives next. -/
theorem nextRevision_ofLedger (h : l.Storable) (hroom : l.records.length + 1 < UInt64.size) :
    (ofLedger l).nextRevision = .ok (l.lastRevision + 1) := by
  have hnext : UInt64.ofNat (l.records.length + 1) = l.lastRevision + 1 := by
    rw [← h.count, UInt64.ofNat_add, UInt64.ofNat_toNat]
    rfl
  rw [nextRevision, lastRevision_ofLedger h, if_pos ⟨by omega, by omega⟩, ← hnext]
  congr 2

/-- The next audit number in the tables is the next place in the trail of the
ledger. -/
theorem nextAuditId_ofLedger (h : l.Storable) (hroom : (l.records.length : Int) < maxInteger) :
    (ofLedger l).nextAuditId = .ok (l.records.length + 1 : Int) := by
  have hids := h.ids
  rw [nextAuditId, ofLedger]
  cases hrecords : l.records with
  | nil => rfl
  | cons first rest =>
    rw [hrecords] at hids hroom
    have hlast : max ((first :: rest).length : Int)
        ((rest.map AuditRecord.row).foldl (fun n row => max n row.id) first.row.id)
        = (first :: rest).length := by
      rw [List.foldl_map]
      -- The greatest number is that of some record, so the last one is not below it.
      obtain ⟨⟨a, ha, hmax⟩, -⟩ :=
        (foldl_max_eq_iff (f := fun a : AuditRecord => a.row.id)).mp (Eq.refl (rest.foldl _ _))
      have hbound := hids a ha
      have hrow : a.row.id = a.id.toNat := rfl
      rw [← hmax]
      omega
    show (if max ((first :: rest).length : Int)
        ((rest.map AuditRecord.row).foldl (fun n row => max n row.id) first.row.id) < maxInteger
      then Except.ok (max ((first :: rest).length : Int)
        ((rest.map AuditRecord.row).foldl (fun n row => max n row.id) first.row.id) + 1)
      else Except.error StoreFault.engineFailure) = _
    rw [hlast, if_pos hroom]

/-! ### Writing -/

/-- The last revision grows by one with every record. -/
theorem toNat_nextRevision (h : l.Storable) (hroom : l.records.length + 1 < UInt64.size) :
    (l.lastRevision + 1).toNat = l.records.length + 1 := by
  rw [← h.count] at hroom ⊢
  exact Ledger.toNat_succ hroom

/-- Writing a storable rule to the tables is writing it to the ledger: the
outcome is the same, and so are the tables of what is left. There has to be room
for the number, as a column holds half of the revisions. -/
theorem write_ofLedger (h : l.Storable) {request : WriteRequest}
    (hrule : (l.nextRule request).Storable) (hroom : (l.records.length : Int) < maxInteger) :
    (ofLedger l).write request = (.ok ⟨l.nextRule request, .ofBefore (l.get? request.key)⟩,
      ofLedger (l.next request)) := by
  rw [maxInteger] at hroom
  have hsize : l.records.length + 1 < UInt64.size := by
    rw [UInt64.size]
    omega
  have hrevision := toNat_nextRevision h hsize
  -- The rule that is replaced was written before, so it has its text.
  have hold : (l.get? request.key).mapM encodeRule = .ok ((l.get? request.key).map Rule.text) :=
    mapM_encodeRule_of_find? h.rules request.key
  have hid : (UInt64.ofNat (l.records.length + 1)).toNat = l.records.length + 1 :=
    UInt64.toNat_ofNat_of_lt' hsize
  have hcommit : ofLedger (l.next request)
      = (ofLedger l).commit ⟨l.nextRule request, .ofBefore (l.get? request.key)⟩
        (l.records.length + 1) (l.nextRule request).text ((l.get? request.key).map Rule.text) := by
    rw [ofLedger, commit]
    congr 1
    · exact (putRow_map _ _).symm
    · show (l.nextRecord request).row :: _ = _ :: _
      congr 1
      show AuditRow.mk ((UInt64.ofNat (l.records.length + 1)).toNat : Int) _ _ _ _ _ _ = _
      rw [hid]
      rfl
  have hcolumn : ((l.lastRevision + 1).toNat : Int) ≤ maxInteger := by
    rw [hrevision, maxInteger]
    omega
  have htransaction : (ofLedger l).transaction request = .ok (_, ofLedger (l.next request)) :=
    transaction_eq_ok_iff.mpr ⟨_, _, _, _, _, get?_ofLedger h _, nextRevision_ofLedger h hsize,
      hrule.encoded, hcolumn, hold, nextAuditId_ofLedger h hroom, rfl, hcommit⟩
  rw [write, htransaction]
  rfl

end Database

/-! ### Storable ledgers stay storable -/

/-- The wire form of the rule, if it has one, is not too long for a row. A rule
that has none fits too, but it is not storable. -/
def Rule.FitsRow (r : Rule) : Prop :=
  ∀ v, r.toJson? = some v → (Text.Utf8.encode v.canonical).length ≤ maxRuleBytes

open Overrides.Json in
/-- A rule fits its row when the texts of its members do, with commas between
them and braces around them. -/
theorem Rule.fitsRow_of_members {r : Rule} {createdAt updatedAt : Json}
    (hcreated : r.createdAt.toJson? = some createdAt)
    (hupdated : r.updatedAt.toJson? = some updatedAt)
    (h : (listed ((r.members createdAt updatedAt).map fun m =>
      memberBytes m.1 (canonicalBytes m.2))).length + 2 ≤ maxRuleBytes) : r.FitsRow := by
  intro v hv
  obtain ⟨c, u, hc, hu, rfl⟩ := Rule.toJson?_eq_some_iff.mp hv
  obtain rfl := Option.some.inj (hcreated.symm.trans hc)
  obtain rfl := Option.some.inj (hupdated.symm.trans hu)
  show (canonicalBytes _).length ≤ maxRuleBytes
  rw [canonicalBytes_object (r.pairwise_members _ _) (r.plainName_members _ _), List.length_cons,
    List.length_append]
  exact h

/-- A request of a caller that keeps to the rules: the content passed
validation, and the time is a whole number of milliseconds in a year
that can be written. -/
structure WriteRequest.Regular (request : WriteRequest) : Prop where
  content : ∃ draft : Draft, draft.validate = .ok request.content
  time : Instant.ofMillis request.time.millis = some request.time
  year : request.time.HasWrittenYear

/-- An instant that is read from a column is in universal time. -/
theorem Instant.offset_of_ofMillis {m : Int} {t : Instant} (h : ofMillis m = some t) :
    t.offset = 0 := by
  rw [eq_of_ofMillis h]

/-- A valid rule that fits a row and has instants that can be written can be
stored. -/
theorem Rule.storable_of_fitsRow {r : Rule} (hvalid : r.content.Valid) (hfits : r.FitsRow)
    {createdAt updatedAt : Json} (hcreated : r.createdAt.toJson? = some createdAt)
    (hupdated : r.updatedAt.toJson? = some updatedAt) : r.Storable := by
  have hv := toJson?_eq_some_iff.mpr ⟨createdAt, updatedAt, hcreated, hupdated, rfl⟩
  exact storable_of_encodeRule hvalid (encodeRule_eq_ok_iff.mpr ⟨_, hv, rfl, hfits _ hv⟩)

/-- What a regular request brings about can be stored, if what it replaces
can. -/
theorem WriteRequest.Regular.storable_rule {request : WriteRequest} (h : request.Regular)
    {before : Option Rule} (hbefore : ∀ old ∈ before, old.Storable) {revision : UInt64}
    (hfits : (request.rule before revision).FitsRow) :
    (request.rule before revision).Storable := by
  obtain ⟨draft, hdraft⟩ := h.content
  have hcontent := Content.valid_of_validate hdraft
  have hoffset : Instant.WritableOffset request.time.offset := by
    rw [Instant.WritableOffset, Instant.offset_of_ofMillis h.time]
    decide
  have hwritten : request.time.toJson? = some (.string _) :=
    Option.map_eq_some_iff.mpr ⟨_, Instant.written?_of_hasWrittenForm ⟨h.year, hoffset⟩, rfl⟩
  cases before with
  | none =>
    exact Rule.storable_of_fitsRow hcontent hfits hwritten hwritten
  | some old =>
    -- The rule keeps the first instant of its key, which was written before.
    have hold := hbefore old rfl
    obtain ⟨v, hv, -, -⟩ := encodeRule_eq_ok_iff.mp hold.encoded
    obtain ⟨createdAt, -, hcreated, -, -⟩ := Rule.toJson?_eq_some_iff.mp hv
    exact Rule.storable_of_fitsRow hcontent hfits hcreated hwritten

/-- The first rule of a store can be stored. -/
theorem WriteRequest.Regular.storable_first {request : WriteRequest} (h : request.Regular)
    (hfits : (Ledger.empty.nextRule request).FitsRow) :
    (Ledger.empty.nextRule request).Storable := by
  refine h.storable_rule (fun old hold => ?_) hfits
  cases hold

/-- A write keeps the ledger storable, if its rule is short enough for a row and
a revision is left. Each of the counters moves on by one. -/
theorem Ledger.Storable.next {l : Ledger} (h : l.Storable) {request : WriteRequest}
    (hrequest : request.Regular) (hfits : (l.nextRule request).FitsRow)
    (hroom : l.records.length + 1 < UInt64.size) : (l.next request).Storable := by
  have hbefore : ∀ old ∈ l.get? request.key, old.Storable := fun old hold =>
    h.rules old (List.mem_of_find?_eq_some hold)
  have hrule : (l.nextRule request).Storable := hrequest.storable_rule hbefore hfits
  have hrevision : (l.nextRule request).revision.toNat = l.records.length + 1 := by
    rw [nextRule, WriteRequest.revision_rule, Database.toNat_nextRevision h hroom]
  have hid : (l.nextRecord request).id.toNat = l.records.length + 1 :=
    UInt64.toNat_ofNat_of_lt' hroom
  have hlength : (l.next request).records.length = l.records.length + 1 := List.length_cons
  -- Only the new rule and the new record have to be looked at; they have the
  -- greatest revision and the greatest number.
  refine ⟨?rules, ?records, ?count, ?revisions, ?greatest, ?ids, ?descending⟩
  case rules =>
    intro r hr
    obtain rfl | hold := (putsByKey_putRule _).mem hr
    · exact hrule
    · exact h.rules r hold
  case records =>
    intro a ha
    obtain rfl | hold := List.mem_cons.mp ha
    · refine ⟨hbefore, hrule, ?_⟩
      rw [nextRecord, AuditRecord.ofWrite, nextRule, WriteRequest.updatedAt_rule]
      exact hrequest.time
    · exact h.records a hold
  case count => exact (Database.toNat_nextRevision h hroom).trans hlength.symm
  case revisions =>
    intro r hr
    rw [hlength]
    obtain rfl | hold := (putsByKey_putRule _).mem hr
    · omega
    · have := h.revisions r hold
      omega
  case greatest =>
    exact .inr ⟨_, (putsByKey_putRule _).self_mem _, hrevision.trans hlength.symm⟩
  case ids =>
    intro a ha
    rw [hlength]
    obtain rfl | hold := List.mem_cons.mp ha
    · omega
    · have := h.ids a hold
      omega
  case descending =>
    refine List.pairwise_cons.mpr ⟨fun a ha => ?_, h.descending⟩
    have := h.ids a ha
    omega

end Overrides
