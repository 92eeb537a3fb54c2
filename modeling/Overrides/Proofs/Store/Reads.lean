import Overrides.Proofs.Rule.Accepted
import Overrides.Proofs.Store.Refinement

/-!
# `Overrides.Proofs.Store.Reads`: reads fail closed on bad rows

What a file holds is not trusted. `RuleRow.VouchesFor` says what a row
has to be like for a rule to be read from it, and nothing is assumed of
the rows here but that no two have one key. A read answers with rules
that rows vouch for, or it fails; no bad row is passed over.

* `RuleRow.rule_eq_ok_iff_vouchesFor`: the checks of a row, taken together.
* `RuleRow.VouchesFor.accepted`: the rule passed validation.
* `Database.reads_fail_closed`: what is read under a key and what is listed.
-/

set_option autoImplicit false

namespace Overrides

/-! ### Rows that hold a rule -/

/-- The row holds the rule, and everything about it is as it should be: its
size, its algorithm, its hash, its text and its key. The other columns are not
looked at, so they may say anything. -/
structure RuleRow.VouchesFor (row : RuleRow) (r : Rule) : Prop where
  size : row.text.length ≤ maxRuleBytes
  algorithm : row.algorithm = "sha256"
  /-- The hash is the one of the text, in lower-case hexadecimal. -/
  hash : row.hash = hexBytes (Sha256.hash row.text)
  /-- The text is the one of the rule, and the content of the rule is valid. -/
  text : Rule.reader.run row.text = .ok r
  key : r.key.text = row.key

/-- There is one algorithm, and it has one label. -/
theorem HashAlgorithm.ofLabel?_eq_some_iff {label : String} {a : HashAlgorithm} :
    ofLabel? label = some a ↔ label = "sha256" := by
  cases a
  simp [ofLabel?]

/-- A digest verifies bytes when it is the hexadecimal form of their hash. -/
theorem Digest.verifies_iff {a : HashAlgorithm} {value : String} {bytes : List UInt8} :
    (Digest.mk a value).verifies bytes = true ↔ value = hexBytes (a.hash bytes) := by
  rw [verifies, beq_iff_eq, ofBytes, eq_comm]

namespace RuleRow

variable {row : RuleRow} {r s : Rule}

/-- The checks of a row pass when the row vouches for a rule. So all that the
reader does is said by five conditions. -/
theorem rule_eq_ok_iff_vouchesFor : row.rule = .ok r ↔ row.VouchesFor r := by
  rw [rule_eq_ok_iff]
  constructor
  · rintro ⟨hsize, a, hlabel, hverified, hread, hkey⟩
    cases a
    exact ⟨hsize, HashAlgorithm.ofLabel?_eq_some_iff.mp hlabel, Digest.verifies_iff.mp hverified,
      mapError_eq_ok_iff.mp hread, hkey⟩
  · intro h
    exact ⟨h.size, .sha256, HashAlgorithm.ofLabel?_eq_some_iff.mpr h.algorithm,
      Digest.verifies_iff.mpr h.hash, mapError_eq_ok_iff.mpr h.text, h.key⟩

/-- A row vouches for one rule at most. -/
theorem VouchesFor.unique (hr : row.VouchesFor r) (hs : row.VouchesFor s) : r = s := by
  have hsame := hr.text.symm.trans hs.text
  exact Except.ok.inj hsame

/-- The rule of a row has what validation establishes. -/
theorem VouchesFor.accepted (h : row.VouchesFor r) :
    r.content.Valid ∧ ∃ draft : Draft, draft.validate = .ok r.content := by
  have hform : r.HasWireForm := Rule.hasWireForm_of_reader h.text
  exact ⟨hform.valid, hform.content⟩

end RuleRow

namespace Database

variable {d : Database} {key : RuleKey} {row : RuleRow} {r : Rule} {q : Query}

/-! ### Under a key -/

/-- No two rows have one key, as the primary key of the table demands. -/
def Keyed (d : Database) : Prop := (d.rules.map RuleRow.key).Nodup

/-- What is read under a key is what the row of the key holds. -/
theorem get?_of_row (h : d.Keyed) (hrow : row ∈ d.rules) (hkey : row.key = key.text) :
    d.get? key = some <$> row.rule := by
  have hfind : d.rules.find? (·.key = key.text) = some row :=
    (Ledger.find?_key_eq_some_iff h).mpr ⟨hrow, hkey⟩
  rw [get?, hfind]

/-- Without a row of the key nothing is read, and that is no fault. -/
theorem get?_of_no_row (h : ∀ row ∈ d.rules, row.key ≠ key.text) : d.get? key = .ok none := by
  have hfind : d.rules.find? (·.key = key.text) = none := by
    rw [List.find?_eq_none]
    intro row hrow
    simpa using h row hrow
  rw [get?, hfind]

/-- A rule is read under a key when the row of the key vouches for it. Whether
the other rows are good does not matter for this. -/
theorem get?_eq_some_iff (h : d.Keyed) :
    d.get? key = .ok (some r) ↔ ∃ row ∈ d.rules, row.key = key.text ∧ row.VouchesFor r := by
  constructor
  · intro hget
    -- Keys are distinct, so the row of the key decides, if there is one.
    by_cases hrow : ∃ row ∈ d.rules, row.key = key.text
    · obtain ⟨row, hrow, hkey⟩ := hrow
      rw [get?_of_row h hrow hkey] at hget
      refine ⟨row, hrow, hkey, RuleRow.rule_eq_ok_iff_vouchesFor.mp ?_⟩
      cases hrule : row.rule with
      | error e =>
        rw [hrule] at hget
        cases hget
      | ok s =>
        rw [hrule, map_ok] at hget
        cases hget
        rfl
    · rw [get?_of_no_row fun row hmem hkey => hrow ⟨row, hmem, hkey⟩] at hget
      cases hget
  · rintro ⟨row, hrow, hkey, hvouches⟩
    rw [get?_of_row h hrow hkey, RuleRow.rule_eq_ok_iff_vouchesFor.mpr hvouches, map_ok]

/-- Nothing is read under a key only where there is no row of the key. A row
that is bad is a fault and not nothing. -/
theorem get?_eq_none_iff (h : d.Keyed) :
    d.get? key = .ok none ↔ ∀ row ∈ d.rules, row.key ≠ key.text := by
  constructor
  · intro hget row hrow hkey
    rw [get?_of_row h hrow hkey] at hget
    cases hrule : row.rule with
    | error e =>
      rw [hrule] at hget
      cases hget
    | ok s =>
      rw [hrule, map_ok] at hget
      cases hget
  · exact get?_of_no_row

/-- Every other row of the key makes the read fail. So a bad row is never taken
for a missing one. -/
theorem get?_fails_iff (h : d.Keyed) :
    (∃ e, d.get? key = .error e) ↔
      ∃ row ∈ d.rules, row.key = key.text ∧ ∀ r, ¬ row.VouchesFor r := by
  constructor
  · rintro ⟨e, hget⟩
    by_cases hrow : ∃ row ∈ d.rules, row.key = key.text
    · obtain ⟨row, hrow, hkey⟩ := hrow
      refine ⟨row, hrow, hkey, fun r hvouches => ?_⟩
      rw [(get?_eq_some_iff h).mpr ⟨row, hrow, hkey, hvouches⟩] at hget
      cases hget
    · rw [get?_of_no_row fun row hmem hkey => hrow ⟨row, hmem, hkey⟩] at hget
      cases hget
  · rintro ⟨row, hrow, hkey, hnot⟩
    rw [get?_of_row h hrow hkey]
    cases hrule : row.rule with
    | error e => exact ⟨e, rfl⟩
    | ok r => exact absurd (RuleRow.rule_eq_ok_iff_vouchesFor.mp hrule) (hnot r)

/-! ### Listings -/

/-- The rows that a query selects, in the order of their columns. -/
def chosen (d : Database) (q : Query) : List RuleRow :=
  (d.rules.filter (RuleRow.selectedBy q)).mergeSort RuleRow.precedes

/-- The chosen rows are those that the query selects. -/
theorem mem_chosen : row ∈ d.chosen q ↔ row ∈ d.rules ∧ row.selectedBy q = true := by
  rw [chosen, List.mem_mergeSort, List.mem_filter]

/-- A listing reads the chosen rows in order and stops at the first that fails.
-/
theorem list_eq (d : Database) (q : Query) : d.list q = (d.chosen q).mapM RuleRow.rule := rfl

/-- A listing succeeds when every row that it selects vouches for a rule. -/
theorem list_succeeds_iff :
    (∃ rules, d.list q = .ok rules) ↔
      ∀ row ∈ d.rules, row.selectedBy q = true → ∃ r, row.VouchesFor r := by
  rw [list_eq, exists_mapM_eq_ok_iff]
  simp only [mem_chosen, RuleRow.rule_eq_ok_iff_vouchesFor, and_imp]

/-- A listing has one rule for every row that it selects. -/
theorem list_eq_ok_iff {rules : List Rule} :
    d.list q = .ok rules ↔ List.Forall₂ RuleRow.VouchesFor (d.chosen q) rules := by
  rw [list_eq, mapM_eq_ok_iff]
  simp only [RuleRow.rule_eq_ok_iff_vouchesFor]

/-- The order of rows, by their columns. -/
theorem precedes_iff (a b : RuleRow) :
    a.precedes b = true ↔ b.priority < a.priority ∨
      a.priority = b.priority ∧ b.revision ≤ a.revision := by
  simp only [RuleRow.precedes, Bool.or_eq_true, Bool.and_eq_true, decide_eq_true_iff]

/-- The rows stand by priority and then by revision, greatest first. -/
theorem pairwise_chosen (d : Database) (q : Query) :
    (d.chosen q).Pairwise fun a b => a.precedes b = true := by
  refine List.pairwise_mergeSort (fun a b c hab hbc => ?_) (fun a b => ?_) _
  · rw [precedes_iff] at hab hbc ⊢
    omega
  · rw [Bool.or_eq_true, precedes_iff, precedes_iff]
    omega

/-- **Reads fail closed on the bad rows and on no others.** Whatever the
table of rules holds, a rule is read under a key exactly if the row of the
key vouches for it, nothing is read exactly if there is no such row, and
otherwise the read fails. A listing succeeds exactly if every row that it
selects vouches for a rule, and then it has these rules, one for each row,
in the order of the rows. Every rule that is read passed validation. -/
theorem reads_fail_closed (d : Database) (h : d.Keyed) :
    (∀ key : RuleKey,
      (∀ r, d.get? key = .ok (some r) ↔
        ∃ row ∈ d.rules, row.key = key.text ∧ row.VouchesFor r) ∧
      (d.get? key = .ok none ↔ ∀ row ∈ d.rules, row.key ≠ key.text) ∧
      ((∃ e, d.get? key = .error e) ↔
        ∃ row ∈ d.rules, row.key = key.text ∧ ∀ r, ¬ row.VouchesFor r)) ∧
    (∀ q : Query,
      ((∃ rules, d.list q = .ok rules) ↔
        ∀ row ∈ d.rules, row.selectedBy q = true → ∃ r, row.VouchesFor r) ∧
      ∀ rules, d.list q = .ok rules →
        ∃ rows, rows.Perm (d.rules.filter (RuleRow.selectedBy q)) ∧
          (rows.Pairwise fun a b => a.precedes b = true) ∧
          List.Forall₂ RuleRow.VouchesFor rows rules) ∧
    ∀ r : Rule, (∃ key, d.get? key = .ok (some r)) ∨ (∃ q rules, d.list q = .ok rules ∧ r ∈ rules) →
      r.content.Valid ∧ ∃ draft : Draft, draft.validate = .ok r.content := by
  refine ⟨fun key => ?_, fun q => ⟨list_succeeds_iff, fun rules hlist => ?_⟩, fun r hread => ?_⟩
  · exact ⟨fun r => get?_eq_some_iff h, get?_eq_none_iff h, get?_fails_iff h⟩
  · exact ⟨d.chosen q, List.mergeSort_perm .., d.pairwise_chosen q, list_eq_ok_iff.mp hlist⟩
  · rcases hread with ⟨key, hget⟩ | ⟨q, rules, hlist, hr⟩
    · obtain ⟨row, -, -, hvouches⟩ := (get?_eq_some_iff h).mp hget
      exact hvouches.accepted
    · obtain ⟨i, hi, rfl⟩ := List.getElem_of_mem hr
      have hrules := list_eq_ok_iff.mp hlist
      exact (hrules.get (hrules.length_eq ▸ hi) hi).accepted

/-! ### A row that was copied to another key -/

/-- The rule that `calmFeed` brings about in a new store. -/
def calmFeedRule : Rule := Ledger.empty.nextRule calmFeed

/-- The rule can be stored. -/
theorem calmFeedRule_storable : calmFeedRule.Storable :=
  calmFeed_regular.storable_first calmFeed_fitsRow

/-- Its row, which is good, and a copy of the row under another key, which
is not. -/
def copiedTables : Database :=
  { empty with rules := [calmFeedRule.row, { calmFeedRule.row with key := "copy" }] }

/-- The copy vouches for nothing: its text still has the first key. -/
theorem not_vouchesFor_copy (r : Rule) :
    ¬ ({ calmFeedRule.row with key := "copy" } : RuleRow).VouchesFor r := by
  intro h
  have hread : Rule.reader.run calmFeedRule.text = .ok calmFeedRule :=
    mapError_eq_ok_iff.mp calmFeedRule_storable.decodeRule_text
  have hsame : r = calmFeedRule := Except.ok.inj (h.text.symm.trans hread)
  have hkey := h.key
  rw [hsame] at hkey
  exact absurd hkey (by decide)

/-- The good row is read, the copy is an error, and so is every listing of both.
A key without a row is not an error: it has no rule. -/
theorem reads_of_copiedTables :
    copiedTables.Keyed ∧
    copiedTables.get? ⟨"calm-feed"⟩ = .ok (some calmFeedRule) ∧
    copiedTables.get? ⟨"absent"⟩ = .ok none ∧
    (∃ e, copiedTables.get? ⟨"copy"⟩ = .error e) ∧
    ¬ ∃ rules, copiedTables.list .enabled = .ok rules := by
  have hkeyed : copiedTables.Keyed := by
    show ["calm-feed", "copy"].Nodup
    decide
  obtain ⟨hkeys, hlists, -⟩ := reads_fail_closed copiedTables hkeyed
  refine ⟨hkeyed, ?_, ?_, ?_, ?_⟩
  · refine ((hkeys _).1 calmFeedRule).mpr ⟨calmFeedRule.row, List.mem_cons_self .., rfl, ?_⟩
    exact RuleRow.rule_eq_ok_iff_vouchesFor.mp calmFeedRule_storable.rule_row
  · refine (hkeys _).2.1.mpr ?_
    simp only [copiedTables, List.forall_mem_cons]
    exact ⟨by decide, by decide, fun _ h => nomatch h⟩
  · refine (hkeys _).2.2.mpr ⟨_, List.mem_cons_of_mem _ (List.mem_singleton_self _), rfl, ?_⟩
    exact not_vouchesFor_copy
  · intro hlist
    have hcopy := (hlists .enabled).1.mp hlist { calmFeedRule.row with key := "copy" }
      (List.mem_cons_of_mem _ (List.mem_singleton_self _)) (calmFeedRule.selectedBy_row .enabled)
    obtain ⟨r, hr⟩ := hcopy
    exact not_vouchesFor_copy r hr

end Database

end Overrides
