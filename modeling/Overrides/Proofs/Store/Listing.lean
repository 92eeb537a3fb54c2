import Mathlib.Data.List.Pairwise
import Overrides.Proofs.Precedence.SafeMode
import Overrides.Proofs.Store.Reads

/-!
# `Overrides.Proofs.Store.Listing`: what a listing of altered rows is

A listing selects and orders rows by their columns, while the rules come
from the texts, and only the texts are verified. Where somebody altered a
column, the listing has verified rules still, but it may lack some, have
others that the query does not accept, or have them in another order.
`Database.Truthful` says exactly when it means what the query says.

* `Database.answers_iff_truthful`: the listing answers the query exactly
  where the columns are truthful.
* `Database.truthful_of_agree`: columns that agree with the rules are.
* `Database.listing_answers_truthful_columns`: all of it in one statement.
* `listing_loses_safe_mode`: one altered column, and a verified rule that
  switches safe mode on has no effect.
-/

set_option autoImplicit false

namespace Overrides

/-- The rules are what the query asks for among the rules held: those that
it accepts, each once, by priority and then by revision. -/
structure Query.Answers (q : Query) (held rules : List Rule) : Prop where
  perm : rules.Perm (held.filter q.accepts)
  ordered : rules.Pairwise fun a b => a.precedes b = true

/-- The columns by which rows are selected and ordered are those of the rule.
The key is not among them: it is checked whenever a row is read. -/
structure RuleRow.AgreesWith (row : RuleRow) (r : Rule) : Prop where
  scope : row.scope = r.row.scope
  enabled : row.enabled = r.row.enabled
  priority : row.priority = r.row.priority
  revision : row.revision = r.row.revision

namespace RuleRow

variable {row other : RuleRow} {r s : Rule}

/-- A row gives a rule when it vouches for it, and nothing when the checks fail.
-/
theorem toOption_rule_eq_some_iff : row.rule.toOption = some r ↔ row.VouchesFor r := by
  rw [← rule_eq_ok_iff_vouchesFor]
  cases row.rule with
  | error e => simp [Except.toOption]
  | ok s => simp [Except.toOption]

/-- Columns that agree with the rule select it for the queries that accept it.
-/
theorem AgreesWith.selectedBy (h : row.AgreesWith r) (q : Query) :
    row.selectedBy q = q.accepts r := by
  rw [← Rule.selectedBy_row, RuleRow.selectedBy, h.scope, h.enabled, ← RuleRow.selectedBy]

/-- Columns that agree with their rules order the rows as the rules are ordered.
-/
theorem AgreesWith.precedes (hr : row.AgreesWith r) (hs : other.AgreesWith s) :
    row.precedes other = r.precedes s := by
  rw [← Rule.precedes_row, RuleRow.precedes, hr.priority, hr.revision, hs.priority, hs.revision,
    ← RuleRow.precedes]

end RuleRow

namespace Database

/-- The rules of the rows that pass every check. What the columns beside the
text say is of no account here. -/
def verified (d : Database) : List Rule := d.rules.filterMap fun row => row.rule.toOption

/-- What the engine makes sure of, whoever writes to the table: no two rows
have one key or one revision. -/
structure Constrained (d : Database) : Prop where
  keyed : d.Keyed
  revisions : (d.rules.map RuleRow.revision).Nodup

/-- For this query the columns say of rows what is true of their rules: whether
the query selects them, and in which order they stand. -/
structure Truthful (d : Database) (q : Query) : Prop where
  selected : ∀ row ∈ d.rules, ∀ r, row.VouchesFor r → row.selectedBy q = q.accepts r
  ordered : ∀ a ∈ d.chosen q, ∀ b ∈ d.chosen q, ∀ r s, a.VouchesFor r → b.VouchesFor s →
    a.precedes b = true → r.precedes s = true

variable {d : Database} {q : Query} {rules : List Rule} {r : Rule}

/-! ### The rules of a listing -/

/-- The verified rules are those that some row vouches for. -/
theorem mem_verified : r ∈ d.verified ↔ ∃ row ∈ d.rules, row.VouchesFor r := by
  simp only [verified, List.mem_filterMap, RuleRow.toOption_rule_eq_some_iff]

/-- Rows that vouch for rules one by one have these rules. -/
theorem filterMap_of_vouchesFor {rows : List RuleRow}
    (h : List.Forall₂ RuleRow.VouchesFor rows rules) :
    rows.filterMap (fun row => row.rule.toOption) = rules := by
  induction h with
  | nil => rfl
  | cons hrow _ ih =>
    rw [List.filterMap_cons, RuleRow.toOption_rule_eq_some_iff.mpr hrow, ih]

/-- What is listed are the rules of the rows that were selected. -/
theorem filterMap_chosen (h : d.list q = .ok rules) :
    (d.chosen q).filterMap (fun row => row.rule.toOption) = rules :=
  filterMap_of_vouchesFor (list_eq_ok_iff.mp h)

/-- What is listed is what the selected rows vouch for. -/
theorem mem_of_list (h : d.list q = .ok rules) :
    r ∈ rules ↔ ∃ row ∈ d.chosen q, row.VouchesFor r := by
  rw [← filterMap_chosen h]
  simp only [List.mem_filterMap, RuleRow.toOption_rule_eq_some_iff]

/-- A listing has the rules of the selected rows, each as often as there are
rows for it. -/
theorem perm_of_list (h : d.list q = .ok rules) :
    rules.Perm ((d.rules.filter (RuleRow.selectedBy q)).filterMap fun row => row.rule.toOption) := by
  rw [← filterMap_chosen h]
  exact (List.mergeSort_perm ..).filterMap _

/-- Whatever the columns hold, only verified rules are listed, none of them
more often than the table has it. -/
theorem subperm_of_list (h : d.list q = .ok rules) : rules.Subperm d.verified :=
  (perm_of_list h).subperm.trans (List.filter_sublist.filterMap _).subperm

/-! ### Which rules are listed -/

/-- Where the columns select truthfully, the right rules are listed. Their order
is another matter, which other columns decide. -/
theorem perm_of_selected
    (hselected : ∀ row ∈ d.rules, ∀ r, row.VouchesFor r → row.selectedBy q = q.accepts r)
    (h : d.list q = .ok rules) : rules.Perm (d.verified.filter q.accepts) := by
  have hsame : (d.rules.filter (RuleRow.selectedBy q)).filterMap (fun row => row.rule.toOption)
      = d.verified.filter q.accepts := by
    rw [verified, List.filterMap_filter, List.filter_filterMap]
    refine List.filterMap_congr fun row hrow => ?_
    cases hrule : row.rule.toOption with
    | none => simp
    | some r =>
      rw [hselected row hrow r (RuleRow.toOption_rule_eq_some_iff.mp hrule), Option.filter_some]
  rw [← hsame]
  exact perm_of_list h

/-- Where the right rules are listed, the columns select truthfully: the
rule of a row is the rule of no other row, since it has the key of the row. -/
theorem selected_of_perm (hkeyed : d.Keyed) (h : d.list q = .ok rules)
    (hperm : rules.Perm (d.verified.filter q.accepts)) {row : RuleRow} (hrow : row ∈ d.rules)
    (hvouches : row.VouchesFor r) : row.selectedBy q = q.accepts r := by
  have hlisted : r ∈ rules ↔ q.accepts r = true := by
    rw [hperm.mem_iff, List.mem_filter, mem_verified]
    exact and_iff_right ⟨row, hrow, hvouches⟩
  rw [Bool.eq_iff_iff, ← hlisted, mem_of_list h]
  constructor
  · intro hselected
    exact ⟨row, mem_chosen.mpr ⟨hrow, hselected⟩, hvouches⟩
  -- The other row has the key of the rule, so it is this row.
  · rintro ⟨other, hother, hvouches'⟩
    obtain ⟨hmem, hselected⟩ := mem_chosen.mp hother
    have hkey : other.key = row.key := hvouches'.key.symm.trans hvouches.key
    rwa [← List.inj_on_of_nodup_map hkeyed hmem hrow hkey]

/-! ### In which order -/

/-- Rules are listed in order when the rules of rows that come one after the
other are. -/
theorem ordered_iff (h : d.list q = .ok rules) :
    (rules.Pairwise fun a b => a.precedes b = true) ↔
      (d.chosen q).Pairwise fun a b => ∀ r, a.VouchesFor r → ∀ s, b.VouchesFor s →
        r.precedes s = true := by
  rw [← filterMap_chosen h, List.pairwise_filterMap]
  simp only [RuleRow.toOption_rule_eq_some_iff]

/-- No row that was selected may stand before the rows ahead of it. Revisions
are distinct, so no two rows precede each other. -/
theorem pairwise_not_precedes (h : d.Constrained) (q : Query) :
    (d.chosen q).Pairwise fun a b => ¬ b.precedes a = true := by
  have hrevisions : ((d.chosen q).map RuleRow.revision).Nodup := by
    refine ((List.mergeSort_perm ..).map RuleRow.revision).nodup_iff.mpr ?_
    exact h.revisions.sublist (List.filter_sublist.map _)
  refine ((d.pairwise_chosen q).and (List.pairwise_map.mp hrevisions)).imp ?_
  rintro a b ⟨hab, hne⟩
  rw [precedes_iff] at hab ⊢
  omega

/-- A listing is in order when the columns order the selected rows as their
rules are. -/
theorem ordered_of_truthful
    (hordered : ∀ a ∈ d.chosen q, ∀ b ∈ d.chosen q, ∀ r s, a.VouchesFor r → b.VouchesFor s →
      a.precedes b = true → r.precedes s = true)
    (h : d.list q = .ok rules) : rules.Pairwise fun a b => a.precedes b = true := by
  rw [ordered_iff h]
  refine (d.pairwise_chosen q).imp_of_mem ?_
  intro a b ha hb hab r hr s hs
  exact hordered a ha b hb r s hr hs hab

/-- Where the rules are listed in order, the columns order them truthfully:
of two rows that were selected, the columns let only one go first. -/
theorem truthful_of_ordered (hd : d.Constrained) (h : d.list q = .ok rules)
    (hordered : rules.Pairwise fun a b => a.precedes b = true) :
    ∀ a ∈ d.chosen q, ∀ b ∈ d.chosen q, ∀ r s, a.VouchesFor r → b.VouchesFor s →
      a.precedes b = true → r.precedes s = true := by
  let Right (a b : RuleRow) : Prop := ∀ r s, a.VouchesFor r → b.VouchesFor s →
    a.precedes b = true → r.precedes s = true
  -- A row stands before those behind it as its rule does, those behind it do
  -- not stand before it, and before itself every rule may stand.
  have hahead : (d.chosen q).Pairwise Right := by
    refine ((ordered_iff h).mp hordered).imp ?_
    intro a b hab r s hr hs _
    exact hab r hr s hs
  have hbehind : (d.chosen q).Pairwise (flip Right) := by
    refine (pairwise_not_precedes hd q).imp ?_
    intro a b hnot r s _ _ hba
    exact absurd hba hnot
  have hself : ∀ a ∈ d.chosen q, Right a a := by
    intro a _ r s hr hs _
    rw [hr.unique hs]
    simpa using Rule.precedes_total s s
  intro a ha b hb
  exact hahead.forall_of_forall_of_flip hself hbehind ha hb

/-! ### Listings that mean what the query says -/

/-- A listing answers the query exactly where the columns are truthful. Both
parts are equivalences: the selection and the order. -/
theorem answers_iff_truthful (hd : d.Constrained) (h : d.list q = .ok rules) :
    q.Answers d.verified rules ↔ d.Truthful q := by
  constructor
  · intro hanswers
    refine ⟨fun row hrow r hvouches => ?_, truthful_of_ordered hd h hanswers.ordered⟩
    exact selected_of_perm hd.keyed h hanswers.perm hrow hvouches
  · intro htruthful
    exact ⟨perm_of_selected htruthful.selected h, ordered_of_truthful htruthful.ordered h⟩

/-- Columns that agree with the rules are truthful, whatever the query. -/
theorem truthful_of_agree (hagree : ∀ row ∈ d.rules, ∀ r, row.VouchesFor r → row.AgreesWith r)
    (q : Query) : d.Truthful q := by
  refine ⟨fun row hrow r hvouches => (hagree row hrow r hvouches).selectedBy q, ?_⟩
  intro a ha b hb r s hr hs hab
  have hra := hagree a (mem_chosen.mp ha).1 r hr
  have hsb := hagree b (mem_chosen.mp hb).1 s hs
  rwa [← hra.precedes hsb]

/-- **A listing means what the query says where the columns are truthful.**
Whatever the table of rules holds, a listing that succeeds has verified
rules only, none of them twice. It has all the rules that the query
accepts and no others, in the order of precedence, exactly if the columns
select and order the rows as their rules would be, and so it does
whenever the columns agree with the rules. -/
theorem listing_answers_truthful_columns (d : Database) (hd : d.Constrained) (q : Query)
    (rules : List Rule) (h : d.list q = .ok rules) :
    rules.Subperm d.verified ∧
    (q.Answers d.verified rules ↔ d.Truthful q) ∧
    ((∀ row ∈ d.rules, ∀ r, row.VouchesFor r → row.AgreesWith r) →
      q.Answers d.verified rules) := by
  refine ⟨subperm_of_list h, answers_iff_truthful hd h, fun hagree => ?_⟩
  exact (answers_iff_truthful hd h).mpr (truthful_of_agree hagree q)

end Database

/-! ### One rule that switches safe mode on -/

open Overrides.Json Overrides.Text

/-- A rule that switches safe mode on, as an administrator submits it. -/
def safeModeOn : WriteRequest where
  content := ⟨⟨"dg_safe"⟩, true, 1000, .any, .ofFn .global fun
    | .safeMode => some true
    | _ => none⟩
  actor := some "ops"
  time := ⟨1760000000000000000, 0⟩

/-- The write is a regular one: its content was validated and its instant can be
written. -/
theorem safeModeOn_regular : safeModeOn.Regular where
  content := by
    refine ⟨_, Content.validate_toDraft ⟨⟨?_, ?_, ?_⟩, ?_, ?_⟩⟩
    · exact (trim_eq_self_iff _).mp (by decide)
    · decide
    · decide
    · exact Filter.valid_any
    · intro f v h
      cases f <;> trivial
  time := by decide
  year := by
    show 0 ≤ safeModeOn.time.toLocal.date.year ∧ safeModeOn.time.toLocal.date.year ≤ 9999
    decide

/-- The time of the write, as it stands in the rule. -/
theorem safeModeOn_time : safeModeOn.time.toJson? = some (.string "2025-10-09T08:53:20Z") := by
  refine Option.map_eq_some_iff.mpr ⟨_, ?_, rfl⟩
  decide

/-- The rule that it brings about in a new store. -/
def safeModeRule : Rule := Ledger.empty.nextRule safeModeOn

/-- The members of that rule. -/
def safeModeMembers : List (String × Json) :=
  [("action", .object [("safe_mode", .bool true)]),
    ("created_at", .string "2025-10-09T08:53:20Z"), ("created_by", .string "ops"),
    ("enabled", .bool true), ("match", .null), ("priority", Json.ofNat 1000),
    ("revision", Json.ofNat 1), ("rule_key", .string "dg_safe"), ("scope", .string "global"),
    ("updated_at", .string "2025-10-09T08:53:20Z"), ("updated_by", .string "ops")]

/-- The rule is short enough for a row. Its members are counted one by one. -/
theorem safeModeRule_fitsRow : safeModeRule.FitsRow := by
  have haction : canonicalBytes (.object [("safe_mode", .bool true)]) = 0x7b :: (_ ++ _) :=
    canonicalBytes_object (List.pairwise_singleton ..) (by decide)
  have hmembers : safeModeRule.members _ _ = safeModeMembers := rfl
  refine Rule.fitsRow_of_members safeModeOn_time safeModeOn_time ?_
  rw [hmembers]
  simp only [safeModeMembers, List.map_cons, List.map_nil, haction, memberBytes,
    encode_stringText, canonicalBytes_string]
  decide +kernel

/-- The rule can be stored. -/
theorem safeModeRule_storable : safeModeRule.Storable :=
  safeModeOn_regular.storable_first safeModeRule_fitsRow

/-- The row that a database writes for the rule vouches for it. -/
theorem vouchesFor_safeModeRule : safeModeRule.row.VouchesFor safeModeRule :=
  RuleRow.rule_eq_ok_iff_vouchesFor.mp safeModeRule_storable.rule_row

/-- The tables of a store that it was written to. -/
def safeModeTables : Database := { Database.empty with rules := [safeModeRule.row] }

/-- The same tables after somebody cleared the column `enabled`. -/
def mutedTables : Database :=
  { Database.empty with rules := [{ safeModeRule.row with enabled := 0 }] }

/-- As long as nobody alters a column, the listing answers the query. This is
the database that `mutedTables` is an alteration of. -/
theorem safeModeTables_answered :
    safeModeTables.Constrained ∧ safeModeTables.list .enabled = .ok [safeModeRule] ∧
      Query.enabled.Answers safeModeTables.verified [safeModeRule] := by
  have hconstrained : safeModeTables.Constrained :=
    ⟨List.nodup_singleton _, List.nodup_singleton _⟩
  have hchosen : safeModeTables.chosen .enabled = [safeModeRule.row] :=
    List.mergeSort_singleton safeModeRule.row
  have hlist : safeModeTables.list .enabled = .ok [safeModeRule] := by
    rw [Database.list_eq_ok_iff, hchosen]
    exact .cons vouchesFor_safeModeRule .nil
  obtain ⟨-, -, hagree⟩ :=
    Database.listing_answers_truthful_columns safeModeTables hconstrained _ _ hlist
  refine ⟨hconstrained, hlist, hagree fun row hrow r hvouches => ?_⟩
  obtain rfl : row = safeModeRule.row := List.mem_singleton.mp hrow
  rw [hvouches.unique vouchesFor_safeModeRule]
  exact ⟨rfl, rfl, rfl, rfl⟩

/-- **An altered column takes a verified rule out of every snapshot.** The
row still vouches for the rule, and the rule is enabled, but the listing
of enabled rules succeeds without it. So no snapshot is forced any more,
where the rules that are verified force every one. -/
theorem listing_loses_safe_mode :
    mutedTables.Constrained ∧ mutedTables.list .enabled = .ok [] ∧
    ¬ Query.enabled.Answers mutedTables.verified [] ∧
    ∀ (compiler : Compiler) (c : Context) (time : Instant),
      (Snapshot.compile compiler [] c time).safeModeForced = false ∧
      (Snapshot.compile compiler mutedTables.verified c time).safeModeForced = true := by
  -- None of the checks looks at the column.
  have hvouches : ({ safeModeRule.row with enabled := 0 } : RuleRow).VouchesFor safeModeRule :=
    ⟨vouchesFor_safeModeRule.size, vouchesFor_safeModeRule.algorithm,
      vouchesFor_safeModeRule.hash, vouchesFor_safeModeRule.text, vouchesFor_safeModeRule.key⟩
  have hverified : safeModeRule ∈ mutedTables.verified :=
    Database.mem_verified.mpr ⟨_, List.mem_singleton_self _, hvouches⟩
  refine ⟨⟨List.nodup_singleton _, List.nodup_singleton _⟩, ?_, ?_, ?_⟩
  · have hchosen : mutedTables.chosen .enabled = [] := List.mergeSort_nil
    rw [Database.list_eq_ok_iff, hchosen]
    exact .nil
  · intro hanswers
    have hmem : safeModeRule ∈ mutedTables.verified.filter Query.enabled.accepts :=
      List.mem_filter.mpr ⟨hverified, rfl⟩
    rw [← hanswers.perm.mem_iff] at hmem
    exact nomatch hmem
  · intro compiler c time
    constructor
    · have hoff : ¬ SafeModeRequested [] c.normalized := by
        rintro ⟨r, hr, -⟩
        exact nomatch hr
      rw [← compiled_safeMode_iff] at hoff
      exact Bool.eq_false_iff.mpr hoff
    · refine (compiled_safeMode_iff mutedTables.verified c).mpr ?_
      exact ⟨safeModeRule, hverified, ⟨rfl, rfl⟩, rfl, rfl⟩

end Overrides
