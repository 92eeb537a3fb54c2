import Overrides.Proofs.Store.Tables

/-!
# `Overrides.Proofs.Store.Refinement`: the two stores give the same answers

A store is used by calls: writes, reads of all kinds, and closing and
opening it again. `answers` collects what a store of either kind says
to a list of calls, each call made on the state that the calls before
it leave.

* `answer_ofLedger`: on the tables of a storable ledger, one call gives
  the answer of the ledger and the tables of the next ledger.
* `database_answers_as_ledger`: a database made from a blank file gives
  the answers of a ledger, and no call fails.
-/

set_option autoImplicit false

namespace Overrides

/-- What a caller can ask of a store. -/
inductive StoreCall where
  | write (request : WriteRequest)
  | get (key : RuleKey)
  | list (q : Query)
  | trail (key : Option RuleKey) (limit : Nat)
  /-- The store is closed and opened again. -/
  | reopen

/-- What the store says. -/
inductive StoreAnswer where
  | written (outcome : Except StoreFault Written)
  | rule (outcome : Except StoreFault (Option Rule))
  | rules (outcome : Except StoreFault (List Rule))
  | records (outcome : Except StoreFault (List AuditRecord))
  | opened (outcome : Except StoreFault Unit)

/-- The call has not failed. -/
def StoreAnswer.succeeded : StoreAnswer → Bool
  | written outcome => outcome.isOk
  | rule outcome => outcome.isOk
  | rules outcome => outcome.isOk
  | records outcome => outcome.isOk
  | opened outcome => outcome.isOk

namespace StoreCall

/-- The call is a write. -/
def isWrite : StoreCall → Bool
  | write _ => true
  | _ => false

variable {σ : Type} [RuleStore σ] (reopened : σ → Except StoreFault σ)

/-- The answer to one call, and the state after it. -/
def answer (s : σ) : StoreCall → StoreAnswer × σ
  | write request =>
    let (outcome, next) := RuleStore.write s request
    (.written outcome, next)
  | get key => (.rule (RuleStore.get? s key), s)
  | list q => (.rules (RuleStore.list s q), s)
  | trail key limit => (.records (RuleStore.trail s key limit), s)
  | reopen =>
    let (outcome, next) := settle s ((reopened s).map ((), ·))
    (.opened outcome, next)

/-- The answers to calls made one after the other, each on the store that the
one before has left. Reopening is a call as well, so it may happen anywhere
between the others. -/
def answers (s : σ) : List StoreCall → List StoreAnswer
  | [] => []
  | c :: calls => (answer reopened s c).1 :: answers (answer reopened s c).2 calls

end StoreCall

open StoreCall Overrides.Json Overrides.Text

/-- A ledger has no file: it stays as it is while a database is reopened. -/
def Ledger.opened (l : Ledger) : Except StoreFault Ledger := .ok l

/-! ### One call -/

/-- What a call needs so that it does not fail on a database: a write is
regular, and its rule is not too long for a row. -/
def StoreCall.Allowed (l : Ledger) : StoreCall → Prop
  | write request => request.Regular ∧ (l.nextRule request).FitsRow ∧
      (l.records.length : Int) < Database.maxInteger
  | _ => True

/-- While a revision is left, the ledger answers a write with the next rule. The
number of records stands for the last revision here, since both count the
writes. -/
theorem answer_write {l : Ledger} (h : l.Storable) (hroom : l.records.length + 1 < UInt64.size)
    (request : WriteRequest) :
    answer Ledger.opened l (.write request)
      = (.written (.ok ⟨l.nextRule request, .ofBefore (l.get? request.key)⟩), l.next request) := by
  have hrevision : l.lastRevision.toNat + 1 < UInt64.size := by
    rw [h.count]
    exact hroom
  show (StoreAnswer.written (l.write request).1, (l.write request).2) = _
  rw [Ledger.write_eq hrevision]

/-- One call on the tables of a ledger is the same call on the ledger: the
answers are equal, and the tables that are left are those of the ledger that is
left. A ledger that was storable stays storable, so the next call can be treated
alike. -/
theorem answer_ofLedger {l : Ledger} (h : l.Storable) {c : StoreCall} (hc : c.Allowed l) :
    answer Database.opened (Database.ofLedger l) c
      = ((answer Ledger.opened l c).1, Database.ofLedger (answer Ledger.opened l c).2) ∧
    (answer Ledger.opened l c).1.succeeded = true ∧ (answer Ledger.opened l c).2.Storable := by
  cases c with
  | write request =>
    obtain ⟨hregular, hfits, hroom⟩ := hc
    have hsize : l.records.length + 1 < UInt64.size := by
      rw [Database.maxInteger] at hroom
      rw [UInt64.size]
      omega
    -- The rule that is replaced is read from its row, so it has to be one that can be.
    have hbefore : ∀ old ∈ l.get? request.key, old.Storable := fun old hold =>
      h.rules old (List.mem_of_find?_eq_some hold)
    have hanswer := answer_write h hsize request
    refine ⟨?_, ?_, ?_⟩
    · show (StoreAnswer.written ((Database.ofLedger l).write request).1,
        ((Database.ofLedger l).write request).2) = _
      rw [Database.write_ofLedger h (hregular.storable_rule hbefore hfits) hroom, hanswer]
    · rw [hanswer]
      rfl
    · rw [hanswer]
      exact h.next hregular hfits hsize
  | get key =>
    refine ⟨?_, rfl, h⟩
    show (StoreAnswer.rule ((Database.ofLedger l).get? key), _) = _
    rw [Database.get?_ofLedger h]
    rfl
  | list q =>
    refine ⟨?_, rfl, h⟩
    show (StoreAnswer.rules ((Database.ofLedger l).list q), _) = _
    rw [Database.list_ofLedger h]
    rfl
  | trail key limit =>
    refine ⟨?_, rfl, h⟩
    show (StoreAnswer.records ((Database.ofLedger l).trail key limit), _) = _
    rw [Database.trail_ofLedger h]
    rfl
  | reopen => exact ⟨rfl, rfl, h⟩

/-! ### Many calls -/

/-- Only a write adds a record, and it adds one. So the count of writes bounds
the number of records. -/
theorem length_records_answer {l : Ledger} (h : l.Storable)
    (hroom : l.records.length + 1 < UInt64.size) (c : StoreCall) :
    (answer Ledger.opened l c).2.records.length
      = l.records.length + if c.isWrite then 1 else 0 := by
  cases c with
  | write request =>
    rw [answer_write h hroom]
    rfl
  | get key => rfl
  | list q => rfl
  | trail key limit => rfl
  | reopen => rfl

/-- The number of revisions that a column holds, written out for `omega`. -/
theorem twoTo_sixtyThree : Number.twoTo 63 = 9223372036854775808 := rfl

/-- Calls on the tables of a ledger get the answers of the ledger, and none
of them fails. -/
theorem answers_ofLedger {l : Ledger} (h : l.Storable) {calls : List StoreCall}
    (hregular : ∀ request, .write request ∈ calls → request.Regular)
    (hcount : l.records.length + calls.countP isWrite < Number.twoTo 63)
    (hfits : ∀ w, .written (.ok w) ∈ answers Ledger.opened l calls → w.rule.FitsRow) :
    answers Database.opened (Database.ofLedger l) calls = answers Ledger.opened l calls ∧
      ∀ a ∈ answers Ledger.opened l calls, a.succeeded = true := by
  induction calls generalizing l with
  | nil => exact ⟨rfl, fun _ ha => nomatch ha⟩
  | cons c calls ih =>
    rw [List.countP_cons, twoTo_sixtyThree] at hcount
    have hroom : l.records.length + 1 < UInt64.size := by
      rw [UInt64.size]
      omega
    -- What is asked of the whole run holds for its first call, and then for
    -- the run from the next ledger.
    have hallowed : c.Allowed l := by
      cases c with
      | write request =>
        have hone : (if (write request).isWrite = true then 1 else 0) = 1 := rfl
        rw [hone] at hcount
        refine ⟨hregular request (List.mem_cons_self ..), ?_, ?_⟩
        · -- The ledger answers with the rule that the database is about to write.
          refine hfits ⟨l.nextRule request, .ofBefore (l.get? request.key)⟩ ?_
          rw [answers, answer_write h hroom]
          exact List.mem_cons_self ..
        · rw [Database.maxInteger]
          omega
      | get key => trivial
      | list q => trivial
      | trail key limit => trivial
      | reopen => trivial
    obtain ⟨hsame, hsucceeded, hnext⟩ := answer_ofLedger h hallowed
    have hlength := length_records_answer h hroom c
    obtain ⟨hrest, hothers⟩ := ih hnext
      (fun request hr => hregular request (List.mem_cons_of_mem _ hr))
      (by rw [twoTo_sixtyThree]; omega)
      (fun w hw => hfits w (List.mem_cons_of_mem _ hw))
    constructor
    · rw [answers, answers, hsame, hrest]
    · rw [answers, List.forall_mem_cons]
      exact ⟨hsucceeded, hothers⟩

/-- A database in a file of its own gives the answers of a ledger, to any
calls with any number of reopenings between them, and no call fails. The
writes are regular, fewer than the revisions of a column, and each of
their rules fits a row. -/
theorem database_answers_as_ledger (calls : List StoreCall)
    (hregular : ∀ request, .write request ∈ calls → request.Regular)
    (hcount : calls.countP isWrite < Number.twoTo 63)
    (hfits : ∀ w, .written (.ok w) ∈ answers Ledger.opened .empty calls → w.rule.FitsRow) :
    ∃ d, Database.blank.opened = .ok d ∧
      answers Database.opened d calls = answers Ledger.opened .empty calls ∧
      ∀ a ∈ answers Database.opened d calls, a.succeeded = true := by
  have hzero : Ledger.empty.records.length + calls.countP isWrite < Number.twoTo 63 := by
    rw [Ledger.empty, List.length_nil]
    omega
  obtain ⟨hsame, hsucceeded⟩ := answers_ofLedger Ledger.storable_empty hregular hzero hfits
  refine ⟨Database.ofLedger .empty, rfl, hsame, ?_⟩
  rw [hsame]
  exact hsucceeded

/-! ### One write and what is read after it -/

/-- A rule that calms the feed, as an administrator submits it. -/
def calmFeed : WriteRequest where
  content := ⟨⟨"calm-feed"⟩, true, 100, .any, .ofFn .ux fun
    | .reduceAnimations => some true
    | _ => none⟩
  actor := some "ops"
  time := ⟨1000000, 0⟩

/-- The write is a regular one: its content was validated and its instant can be
written. -/
theorem calmFeed_regular : calmFeed.Regular where
  content := by
    refine ⟨_, Content.validate_toDraft ⟨⟨?_, ?_, ?_⟩, ?_, ?_⟩⟩
    · exact (trim_eq_self_iff _).mp (by decide)
    · decide
    · decide
    · exact Filter.valid_any
    · intro f v h
      cases f <;> trivial
  time := by decide
  year := by
    show 0 ≤ calmFeed.time.toLocal.date.year ∧ calmFeed.time.toLocal.date.year ≤ 9999
    decide

/-- The time of the write, as it stands in the rule. -/
theorem calmFeed_time : calmFeed.time.toJson? = some (.string "1970-01-01T00:00:00.001Z") := by
  refine Option.map_eq_some_iff.mpr ⟨_, ?_, rfl⟩
  decide

/-- The members of the first rule. -/
def calmFeedMembers : List (String × Json) :=
  [("action", .object [("reduce_animations", .bool true)]),
    ("created_at", .string "1970-01-01T00:00:00.001Z"), ("created_by", .string "ops"),
    ("enabled", .bool true), ("match", .null), ("priority", Json.ofNat 100),
    ("revision", Json.ofNat 1), ("rule_key", .string "calm-feed"), ("scope", .string "ux"),
    ("updated_at", .string "1970-01-01T00:00:00.001Z"), ("updated_by", .string "ops")]

/-- The rule is short enough for a row. The bytes of its members are counted one
by one. -/
theorem calmFeed_fitsRow : (Ledger.empty.nextRule calmFeed).FitsRow := by
  have haction : canonicalBytes (.object [("reduce_animations", .bool true)]) = 0x7b :: (_ ++ _) :=
    canonicalBytes_object (List.pairwise_singleton ..) (by decide)
  have hmembers : (Ledger.empty.nextRule calmFeed).members _ _ = calmFeedMembers := rfl
  refine Rule.fitsRow_of_members calmFeed_time calmFeed_time ?_
  rw [hmembers]
  -- Folding over a text is opaque to evaluation, so the texts are spelled out first.
  simp only [calmFeedMembers, List.map_cons, List.map_nil, haction, memberBytes,
    encode_stringText, canonicalBytes_string]
  decide +kernel

/-- A write, and reads after the store is closed and opened again. -/
def calmFeedCalls : List StoreCall :=
  [.write calmFeed, .reopen, .get ⟨"calm-feed"⟩, .list .enabled, .trail none 10]

/-- What a ledger says to `calmFeedCalls`. -/
def calmFeedAnswers : List StoreAnswer :=
  let r := Ledger.empty.nextRule calmFeed
  [.written (.ok ⟨r, .create⟩), .opened (.ok ()), .rule (.ok (some r)), .rules (.ok [r]),
    .records (.ok [.ofWrite 1 none r])]

/-- A database that is closed and opened again after one write still has
its rule and its record. -/
theorem database_answers_calmFeed :
    ∃ d, Database.blank.opened = .ok d ∧
      answers Database.opened d calmFeedCalls = calmFeedAnswers := by
  have hledger : answers Ledger.opened .empty calmFeedCalls = calmFeedAnswers := by
    have hlist : (Ledger.empty.next calmFeed).list .enabled = [Ledger.empty.nextRule calmFeed] :=
      List.mergeSort_singleton ..
    rw [calmFeedAnswers, ← hlist]
    rfl
  have hregular : ∀ request, .write request ∈ calmFeedCalls → request.Regular := by
    intro request h
    have hcalm : request = calmFeed := by simpa [calmFeedCalls] using h
    rw [hcalm]
    exact calmFeed_regular
  have hfits : ∀ w, .written (.ok w) ∈ answers Ledger.opened .empty calmFeedCalls →
      w.rule.FitsRow := by
    intro w h
    rw [hledger] at h
    have hcalm : w = ⟨Ledger.empty.nextRule calmFeed, .create⟩ := by
      simpa [calmFeedAnswers] using h
    rw [hcalm]
    exact calmFeed_fitsRow
  obtain ⟨d, hopened, hsame, -⟩ :=
    database_answers_as_ledger calmFeedCalls hregular (by decide) hfits
  exact ⟨d, hopened, hsame.trans hledger⟩

end Overrides
