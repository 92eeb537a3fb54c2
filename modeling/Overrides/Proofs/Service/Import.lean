import Overrides.Config.Section
import Overrides.Proofs.Store.Rewriting

/-!
# `Overrides.Proofs.Service.Import`: importing a rule file twice

A file that was imported leaves its contents in front of the others, each
key with the content that the file has last for it. Importing it again
overwrites these contents in the same order, so up to revisions nothing
changes, whatever keys the file repeats.

A second import may be refused where the first one was not. The limit of
enabled rules can stop a file of many submissions halfway, since an
earlier content of a repeated key may be enabled. It cannot stop a file of
one, but the limits of the store itself can: with a name of thirty
thousand bytes, the second text of a rule may be too long for a row
because its instant is longer.

* `overwriteAll_twice`: overwriting with the same contents twice.
* `Backend.HasContents.submitFile`: what a file leaves that was imported.
* `Backend.Holds.submit_again`: a submission that succeeded is handed to the store
  when it is made again.
* `import_twice`: what this says of snapshots.
* `second_import_refused`: a second import that a row is too short for.
-/

set_option autoImplicit false

namespace Overrides

/-! ### Overwriting twice -/

/-- The contents after others are written one by one. -/
def overwriteAll (contents file : List Content) : List Content := file.foldl overwrite contents

section

variable {contents file : List Content} {c : Content}

/-- Only what is written is there afterwards, if nothing was there before. -/
theorem mem_overwriteAll_nil (h : c ∈ overwriteAll [] file) : c ∈ file := by
  induction file using List.reverseRecOn with
  | nil => exact h
  | append_singleton file d ih =>
    rw [overwriteAll, List.foldl_append, ← overwriteAll] at h
    rcases List.mem_cons.mp h with rfl | hc
    · exact List.mem_append_right _ (List.mem_singleton_self _)
    · exact List.mem_append_left _ (ih (List.mem_filter.mp hc).1)

/-- What is written stands in front, and behind it what was there before
under other keys. The induction is on the part that has been written. -/
theorem overwriteAll_eq (contents file : List Content) :
    overwriteAll contents file = overwriteAll [] file
      ++ contents.filter fun c => c.ruleKey ∉ file.map Content.ruleKey := by
  induction file using List.reverseRecOn with
  | nil => simp [overwriteAll]
  | append_singleton file d ih =>
    -- The last content is written over whatever the others left.
    have hstep : ∀ cs : List Content,
        overwriteAll cs (file ++ [d]) = overwrite (overwriteAll cs file) d := by
      intro cs
      rw [overwriteAll, List.foldl_append, ← overwriteAll]
      rfl
    rw [hstep, hstep, ih, overwrite, overwrite, List.filter_append, List.cons_append,
      List.filter_filter]
    refine congrArg (fun rest => d :: (_ ++ rest)) (List.filter_congr fun c _ => ?_)
    rw [← Bool.decide_and, decide_eq_decide, List.map_append, List.map_singleton, List.mem_append,
      List.mem_singleton, not_or, and_comm]

/-- Writing the same contents again changes nothing. Each key has its last
content on top both times, and the contents under other keys stay behind them.
-/
theorem overwriteAll_twice (contents file : List Content) :
    overwriteAll (overwriteAll contents file) file = overwriteAll contents file := by
  -- The contents in front have keys of the file, and those behind do not.
  have hfront : (overwriteAll [] file).filter (fun c => c.ruleKey ∉ file.map Content.ruleKey)
      = [] := by
    rw [List.filter_eq_nil_iff]
    intro c hc
    simpa using ⟨c, mem_overwriteAll_nil hc, rfl⟩
  calc overwriteAll (overwriteAll contents file) file
      = overwriteAll [] file ++ (overwriteAll contents file).filter
          fun c => c.ruleKey ∉ file.map Content.ruleKey := overwriteAll_eq _ file
    _ = overwriteAll [] file ++ contents.filter fun c => c.ruleKey ∉ file.map Content.ruleKey := by
        rw [overwriteAll_eq contents, List.filter_append, hfront, List.nil_append,
          List.filter_filter]
        simp only [Bool.and_self]
    _ = overwriteAll contents file := (overwriteAll_eq contents file).symm

end

/-! ### Files -/

namespace Backend

variable {s next : Backend} {service : Service} {contents : List Content} {draft : Draft}
  {drafts : List Draft} {actor : Option String} {time : Instant} {w : Written}
  {written : List Written}

/-- A submission that succeeds writes the content of its draft. The request has
the actor and the instant of the submission. -/
theorem writes_of_submit (h : service.submit s draft actor time = (.ok w, next)) :
    ∃ content, draft.validate = .ok content ∧ s.Writes ⟨content, actor, time⟩ next := by
  rw [Service.submit] at h
  cases hrequest : service.requestOf s draft actor time with
  | error e =>
    rw [hrequest] at h
    cases (Prod.mk.inj h).1
  | ok request =>
    obtain ⟨content, hvalid, rfl⟩ := requestOf_eq_ok hrequest
    rw [hrequest] at h
    obtain ⟨houtcome, hnext⟩ := Prod.mk.inj h
    exact ⟨content, hvalid, w, Prod.ext (mapError_eq_ok_iff.mp houtcome) hnext⟩

/-- Submissions that all succeed overwrite with the contents of their drafts.
The drafts are valid then, since the service validates each of them again. -/
theorem HasContents.submitAll (h : s.HasContents contents)
    (houtcome : RuleFile.submitAll service actor time drafts s = (.ok written, next)) :
    ∃ file, drafts.mapM Draft.validate = .ok file ∧
      next.HasContents (overwriteAll contents file) := by
  induction drafts generalizing s contents written with
  | nil =>
    obtain ⟨-, rfl⟩ := Prod.mk.inj houtcome
    exact ⟨[], rfl, h⟩
  | cons draft rest ih =>
    cases hsubmit : service.submit s draft actor time with
    | mk outcome middle =>
      cases outcome with
      | error e =>
        rw [submitAll_of_error hsubmit] at houtcome
        cases (Prod.mk.inj houtcome).1
      | ok w =>
        rw [submitAll_of_ok hsubmit] at houtcome
        obtain ⟨content, hvalid, hwrites⟩ := writes_of_submit hsubmit
        have hproper : (⟨content, actor, time⟩ : WriteRequest).Proper := ⟨draft, hvalid⟩
        have hmiddle := h.write hproper hwrites
        cases hrest : RuleFile.submitAll service actor time rest middle with
        | mk outcome last =>
          rw [hrest] at houtcome
          -- The whole succeeds only if the rest does.
          obtain ⟨hok, rfl⟩ := Prod.mk.inj houtcome
          cases outcome with
          | error e => cases hok
          | ok ws =>
            obtain ⟨file, hfile, hlast⟩ := ih hmiddle hrest
            refine ⟨content :: file, ?_, hlast⟩
            rw [List.mapM_cons, hvalid, ok_bind, hfile, ok_bind]
            rfl

/-- A file that is imported overwrites with its contents. It has been validated
as a whole before the first write. -/
theorem HasContents.submitFile (h : s.HasContents contents)
    (houtcome : RuleFile.submit service s drafts actor time = (.ok written, next)) :
    ∃ file, drafts.mapM Draft.validate = .ok file ∧
      next.HasContents (overwriteAll contents file) := by
  rw [RuleFile.submit] at houtcome
  split at houtcome
  · cases (Prod.mk.inj houtcome).1
  · obtain ⟨hok, rfl⟩ := Prod.mk.inj houtcome
    exact h.submitAll (Prod.ext (mapError_eq_ok_iff.mp hok) rfl)

/-! ### One submission again -/

/-- A file of one submission is that submission. The validation of the file is
one that the service does anyway. -/
theorem submitFile_singleton {content : Content} (hvalid : draft.validate = .ok content) :
    RuleFile.submit service s [draft] actor time
      = ((service.submit s draft actor time).1.map (fun w => [w]) |>.mapError .service,
        (service.submit s draft actor time).2) := by
  have hfile : RuleFile.validate [draft] = .ok () := by
    rw [RuleFile.validate, RuleFile.validateFrom, hvalid]
    rfl
  rw [RuleFile.submit, hfile]
  cases hsubmit : service.submit s draft actor time with
  | mk outcome next =>
    cases outcome with
    | error e =>
      rw [submitAll_of_error hsubmit]
      rfl
    | ok w =>
      rw [submitAll_of_ok hsubmit]
      rfl

/-- A submission that succeeded leaves as many enabled rules when it is made
again, so it is handed to the store. -/
theorem Holds.submit_again {rules : List Rule} {content : Content} (h : s.Holds rules)
    (hvalid : draft.validate = .ok content)
    (hfirst : service.submit s draft actor time = (.ok w, next)) (actor' : Option String)
    (time' : Instant) :
    service.submit next draft actor' time'
      = ((RuleStore.write next ⟨content, actor', time'⟩).1.mapError .store,
        (RuleStore.write next ⟨content, actor', time'⟩).2) := by
  cases henabled : content.enabled with
  | false => exact Service.submit_of_disabled next hvalid henabled
  | true =>
    have hproper : (⟨content, actor, time⟩ : WriteRequest).Proper := ⟨draft, hvalid⟩
    rw [Service.submit_of_enabled h hvalid henabled] at hfirst
    split at hfirst
    · cases (Prod.mk.inj hfirst).1
    · rename_i hroom
      obtain ⟨e, hfails⟩ | ⟨w', next', hwrites, hcontent, hnext⟩ := h.write hproper
      · rw [hfails] at hfirst
        cases (Prod.mk.inj hfirst).1
      · rw [hwrites] at hfirst
        obtain ⟨-, rfl⟩ := Prod.mk.inj hfirst
        -- The rule takes the place that it took the first time.
        have hsame : enabledAfter (Ledger.putRule w'.rule rules) content
            ≤ enabledAfter rules content := by
          rw [← length_enabled_putRule hcontent h.distinct]
          exact enabledAfter_le ((Ledger.putsByKey_putRule _).self_mem _) (by rw [hcontent]; exact henabled)
            (congrArg Content.ruleKey hcontent)
        rw [Service.submit_of_enabled hnext hvalid henabled, if_neg]
        omega

/-- The file is imported whole, and the store is in this state then. A file that
stops in the middle is not imported in this sense, though it has written
something. -/
def Imports (s : Backend) (service : Service) (drafts : List Draft) (actor : Option String)
    (time : Instant) (next : Backend) : Prop :=
  ∃ written, RuleFile.submit service s drafts actor time = (.ok written, next)

/-- An import of a file leads from a reachable store to one. -/
theorem Reachable.of_imports (h : s.Reachable) (himports : s.Imports service drafts actor time next) :
    next.Reachable := by
  obtain ⟨written, hwritten⟩ := himports
  have hnext := h.submitFile service drafts actor time
  rwa [hwritten] at hnext

/-- A submission that has room and is written is imported as a file. Witnesses
use this to get an import from a write that was computed. -/
theorem Holds.imports {rules : List Rule} {content : Content} (h : s.Holds rules)
    (hvalid : draft.validate = .ok content)
    (hroom : enabledAfter rules content ≤ service.maxRules)
    (hwrites : s.Writes ⟨content, actor, time⟩ next) :
    s.Imports service [draft] actor time next := by
  obtain ⟨w, hw⟩ := hwrites
  -- A disabled rule needs no room, and an enabled one has it.
  have hsubmit : service.submit s draft actor time = (.ok w, next) := by
    cases henabled : content.enabled with
    | false =>
      rw [Service.submit_of_disabled s hvalid henabled, hw]
      rfl
    | true =>
      rw [Service.submit_of_enabled h hvalid henabled, if_neg (Nat.not_lt_of_le hroom), hw]
      rfl
  refine ⟨[w], ?_⟩
  rw [submitFile_singleton hvalid, hsubmit]
  rfl

/-- The second import of one submission is a write, whatever comes of it. The
limit cannot refuse it: the rule of the key has been counted and is replaced. -/
theorem Reachable.submitFile_again (h : s.Reachable)
    (hfirst : s.Imports service [draft] actor time next) :
    ∃ content, draft.validate = .ok content ∧ ∀ (actor' : Option String) (time' : Instant),
      RuleFile.submit service next [draft] actor' time'
        = (((RuleStore.write next ⟨content, actor', time'⟩).1.mapError ServiceFault.store).map
            (fun w => [w]) |>.mapError .service,
          (RuleStore.write next ⟨content, actor', time'⟩).2) := by
  obtain ⟨recent, hrecent⟩ := h.recalls
  obtain ⟨rules, hholds, -⟩ := hrecent.holds
  obtain ⟨written, hwritten⟩ := hfirst
  cases hvalid : draft.validate with
  | error e =>
    -- A file with an invalid submission is not imported.
    rw [RuleFile.submit, RuleFile.validate, RuleFile.validateFrom, hvalid] at hwritten
    cases (Prod.mk.inj hwritten).1
  | ok content =>
    refine ⟨content, rfl, fun actor' time' => ?_⟩
    rw [submitFile_singleton hvalid] at hwritten
    obtain ⟨houtcome, hnext⟩ := Prod.mk.inj hwritten
    cases hsubmit : service.submit s draft actor time with
    | mk outcome middle =>
      rw [hsubmit] at houtcome hnext
      cases outcome with
      | error e => cases houtcome
      | ok w =>
        obtain rfl : middle = next := hnext
        rw [submitFile_singleton hvalid, hholds.submit_again hvalid hsubmit]

end Backend

/-- **Importing a file twice is importing it once.** In any reachable state of
a store of either kind, let a rule file be imported, and let it be imported
again, by whom and when does not matter. Then the snapshots before and
after the second import are the same up to revisions. If the file has one
submission, the second import is refused at a limit of the store only:
nothing changes then, and it takes an exhausted counter, an instant without
a written form or a name that is far too long. -/
theorem import_twice {s next : Backend} (hs : s.Reachable) (service : Service)
    (drafts : List Draft) (actor actor' : Option String) (time time' : Instant)
    (hfirst : s.Imports service drafts actor time next) :
    (∀ last : Backend, next.Imports service drafts actor' time' last → next.SameSnapshots last) ∧
    ∀ draft : Draft, drafts = [draft] → ∃ content, draft.validate = .ok content ∧
      ((∃ last : Backend, next.Imports service drafts actor' time' last) ∨
        ∃ e : StoreFault, next.AtLimit ⟨content, actor', time'⟩ e ∧
          RuleFile.submit service next drafts actor' time'
            = (.error (.service (.store e)), next)) := by
  constructor
  · rintro last ⟨second, hsecond⟩
    obtain ⟨contents, hcontents⟩ := hs.hasContents
    obtain ⟨first, hwritten⟩ := hfirst
    obtain ⟨file, hfile, hnext⟩ := hcontents.submitFile hwritten
    obtain ⟨file', hfile', hlast⟩ := hnext.submitFile hsecond
    obtain rfl : file = file' := Except.ok.inj (hfile.symm.trans hfile')
    rw [overwriteAll_twice] at hlast
    exact hnext.sameSnapshots hlast (SameRanks.refl _)
  · rintro draft rfl
    obtain ⟨content, hvalid, hagain⟩ := hs.submitFile_again hfirst
    have hproper : (⟨content, actor', time'⟩ : WriteRequest).Proper := ⟨draft, hvalid⟩
    refine ⟨content, hvalid, ?_⟩
    -- What the store writes is imported, and what it refuses is not.
    obtain ⟨last, w, hwrites⟩ | ⟨e, hlimit, hfails⟩ :=
      (hs.of_imports hfirst).writes_or_limit hproper
    · refine .inl ⟨last, [w], ?_⟩
      rw [hagain, hwrites]
      rfl
    · refine .inr ⟨e, hlimit, ?_⟩
      rw [hagain, hfails]
      rfl

/-- A file of one rule, twice into a new ledger. The actor and the time differ,
and the snapshots are the same all the same. -/
theorem calmFeed_imported_twice :
    ∃ next last : Backend,
      (Backend.memory .empty).Imports Config.default.service [calmFeedSubmission.draft]
        (some "ops") ⟨0, 0⟩ next ∧
      next.Imports Config.default.service [calmFeedSubmission.draft] none ⟨5, 0⟩ last ∧
      next.SameSnapshots last := by
  have hfirst : (Backend.memory .empty).Imports Config.default.service [calmFeedSubmission.draft]
      (some "ops") ⟨0, 0⟩ _ :=
    Backend.Fresh.memory.holds.imports validate_calmFeedSubmission (by decide)
      (Backend.writes_of_room (by decide) _)
  obtain ⟨hsame, hone⟩ := import_twice (.fresh .memory) Config.default.service
    [calmFeedSubmission.draft] (some "ops") none ⟨0, 0⟩ ⟨5, 0⟩ hfirst
  obtain ⟨content, -, ⟨last, hlast⟩ | ⟨e, hlimit, -⟩⟩ := hone _ rfl
  · exact ⟨_, last, hfirst, hlast, hsame last hlast⟩
  · -- A ledger stops at its counter only, and this one has counted to one.
    cases hlimit with
    | exhausted hfull => exact absurd hfull (by decide)

/-! ### A second import that is refused -/

open Overrides.Json Overrides.Text

/-- A name so long that a rule with it takes almost a whole row. -/
@[irreducible] def longActor : String := String.ofList (List.replicate 32668 'a')

/-- A submission that sets nothing. -/
def plainDraft : Draft := { Draft.empty with ruleKey := "a", scope := "ai" }

/-- Its content. -/
def plainContent : Content := ⟨⟨"a"⟩, true, 0, .any, .ofFn .ai fun _ => none⟩

/-- What is left of the submission after validation. -/
theorem validate_plainDraft : plainDraft.validate = .ok plainContent := by
  rw [Draft.validate_eq_ok_iff]
  refine ⟨?_, ?_, rfl, rfl, ?_, rfl⟩
  · rfl
  · rfl
  · rfl

/-- The text of a repeated letter: the letters and two quotes. -/
theorem length_canonicalBytes_replicate (n : Nat) :
    (canonicalBytes (.string (String.ofList (List.replicate n 'a')))).length = n + 2 := by
  have hplain : Utf8.encode (escapedChar 'a') = [0x61] := Utf8.encode_eq _
  rw [canonicalBytes_string, encode_stringText, String.toList_ofList]
  simp [hplain]

/-- The length of a text of the rule, without the parts in which two writes
may differ. -/
theorem length_plainRule {r : Rule} (hcontent : r.content = plainContent)
    (hcreatedBy : r.createdBy = some longActor) (hupdatedBy : r.updatedBy = some longActor)
    (createdAt updatedAt : Json) :
    (canonicalBytes (.object (r.members createdAt updatedAt))).length
      = 65490 + (canonicalBytes createdAt).length + (canonicalBytes updatedAt).length
        + (canonicalBytes (Json.ofNat r.revision.toNat)).length := by
  have hactor : (canonicalBytes (.string longActor)).length = 32670 := by
    unfold longActor
    exact length_canonicalBytes_replicate 32668
  have hmembers : r.members createdAt updatedAt = [("action", .object []),
      ("created_at", createdAt), ("created_by", .string longActor), ("enabled", .bool true),
      ("match", .null), ("priority", Json.ofNat 0), ("revision", Json.ofNat r.revision.toNat),
      ("rule_key", .string "a"), ("scope", .string "ai"), ("updated_at", updatedAt),
      ("updated_by", .string longActor)] := by
    rw [Rule.members, hcontent, hcreatedBy, hupdatedBy]
    rfl
  -- Folding over a text is opaque to evaluation, so the texts are spelled out first.
  have hvalues : (canonicalBytes (.object [])).length + (canonicalBytes (.bool true)).length
      + (canonicalBytes .null).length + (canonicalBytes (Json.ofNat 0)).length
      + (canonicalBytes (.string "a")).length + (canonicalBytes (.string "ai")).length = 18 := by
    simp only [canonicalBytes_string, encode_stringText]
    decide +kernel
  rw [Rule.length_object_members, hmembers]
  simp only [List.map_cons, List.map_nil, List.sum_cons, List.sum_nil]
  -- The length is a variable from here on, or the long text would be evaluated.
  generalize (canonicalBytes (.string longActor)).length = n at hactor ⊢
  linarith

/-- The request that a submission of it makes. -/
def plainRequest (time : Instant) : WriteRequest := ⟨plainContent, some longActor, time⟩

/-- The first instant there is. -/
def epoch : Instant := ⟨0, 0⟩

/-- A millisecond later. -/
def nextMilli : Instant := ⟨1000000, 0⟩

/-- The epoch is written without a fraction. -/
theorem epoch_time : epoch.toJson? = some (.string "1970-01-01T00:00:00Z") := by
  refine Option.map_eq_some_iff.mpr ⟨_, ?_, rfl⟩
  rfl

/-- A millisecond later the text is longer by the fraction. -/
theorem nextMilli_time : nextMilli.toJson? = some (.string "1970-01-01T00:00:00.001Z") := by
  refine Option.map_eq_some_iff.mpr ⟨_, ?_, rfl⟩
  rfl

/-- The write is a regular one: its content was validated and its instant can be
written. -/
theorem plainRequest_regular : (plainRequest epoch).Regular where
  content := ⟨plainDraft, validate_plainDraft⟩
  time := by decide
  year := by
    show 0 ≤ epoch.toLocal.date.year ∧ epoch.toLocal.date.year ≤ 9999
    decide

/-- The rule that the first import brings about fits its row. -/
theorem plainRule_fitsRow : (Ledger.empty.nextRule (plainRequest epoch)).FitsRow := by
  intro v hv
  obtain ⟨createdAt, updatedAt, hcreated, hupdated, rfl⟩ := Rule.toJson?_eq_some_iff.mp hv
  obtain rfl := Option.some.inj (epoch_time.symm.trans hcreated)
  obtain rfl := Option.some.inj (epoch_time.symm.trans hupdated)
  show (canonicalBytes (.object _)).length ≤ maxRuleBytes
  rw [length_plainRule rfl rfl rfl, canonicalBytes_string, encode_stringText]
  decide +kernel

/-- The ledger after the first import. -/
def plainLedger : Ledger := Ledger.empty.next (plainRequest epoch)

/-- The ledger with the rule can be stored. -/
theorem plainLedger_storable : plainLedger.Storable :=
  Ledger.storable_empty.next plainRequest_regular plainRule_fitsRow (by decide)

/-- The rule that the second import would bring about. -/
def plainSecond : Rule := ⟨plainContent, 2, epoch, nextMilli, some longActor, some longActor⟩

/-- Written again, the rule keeps who created it and when. -/
theorem plainLedger_nextRule : plainLedger.nextRule (plainRequest nextMilli) = plainSecond := by
  -- The ledger has the rule, so the second write replaces it.
  have hget : plainLedger.get? plainContent.ruleKey
      = some (Ledger.empty.nextRule (plainRequest epoch)) :=
    (Ledger.putsByKey_putRule _).find? ..
  show (plainRequest nextMilli).rule (plainLedger.get? plainContent.ruleKey) 2 = _
  rw [hget]
  rfl

/-- It does not fit the row, by three bytes. The later instant has four more
than the first one. -/
theorem encodeRule_plainSecond : encodeRule plainSecond = .error (.tooLarge 65539) := by
  have hcreated : plainSecond.createdAt.toJson? = _ := epoch_time
  have hupdated : plainSecond.updatedAt.toJson? = _ := nextMilli_time
  have hv := Rule.toJson?_eq_some_iff.mpr ⟨_, _, hcreated, hupdated, rfl⟩
  have hlength : (canonicalBytes (.object (plainSecond.members
      (.string "1970-01-01T00:00:00Z") (.string "1970-01-01T00:00:00.001Z")))).length = 65539 := by
    rw [length_plainRule rfl rfl rfl, canonicalBytes_string, canonicalBytes_string,
      encode_stringText, encode_stringText]
    decide +kernel
  have hlong := encodeRule_of_long hv (by rw [hlength]; decide)
  rwa [hlength] at hlong

/-- The first import writes the rule. -/
theorem writes_plainRequest :
    (Backend.disk .empty).Writes (plainRequest epoch) (.disk (.ofLedger plainLedger)) := by
  have hwrite := Database.write_ofLedger Ledger.storable_empty
    (plainRequest_regular.storable_first plainRule_fitsRow) (by decide)
  refine ⟨⟨Ledger.empty.nextRule (plainRequest epoch), .create⟩, ?_⟩
  show (((Database.ofLedger .empty).write (plainRequest epoch)).1,
    Backend.disk ((Database.ofLedger .empty).write (plainRequest epoch)).2) = _
  rw [hwrite]
  rfl

/-- The second one stops at the length of the text, and changes nothing. The
length is computed from the lengths of the members, since the text itself is too
long to be evaluated. -/
theorem write_plainRequest_again :
    RuleStore.write (Backend.disk (.ofLedger plainLedger)) (plainRequest nextMilli)
      = (.error (.tooLarge 65539), .disk (.ofLedger plainLedger)) := by
  have hencode : encodeRule ((plainRequest nextMilli).rule
      (plainLedger.get? (plainRequest nextMilli).key) (plainLedger.lastRevision + 1))
      = .error (.tooLarge 65539) := by
    show encodeRule (plainLedger.nextRule (plainRequest nextMilli)) = _
    rw [plainLedger_nextRule]
    exact encodeRule_plainSecond
  -- The transaction stops before it has touched a table.
  have htransaction : (Database.ofLedger plainLedger).transaction (plainRequest nextMilli)
      = .error (.tooLarge 65539) := by
    rw [Database.transaction_eq, Database.get?_ofLedger plainLedger_storable, ok_bind,
      Database.nextRevision_ofLedger plainLedger_storable (by decide), ok_bind, hencode]
    rfl
  show ((settle _ ((Database.ofLedger plainLedger).transaction (plainRequest nextMilli))).1,
    Backend.disk (settle _ ((Database.ofLedger plainLedger).transaction
      (plainRequest nextMilli))).2) = _
  rw [htransaction]
  rfl

/-- **A second import may be refused.** A file of one submission is imported
into a new database. A millisecond later the same file is refused, since
the later instant has a longer text, and the rule does not fit its row any
more. -/
theorem second_import_refused :
    (Backend.disk .empty).Reachable ∧
    ∃ next : Backend,
      (Backend.disk .empty).Imports Config.default.service [plainDraft] (some longActor) epoch
        next ∧
      RuleFile.submit Config.default.service next [plainDraft] (some longActor) nextMilli
        = (.error (.service (.store (.tooLarge 65539))), next) := by
  have hreachable : (Backend.disk .empty).Reachable := .fresh .disk
  have hfirst : (Backend.disk .empty).Imports Config.default.service [plainDraft]
      (some longActor) epoch (.disk (.ofLedger plainLedger)) :=
    Backend.Fresh.disk.holds.imports validate_plainDraft (by decide) writes_plainRequest
  refine ⟨hreachable, _, hfirst, ?_⟩
  -- The limit leaves room for the same rule again, so the store alone decides.
  obtain ⟨content, hvalid, hagain⟩ := hreachable.submitFile_again hfirst
  obtain rfl : content = plainContent := Except.ok.inj (hvalid.symm.trans validate_plainDraft)
  have hwrite : RuleStore.write (Backend.disk (.ofLedger plainLedger))
      ⟨plainContent, some longActor, nextMilli⟩ = _ := write_plainRequest_again
  rw [hagain, hwrite]
  rfl

end Overrides
