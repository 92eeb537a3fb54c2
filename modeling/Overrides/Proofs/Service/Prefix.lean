import Overrides.Proofs.Service.Import
import Overrides.Proofs.Service.Submission
import Overrides.Proofs.Store.Counters

/-!
# `Overrides.Proofs.Service.Prefix`: how far an import comes

An import goes over its file twice. The first time every submission is
validated, and the first invalid one is all that is reported. The second
time they are submitted one after the other. A submission is validated
again there, but it is the same submission, so what stops an import then
is the limit of enabled rules or the store, and both depend on what the
submissions before it have written.

`Service.Succession` is a run in which every submission succeeds, and
`Service.Progress` says of one that nothing longer at the front of the file
is such a run.

* `RuleFile.validateFrom_eq_error_iff`: which submission is reported.
* `Backend.revision_of_write`: a write gets the revision after the last one,
  also in a database that somebody altered.
* `Service.exists_succession`: every file has a run at its front that ends with
  the file or at a submission that fails.
* `Service.Succession.progress`: such a run is the longest one.
* `import_writes_longest_prefix`: what an import returns and leaves behind.
-/

set_option autoImplicit false

namespace Overrides

/-! ### The first invalid submission -/

namespace RuleFile

/-- The submission at this position was written under this key and is invalid
for this cause, and those before it are valid. -/
structure FirstInvalid (drafts : List Draft) (index : Nat) (ruleKey : String)
    (cause : RuleFault) : Prop where
  invalid : ∃ d, drafts[index]? = some d ∧ d.ruleKey = ruleKey ∧ d.validate = .error cause
  first : ∀ i < index, ∀ d, drafts[i]? = some d → ∃ c, d.validate = .ok c

variable {draft : Draft} {drafts rest : List Draft} {start index : Nat} {ruleKey : String}
  {cause : RuleFault}

/-- Nothing is invalid in an empty file. -/
theorem not_firstInvalid_nil : ¬ FirstInvalid [] index ruleKey cause := by
  rintro ⟨⟨d, hd, -⟩, -⟩
  simp at hd

/-- An invalid submission at the front is the first one, and the only first one.
Any later one has this one before it, which is not valid. -/
theorem firstInvalid_cons_of_error (h : draft.validate = .error cause) :
    ∀ {i : Nat} {key : String} {e : RuleFault},
      FirstInvalid (draft :: rest) i key e ↔ i = 0 ∧ key = draft.ruleKey ∧ e = cause := by
  intro i key e
  constructor
  · rintro ⟨⟨d, hd, hkey, hfault⟩, hfirst⟩
    cases i with
    | zero =>
      obtain rfl : draft = d := by simpa using hd
      rw [h] at hfault
      exact ⟨rfl, hkey.symm, (Except.error.inj hfault).symm⟩
    | succ i =>
      -- The one at the front would be valid.
      obtain ⟨c, hvalid⟩ := hfirst 0 (Nat.succ_pos i) draft rfl
      rw [h] at hvalid
      cases hvalid
  · rintro ⟨rfl, rfl, rfl⟩
    exact ⟨⟨draft, rfl, rfl, h⟩, fun i hi => absurd hi (Nat.not_lt_zero i)⟩

/-- Behind a valid submission the positions are one less. With the lemma before,
this is one step of the induction on the file. -/
theorem firstInvalid_cons_of_ok {c : Content} (h : draft.validate = .ok c) :
    FirstInvalid (draft :: rest) index ruleKey cause ↔
      ∃ i, index = i + 1 ∧ FirstInvalid rest i ruleKey cause := by
  constructor
  · rintro ⟨⟨d, hd, hkey, hfault⟩, hfirst⟩
    cases index with
    | zero =>
      obtain rfl : draft = d := by simpa using hd
      rw [h] at hfault
      cases hfault
    | succ i =>
      refine ⟨i, rfl, ⟨d, by simpa using hd, hkey, hfault⟩, fun j hj d hd => ?_⟩
      exact hfirst (j + 1) (Nat.succ_lt_succ hj) d (by simpa using hd)
  · rintro ⟨i, rfl, ⟨d, hd, hkey, hfault⟩, hfirst⟩
    refine ⟨⟨d, by simpa using hd, hkey, hfault⟩, fun j hj d hd => ?_⟩
    cases j with
    | zero =>
      obtain rfl : draft = d := by simpa using hd
      exact ⟨c, h⟩
    | succ j => exact hfirst j (Nat.lt_of_succ_lt_succ hj) d (by simpa using hd)

/-- Validation names the first invalid submission. The induction is on the
submissions, and the position of the first of them moves along. -/
theorem validateFrom_eq_error_iff {e : RuleFileFault} :
    validateFrom start drafts = .error e ↔
      ∃ i key cause, e = .invalid (start + i) key cause ∧ FirstInvalid drafts i key cause := by
  induction drafts generalizing start with
  | nil =>
    constructor
    · intro h
      cases h
    · rintro ⟨i, key, cause, -, hfirst⟩
      exact absurd hfirst not_firstInvalid_nil
  | cons draft rest ih =>
    rw [validateFrom]
    cases hvalid : draft.validate with
    | error cause =>
      -- The first submission is the culprit.
      simp only [firstInvalid_cons_of_error hvalid]
      constructor
      · intro h
        exact ⟨0, draft.ruleKey, cause, (Except.error.inj h).symm, rfl, rfl, rfl⟩
      · rintro ⟨i, key, e, rfl, rfl, rfl, rfl⟩
        rfl
    | ok c =>
      -- The culprit is behind it, and the start has moved by one.
      show validateFrom (start + 1) rest = .error e ↔ _
      rw [ih]
      simp only [firstInvalid_cons_of_ok hvalid]
      constructor
      · rintro ⟨i, key, cause, rfl, hfirst⟩
        exact ⟨i + 1, key, cause, by rw [Nat.add_right_comm, Nat.add_assoc], i, rfl, hfirst⟩
      · rintro ⟨j, key, cause, rfl, i, rfl, hfirst⟩
        exact ⟨i, key, cause, by rw [Nat.add_right_comm, Nat.add_assoc], hfirst⟩

/-- Validation passes where every submission is valid. It is the other side of
the lemma on faults. -/
theorem validateFrom_eq_ok_iff :
    validateFrom start drafts = .ok () ↔ ∀ d ∈ drafts, ∃ c, d.validate = .ok c := by
  induction drafts generalizing start with
  | nil => simp [validateFrom]
  | cons draft rest ih =>
    rw [validateFrom]
    cases hvalid : draft.validate with
    | error cause => simp [hvalid]
    | ok c => simp [hvalid, ih]

/-- There is a first invalid submission where there is an invalid one.
Validation finds it by going through the file from its front. -/
theorem exists_invalid_iff :
    (∃ index ruleKey cause, validate drafts = .error (.invalid index ruleKey cause)) ↔
      ∃ d ∈ drafts, ∃ cause, d.validate = .error cause := by
  constructor
  · rintro ⟨index, ruleKey, cause, h⟩
    obtain ⟨i, key, e, -, ⟨d, hd, -, hfault⟩, -⟩ := validateFrom_eq_error_iff.mp h
    exact ⟨d, List.mem_of_getElem? hd, e, hfault⟩
  · rintro ⟨d, hd, cause, hfault⟩
    cases hfile : validate drafts with
    | ok =>
      obtain ⟨c, hvalid⟩ := validateFrom_eq_ok_iff.mp hfile d hd
      rw [hfault] at hvalid
      cases hvalid
    | error e =>
      obtain ⟨i, key, cause, rfl, -⟩ := validateFrom_eq_error_iff.mp hfile
      exact ⟨_, key, cause, rfl⟩

variable {service : Service} {actor : Option String} {time : Instant} {s : Backend}

/-- A file that does not pass is not submitted. -/
theorem submit_of_error {e : RuleFileFault} (h : validate drafts = .error e) :
    submit service s drafts actor time = (.error e, s) := by
  rw [submit, h]

/-- A file that passes is submitted from its front. -/
theorem submit_of_ok (h : validate drafts = .ok ()) :
    submit service s drafts actor time
      = ((submitAll service actor time drafts s).1.mapError .service,
        (submitAll service actor time drafts s).2) := by
  rw [submit, h]

/-- Only validation reports an invalid submission. A fault that the service
finds in a draft has another form, and after validation it finds none. -/
theorem submit_eq_invalid_iff :
    (submit service s drafts actor time).1 = .error (.invalid index ruleKey cause) ↔
      validate drafts = .error (.invalid index ruleKey cause) := by
  cases hfile : validate drafts with
  | error e =>
    rw [submit_of_error hfile, Except.error.injEq, Except.error.injEq]
  | ok =>
    rw [submit_of_ok hfile]
    refine iff_of_false (fun h => ?_) nofun
    cases hrun : (submitAll service actor time drafts s).1 with
    | ok ws =>
      rw [hrun] at h
      cases h
    | error e =>
      rw [hrun] at h
      cases h

end RuleFile

/-! ### Revisions -/

namespace Backend

/-- The last revision that counts for the next one: the counter in memory, the
greatest revision column on disk. -/
def lastRevision : Backend → Int
  | memory l => l.lastRevision.toNat
  | disk d => d.lastRevision

variable {s next : Backend} {request : WriteRequest} {w : Written}

/-- A write gets the revision after the last one, and is the last one then. Of
the rows nothing is assumed, since the next revision is above all of them. -/
theorem revision_of_write (h : RuleStore.write s request = (.ok w, next)) :
    (w.rule.revision.toNat : Int) = s.lastRevision + 1 ∧
      next.lastRevision = s.lastRevision + 1 := by
  obtain ⟨l, rfl, hroom, hrule, rfl⟩ |
      ⟨d, before, revision, id, text, old, rfl, -, hrevision, -, hrule, -, rfl⟩ := of_write_ok h
  · have hnumber : ((l.lastRevision + 1).toNat : Int) = l.lastRevision.toNat + 1 := by
      rw [Ledger.toNat_succ hroom]
      rfl
    refine ⟨?_, hnumber⟩
    rw [hrule, Ledger.nextRule, WriteRequest.revision_rule]
    exact hnumber
  · have hnumber : (w.rule.revision.toNat : Int) = d.lastRevision + 1 := by
      rw [hrule, WriteRequest.revision_rule]
      exact Database.toNat_of_nextRevision hrevision
    refine ⟨hnumber, ?_⟩
    show Database.lastRevision (d.commit w id text old) = d.lastRevision + 1
    rw [← hnumber]
    -- The new row is in the table and no other row has a greater revision.
    have hput : RuleRow.ofRule w.rule text ∈ (d.commit w id text old).rules :=
      (Database.putsByKey_putRow _).self_mem _
    refine Database.lastRevision_eq hput fun row hrow => ?_
    obtain rfl | hold := (Database.putsByKey_putRow _).mem hrow
    · exact Int.le_refl _
    · have hless := Database.lt_of_nextRevision hrevision hold
      show row.revision ≤ (w.rule.revision.toNat : Int)
      rw [hrule, WriteRequest.revision_rule]
      exact Int.le_of_lt hless

end Backend

/-! ### Runs of submissions that succeed -/

namespace Service

variable {service : Service} {actor : Option String} {time : Instant}
  {s middle reached last : Backend}
  {draft : Draft} {drafts done rest longer : List Draft} {w : Written}
  {written others : List Written}

/-- Submissions one after the other, all of which succeed, with what they write
and the state that they lead to. -/
inductive Succession (service : Service) (actor : Option String) (time : Instant) :
    Backend → List Draft → List Written → Backend → Prop where
  | nil {s : Backend} : Succession service actor time s [] [] s
  | cons {s middle last : Backend} {draft : Draft} {rest : List Draft} {w : Written}
      {written : List Written} : service.submit s draft actor time = (.ok w, middle) →
      Succession service actor time middle rest written last →
      Succession service actor time s (draft :: rest) (w :: written) last

/-- As many submissions succeed at the front of a file, and no more do. The
store that is reached is the one that they have led to. -/
structure Progress (service : Service) (actor : Option String) (time : Instant) (s : Backend)
    (drafts done : List Draft) (written : List Written) (reached : Backend) : Prop where
  front : done <+: drafts
  succeeds : service.Succession actor time s done written reached
  longest : ∀ longer others last, longer <+: drafts →
    service.Succession actor time s longer others last → longer.length ≤ done.length

/-- A submission that succeeds writes the content of its draft, under the
revision after the last one. -/
theorem written_of_submit (h : service.submit s draft actor time = (.ok w, middle)) :
    draft.validate = .ok w.rule.content ∧ (w.rule.revision.toNat : Int) = s.lastRevision + 1 ∧
      middle.lastRevision = s.lastRevision + 1 := by
  obtain ⟨request, hrequest, hwrite⟩ := write_of_submit h
  obtain ⟨content, hvalid, rfl⟩ := Backend.requestOf_eq_ok hrequest
  refine ⟨?_, Backend.revision_of_write hwrite⟩
  rw [hvalid]
  obtain ⟨l, -, -, hrule, -⟩ | ⟨d, before, revision, id, text, old, -, -, -, -, hrule, -, -⟩ :=
    Backend.of_write_ok hwrite
  · rw [hrule, Ledger.nextRule, WriteRequest.content_rule]
  · rw [hrule, WriteRequest.content_rule]

/-- A run writes the contents of its drafts, one by one. -/
theorem Succession.contents (h : service.Succession actor time s done written reached) :
    List.Forall₂ (fun (d : Draft) (w : Written) => d.validate = .ok w.rule.content) done
      written := by
  induction h with
  | nil => exact .nil
  | cons hsubmit _ ih => exact .cons (written_of_submit hsubmit).1 ih

/-- The revisions of a run follow the last one without a gap. A submission that
fails ends the run, so no revision is lost on the way. -/
theorem Succession.revisions (h : service.Succession actor time s done written reached) :
    ∀ (i : Nat) (hi : i < written.length),
      (written[i].rule.revision.toNat : Int) = s.lastRevision + 1 + i := by
  induction h with
  | nil =>
    intro i hi
    exact absurd hi (Nat.not_lt_zero i)
  | @cons s middle last draft rest w written hsubmit _ ih =>
    obtain ⟨-, hfirst, hmiddle⟩ := written_of_submit hsubmit
    intro i hi
    cases i with
    | zero => simpa using hfirst
    | succ i =>
      -- Behind the first write the count starts one later.
      have hrest := ih i (Nat.lt_of_succ_lt_succ hi)
      rw [List.getElem_cons_succ, hrest, hmiddle]
      omega

/-- What is submitted behind a run starts where the run ended. The outcomes of
the run are put in front of those of the rest, if the rest succeeds. -/
theorem Succession.submitAll_append
    (h : service.Succession actor time s done written reached) (rest : List Draft) :
    RuleFile.submitAll service actor time (done ++ rest) s
      = ((RuleFile.submitAll service actor time rest reached).1.map (written ++ ·),
        (RuleFile.submitAll service actor time rest reached).2) := by
  induction h with
  | @nil s =>
    rw [List.nil_append]
    generalize RuleFile.submitAll service actor time rest s = run
    obtain ⟨outcome, next⟩ := run
    cases outcome <;> rfl
  | @cons s middle last draft done w written hsubmit _ ih =>
    rw [List.cons_append, Backend.submitAll_of_ok hsubmit, ih]
    generalize RuleFile.submitAll service actor time rest last = run
    obtain ⟨outcome, next⟩ := run
    cases outcome <;> rfl

/-- A longer run goes through the state that a shorter one leads to. Submissions
have one outcome, so two runs do not part while their drafts are the same. -/
theorem Succession.of_append (h : service.Succession actor time s done written reached)
    (hlonger : service.Succession actor time s (done ++ draft :: rest) others last) :
    ∃ w middle, service.submit reached draft actor time = (.ok w, middle) := by
  induction h generalizing others with
  | nil =>
    cases hlonger with
    | cons hsubmit _ => exact ⟨_, _, hsubmit⟩
  | cons hsubmit _ ih =>
    cases hlonger with
    | cons hsubmit' hrest =>
      -- The first submission has one outcome only.
      obtain ⟨-, rfl⟩ := Prod.mk.inj (hsubmit.symm.trans hsubmit')
      exact ih hrest

/-- A run stops at the end of the file or at a submission that fails and
changes nothing. -/
theorem exists_succession (service : Service) (actor : Option String) (time : Instant)
    (drafts : List Draft) (s : Backend) :
    ∃ done written reached, service.Succession actor time s done written reached ∧
      (drafts = done ∨ ∃ draft rest e, drafts = done ++ draft :: rest ∧
        service.submit reached draft actor time = (.error e, reached)) := by
  induction drafts generalizing s with
  | nil => exact ⟨[], [], s, .nil, .inl rfl⟩
  | cons draft rest ih =>
    cases hsubmit : service.submit s draft actor time with
    | mk outcome middle =>
      cases outcome with
      | error e =>
        -- A submission that fails leaves the store as it was.
        have hsame : middle = s := by
          have hstays := eq_of_submit_error (congrArg Prod.fst hsubmit)
          rwa [hsubmit] at hstays
        subst hsame
        exact ⟨[], [], middle, .nil, .inr ⟨draft, rest, e, rfl, hsubmit⟩⟩
      | ok w =>
        obtain ⟨done, written, reached, hrun, hstop⟩ := ih middle
        refine ⟨draft :: done, w :: written, reached, .cons hsubmit hrun, ?_⟩
        rcases hstop with rfl | ⟨failing, others, e, rfl, hfails⟩
        · exact .inl rfl
        · exact .inr ⟨failing, others, e, rfl, hfails⟩

/-- Such a run is the longest one at the front of the file. It ends with the
file, or at a submission that fails in the state that was reached. -/
theorem Succession.progress (h : service.Succession actor time s done written reached)
    (hstop : drafts = done ∨ ∃ draft rest e, drafts = done ++ draft :: rest ∧
      service.submit reached draft actor time = (.error e, reached)) :
    service.Progress actor time s drafts done written reached := by
  refine ⟨?_, h, fun longer others last hfront hlonger => ?_⟩
  · rcases hstop with rfl | ⟨draft, rest, e, rfl, -⟩
    · exact List.prefix_rfl
    · exact List.prefix_append ..
  · rcases hstop with rfl | ⟨draft, rest, e, rfl, hfails⟩
    · exact hfront.length_le
    · -- A run with the next submission in it would have it succeed.
      refine Nat.le_of_not_lt fun hlength => ?_
      have hnext : done ++ [draft] <+: done ++ draft :: rest := ⟨rest, by simp⟩
      have hdone : done ++ [draft] <+: longer := by
        refine List.prefix_of_prefix_length_le hnext hfront ?_
        rw [List.length_append, List.length_singleton]
        exact hlength
      obtain ⟨tail, rfl⟩ := hdone
      rw [List.append_assoc, List.singleton_append] at hlonger
      obtain ⟨w, middle, hsucceeds⟩ := h.of_append hlonger
      rw [hfails] at hsucceeds
      cases (Prod.mk.inj hsucceeds).1

/-- A valid draft is refused for the limit or by the store, never for what it
says. So a file that has been validated is never called invalid later on. -/
theorem failsWith_submit {c : Content} (h : draft.validate = .ok c) :
    FailsWith (fun e => ∀ cause, e ≠ .rule cause) (service.submit s draft actor time).1 := by
  have hstore : FailsWith (fun e => ∀ cause, e ≠ .rule cause)
      ((RuleStore.write s ⟨c, actor, time⟩).1.mapError ServiceFault.store) :=
    .mapError (fun _ _ => nofun) _
  cases henabled : c.enabled with
  | false =>
    rw [submit_of_disabled s h henabled]
    exact hstore
  | true =>
    -- Before an enabled rule is written the service lists the others.
    have hlimit : FailsWith (fun e => ∀ cause, e ≠ .rule cause)
        (service.checkRoom s c.ruleKey) := by
      refine .bind (.mapError (fun _ _ => nofun) _) fun rules => ?_
      split
      · exact .error fun _ => nofun
      · exact .ok _
    rw [submit, requestOf_of_enabled s h henabled]
    cases hroom : service.checkRoom s c.ruleKey with
    | ok => exact hstore
    | error e => exact .error (hlimit e hroom)

end Service

/-! ### Imports -/

/-- **An import is all or nothing on validation, and a prefix otherwise.** Take a
store of either kind in any state, also a database that somebody altered, and
any file. The import reports an invalid submission exactly when there is one.
What it reports is the first one, under its key as written, and the store stays
as it was. If all submissions are valid, no import fails for what a rule says.
It carries out the submissions at the front of the file as far as they succeed,
each with the content of its draft and under the revision that follows the last
one, and no more of them can succeed. Either that is the whole file and what was
written is returned, or it is the fault of the next submission, and neither that
one nor those behind it have changed the store. -/
theorem import_writes_longest_prefix (service : Service) (s : Backend) (drafts : List Draft)
    (actor : Option String) (time : Instant) :
    let run := RuleFile.submit service s drafts actor time
    (∀ index ruleKey cause, run = (.error (.invalid index ruleKey cause), s) ↔
      RuleFile.FirstInvalid drafts index ruleKey cause) ∧
    ((∃ index ruleKey cause, run.1 = .error (.invalid index ruleKey cause)) ↔
      ∃ d ∈ drafts, ∃ cause, d.validate = .error cause) ∧
    ((∀ d ∈ drafts, ∃ c, d.validate = .ok c) →
      (∀ cause, run.1 ≠ .error (.service (.rule cause))) ∧
      ∃ done written reached, service.Progress actor time s drafts done written reached ∧
        run.2 = reached ∧
        List.Forall₂ (fun (d : Draft) (w : Written) => d.validate = .ok w.rule.content) done
          written ∧
        (∀ (i : Nat) (hi : i < written.length),
          (written[i].rule.revision.toNat : Int) = s.lastRevision + 1 + i) ∧
        ((done = drafts ∧ run.1 = .ok written) ∨
          ∃ draft rest e, drafts = done ++ draft :: rest ∧
            service.submit reached draft actor time = (.error e, reached) ∧
            run.1 = .error (.service e))) := by
  intro run
  refine ⟨fun index ruleKey cause => ?_, ?_, fun hvalid => ?_⟩
  · constructor
    · intro h
      obtain ⟨i, key, e, heq, hfirst⟩ := RuleFile.validateFrom_eq_error_iff.mp
        (RuleFile.submit_eq_invalid_iff.mp (congrArg Prod.fst h))
      rw [Nat.zero_add] at heq
      obtain ⟨rfl, rfl, rfl⟩ := RuleFileFault.invalid.inj heq
      exact hfirst
    · intro hfirst
      refine RuleFile.submit_of_error (RuleFile.validateFrom_eq_error_iff.mpr ?_)
      exact ⟨index, ruleKey, cause, by rw [Nat.zero_add], hfirst⟩
  · rw [← RuleFile.exists_invalid_iff]
    simp only [run, RuleFile.submit_eq_invalid_iff]
  · have hrun : run = _ := RuleFile.submit_of_ok (RuleFile.validateFrom_eq_ok_iff.mpr hvalid)
    obtain ⟨done, written, reached, hsucceeds, hstop⟩ :=
      Service.exists_succession service actor time drafts s
    have hprogress := hsucceeds.progress hstop
    rcases hstop with rfl | ⟨draft, rest, e, rfl, hfails⟩
    · -- Nothing is left of the file.
      have hall := hsucceeds.submitAll_append []
      rw [List.append_nil, RuleFile.submitAll] at hall
      have hwritten : run = (.ok written, reached) := by
        rw [hrun, hall]
        simp [Except.map, Except.mapError]
      refine ⟨fun cause => ?_, drafts, written, reached, hprogress, ?_, hsucceeds.contents,
        hsucceeds.revisions, .inl ⟨rfl, ?_⟩⟩
      · rw [hwritten]
        intro h
        cases h
      · rw [hwritten]
      · rw [hwritten]
    · have hall := hsucceeds.submitAll_append (draft :: rest)
      rw [Backend.submitAll_of_error hfails] at hall
      have hstopped : run = (.error (.service e), reached) := by
        rw [hrun, hall]
        rfl
      -- The draft that fails is valid, so it does not fail for what it says.
      obtain ⟨c, hdraft⟩ := hvalid draft (by simp)
      have hcause := Service.failsWith_submit hdraft e (congrArg Prod.fst hfails)
      refine ⟨fun cause h => ?_, done, written, reached, hprogress, ?_, hsucceeds.contents,
        hsucceeds.revisions, .inr ⟨draft, rest, e, rfl, hfails, ?_⟩⟩
      · rw [hstopped] at h
        exact hcause cause (RuleFileFault.service.inj (Except.error.inj h))
      · rw [hstopped]
      · rw [hstopped]

end Overrides
