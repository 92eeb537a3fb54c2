import Overrides.Proofs.Server.Actor
import Overrides.Proofs.Service.Import
import Overrides.Proofs.Store.Counters

/-!
# `Overrides.Proofs.Service.Offline`: a file compiled without a store

Compiling a rule file without a store is meant to show what importing it
will do. The two differ in the store, in the name that is written and in
the instant of the writes. What they have in common is the walk over the
contents of the file, with the limit of enabled rules on the way:
`Service.takeIn`. After it the store holds the content that each key has
last, under its position in the file as the revision, and it has counted
as far as the file is long.

* `lastOfKeys_append`: the contents that a file has last, one content more.
* `Backend.TookIn.submitAll`: submissions to a store of either kind follow
  the walk.
* `compile_unattributed`: by whom and when rules are written does not matter
  for snapshots.
* `offline_compilation_predicts_import`: the two runs compared.
-/

set_option autoImplicit false

namespace Overrides

/-! ### The contents that a file has last -/

/-- The contents that a file has last for their keys, and their positions in
it, the first position being one. -/
def lastOfKeys (file : List Content) : List (Content × Nat) :=
  (file.zipIdx 1).filter fun p => (file.drop p.2).all fun d => d.ruleKey ≠ p.1.ruleKey

/-- How many keys have an enabled content last. -/
def enabledKeys (file : List Content) : Nat := ((lastOfKeys file).filter (·.1.enabled)).length

/-- The rules of a file of which each was written once, its position being
its revision. -/
def lastRules (actor : Option String) (time : Instant) (file : List Content) : List Rule :=
  (lastOfKeys file).map fun p => .written none p.1 (.ofNat p.2) actor time

section

variable {file : List Content} {c : Content} {actor : Option String} {time : Instant}

/-- A content at the end of a file is the last one of its key, and the earlier
ones of this key are none any more. Positions are counted from one, like
revisions. -/
theorem lastOfKeys_append (file : List Content) (c : Content) :
    lastOfKeys (file ++ [c])
      = (lastOfKeys file).filter (·.1.ruleKey ≠ c.ruleKey) ++ [(c, file.length + 1)] := by
  rw [lastOfKeys, List.zipIdx_append, List.filter_append, lastOfKeys, List.filter_filter]
  congr 1
  · refine List.filter_congr fun p hp => ?_
    -- Behind a position in the file there is the rest of the file, and `c`.
    have hle : p.2 ≤ file.length := by
      have hlt := List.snd_lt_of_mem_zipIdx hp
      omega
    rw [List.drop_append_of_le_length hle, List.all_append, Bool.and_comm]
    simp [eq_comm]
  · simp [Nat.add_comm]

/-- The rule of that content comes last, and the one before it under its key is gone. -/
theorem lastRules_append (file : List Content) (c : Content) :
    lastRules actor time (file ++ [c])
      = (lastRules actor time file).filter (·.key ≠ c.ruleKey)
        ++ [.written none c (.ofNat (file.length + 1)) actor time] := by
  rw [lastRules, lastOfKeys_append, List.map_append, lastRules, List.filter_map]
  rfl

/-- All these rules are by one writer, of one instant. -/
theorem mem_lastRules {r : Rule} (h : r ∈ lastRules actor time file) :
    r.createdBy = actor ∧ r.createdAt = time := by
  obtain ⟨p, -, rfl⟩ := List.mem_map.mp h
  exact ⟨rfl, rfl⟩

/-- So many rules are enabled. -/
theorem length_enabled_lastRules (actor : Option String) (time : Instant) (file : List Content) :
    ((lastRules actor time file).filter (·.content.enabled)).length = enabledKeys file := by
  rw [lastRules, List.filter_map, List.length_map]
  rfl

/-- Writing one more content leaves as many enabled rules as keys of the longer
file have an enabled content. -/
theorem enabledAfter_lastRules (actor : Option String) (time : Instant) (file : List Content)
    (c : Content) :
    enabledAfter (lastRules actor time file).reverse c = enabledKeys (file ++ [c]) := by
  rw [← length_enabled_lastRules actor time, lastRules_append, List.filter_append,
    List.length_append, enabledAfter, List.filter_reverse, List.filter_reverse,
    List.length_reverse, List.filter_comm]
  cases henabled : c.enabled <;> simp [Rule.written, henabled]

/-- A disabled content does not add to the enabled ones. -/
theorem enabledKeys_append_le (h : c.enabled = false) :
    enabledKeys (file ++ [c]) ≤ enabledKeys file := by
  have hle : enabledAfter (lastRules none ⟨0, 0⟩ file).reverse c ≤ _ :=
    enabledAfter_le_of_disabled h
  rwa [enabledAfter_lastRules, List.filter_reverse, List.length_reverse,
    length_enabled_lastRules] at hle

end

/-! ### The walk over a file -/

namespace Service

variable {service : Service} {file contents whole : List Content} {c : Content}

/-- One more content is taken in, unless it is enabled and there are too many
keys with an enabled content then. -/
def takeIn (service : Service) (file : List Content) (c : Content) :
    Except ServiceFault (List Content) :=
  if c.enabled ∧ service.maxRules < enabledKeys (file ++ [c]) then
    .error (.ruleLimitReached service.maxRules)
  else .ok (file ++ [c])

/-- What is taken in comes at the end, where there is room for it. Disabled
contents need no room. -/
theorem takeIn_eq_ok (h : service.takeIn file c = .ok whole) :
    whole = file ++ [c] ∧ ¬ (c.enabled ∧ service.maxRules < enabledKeys whole) := by
  rw [takeIn] at h
  split at h
  · cases h
  · rename_i hroom
    obtain rfl := Except.ok.inj h
    exact ⟨rfl, hroom⟩

/-- There are not too many enabled contents then. -/
theorem enabledKeys_le_of_takeIn (h : service.takeIn file c = .ok whole)
    (hbound : enabledKeys file ≤ service.maxRules) : enabledKeys whole ≤ service.maxRules := by
  obtain ⟨rfl, hroom⟩ := takeIn_eq_ok h
  cases henabled : c.enabled with
  | false => exact Nat.le_trans (enabledKeys_append_le henabled) hbound
  | true => exact Nat.le_of_not_lt fun hfull => hroom ⟨henabled, hfull⟩

/-- A walk that is not stopped takes in every content. The limit then holds at
its end as well. -/
theorem foldlM_takeIn_eq_ok (h : contents.foldlM service.takeIn file = .ok whole)
    (hbound : enabledKeys file ≤ service.maxRules) :
    whole = file ++ contents ∧ enabledKeys whole ≤ service.maxRules := by
  induction contents generalizing file with
  | nil =>
    obtain rfl := Except.ok.inj h
    exact ⟨(List.append_nil _).symm, hbound⟩
  | cons c contents ih =>
    rw [List.foldlM_cons] at h
    obtain ⟨longer, hstep, hrest⟩ := bind_eq_ok_iff.mp h
    obtain ⟨rfl, hwhole⟩ := ih hrest (enabledKeys_le_of_takeIn hstep hbound)
    obtain ⟨rfl, -⟩ := takeIn_eq_ok hstep
    exact ⟨List.append_assoc .., hwhole⟩

end Service

/-! ### Stores along the walk -/

namespace Backend

variable {s next : Backend} {service : Service} {file contents : List Content} {c : Content}
  {draft : Draft} {drafts : List Draft} {actor : Option String} {time : Instant}

/-- The store was new and has taken in a file, by one writer at one instant. So
the revision of a rule is the position that its content has in the file. -/
structure TookIn (actor : Option String) (time : Instant) (s : Backend) (file : List Content) :
    Prop where
  recalls : s.Recalls (lastRules actor time file).reverse
  counts : s.CountsTo file.length

/-- A run on a store follows a walk: it stops at the same fault, or the store
has taken in as much. -/
inductive Follows {α : Type} (actor : Option String) (time : Instant) :
    Except ServiceFault (List Content) → Except ServiceFault α × Backend → Prop where
  | stopped {e : ServiceFault} {s : Backend} : Follows actor time (.error e) (.error e, s)
  | done {file : List Content} {a : α} {s : Backend} : s.TookIn actor time file →
      Follows actor time (.ok file) (.ok a, s)

/-- A new store has taken in nothing. -/
theorem Fresh.tookIn (h : s.Fresh) (actor : Option String) (time : Instant) :
    s.TookIn actor time [] := ⟨h.recalls, h.countsTo⟩

/-- While there is room, one more content is written, and its rule has its
position as revision. -/
theorem TookIn.write (h : s.TookIn actor time file) (hby : Attributable actor time)
    (hroom : (file.length : Int) < Database.maxInteger)
    (hproper : (⟨c, actor, time⟩ : WriteRequest).Proper) :
    ∃ w next, RuleStore.write s ⟨c, actor, time⟩ = (.ok w, next) ∧
      next.TookIn actor time (file ++ [c]) := by
  obtain ⟨rules, hholds, hperm⟩ := h.recalls.holds
  have hsame : ∀ r ∈ rules, r.createdBy = actor ∧ r.createdAt = time := fun r hr =>
    mem_lastRules (List.mem_reverse.mp (hperm.mem_iff.mpr hr))
  have hnames : NamesFit rules := by
    intro r hr
    rw [(hsame r hr).1]
    exact hby.name
  obtain ⟨w, next, hwrite⟩ := h.counts.writes hholds hroom hnames hproper hby
  obtain ⟨hrevision, hcounts⟩ := h.counts.write hholds h.recalls.counted hproper hwrite
  have hrule : w.rule = .written none c (.ofNat (file.length + 1)) actor time := by
    obtain ⟨before, revision, hbefore, hrule⟩ := hholds.rule_of_write hwrite
    rw [hrule, WriteRequest.revision_rule] at hrevision
    rw [hrule, ← hrevision, UInt64.ofNat_toNat]
    cases before with
    | none => rfl
    | some old =>
      -- The rule that is replaced is of the same writer and instant.
      obtain ⟨hactor, htime⟩ := hsame old (hbefore old rfl)
      simp only [WriteRequest.rule, Rule.written, hactor, htime]
  obtain ⟨-, hrecalls⟩ := h.recalls.of_write hproper hwrite
  refine ⟨w, next, hwrite, ?_, ?_⟩
  · rwa [lastRules_append, List.reverse_append, List.reverse_singleton, List.singleton_append,
      ← List.filter_reverse, ← hrule]
  · rwa [List.length_append, List.length_singleton]

/-- One submission is one step of the walk. The limit is the same number on both
sides, and with a writer on record and room in the counters the store does not
refuse it. -/
theorem TookIn.submit (h : s.TookIn actor time file) (service : Service)
    (hby : Attributable actor time)
    (hroom : (file.length : Int) < Database.maxInteger) (hvalid : draft.validate = .ok c) :
    Follows actor time (service.takeIn file c) (service.submit s draft actor time) := by
  obtain ⟨w, next, hwrite, hnext⟩ := h.write hby hroom ⟨draft, hvalid⟩
  obtain ⟨rules, hholds, hperm⟩ := h.recalls.holds
  cases henabled : c.enabled with
  | false =>
    rw [Service.submit_of_disabled s hvalid henabled, hwrite, Service.takeIn, henabled,
      if_neg fun hfull => nomatch hfull.1]
    exact .done hnext
  | true =>
    -- The store holds the last contents in another order, which makes no difference to the count.
    have hcount : enabledAfter rules c = enabledKeys (file ++ [c]) := by
      rw [← enabledAfter_lastRules actor time, enabledAfter, enabledAfter,
        ((hperm.filter _).filter _).length_eq]
    rw [Service.submit_of_enabled hholds hvalid henabled, hcount, Service.takeIn, henabled]
    by_cases hfull : service.maxRules < enabledKeys (file ++ [c])
    · rw [if_pos hfull, if_pos ⟨rfl, hfull⟩]
      exact .stopped
    · rw [if_neg hfull, if_neg fun h => hfull h.2, hwrite]
      exact .done hnext

/-- Submissions one after the other are the walk over their contents. The run
and the walk stop at the same submission, if at any. -/
theorem TookIn.submitAll (h : s.TookIn actor time file) (service : Service)
    (hby : Attributable actor time)
    (hcontents : drafts.mapM Draft.validate = .ok contents)
    (hroom : ((file ++ contents).length : Int) ≤ Database.maxInteger) :
    Follows actor time (contents.foldlM service.takeIn file)
      (RuleFile.submitAll service actor time drafts s) := by
  -- The induction is on the submissions; the store and what it has taken in move along.
  induction drafts generalizing s file contents with
  | nil =>
    obtain rfl := Except.ok.inj hcontents
    exact .done h
  | cons draft rest ih =>
    rw [List.mapM_cons] at hcontents
    obtain ⟨c, hvalid, hrest⟩ := bind_eq_ok_iff.mp hcontents
    obtain ⟨others, hothers, hcons⟩ := bind_eq_ok_iff.mp hrest
    obtain rfl := Except.ok.inj hcons
    have hstep := h.submit service hby
      (by rw [List.length_append, List.length_cons] at hroom; omega) hvalid
    rw [List.foldlM_cons]
    cases hsubmit : service.submit s draft actor time with
    | mk outcome next =>
      rw [hsubmit] at hstep
      generalize htaken : service.takeIn file c = taken at hstep
      cases hstep with
      | stopped =>
        rw [submitAll_of_error hsubmit]
        exact .stopped
      | @done longer w _ hnext =>
        obtain ⟨rfl, -⟩ := Service.takeIn_eq_ok htaken
        rw [submitAll_of_ok hsubmit, ok_bind]
        have hothers := ih hnext hothers (by rwa [List.append_cons] at hroom)
        generalize RuleFile.submitAll service actor time rest next = run at hothers
        generalize others.foldlM service.takeIn (file ++ [c]) = walk at hothers
        cases hothers with
        | stopped => exact .stopped
        | done hlast => exact .done hlast

/-! ### Snapshots -/

/-- What a store has taken in is what its snapshots are compiled from. The rules
are listed in order of precedence and not as they were taken in, which
compilation does not see. -/
theorem TookIn.snapshot (h : s.TookIn actor time file)
    (hbound : enabledKeys file ≤ service.maxRules) (context : Context) (now : Instant) :
    service.snapshot s context now
      = .ok (Snapshot.compile service.compiler (lastRules actor time file) context now) := by
  have hranked := h.recalls.distinctlyRanked.perm (List.reverse_perm _).symm
  -- The number of rules that the service compares with its limit.
  have hlength : (Rule.sortByPrecedence
      ((lastRules actor time file).reverse.filter Query.enabled.accepts)).length
      = enabledKeys file := by
    rw [Rule.sortByPrecedence, List.length_mergeSort, accepts_enabled, List.filter_reverse,
      List.length_reverse, length_enabled_lastRules]
  rw [Service.snapshot_of_list (h.recalls.list .enabled), hlength,
    if_neg (Nat.not_lt_of_le hbound), h.recalls.compile]
  exact congrArg Except.ok (compile_eq_of_ofEligible
    (ofEligible_perm (hranked.filter _) (eligible_perm (List.reverse_perm _) _)))

end Backend

/-- The rule without its writers and instants. -/
def Rule.unattributed (r : Rule) : Rule := ⟨r.content, r.revision, ⟨0, 0⟩, ⟨0, 0⟩, none, none⟩

section

variable {compiler : Compiler} {context : Context} {now : Instant}

/-- By whom and when rules were written does not matter for their snapshots. So
rules in memory, which nobody wrote, may stand for those that a store attributes
to somebody. -/
theorem compile_unattributed (rules : List Rule) :
    Snapshot.compile compiler (rules.map Rule.unattributed) context now
      = Snapshot.compile compiler rules context now := by
  have hresolved : ∀ rs : List Rule, Resolved.ofEligible (rs.map Rule.unattributed)
      = Resolved.ofEligible rs := by
    intro rs
    -- Precedence looks at contents and revisions only, so sorting can be done first.
    have hsort : Rule.sortByPrecedence (rs.map Rule.unattributed)
        = (Rule.sortByPrecedence rs).map Rule.unattributed :=
      (List.map_mergeSort (f := Rule.unattributed) (s := Rule.precedes) fun _ _ _ _ => rfl).symm
    rw [Resolved.ofEligible, hsort, List.foldl_map, List.any_map]
    rfl
  refine compile_eq_of_ofEligible ?_
  rw [eligible, List.filter_map, hresolved]
  rfl

/-- So the rules of a file may be those of anyone, at any instant. -/
theorem compile_lastRules (actor actor' : Option String) (time time' : Instant)
    (file : List Content) :
    Snapshot.compile compiler (lastRules actor time file) context now
      = Snapshot.compile compiler (lastRules actor' time' file) context now := by
  rw [← compile_unattributed, ← compile_unattributed (lastRules actor' time' file), lastRules,
    lastRules, List.map_map, List.map_map]
  rfl

end

/-! ### Files -/

section

variable {service : Service} {drafts : List Draft} {actor : Option String} {time : Instant}

/-- The submissions of a file that passes have contents. The position that
validation counts is of no account for this. -/
theorem exists_mapM_validate {i : Nat} (h : RuleFile.validateFrom i drafts = .ok ()) :
    ∃ file, drafts.mapM Draft.validate = .ok file := by
  induction drafts generalizing i with
  | nil => exact ⟨[], rfl⟩
  | cons draft rest ih =>
    rw [RuleFile.validateFrom] at h
    cases hvalid : draft.validate with
    | error e =>
      rw [hvalid] at h
      cases h
    | ok c =>
      rw [hvalid] at h
      obtain ⟨file, hfile⟩ := ih h
      exact ⟨c :: file, by rw [List.mapM_cons, hvalid, ok_bind, hfile]; rfl⟩

/-- A ledger submits as the store that it is in. -/
theorem submit_memory (l : Ledger) (draft : Draft) :
    service.submit (Backend.memory l) draft actor time
      = ((service.submit l draft actor time).1, .memory (service.submit l draft actor time).2) := by
  have hrequest : service.requestOf (Backend.memory l) draft actor time
      = service.requestOf l draft actor time := rfl
  rw [Service.submit, Service.submit, hrequest]
  split <;> rfl

/-- A ledger that is handed over as a store of either kind does what it does by
itself. -/
theorem submitAll_memory (l : Ledger) (drafts : List Draft) :
    RuleFile.submitAll service actor time drafts (Backend.memory l)
      = ((RuleFile.submitAll service actor time drafts l).1,
        .memory (RuleFile.submitAll service actor time drafts l).2) := by
  induction drafts generalizing l with
  | nil => rfl
  | cons draft rest ih =>
    rw [RuleFile.submitAll, RuleFile.submitAll, submit_memory]
    cases hsubmit : service.submit l draft actor time with
    | mk outcome next =>
      cases outcome with
      | error e => rfl
      | ok w =>
        dsimp only
        rw [ih]

variable {context : Context} {now : Instant} {file : List Content}

/-- A file that passes is submitted to a new store along the walk over its
contents, and what can be compiled then is what the file has last. -/
theorem submitFile_of_fresh {s : Backend} (hs : s.Fresh) (service : Service)
    (hby : Attributable actor time) (hcount : (drafts.length : Int) ≤ Database.maxInteger)
    (hvalid : RuleFile.validate drafts = .ok ()) (hfile : drafts.mapM Draft.validate = .ok file)
    (context : Context) (now : Instant) :
    let run := RuleFile.submit service s drafts actor time
    (∃ e, file.foldlM service.takeIn [] = .error e ∧ run.1 = .error (.service e)) ∨
    ∃ written, file.foldlM service.takeIn [] = .ok file ∧ run.1 = .ok written ∧
      ∀ (who : Option String) (day : Instant), service.snapshot run.2 context now
        = .ok (Snapshot.compile service.compiler (lastRules who day file) context now) := by
  have hlength := (mapM_eq_ok_iff.mp hfile).length_eq
  have hfollows := (hs.tookIn actor time).submitAll service hby hfile
    (by rw [List.nil_append]; omega)
  rw [RuleFile.submit, hvalid]
  -- From here on, only what the run has in common with the walk is used.
  generalize hrun : RuleFile.submitAll service actor time drafts s = run at hfollows ⊢
  generalize hwalk : file.foldlM service.takeIn [] = walk at hfollows ⊢
  cases hfollows with
  | stopped => exact .inl ⟨_, rfl, rfl⟩
  | done htook =>
    obtain ⟨rfl, hbound⟩ := Service.foldlM_takeIn_eq_ok hwalk (Nat.zero_le _)
    refine .inr ⟨_, rfl, rfl, fun who day => ?_⟩
    rw [compile_lastRules who actor day time]
    exact htook.snapshot hbound context now

/-- A file is compiled without a store as it is submitted to a new ledger. The
ledger is the store that is thrown away afterwards. -/
theorem compile_eq_memory (service : Service) (drafts : List Draft) (context : Context)
    (now : Instant) :
    let run := RuleFile.submit service (Backend.memory .empty) drafts
      (some RuleFile.offlineActor) now
    RuleFile.compile service drafts context now
      = run.1.bind fun _ => (service.snapshot run.2 context now).mapError .service := by
  rw [RuleFile.compile, RuleFile.submit, RuleFile.submit, submitAll_memory]
  split <;> rfl

/-- Both runs are stopped by the same fault, or both end with the snapshot of
what the file has last. -/
theorem offline_and_imported (service : Service) (context : Context)
    (hby : Attributable actor time) (hnow : now.HasWrittenForm)
    (hcount : (drafts.length : Int) ≤ Database.maxInteger) :
    let offline := RuleFile.compile service drafts context now
    let imported := RuleFile.submit service (Backend.disk .empty) drafts actor time
    (∃ e, offline = .error e ∧ imported.1 = .error e) ∨
    ∃ file written snapshot, drafts.mapM Draft.validate = .ok file ∧ offline = .ok snapshot ∧
      imported.1 = .ok written ∧ service.snapshot imported.2 context now = .ok snapshot ∧
      ∀ (who : Option String) (day : Instant),
        snapshot = Snapshot.compile service.compiler (lastRules who day file) context now := by
  intro offline imported
  have hoffline : offline = _ := compile_eq_memory service drafts context now
  cases hvalid : RuleFile.validate drafts with
  | error e =>
    -- The submissions are checked before the store is touched.
    have hsubmit : ∀ (s : Backend) (who : Option String) (day : Instant),
        RuleFile.submit service s drafts who day = (.error e, s) := by
      intro s who day
      rw [RuleFile.submit, hvalid]
    refine .inl ⟨e, ?_, congrArg Prod.fst (hsubmit ..)⟩
    rw [hoffline, hsubmit]
    rfl
  | ok =>
    obtain ⟨file, hfile⟩ := exists_mapM_validate hvalid
    have hshort : ∀ name ∈ some RuleFile.offlineActor, name.utf8ByteSize ≤ 2 * maxActorBytes := by
      decide +kernel
    -- Both runs go along the walk over the contents of the file.
    have hmemory := submitFile_of_fresh .memory service ⟨hshort, hnow⟩ hcount hvalid hfile context
      now
    have hdisk := submitFile_of_fresh .disk service hby hcount hvalid hfile context now
    obtain ⟨e, hwalk, hfails⟩ | ⟨ledger, hwalk, hledger, hcompiled⟩ := hmemory
    · obtain ⟨e', hwalk', hrefused⟩ | ⟨_, hwalk', -⟩ := hdisk
      · obtain rfl := Except.error.inj (hwalk.symm.trans hwalk')
        exact .inl ⟨_, by rw [hoffline, hfails]; rfl, hrefused⟩
      · cases hwalk.symm.trans hwalk'
    · obtain ⟨e', hwalk', -⟩ | ⟨written, -, hwritten, hsnapshot⟩ := hdisk
      · cases hwalk.symm.trans hwalk'
      · refine .inr ⟨file, written, _, hfile, ?_, hwritten, hsnapshot none now, fun who day => ?_⟩
        · rw [hoffline, hledger]
          show (service.snapshot _ context now).mapError RuleFileFault.service = _
          rw [hcompiled none now]
          rfl
        · exact compile_lastRules ..

end

/-- **Compiling a file without a store predicts its import.** Compile the
submissions of a file without a store, for any context at any instant that can
be written. Import them into a new database, by any actor at any such instant,
and take the snapshot there for the same context at the first instant. Both
runs fail with the same fault, or both succeed and the two snapshots are the
same, trace and digest included. It is the snapshot of the contents that the
file has last for their trimmed keys, with their positions in the file as
revisions, whoever wrote them. A list in memory is never longer than the count
allows. -/
theorem offline_compilation_predicts_import (service : Service) (drafts : List Draft)
    (context : Context) {now time : Instant} {raw actor : Option String}
    (hcount : (drafts.length : Int) ≤ Database.maxInteger)
    (hactor : normalizeActor raw = .ok actor) (hnow : now.HasWrittenForm)
    (htime : time.HasWrittenForm) :
    let offline := RuleFile.compile service drafts context now
    let imported := RuleFile.submit service (Backend.disk .empty) drafts actor time
    (∀ snapshot, offline = .ok snapshot ↔
      (∃ written, imported.1 = .ok written) ∧
        service.snapshot imported.2 context now = .ok snapshot) ∧
    (∀ snapshot, offline = .ok snapshot → ∃ file, drafts.mapM Draft.validate = .ok file ∧
      ∀ (who : Option String) (day : Instant),
        snapshot = Snapshot.compile service.compiler (lastRules who day file) context now) ∧
    ∀ e, offline = .error e → imported.1 = .error e := by
  dsimp only
  have hby : Attributable actor time := ⟨utf8ByteSize_of_normalizeActor hactor, htime⟩
  obtain ⟨e, hfails, hrefused⟩ | ⟨file, written, snapshot, hfile, hcompiled, hwritten, hsnapshot,
    hlast⟩ := offline_and_imported service context hby hnow hcount
  -- Both runs fail, so what is said of a snapshot is said of none.
  · refine ⟨fun snapshot => ?_, fun snapshot hsnapshot => ?_, fun e' he' => ?_⟩
    · rw [hfails, hrefused]
      exact iff_of_false (fun h => nomatch h) fun ⟨⟨_, h⟩, _⟩ => nomatch h
    · exact nomatch hfails.symm.trans hsnapshot
    · rw [← Except.error.inj (hfails.symm.trans he')]
      exact hrefused
  · refine ⟨fun other => ?_, fun other hother => ?_, fun e he => ?_⟩
    · rw [hcompiled, hsnapshot, Except.ok.injEq, Except.ok.injEq]
      exact (and_iff_right ⟨written, hwritten⟩).symm
    · obtain rfl := Except.ok.inj (hcompiled.symm.trans hother)
      exact ⟨file, hfile, hlast⟩
    · exact nomatch hcompiled.symm.trans he

/-- A file with one rule, and then the same rule again. -/
def calmFeedTwice : List Draft := [calmFeedSubmission.draft, calmFeedSubmission.draft]

/-- Both submissions of the file have the same content. -/
theorem mapM_validate_calmFeedTwice :
    calmFeedTwice.mapM Draft.validate = .ok [calmFeedContent, calmFeedContent] :=
  mapM_eq_ok_iff.mpr (.cons validate_calmFeedSubmission (.cons validate_calmFeedSubmission .nil))

/-- The walk takes in both of them: the second replaces the first, and one key
is enabled. -/
theorem foldlM_takeIn_calmFeedTwice :
    [calmFeedContent, calmFeedContent].foldlM Config.default.service.takeIn []
      = .ok [calmFeedContent, calmFeedContent] := by
  rw [List.foldlM_cons, Service.takeIn, if_neg (by decide), ok_bind, List.foldlM_cons,
    Service.takeIn, if_neg (by decide)]
  rfl

/-- The rule is in the snapshots as the second one of its file, and importing
the file succeeds. -/
theorem calmFeedTwice_predicted : ∃ snapshot,
    RuleFile.compile Config.default.service calmFeedTwice default ⟨0, 0⟩ = .ok snapshot ∧
    Config.default.service.snapshot (RuleFile.submit Config.default.service (Backend.disk .empty)
      calmFeedTwice (some "ops") ⟨1000000, 0⟩).2 default ⟨0, 0⟩ = .ok snapshot ∧
    snapshot = Snapshot.compile Config.default.service.compiler
      [.written none calmFeedContent 2 none ⟨0, 0⟩] default ⟨0, 0⟩ := by
  have hnow : Instant.HasWrittenForm ⟨0, 0⟩ := by
    refine ⟨?_, by show _ < _; decide⟩
    show 0 ≤ (Instant.toLocal ⟨0, 0⟩).date.year ∧ (Instant.toLocal ⟨0, 0⟩).date.year ≤ 9999
    decide +kernel
  have htime : Instant.HasWrittenForm ⟨1000000, 0⟩ := ⟨calmFeed_regular.year, by show _ < _; decide⟩
  have hactor : normalizeActor (some " Ops ") = .ok (some "ops") := by decide +kernel
  obtain ⟨hsame, hlast, hfails⟩ := offline_compilation_predicts_import Config.default.service
    calmFeedTwice default (by decide) hactor hnow htime
  cases hoffline : RuleFile.compile Config.default.service calmFeedTwice default ⟨0, 0⟩ with
  | error e =>
    have hvalid : RuleFile.validate calmFeedTwice = .ok () := by
      rw [calmFeedTwice, RuleFile.validate, RuleFile.validateFrom, validate_calmFeedSubmission,
        RuleFile.validateFrom, validate_calmFeedSubmission, RuleFile.validateFrom]
    -- The walk over the file is not stopped, and so the import is not.
    obtain ⟨e', hwalk, -⟩ | ⟨written, -, hwritten, -⟩ := submitFile_of_fresh .disk _
      ⟨utf8ByteSize_of_normalizeActor hactor, htime⟩ (by decide) hvalid mapM_validate_calmFeedTwice
      default ⟨0, 0⟩
    · cases foldlM_takeIn_calmFeedTwice.symm.trans hwalk
    · cases (hfails e hoffline).symm.trans hwritten
  | ok snapshot =>
    obtain ⟨-, himported⟩ := (hsame snapshot).mp hoffline
    obtain ⟨file, hfile, hcompiled⟩ := hlast snapshot hoffline
    obtain rfl := Except.ok.inj (mapM_validate_calmFeedTwice.symm.trans hfile)
    refine ⟨snapshot, rfl, himported, ?_⟩
    rw [hcompiled none ⟨0, 0⟩]
    rfl

end Overrides
