import Overrides.Proofs.Server.Access
import Overrides.Proofs.Service.Limit

/-!
# `Overrides.Proofs.Server.Faults`: how faults of the store are answered

A request that is in order is answered with what the store says. A fault on
the way is not the caller's: the caller can do nothing about a row that was
altered. But the store has one kind of fault for bad submissions and for bad
rows, and the status is chosen by the kind. So most altered rows are answered
with status 400, and only those whose hash is wrong, or whose number is
negative, with 500.

* `HandsOn`: the service hands on what the store says.
* `Server.Delivers`: the handler delivers what the service gives, step by step.
* `Server.Consults`: requests that are in order, and what the store says to them.
* `Database.read_fails_with_row`: the faults of reads are those of rows.
* `storage_faults_answered`: the status of every answer to such a request.
* `altered_algorithm_blamed_on_caller`: an altered row that the caller is
  blamed for.
-/

set_option autoImplicit false

namespace Overrides

/-! ### From the store to the status -/

section

variable {σ α : Type} [RuleStore σ]

/-- What the store says to a submission: whether there is room is asked for
enabled rules only, and then the rule is written. -/
def WriteRequest.storeSays (s : σ) (request : WriteRequest) : Except StoreFault Unit := do
  let write := (RuleStore.write s request).1.map fun _ => ()
  if request.content.enabled then (RuleStore.list s .enabled).bind fun _ => write else write

/-- The service hands on a fault of the store. Where the store has none, the
service stops only if there are too many rules, so a fault of the store is never
taken for something else. -/
inductive HandsOn : Except StoreFault Unit → Except ServiceFault α → Prop where
  | fault (e : StoreFault) : HandsOn (.error e) (.error (.store e))
  | done (a : α) : HandsOn (.ok ()) (.ok a)
  | tooMany (count limit : Nat) : HandsOn (.ok ()) (.error (.tooManyRules count limit))

/-- What the store reads is handed on. -/
theorem handsOn_mapError (x : Except StoreFault α) :
    HandsOn (x.map fun _ => ()) (x.mapError .store) := by
  cases x with
  | error e => exact .fault e
  | ok a => exact .done a

/-- A snapshot hands on the fault of the listing it is compiled from. Beyond
that it fails only for too many rules. -/
theorem handsOn_snapshot (service : Service) (s : σ) (c : Context) (time : Instant) :
    HandsOn ((RuleStore.list s .enabled).map fun _ => ()) (service.snapshot s c time) := by
  cases hlist : RuleStore.list s .enabled with
  | error e =>
    rw [Service.snapshot, hlist]
    exact .fault e
  | ok rules =>
    rw [Service.snapshot_of_list hlist]
    split
    · exact .tooMany ..
    · exact .done _

/-- A valid draft is handed to the store, if there is room for it. An enabled
rule has two chances to meet a fault of the store, in the listing before and in
the write. -/
theorem handsOn_submit {service : Service} {s : σ} {draft : Draft} {content : Content}
    {actor : Option String} {time : Instant} (hvalid : draft.validate = .ok content)
    (hroom : content.enabled = true → ∀ rules, RuleStore.list s .enabled = .ok rules →
      (rules.filter (·.key ≠ content.ruleKey)).length < service.maxRules) :
    HandsOn (WriteRequest.storeSays s ⟨content, actor, time⟩)
      (service.submit s draft actor time).1 := by
  cases henabled : content.enabled with
  | false =>
    rw [Service.submit_of_disabled s hvalid henabled, WriteRequest.storeSays, henabled]
    exact handsOn_mapError _
  | true =>
    rw [Service.submit, Service.requestOf_of_enabled s hvalid henabled, WriteRequest.storeSays,
      henabled]
    cases hlist : RuleStore.list s .enabled with
    | error e =>
      rw [Service.checkRoom, hlist]
      exact .fault e
    | ok rules =>
      -- There is room by assumption, so the limit is not what decides.
      have hcheck : service.checkRoom s content.ruleKey = .ok () := by
        rw [Service.checkRoom, hlist]
        exact if_neg (Nat.not_le_of_lt (hroom henabled rules hlist))
      rw [hcheck]
      exact handsOn_mapError _

end

/-! ### From the service to the status -/

namespace Server

variable {σ α β ε : Type} {said : Except StoreFault Unit} {x : Except ServiceFault α} {t : Note × σ}

/-- The outcome of a request that the service has done: what it gave is
written, or its fault is the one of the request. -/
def deliver (x : Except ServiceFault α) (text : α → Option Json) : Except RequestFault Json :=
  match x with
  | .error e => .error (.service e)
  | .ok a =>
    match text a with
    | some v => .ok v
    | none => .error .unwritable

/-- A handler ends with delivering what the service gave. From here on the
outcome of the service alone decides the status. -/
theorem on_deliver (x : Except ServiceFault α) (text : α → Option Json) (t : Note × σ) :
    (Handler.check .service x >>= fun a => Handler.written (text a)).on t
      = (deliver x text, t) := by
  rw [Handler.on_check_bind]
  cases x with
  | error e => rfl
  | ok a =>
    dsimp only [deliver]
    cases text a <;> rfl

/-- How what the store says shows in the status: a fault of the kind that
submissions have too is the caller's, any other one is of the inside, and
where there is none, the caller is not blamed. -/
def Shows (said : Except StoreFault Unit) (status : Nat) : Prop :=
  match said with
  | .error e => status = if e.kind = .invalid then 400 else 500
  | .ok _ => status = 200 ∨ status = 500

/-- What is handed on decides the status. A fault shows its own status, and a
result shows 200 unless it cannot be written. -/
theorem shows_of_handsOn (h : HandsOn said x) (text : α → Option Json) :
    Shows said (statusOf (deliver x text)) := by
  cases h with
  | fault e => rfl
  | tooMany => exact .inr rfl
  | done a =>
    show statusOf (deliver (.ok a) text) = 200 ∨ statusOf (deliver (.ok a) text) = 500
    dsimp only [deliver]
    cases text a with
    | none => exact .inr rfl
    | some v => exact .inl rfl

/-- From here on, the handler delivers what the service makes of what the
store says. -/
def Delivers (h : Handler σ Json) (t : Note × σ) (said : Except StoreFault Unit) : Prop :=
  ∃ (α : Type) (x : Except ServiceFault α) (text : α → Option Json) (next : Note × σ),
    h.on t = (deliver x text, next) ∧ HandsOn said x

namespace Delivers

/-- A check that passes leaves to the rest what is delivered. -/
theorem check {wrap : ε → RequestFault} {x : Except ε β} {b : β} {f : β → Handler σ Json}
    (hx : x = .ok b) (h : Delivers (f b) t said) :
    Delivers (Handler.check wrap x >>= f) t said := by
  obtain ⟨α, y, text, next, hrun, hsaid⟩ := h
  refine ⟨α, y, text, next, ?_, hsaid⟩
  rw [Handler.on_check_bind, hx]
  exact hrun

/-- A step that succeeds leaves to the rest what is delivered, from the state it
ends in. -/
theorem step {k : Handler σ β} {b : β} {mid : Note × σ} {f : β → Handler σ Json}
    (hk : k.on t = (.ok b, mid)) (h : Delivers (f b) mid said) : Delivers (k >>= f) t said := by
  obtain ⟨α, y, text, next, hrun, hsaid⟩ := h
  refine ⟨α, y, text, next, ?_, hsaid⟩
  rw [Handler.on_bind, hk]
  exact hrun

/-- Noting something does not change what is delivered. -/
theorem note {g : Note → Note} {n : Note} {s : σ} {f : Unit → Handler σ Json}
    (h : Delivers (f ()) (g n, s) said) : Delivers (Handler.note g >>= f) (n, s) said :=
  .step (Handler.on_note ..) h

/-- Reading the state does not change what is delivered. -/
theorem get {f : Note × σ → Handler σ Json} (h : Delivers (f t) t said) :
    Delivers (MonadState.get >>= f) t said := .step (Handler.on_get t) h

/-- Replacing the state leaves to the rest what is delivered, from the new one.
-/
theorem set {t' : Note × σ} {f : PUnit → Handler σ Json} (h : Delivers (f ()) t' said) :
    Delivers (MonadStateOf.set t' >>= f) t said := .step (Handler.on_set t' t) h

/-- A handler ends by handing on an outcome of the service and writing its
result. -/
theorem finish {x : Except ServiceFault α} (h : HandsOn said x) (text : α → Option Json) :
    Delivers (Handler.check .service x >>= fun a => Handler.written (text a)) t said :=
  ⟨α, x, text, t, on_deliver x text t, h⟩

end Delivers

end Server

/-! ### What the store is asked -/

namespace Server

variable {σ : Type} [RuleStore σ] {server : Server} {s : σ} {r : Request} {time : Instant}

/-- The request is in order, so the store is asked, and this is what it says:
a fault, or nothing where it does what it is asked for. -/
inductive Consults (server : Server) (s : σ) (r : Request) (time : Instant) :
    Except StoreFault Unit → Prop where
  | snapshot {ps : List (String × String)} :
      r.path = snapshotPath → r.method = "GET" ∨ r.method = "HEAD" →
      Query.known (Dimension.all.map Dimension.name) r.query = .ok ps →
      Consults server s r time ((RuleStore.list s .enabled).map fun _ => ())
  | list {i : Identity} {ps : List (String × String)} {scope : Option Scope} :
      r.path = listPath → r.method = "GET" ∨ r.method = "HEAD" → r.Admitted server.auth i →
      Query.known ["scope"] r.query = .ok ps → scopeOf (ps.lookup "scope") = .ok scope →
      Consults server s r time ((RuleStore.list s ⟨scope, false⟩).map fun _ => ())
  | trail {i : Identity} {ps : List (String × String)} {key : Option RuleKey} {limit : Nat} :
      r.path = trailPath → r.method = "GET" ∨ r.method = "HEAD" → r.Admitted server.auth i →
      Query.known ["rule_key", "limit"] r.query = .ok ps →
      keyOf (ps.lookup "rule_key") = .ok key → limitOf (ps.lookup "limit") = .ok limit →
      Consults server s r time ((RuleStore.trail s key limit).map fun _ => ())
  | submit {i : Identity} {draft : Draft} {content : Content} {named : Option String} :
      r.path = submitPath → r.method = "PUT" ∨ r.method = "POST" → r.Admitted server.auth i →
      r.body.length ≤ server.maxBodyBytes → Draft.ofBytes r.body = .ok draft →
      draft.validate = .ok content → normalizeActor (r.header? actorHeader) = .ok named →
      (content.enabled = true → ∀ rules, RuleStore.list s .enabled = .ok rules →
        (rules.filter (·.key ≠ content.ruleKey)).length < server.service.maxRules) →
      Consults server s r time (WriteRequest.storeSays s ⟨content, some (i.actor named), time⟩)

/-- A request that is in order comes to a handler. Its path is one of four, and
its method one of those of the path. -/
theorem Consults.not_missed {said : Except StoreFault Unit} (h : server.Consults s r time said) :
    ¬ r.Missed := by
  cases h with
  -- Each request is on a known path with one of its methods.
  | snapshot hpath hmethod =>
    refine Request.not_missed (hpath ▸ Route.ofPath_snapshotPath) ?_
    simpa [Route.methods?] using hmethod
  | list hpath hmethod =>
    refine Request.not_missed (hpath ▸ Route.ofPath_listPath) ?_
    simpa [Route.methods?] using hmethod
  | trail hpath hmethod =>
    refine Request.not_missed (hpath ▸ Route.ofPath_trailPath) ?_
    simpa [Route.methods?] using hmethod
  | submit hpath hmethod =>
    refine Request.not_missed (hpath ▸ Route.ofPath_submitPath) ?_
    simpa [Route.methods?] using hmethod

/-- The handler of a request that is in order delivers what the service makes of
what the store says. -/
theorem Consults.delivers {said : Except StoreFault Unit} (h : server.Consults s r time said) :
    Delivers (server.handler (Route.ofPath r.path) r time) (Note.empty, s) said := by
  cases h with
  | snapshot hpath _ hquery =>
    rw [hpath, Route.ofPath_snapshotPath]
    exact .check hquery (.note (.get (.finish (handsOn_snapshot ..) _)))
  | list hpath _ hadmitted hquery hscope =>
    rw [hpath, Route.ofPath_listPath]
    exact .check hadmitted (.check hquery (.check hscope (.get (.finish (handsOn_mapError _) _))))
  | trail hpath _ hadmitted hquery hkey hlimit =>
    rw [hpath, Route.ofPath_trailPath]
    refine .check hadmitted (.check hquery (.check hkey (.note ?_)))
    exact .check hlimit (.get (.finish (handsOn_mapError _) _))
  | @submit i draft content named hpath _ hadmitted hbody hdraft hvalid hactor hroom =>
    have hread : (server.body r).on (Note.empty, s)
        = (.ok r.body, { Note.empty with bytes := r.body.length }, s) := by
      rw [Server.body, if_neg (Nat.not_lt_of_le hbody)]
      rfl
    have hhanded : HandsOn _ (server.service.submit s draft (some (i.actor named)) time).1 :=
      handsOn_submit hvalid hroom
    rw [hpath, Route.ofPath_submitPath]
    -- The one handler that writes: it sets the store before it asks how that went.
    refine .check hadmitted (.step hread (.check hdraft (.note (.check hactor (.note (.get ?_))))))
    dsimp only
    generalize server.service.submit s draft (some (i.actor named)) time = run at hhanded
    exact .set (.finish hhanded _)

/-- What the store says shows in the answer. -/
theorem Consults.shows {said : Except StoreFault Unit} (h : server.Consults s r time said) :
    Shows said (server.answer s r time).1.status := by
  obtain ⟨α, x, text, next, hrun, hsaid⟩ := h.delivers
  -- The status is that of the outcome; what the handler noted does not matter.
  rw [answer_of_handled h.not_missed, hrun]
  exact shows_of_handsOn hsaid text

end Server

/-! ### Faults of rows -/

/-- The text of a rule fails with the kind of fault that submissions have. -/
theorem failsWith_decodeRule (bytes : List UInt8) :
    FailsWith (fun e => e.kind = .invalid) (decodeRule bytes) :=
  FailsWith.mapError (g := StoreFault.unreadable) (fun _ => rfl) _

/-- A hash that is wrong is found before the text is read. So the fault is the
hash, whatever the text says. -/
theorem RuleRow.rule_of_wrong_hash {row : RuleRow} {a : HashAlgorithm}
    (hsize : row.text.length ≤ maxRuleBytes)
    (halgorithm : HashAlgorithm.ofLabel? row.algorithm = some a)
    (hhash : (Digest.mk a row.hash).verifies row.text = false) :
    row.rule = .error (.hashMismatch row.key) := by
  rw [RuleRow.rule, if_neg (Nat.not_lt_of_le hsize), halgorithm]
  dsimp only
  rw [ok_bind, hhash]
  rfl

/-- A bad row of the table of rules has a fault of the kind that submissions
have, unless it is the hash. -/
theorem RuleRow.failsWith_rule (row : RuleRow) :
    FailsWith (fun e => e.kind = .invalid ∨ e = .hashMismatch row.key) row.rule := by
  rw [RuleRow.rule]
  split
  -- In the order of the checks: the size, the algorithm, the hash, the text and the key.
  · exact .error (.inl rfl)
  · dsimp only
    split
    · rw [ok_bind]
      split
      · refine .bind ((failsWith_decodeRule row.text).imp fun _ => .inl) fun r => ?_
        split
        · exact .ok r
        · exact .error (.inl rfl)
      · exact .error (.inr rfl)
    · exact .error (.inl rfl)

/-- So has a bad row of the audit table, unless it is the number. Everything
else in the row is looked at before the number is. -/
theorem AuditRow.failsWith_record (row : AuditRow) :
    FailsWith (fun e => e.kind = .invalid ∨ e = .negativeAuditId) row.record := by
  have hread : ∀ bytes, FailsWith (fun e => e.kind = .invalid ∨ e = .negativeAuditId)
      (decodeRule bytes) := fun bytes => (failsWith_decodeRule bytes).imp fun _ => .inl
  rw [AuditRow.record]
  dsimp only
  split
  · rw [ok_bind]
    -- With a rule before or without one, what follows is the same.
    split
    all_goals
      refine .bind ?_ fun before => .bind (hread row.after) fun after => ?_
      rotate_left
      · split
        · rw [ok_bind]
          split
          · exact .error (.inr rfl)
          · exact .ok _
        · exact .error (.inl rfl)
    · exact (hread _).map some
    · exact .ok none
  · exact .error (.inl rfl)

/-- A fault of a listing or of the trail is that of a row, and it has the kind
that submissions have unless the hash of the row is wrong, or its number
negative. -/
theorem Database.read_fails_with_row (d : Database) {e : StoreFault} :
    (∀ q : Query, d.list q = .error e → ∃ row ∈ d.rules, row.selectedBy q = true ∧
      row.rule = .error e ∧ (e.kind = .invalid ∨ e = .hashMismatch row.key)) ∧
    ∀ (key : Option RuleKey) (limit : Nat), d.trail key limit = .error e → ∃ row ∈ d.records,
      row.record = .error e ∧ (e.kind = .invalid ∨ e = .negativeAuditId) := by
  constructor
  · intro q h
    obtain ⟨row, hrow, hfails⟩ := exists_of_mapM_eq_error h
    -- The rows were filtered and sorted before, which adds none.
    obtain ⟨hmem, hselected⟩ := List.mem_filter.mp (List.mem_mergeSort.mp hrow)
    exact ⟨row, hmem, hselected, hfails, row.failsWith_rule e hfails⟩
  · intro key limit h
    obtain ⟨row, hrow, hfails⟩ := exists_of_mapM_eq_error h
    have hmem := (List.mem_filter.mp (List.mem_mergeSort.mp (List.mem_of_mem_take hrow))).1
    exact ⟨row, hmem, hfails, row.failsWith_record e hfails⟩

/-! ### The status -/

/-- **The kind of a storage fault decides who is blamed.** Take a request for a
snapshot, a listing or the trail, or a submission, that is authorised where it
has to be, well formed, valid and within the limits. Let the store be of any
kind and in any state. If it reports a fault, the status is 500, except for a
fault of the kind that bad submissions have: then it is 400, and the caller is
blamed. If it reports none, the caller is not blamed, whatever it holds. -/
theorem storage_faults_answered {σ : Type} [RuleStore σ] (server : Server) (s : σ) (r : Request)
    (time : Instant) {said : Except StoreFault Unit} (h : server.Consults s r time said) :
    (∀ e, said = .error e →
      (server.answer s r time).1.status = if e.kind = .invalid then 400 else 500) ∧
    (said = .ok () → (server.answer s r time).1.status = 200 ∨
      (server.answer s r time).1.status = 500) := by
  have hshown := h.shows
  constructor
  · rintro e rfl
    exact hshown
  · rintro rfl
    exact hshown

/-- A server that this host administers. -/
def hostServer : Server := ⟨⟨default, 500⟩, ⟨.localOnly, []⟩, 4096⟩

/-- This host asks for all rules. -/
def listRules : Request := ⟨"GET", listPath, "", [], [], .v4 127 0 0 1⟩

/-- A database with a single row, which has neither text nor hash. -/
def emptiedDatabase (algorithm : String) : Database :=
  { Database.empty with rules := [⟨"calm-feed", "ux", 1, 0, 1, [], "", algorithm, 0⟩] }

/-- The listing consults the store: it comes from the host and its query names
nothing. -/
theorem listRules_consults (d : Database) :
    hostServer.Consults d listRules ⟨0, 0⟩ ((d.list ⟨none, false⟩).map fun _ => ()) := by
  have hquery : Query.known ["scope"] listRules.query = .ok [] := by decide +kernel
  exact .list rfl (.inl rfl) rfl hquery rfl

/-- The listing fails with the fault of the row. -/
theorem list_emptiedDatabase {algorithm : String} {e : StoreFault}
    (h : RuleRow.rule ⟨"calm-feed", "ux", 1, 0, 1, [], "", algorithm, 0⟩ = .error e) :
    (emptiedDatabase algorithm).list ⟨none, false⟩ = .error e := by
  show ([_].mergeSort RuleRow.precedes).mapM RuleRow.rule = _
  rw [List.mergeSort_singleton, List.mapM_cons, h]
  rfl

/-- A wrong hash is a fault of the inside. -/
theorem emptied_row_answered :
    (hostServer.answer (emptiedDatabase "sha256") listRules ⟨0, 0⟩).1.status = 500 := by
  have hhash : (Digest.mk .sha256 "").verifies [] = false := by decide +kernel
  have hasked := listRules_consults (emptiedDatabase "sha256")
  rw [list_emptiedDatabase (RuleRow.rule_of_wrong_hash (Nat.zero_le _) rfl hhash)] at hasked
  exact (storage_faults_answered hostServer _ listRules ⟨0, 0⟩ hasked).1 _ rfl

/-- An algorithm that is not known is a fault of the store as well, and the
caller is blamed. -/
theorem altered_algorithm_blamed_on_caller :
    hostServer.Consults (emptiedDatabase "md5") listRules ⟨0, 0⟩
      (.error (.unknownAlgorithm "md5")) ∧
    (hostServer.answer (emptiedDatabase "md5") listRules ⟨0, 0⟩).1.status = 400 := by
  have hasked := listRules_consults (emptiedDatabase "md5")
  rw [list_emptiedDatabase (e := .unknownAlgorithm "md5") rfl] at hasked
  exact ⟨hasked, hasked.shows⟩

end Overrides
