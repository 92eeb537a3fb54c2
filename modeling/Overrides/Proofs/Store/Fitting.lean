import Overrides.Proofs.Server.Actor
import Overrides.Proofs.Service.Limit
import Overrides.Proofs.Store.Counters
import Overrides.Proofs.Store.Refinement

/-!
# `Overrides.Proofs.Store.Fitting`: every valid rule fits its row

A row of a store holds the canonical text of a rule, up to 65536 bytes. The
limits on what a text is made of are stated elsewhere and in other units: so
many values of a filter, so many bytes in each, so many bytes in the name of a
writer before it is put in lower case, and any of these may be escaped. Taken
together they leave room to spare, so a store that has only been written to by
recorded writers refuses no rule for its size.

* `Recorded`: the writers that end up on record.
* `Recorded.short`: their names are short.
* `Backend.Filled.write`: one write keeps what a store holds short, and
  succeeds while there is room for its number.
* `Backend.Filled.run`: any number of writes.
* `every_valid_rule_fits`: what this says of a store that was empty.
-/

set_option autoImplicit false

namespace Overrides

/-! ### Names on record -/

/-- A hash has 32 bytes. -/
theorem Sha256.length_hash (message : List UInt8) : (hash message).length = 32 := rfl

/-- A byte takes two digits. -/
theorem length_hexBytes (bytes : List UInt8) : (hexBytes bytes).toList.length = 2 * bytes.length := by
  rw [hexBytes, String.toList_ofList]
  induction bytes with
  | nil => rfl
  | cons b bytes ih =>
    rw [List.flatMap_cons, List.length_append, ih, List.length_cons, hexByte]
    show 2 + 2 * bytes.length = _
    omega

/-- An administrator is this host, or known by the hash of a token. Which tokens
there are does not matter for the length of the name. -/
theorem Auth.eq_of_authorize {auth : Auth} {peer : Option IpAddress} {header : Option String}
    {i : Identity} (h : auth.authorize peer header = .ok i) :
    i = .thisHost ∨ ∃ token, i = .bearer (Digest.ofText .sha256 token).value := by
  unfold authorize at h
  split at h
  · split at h
    · exact .inl (Except.ok.inj h).symm
    · exact nomatch h
  · split at h
    · exact nomatch h
    -- Behind a header the caller is the hash of the token that it shows.
    · obtain ⟨token, -, h⟩ := bind_eq_ok_iff.mp h
      split at h
      · exact .inr ⟨token, (Except.ok.inj h).symm⟩
      · exact nomatch h

/-- The name of an administrator who gave none is short: where it is that of a
token, it has the digits of a hash. -/
theorem utf8ByteSize_defaultActor {auth : Auth} {peer : Option IpAddress} {header : Option String}
    {i : Identity} (h : auth.authorize peer header = .ok i) :
    i.defaultActor.utf8ByteSize ≤ 2 * maxActorBytes := by
  obtain rfl | ⟨token, rfl⟩ := Auth.eq_of_authorize h
  · decide
  · have hdigits : (Digest.ofText .sha256 token).value.toList.length = 2 * 32 :=
      (length_hexBytes _).trans (congrArg (2 * ·) (Sha256.length_hash _))
    have hbytes := Json.utf8ByteSize_le (Digest.ofText .sha256 token).value
    have hlabel : "token:".utf8ByteSize = 6 := by decide
    rw [Identity.defaultActor, String.utf8ByteSize_append, hlabel, maxActorBytes]
    omega

/-- The writers that rules are recorded under: nobody, an actor that was kept,
or an administrator, who may have named an actor. Names of other kinds do not
get into a store through the service. -/
inductive Recorded : Option String → Prop where
  | nobody : Recorded none
  | named {raw actor : Option String} : normalizeActor raw = .ok actor → Recorded actor
  | administrator {auth : Auth} {peer : Option IpAddress} {header raw named : Option String}
      {i : Identity} : auth.authorize peer header = .ok i → normalizeActor raw = .ok named →
      Recorded (some (i.actor named))

/-- Names on record are short: an actor by the limit on what is given, and an
administrator because the hash of a token has 64 digits. -/
theorem Recorded.short {writer : Option String} (h : Recorded writer) :
    ∀ name ∈ writer, name.utf8ByteSize ≤ 2 * maxActorBytes := by
  intro name hname
  cases h with
  | nobody => exact nomatch hname
  | named hkept => exact utf8ByteSize_of_normalizeActor hkept name hname
  | @administrator _ _ _ _ named i hallowed hkept =>
    rw [← Option.some.inj hname, Identity.actor]
    cases hnamed : named with
    | none => exact utf8ByteSize_defaultActor hallowed
    | some actor => exact utf8ByteSize_of_normalizeActor hkept actor hnamed

/-- A write of validated content under a writer on record, at an instant whose
year has four digits. -/
structure WriteRequest.Recordable (request : WriteRequest) : Prop where
  proper : request.Proper
  writer : Recorded request.actor
  time : request.time.HasWrittenForm

/-- A write under a writer on record has a name that is not too long and an
instant that can be written. -/
theorem WriteRequest.Recordable.attributable {request : WriteRequest} (h : request.Recordable) :
    Attributable request.actor request.time := ⟨h.writer.short, h.time⟩

/-! ### Writes -/

namespace Backend

/-- What a store holds after writes under writers on record: rules that were
first written under short names. So many writes have been counted. -/
structure Filled (s : Backend) (rules : List Rule) (n : Nat) : Prop where
  holds : s.Holds rules
  counted : s.Counted
  names : NamesFit rules
  counts : s.CountsTo n

variable {s next : Backend} {rules : List Rule} {request : WriteRequest} {n : Nat}

/-- A new store is filled with nothing. -/
theorem Fresh.filled (h : s.Fresh) : s.Filled [] 0 :=
  ⟨h.holds, h.counted, (fun _ hr => nomatch hr), h.countsTo⟩

/-- The rule of a write has the first writer of its key, or the one of the
request. -/
theorem namesFit_putRule (hnames : NamesFit rules) (hwriter : Recorded request.actor)
    {before : Option Rule} (hbefore : ∀ old ∈ before, old ∈ rules) (revision : UInt64) :
    NamesFit (Ledger.putRule (request.rule before revision) rules) := by
  intro r hr
  obtain rfl | hold := (Ledger.putsByKey_putRule _).mem hr
  · cases before with
    | none => exact hwriter.short
    | some old => exact hnames old (hbefore old rfl)
  · exact hnames r hold

/-- One write: it succeeds while there is room for its number, and then what the
store holds is as before, with one more write counted. If it fails, nothing
changes. -/
theorem Filled.write (h : s.Filled rules n) (hrequest : request.Recordable) :
    ((∃ e, RuleStore.write s request = (.error e, s)) ∧ Database.maxInteger ≤ (n : Int)) ∨
    ∃ w next, RuleStore.write s request = (.ok w, next) ∧
      next.Filled (Ledger.putRule w.rule rules) (n + 1) := by
  obtain hfails | ⟨w, next, hwrites, -, hholds⟩ := h.holds.write hrequest.proper
  · -- With room for its number a write succeeds, since no name is too long for a row.
    refine .inl ⟨hfails, Int.not_lt.mp fun hroom => ?_⟩
    obtain ⟨e, hfails⟩ := hfails
    obtain ⟨w, next, hwrites⟩ :=
      h.counts.writes h.holds hroom h.names hrequest.proper hrequest.attributable
    rw [hfails] at hwrites
    exact nomatch (Prod.mk.inj hwrites).1
  · refine .inr ⟨w, next, hwrites, hholds, (h.holds.lt_of_write h.counted hwrites).2, ?_,
      (h.counts.write h.holds h.counted hrequest.proper hwrites).2⟩
    obtain ⟨before, revision, hbefore, hrule⟩ := h.holds.rule_of_write hwrites
    rw [hrule]
    exact namesFit_putRule h.names hrequest.writer hbefore revision

/-- Any number of writes. At most as many are counted, since those that fail
count for nothing. -/
theorem Filled.run (h : s.Filled rules n) {requests : List WriteRequest}
    (hrequests : ∀ request ∈ requests, request.Recordable) :
    ∃ rules' m, m ≤ n + requests.length ∧ (s.after requests).Filled rules' m := by
  induction requests generalizing s rules n with
  | nil => exact ⟨rules, n, Nat.le_refl n, h⟩
  | cons request rest ih =>
    have hrest : ∀ request ∈ rest, request.Recordable := fun r hr =>
      hrequests r (List.mem_cons_of_mem _ hr)
    rw [after, List.foldl_cons, ← after, List.length_cons]
    obtain ⟨⟨e, hfails⟩, -⟩ | ⟨w, next, hwrites, hnext⟩ :=
      h.write (hrequests request (List.mem_cons_self ..))
    · -- A write that fails leaves the store, so the rest starts from the same one.
      rw [hfails]
      obtain ⟨rules', m, hm, hrun⟩ := ih h hrest
      exact ⟨rules', m, by omega, hrun⟩
    · rw [hwrites]
      obtain ⟨rules', m, hm, hrun⟩ := ih hnext hrest
      exact ⟨rules', m, by omega, hrun⟩

end Backend

/-! ### Texts -/

/-- The rule has a canonical text that fits its row, and it is encoded as this
text. -/
def Rule.Fits (r : Rule) : Prop :=
  ∃ v, r.toJson? = some v ∧ (Json.canonicalBytes v).length ≤ maxRuleBytes ∧
    encodeRule r = .ok (Json.canonicalBytes v)

/-- A rule that can be stored has a text of no more bytes than a row takes. -/
theorem Rule.Storable.fits {r : Rule} (h : r.Storable) : r.Fits := by
  obtain ⟨v, hv, htext, hlength⟩ := encodeRule_eq_ok_iff.mp h.encoded
  rw [htext] at hlength
  refine ⟨v, hv, hlength, ?_⟩
  rw [h.encoded, htext]

/-- A fault that a service reports of its store is the fault of the store. -/
theorem eq_error_of_mapError_store {outcome : Except StoreFault Written} {e : StoreFault}
    (h : outcome.mapError ServiceFault.store = .error (.store e)) : outcome = .error e := by
  cases outcome with
  | error e' => exact congrArg Except.error (ServiceFault.store.inj (Except.error.inj h))
  | ok w => exact nomatch h

namespace Backend

/-- A database stays one. -/
theorem exists_disk_after (d : Database) (requests : List WriteRequest) :
    ∃ d', (Backend.disk d).after requests = .disk d' := by
  induction requests generalizing d with
  | nil => exact ⟨d, rfl⟩
  | cons request rest ih =>
    rw [after, List.foldl_cons, ← after]
    exact ih (d.write request).2

variable {s : Backend} {d : Database} {rules : List Rule} {request : WriteRequest} {n : Nat}

/-- What a database holds fits. -/
theorem Filled.fits (h : (Backend.disk d).Filled rules n) : ∀ r ∈ rules, r.Fits := by
  cases h.holds with
  | disk _ hstorable _ => exact fun r hr => (hstorable r hr).fits

/-- The names that a request would leave on record are short. -/
theorem Filled.not_longName (h : s.Filled rules n) (hrequest : request.Recordable) :
    ¬ s.LongName request := h.holds.not_longName h.names hrequest.attributable

/-- What a request would bring about in a database fits, whatever revision it
gets. -/
theorem Filled.fits_rule (h : (Backend.disk d).Filled rules n) (hrequest : request.Recordable)
    (revision : UInt64) :
    (request.rule (rules.find? (·.key = request.key)) revision).Fits := by
  have hbefore : ∀ old ∈ rules.find? (·.key = request.key), old.Storable := by
    cases h.holds with
    | disk _ hstorable _ => exact fun old hold => hstorable old (List.mem_of_find?_eq_some hold)
  cases hencode : encodeRule (request.rule (rules.find? (·.key = request.key)) revision) with
  | ok text =>
    exact (Rule.storable_of_encodeRule (hrequest.proper.valid_rule _ _) hencode).fits
  | error e =>
    -- An encoding fails at a limit only, and neither of the two is reached.
    have hlimit := hrequest.proper.atLimit_of_encodeRule hbefore (h.holds.get?_eq _) hencode
    exfalso
    obtain ⟨-, rfl⟩ | ⟨v, -, -, rfl⟩ := encodeRule_eq_error hencode
    · cases hlimit with
      | instant htime => exact htime hrequest.time
    · cases hlimit with
      | size _ hlong => exact h.not_longName hrequest hlong

/-- No write is refused for the size of its rule. -/
theorem Filled.write_ne_tooLarge (h : (Backend.disk d).Filled rules n)
    (hrequest : request.Recordable) (bytes : Nat) :
    (RuleStore.write (Backend.disk d) request).1 ≠ .error (.tooLarge bytes) := by
  intro hfails
  have hlimit := h.holds.atLimit_of_write hrequest.proper (Prod.ext hfails rfl)
  cases hlimit with
  | size _ hlong => exact h.not_longName hrequest hlong

/-- No submission is refused for the size of its rule either. The service
reports what the store says, and the store does not say this. -/
theorem Filled.submit_ne_tooLarge (h : (Backend.disk d).Filled rules n) (service : Service)
    (draft : Draft) {actor : Option String} {time : Instant} (hwriter : Recorded actor)
    (htime : time.HasWrittenForm) (bytes : Nat) :
    (service.submit (Backend.disk d) draft actor time).1 ≠ .error (.store (.tooLarge bytes)) := by
  intro hfails
  cases hvalid : draft.validate with
  | error e =>
    rw [Service.submit_of_invalid _ hvalid] at hfails
    exact nomatch hfails
  | ok content =>
    have hrequest : (⟨content, actor, time⟩ : WriteRequest).Recordable :=
      ⟨⟨draft, hvalid⟩, hwriter, htime⟩
    -- The service may refuse at its own limit; otherwise the store has its say.
    refine h.write_ne_tooLarge hrequest bytes (eq_error_of_mapError_store ?_)
    cases henabled : content.enabled with
    | false => rwa [Service.submit_of_disabled _ hvalid henabled] at hfails
    | true =>
      rw [Service.submit_of_enabled h.holds hvalid henabled] at hfails
      split at hfails
      · exact nomatch hfails
      · exact hfails

end Backend

/-- **Every valid rule fits its row.** Take a database that was empty and has
been asked for any number of writes, all of validated content, under writers on
record, at instants in the years 0 to 9999. Every rule that it holds has a
canonical text of no more than 65536 bytes, and is encoded as this text. So is
the rule of any further request of this kind, whatever revision it gets. Such a
request succeeds as long as there is room for its number, and neither the
database nor a service before it ever refuses one for the size of its rule. -/
theorem every_valid_rule_fits {done : List WriteRequest}
    (hdone : ∀ request ∈ done, request.Recordable) :
    let s := (Backend.disk .empty).after done
    (∃ rules, RuleStore.list s .all = .ok rules ∧ ∀ r ∈ rules, r.Fits) ∧
    ∀ request : WriteRequest, request.Recordable →
      (∃ before, RuleStore.get? s request.key = .ok before ∧
        ∀ revision, (request.rule before revision).Fits) ∧
      ((done.length : Int) < Database.maxInteger →
        ∃ w next, RuleStore.write s request = (.ok w, next)) ∧
      (∀ bytes, (RuleStore.write s request).1 ≠ .error (.tooLarge bytes)) ∧
      ∀ (service : Service) (draft : Draft) (bytes : Nat),
        (service.submit s draft request.actor request.time).1
          ≠ .error (.store (.tooLarge bytes)) := by
  obtain ⟨d, hd⟩ := Backend.exists_disk_after .empty done
  obtain ⟨rules, n, hn, hfilled⟩ := Backend.Fresh.disk.filled.run hdone
  intro s
  have hs : s = .disk d := hd
  rw [hs]
  rw [hd] at hfilled
  refine ⟨⟨_, hfilled.holds.list .all, fun r hr => ?_⟩, fun request hrequest =>
    ⟨⟨_, hfilled.holds.get?_eq _, hfilled.fits_rule hrequest⟩, fun hroom => ?_,
      hfilled.write_ne_tooLarge hrequest, fun service draft =>
        hfilled.submit_ne_tooLarge service draft hrequest.writer hrequest.time⟩⟩
  · rw [Rule.sortByPrecedence, List.mem_mergeSort] at hr
    exact hfilled.fits r (List.mem_of_mem_filter hr)
  -- No more writes were counted than were asked for, so there is room for the number.
  · obtain ⟨-, hfull⟩ | ⟨w, next, hwrites, -⟩ := hfilled.write hrequest
    · omega
    · exact ⟨w, next, hwrites⟩

/-- The first rule again, by an administrator on this host who names nobody. -/
def calmFeedByHost : WriteRequest := { calmFeed with actor := some "loopback" }

/-- After one write the same rule can be written once more, under another kind
of writer. -/
theorem calmFeed_fits_twice :
    calmFeed.Recordable ∧ calmFeedByHost.Recordable ∧
    (∃ rules, RuleStore.list ((Backend.disk .empty).after [calmFeed]) .all = .ok rules ∧
      ∀ r ∈ rules, r.Fits) ∧
    ∃ w next, RuleStore.write ((Backend.disk .empty).after [calmFeed]) calmFeedByHost
      = (.ok w, next) := by
  have hkept : normalizeActor (some "ops") = .ok (some "ops") := by decide +kernel
  have hallowed : Auth.authorize ⟨.localOnly, []⟩ (some (.v4 127 0 0 1)) none = .ok .thisHost := by
    rfl
  have hnamed : normalizeActor none = .ok none := rfl
  have htime : calmFeed.time.HasWrittenForm := ⟨calmFeed_regular.year, by show _ < _; decide⟩
  have hfirst : calmFeed.Recordable := ⟨calmFeed_regular.content, .named hkept, htime⟩
  have hsecond : calmFeedByHost.Recordable :=
    ⟨calmFeed_regular.content, .administrator hallowed hnamed, htime⟩
  have hdone : ∀ request ∈ [calmFeed], request.Recordable := by
    intro request hrequest
    rw [List.mem_singleton.mp hrequest]
    exact hfirst
  obtain ⟨hrules, hfurther⟩ := every_valid_rule_fits hdone
  obtain ⟨-, hwrites, -⟩ := hfurther calmFeedByHost hsecond
  exact ⟨hfirst, hsecond, hrules, hwrites (by decide)⟩

end Overrides
