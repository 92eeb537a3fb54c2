import Overrides.Proofs.Store.Rollback
import Overrides.Service

/-!
# `Overrides.Proofs.Service.Submission`: a failed submission leaves no trace

A submission is validated and checked against the limit before the store
is asked to write, and the store gives up a write whole. So whatever a
submission fails at, the store is in the state that it was in.
-/

set_option autoImplicit false

namespace Overrides

open Overrides.Service

variable {service : Service} {s next : Backend} {draft : Draft} {actor : Option String}
  {time : Instant} {w : Written}

/-- A store of either kind is the same after a write that failed. -/
theorem Backend.eq_of_write_error {request : WriteRequest} {e : StoreFault}
    (h : (s.write request).1 = .error e) : (s.write request).2 = s := by
  cases s with
  | memory l => exact congrArg memory (Ledger.eq_of_write_error h)
  | disk d => exact congrArg disk (Database.eq_of_write_error h)

/-- A submission that succeeds is a write of its request that succeeds. So what
is shown of writes holds of submissions. -/
theorem Service.write_of_submit (h : service.submit s draft actor time = (.ok w, next)) :
    ∃ request, service.requestOf s draft actor time = .ok request ∧
      s.write request = (.ok w, next) := by
  rw [submit] at h
  split at h
  · exact nomatch (Prod.mk.inj h).1
  · rename_i request hrequest
    refine ⟨request, hrequest, ?_⟩
    obtain ⟨houtcome, hnext⟩ := Prod.mk.inj h
    exact Prod.ext (mapError_eq_ok_iff.mp houtcome) hnext

/-- A submission that fails leaves the store as it was. It has failed before the
store was asked to write, or the write itself has failed. -/
theorem Service.eq_of_submit_error {e : ServiceFault}
    (h : (service.submit s draft actor time).1 = .error e) :
    (service.submit s draft actor time).2 = s := by
  rw [submit] at h ⊢
  cases hrequest : service.requestOf s draft actor time with
  | error e => rfl
  | ok request =>
    -- The store was asked to write, so the fault is one of its own.
    rw [hrequest] at h
    have hfails : (s.write request).1.mapError ServiceFault.store = .error e := h
    cases houtcome : (s.write request).1 with
    | error e => exact Backend.eq_of_write_error houtcome
    | ok w =>
      rw [houtcome] at hfails
      exact nomatch hfails

/-- **A failed submission leaves no trace.** A store of either kind, in any
state, is the same after a submission that failed. One that succeeds
changes one rule and adds one record: in memory after any writes, and on
disk whatever the tables hold. There the write is a transaction, and what
its statements did before a fault is undone. -/
theorem submission_whole_or_not_at_all (service : Service) (draft : Draft) (actor : Option String)
    (time : Instant) :
    (∀ (s : Backend) (e : ServiceFault), (service.submit s draft actor time).1 = .error e →
      (service.submit s draft actor time).2 = s) ∧
    (∀ (requests : List WriteRequest) (w : Written) (next : Backend),
      service.submit (Backend.memory (Ledger.empty.after requests)) draft actor time
        = (.ok w, next) →
      ∃ l, next = .memory l ∧ (Ledger.empty.after requests).OneWrite w l) ∧
    (∀ (d : Database) (w : Written) (next : Backend),
      service.submit (Backend.disk d) draft actor time = (.ok w, next) →
      ∃ d', next = .disk d' ∧ d.OneWrite w d') ∧
    ∀ (d : Database) (request : WriteRequest),
      RuleStore.write d request = d.inTransaction (Database.statements request) := by
  refine ⟨fun s e h => eq_of_submit_error h, fun requests w next h => ?_, fun d w next h => ?_,
    Database.write_eq_inTransaction⟩
  · obtain ⟨request, -, hwrite⟩ := write_of_submit h
    have hreached := Ledger.Reached.empty.after requests
    obtain ⟨hw, rfl⟩ := Prod.mk.inj hwrite
    exact ⟨_, rfl, hreached.accounts.oneWrite (Prod.ext hw rfl)⟩
  · obtain ⟨request, -, hwrite⟩ := write_of_submit h
    obtain ⟨hw, rfl⟩ := Prod.mk.inj hwrite
    exact ⟨_, rfl, Database.oneWrite_of_write (Prod.ext hw rfl)⟩

end Overrides
