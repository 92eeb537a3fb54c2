import Overrides.Service
import Overrides.Store.Ledger

/-!
# `Overrides.RuleFile`: many submissions at once

A rule file is a JSON list of submissions. All of them are validated
before the first one is written, so an invalid file writes nothing. A
fault of the store or of the limit on the way leaves what was written
before it.

Compiling a file without a store writes it into an empty ledger and
takes the snapshot there.
-/

set_option autoImplicit false

namespace Overrides

/-- Why a rule file is refused. -/
inductive RuleFileFault where
  /-- The file is no list of submissions. -/
  | unreadable (cause : Json.Fault)
  /-- The submission at this position, under the key as written, is invalid. -/
  | invalid (index : Nat) (ruleKey : String) (cause : RuleFault)
  | service (cause : ServiceFault)
  deriving DecidableEq, Repr

/-- The wording of a rule file fault. -/
def RuleFileFault.message : RuleFileFault → String
  | .unreadable cause => "rule file is not a JSON array of rules: " ++ cause.message
  | .invalid index ruleKey cause =>
    "rule #" ++ Nat.repr index ++ " (" ++ ruleKey ++ "): " ++ cause.message
  | .service cause => cause.message

namespace RuleFile

/-- The name under which rules are written that are compiled without a store. -/
def offlineActor : String := "offline"

/-- The submissions of a file. -/
def parse (bytes : List UInt8) : Except RuleFileFault (List Draft) :=
  (Draft.listOfBytes bytes).mapError .unreadable

/-- Validates submissions, the first one having this position. -/
def validateFrom : Nat → List Draft → Except RuleFileFault Unit
  | _, [] => .ok ()
  | index, d :: rest =>
    match d.validate with
    | .ok _ => validateFrom (index + 1) rest
    | .error cause => .error (.invalid index d.ruleKey cause)

/-- Validates every submission and names the first invalid one. -/
def validate (drafts : List Draft) : Except RuleFileFault Unit := validateFrom 0 drafts

variable {σ : Type} [RuleStore σ]

/-- Submits one after the other, up to the first fault. -/
def submitAll (service : Service) (actor : Option String) (time : Instant) :
    List Draft → σ → Except ServiceFault (List Written) × σ
  | [], s => (.ok [], s)
  | d :: rest, s =>
    match service.submit s d actor time with
    | (.error e, s) => (.error e, s)
    | (.ok w, s) =>
      let (outcome, s) := submitAll service actor time rest s
      (outcome.map (w :: ·), s)

/-- Validates every submission and then submits them. -/
def submit (service : Service) (s : σ) (drafts : List Draft) (actor : Option String)
    (time : Instant) : Except RuleFileFault (List Written) × σ :=
  match validate drafts with
  | .error e => (.error e, s)
  | .ok _ =>
    let (outcome, s) := submitAll service actor time drafts s
    (outcome.mapError .service, s)

/-- The snapshot of the submissions alone. -/
def compile (service : Service) (drafts : List Draft) (context : Context) (time : Instant) :
    Except RuleFileFault Snapshot := do
  let (outcome, ledger) := submit service Ledger.empty drafts (some offlineActor) time
  let _ ← outcome
  (service.snapshot ledger context time).mapError .service

end RuleFile

end Overrides
