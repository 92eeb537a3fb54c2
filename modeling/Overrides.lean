import Overrides.Main
import Overrides.Proofs.Instant.Calendar
import Overrides.Proofs.Instant.Milliseconds
import Overrides.Proofs.Instant.Written
import Overrides.Proofs.Json.Lengths
import Overrides.Proofs.Json.Listed
import Overrides.Proofs.Json.Numbers
import Overrides.Proofs.Json.RoundTrip
import Overrides.Proofs.Json.Run
import Overrides.Proofs.Json.Strings
import Overrides.Proofs.Outcome
import Overrides.Proofs.Precedence.Contents
import Overrides.Proofs.Precedence.Eligibility
import Overrides.Proofs.Precedence.InputOrder
import Overrides.Proofs.Precedence.Relevance
import Overrides.Proofs.Precedence.SafeMode
import Overrides.Proofs.Precedence.Scopes
import Overrides.Proofs.Precedence.Sole
import Overrides.Proofs.Rule.Content
import Overrides.Proofs.Rule.Grammar
import Overrides.Proofs.Rule.Limits
import Overrides.Proofs.Rule.Size
import Overrides.Proofs.Rule.Text
import Overrides.Proofs.Rule.Wire
import Overrides.Proofs.Server.Access
import Overrides.Proofs.Server.Actor
import Overrides.Proofs.Server.Answers
import Overrides.Proofs.Server.Faults
import Overrides.Proofs.Server.Headers
import Overrides.Proofs.Server.Submitting
import Overrides.Proofs.Server.Tokens
import Overrides.Proofs.Service.Import
import Overrides.Proofs.Service.Limit
import Overrides.Proofs.Service.Offline
import Overrides.Proofs.Service.Prefix
import Overrides.Proofs.Service.Submission
import Overrides.Proofs.Snapshot.Fingerprint
import Overrides.Proofs.Snapshot.Ranges
import Overrides.Proofs.Store.Counters
import Overrides.Proofs.Store.Fitting
import Overrides.Proofs.Store.Holding
import Overrides.Proofs.Store.Ledger
import Overrides.Proofs.Store.Listing
import Overrides.Proofs.Store.Reachable
import Overrides.Proofs.Store.Reads
import Overrides.Proofs.Store.Refinement
import Overrides.Proofs.Store.Refusals
import Overrides.Proofs.Store.Revisions
import Overrides.Proofs.Store.Rewriting
import Overrides.Proofs.Store.Rollback
import Overrides.Proofs.Store.Rows
import Overrides.Proofs.Store.Tables
import Overrides.Proofs.Store.Trail
import Overrides.Proofs.Text.Lowercase
import Overrides.Proofs.Text.Utf8
import Overrides.Proofs.WireForms
