import Overrides.Config.Section

/-!
# `Overrides.Config.Shape`: sections read from a document

Sections are read strictly: no key but their own, no value of another
type. A key that is left out keeps its default. A section may also be
written as the list of its values.
-/

set_option autoImplicit false

namespace Overrides

open Json (Mismatch RecordShape Encoding)

namespace Config

/-- A section with these keys. -/
def sectionShape (title : String) (fields : List String) : RecordShape :=
  ⟨title, fields, true, true⟩

/-- Reads an optional text that is there. -/
def asSetText (v : Json) : Except Mismatch (Option String) := some <$> Json.asText v

/-- Reads one of the named choices. -/
def asNamed {α : Type} (name : α → String) (choices : List α) (v : Json) : Except Mismatch α :=
  Json.asChoice .toml (choices.map fun a => (name a, a)) v

/-- Reads who may administer. -/
def readAuth (v : Json) : Except Mismatch Auth :=
  Json.foldRecord .toml (sectionShape "the section server.auth" ["mode", "bearer_tokens"])
    (fun a name v =>
      if name = "mode" then do
        return { a with mode := ← asNamed AuthMode.name AuthMode.all v }
      else do return { a with tokens := ← Json.asList Json.asText v })
    defaultAuth v

/-- Reads where events are written to. -/
def readLog (v : Json) : Except Mismatch EventLogConfig :=
  Json.foldRecord .toml (sectionShape "the section server.audit" ["enabled", "path"])
    (fun l name v =>
      if name = "enabled" then do return { l with enabled := ← Json.asFlag v }
      else do return { l with path := ← asSetText v })
    defaultLog v

/-- Reads the server. -/
def readServer (v : Json) : Except Mismatch ServerConfig :=
  Json.foldRecord .toml
    (sectionShape "the section server" ["bind", "max_body_bytes", "auth", "audit"])
    (fun s name v =>
      if name = "bind" then do return { s with bind := ← Json.asText v }
      else if name = "max_body_bytes" then do
        return { s with maxBodyBytes := ← Json.asNatural 64 v }
      else if name = "auth" then do return { s with auth := ← readAuth v }
      else do return { s with log := ← readLog v })
    defaultServer v

/-- Reads the store. -/
def readStore (v : Json) : Except Mismatch StoreConfig :=
  Json.foldRecord .toml
    (sectionShape "the section rule_store"
      ["type", "path", "busy_timeout_ms", "journal_mode", "sync_mode"])
    (fun s name v =>
      if name = "type" then do
        return { s with kind := ← asNamed StoreKind.name [.memory, .sqlite] v }
      else if name = "path" then do return { s with path := ← asSetText v }
      else if name = "busy_timeout_ms" then do
        return { s with busyTimeoutMs := ← Json.asNatural 64 v }
      else if name = "journal_mode" then do
        return { s with journal := ← asNamed JournalMode.name [.wal, .delete] v }
      else do return { s with sync := ← asNamed SyncMode.name [.full, .normal] v })
    defaultStore v

/-- Reads the limits of snapshots. -/
def readSnapshot (v : Json) : Except Mismatch SnapshotConfig :=
  Json.foldRecord .toml (sectionShape "the section snapshot" ["ttl_seconds", "max_rules"])
    (fun s name v =>
      if name = "ttl_seconds" then do return { s with ttlSeconds := ← Json.asUInt32 v }
      else do return { s with maxRules := ← Json.asNatural 64 v })
    defaultSnapshot v

/-- Reads a configuration. -/
def ofJson (v : Json) : Except Mismatch Config :=
  Json.foldRecord .toml
    (sectionShape "a configuration" ["server", "rule_store", "snapshot", "safe_mode"])
    (fun c name v =>
      if name = "server" then do return { c with server := ← readServer v }
      else if name = "rule_store" then do return { c with store := ← readStore v }
      else if name = "snapshot" then do return { c with snapshot := ← readSnapshot v }
      else do return { c with policy := ← Policy.ofJson .toml v })
    default v

end Config

end Overrides
