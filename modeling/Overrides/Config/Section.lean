import Overrides.Server.Auth
import Overrides.Service

/-!
# `Overrides.Config.Section`: what can be configured

A configuration has four sections: the server, the store, the
snapshots and what safe mode forces. Every setting has a default.
-/

set_option autoImplicit false

namespace Overrides

/-- Where request events are written to. -/
structure EventLogConfig where
  enabled : Bool
  /-- The file of the log; the error stream where there is none. -/
  path : Option String
  deriving DecidableEq, Repr, Inhabited

/-- The listener of the server and who may administer it. -/
structure ServerConfig where
  bind : String
  maxBodyBytes : Nat
  auth : Auth
  log : EventLogConfig
  deriving DecidableEq, Repr, Inhabited

/-- Where rules are kept. -/
inductive StoreKind where
  | memory
  | sqlite
  deriving DecidableEq, Repr, Inhabited

/-- The name of a kind of store. -/
def StoreKind.name : StoreKind → String
  | .memory => "memory"
  | .sqlite => "sqlite"

/-- How a database keeps its journal. -/
inductive JournalMode where
  | wal
  | delete
  deriving DecidableEq, Repr, Inhabited

/-- The name of a journal mode. -/
def JournalMode.name : JournalMode → String
  | .wal => "wal"
  | .delete => "delete"

/-- How carefully a database is written to disk. -/
inductive SyncMode where
  | full
  | normal
  deriving DecidableEq, Repr, Inhabited

/-- The name of a mode of writing. -/
def SyncMode.name : SyncMode → String
  | .full => "full"
  | .normal => "normal"

/-- The store of rules. -/
structure StoreConfig where
  kind : StoreKind
  path : Option String
  busyTimeoutMs : Nat
  journal : JournalMode
  sync : SyncMode
  deriving DecidableEq, Repr, Inhabited

/-- Limits of snapshots. -/
structure SnapshotConfig where
  ttlSeconds : UInt32
  maxRules : Nat
  deriving DecidableEq, Repr, Inhabited

/-- A whole configuration. -/
structure Config where
  server : ServerConfig
  store : StoreConfig
  snapshot : SnapshotConfig
  policy : Policy

/-! ### Defaults -/

/-- The listener where none is configured. -/
def defaultBind : String := "127.0.0.1:8787"

namespace Config

/-- Events are logged to the error stream. -/
def defaultLog : EventLogConfig := ⟨true, none⟩

/-- Only this host may administer, and no token is set. -/
def defaultAuth : Auth := ⟨.localOnly, []⟩

/-- The server where none is configured. -/
def defaultServer : ServerConfig := ⟨defaultBind, 65536, defaultAuth, defaultLog⟩

/-- A store in memory. -/
def defaultStore : StoreConfig := ⟨.memory, none, 5000, .wal, .full⟩

/-- The limits where none are configured. -/
def defaultSnapshot : SnapshotConfig := ⟨defaultTtlSeconds, defaultMaxRules⟩

/-- The configuration where nothing is configured. -/
def default : Config := ⟨defaultServer, defaultStore, defaultSnapshot, .default⟩

instance : Inhabited Config := ⟨default⟩

/-- How snapshots are compiled. -/
def compiler (c : Config) : Compiler := ⟨c.policy, c.snapshot.ttlSeconds⟩

/-- The service that is configured. -/
def service (c : Config) : Service := ⟨c.compiler, c.snapshot.maxRules⟩

end Config

/-- The path of the database, if rules are kept in one. -/
def StoreConfig.databasePath? (s : StoreConfig) : Option String :=
  match s.kind with
  | .sqlite => s.path
  | .memory => none

end Overrides
