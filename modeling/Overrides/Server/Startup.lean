import Overrides.Config
import Overrides.Files.Tree
import Overrides.Server.Router
import Overrides.Store.Backend

/-!
# `Overrides.Server.Startup`: from a configuration to a server

Starting opens the store and then the log, and writes down the
weaknesses of the setup.
-/

set_option autoImplicit false

namespace Overrides

/-- Why a server does not start. -/
inductive StartFault where
  | config (flaw : ConfigFlaw)
  | store (cause : StoreFault)
  | log (cause : FileFault)
  deriving DecidableEq, Repr

/-- The wording of a start fault. -/
def StartFault.message : StartFault → String
  | .config flaw => "config error: invalid config: " ++ flaw.message
  | .store cause => "init error: " ++ cause.openingMessage
  | .log cause => "init error: audit log open failed: " ++ cause.message

/-- A server that has started. -/
structure Started where
  server : Server
  address : SocketAddress
  store : Backend
  files : FileTree
  /-- What was written to the error stream. -/
  errors : String

/-- The warning to whoever starts a server that asks for no token. -/
def localAdminWarning : String :=
  "divine-guard: WARNING: admin routes running in local-only mode without explicit auth; "
    ++ "configure server.auth to enable bearer_token\n"

namespace Config

/-- The store of a configuration. -/
def openStore (c : Config) (files : FileTree) : Except StartFault (Backend × FileTree) :=
  match c.store.kind, c.store.path with
  | .memory, _ => .ok (.memory .empty, files)
  | .sqlite, some path => do
    let (d, files) ← (files.openDatabase path).mapError .store
    return (.disk d, files)
  | .sqlite, none => .error (.config .databaseWithoutPath)

/-- The files after the store was written to. -/
def saveStore (c : Config) (files : FileTree) : Backend → FileTree
  | .memory _ => files
  | .disk d =>
    match c.store.path with
    | some path => files.saveDatabase path d
    | none => files

/-- The server of a configuration. -/
def serverOf (c : Config) : Server := ⟨c.service, c.server.auth, c.server.maxBodyBytes⟩

/-- Writes lines to the log: to its file, or to the error stream. -/
def writeLog (c : Config) (files : FileTree) (lines : List String) :
    Except FileFault (FileTree × String) :=
  if !c.server.log.enabled then .ok (files, "")
  else match c.server.log.path with
    | some path => do
      return (← files.append (Text.trim path) (Text.Utf8.encode (String.join lines)), "")
    | none => .ok (files, String.join lines)

/-- Starts the server of a configuration. -/
def start (c : Config) (files : FileTree) (time : Instant) : Except StartFault Started := do
  c.check.mapError .config
  let address ← (bindAddress c.server).mapError .config
  let (store, files) ← c.openStore files
  let lines := c.weaknesses.map fun w => eventLine time (w.members c)
  let (files, errors) ← (c.writeLog files lines).mapError .log
  let warning := if c.server.auth.mode = .localOnly then localAdminWarning else ""
  return ⟨c.serverOf, address, store, files, warning ++ errors⟩

end Config

end Overrides
