import Overrides.Cli.Program
import Overrides.Store.Image
import Std.Http.Server
import Std.Time.DateTime.Timestamp

/-!
# `Overrides.Main`: the command line

Everything here touches the world: the files on disk, the clock, the
two output streams and the listening socket. What a run does is
decided by `Cli.run` and `Server.answer`, which work on a `FileTree`;
this module reads into such a tree the files that a run can look at,
and writes back what has changed in it.

A database stands on disk as its image. The log is only ever added to,
so no more of it is read than that it is there.
-/

set_option autoImplicit false

namespace Overrides.Host

open Overrides.Text

/-! ### Files -/

/-- The path of a place. -/
def pathOf (place : List String) : String := "/" ++ "/".intercalate place

/-- What the bytes of a file are: an image of a database, or a file. -/
def nodeOf (bytes : ByteArray) : Node :=
  let bytes := bytes.toList
  match Database.ofImage? bytes with
  | some d => .database d
  | none => .file bytes

/-- What stands at a place on disk; `brief` leaves out what follows the
first byte of a file. -/
def nodeAt (brief : Bool) (place : List String) : IO (Option Node) := do
  let reading : IO Node :=
    if brief then do
      let bytes ← (← IO.FS.Handle.mk (pathOf place) .read).read 1
      return .file bytes.toList
    else nodeOf <$> IO.FS.readBinFile (pathOf place)
  match ← reading.toBaseIO with
  | .ok n => return some n
  | .error (.inappropriateType ..) => return some .directory
  | .error _ => return none

/-- Adds what stands on a way through the disk to a tree. -/
def lookAlong (brief : Bool) (t : FileTree) : List String → List String → IO FileTree
  | _, [] => return t
  | place, name :: rest => do
    let place := if name = ".." then place.dropLast else place ++ [name]
    match ← nodeAt brief place with
    | none => return t
    | some .directory => lookAlong brief (t.put place .directory) place rest
    | some n => return t.put place n

/-- Adds what stands at a path to a tree. -/
def look (brief : Bool) (t : FileTree) (path : String) : IO FileTree :=
  lookAlong brief t (t.origin path) (Path.parts path)

/-- Writes what stands at a place, unless it stood there before. -/
def saveNode (old : FileTree) (place : List String) (n : Node) : IO Unit := do
  if old.node? place = some n then return
  match n with
  | .directory => IO.FS.createDirAll (pathOf place)
  | .database d =>
    let fresh := pathOf place ++ ".new"
    IO.FS.writeBinFile fresh ⟨d.image.toArray⟩
    IO.FS.rename fresh (pathOf place)
  | .file bytes =>
    let kept := match old.node? place with
      | some (.file before) => before.length
      | _ => 0
    let h ← IO.FS.Handle.mk (pathOf place) .append
    h.write ⟨(bytes.drop kept).toArray⟩

/-- Writes what has changed from one tree to another, directories before
what stands in them. -/
def save (old new : FileTree) : IO Unit :=
  new.nodes.reverse.forM fun (place, n) => saveNode old place n

/-! ### The surroundings of a run -/

/-- The time now. -/
def now : IO Instant := do
  return ⟨(← Std.Time.Timestamp.now).toNanosecondsSinceUnixEpoch.val, 0⟩

/-- The options that name files to read, besides the configuration. -/
def fileOptions : List String := ["rules", "input"]

/-- The configuration of a run, if it has one that can be read, and what
the run depends on. -/
def surroundings (values : Cli.Values) : IO (Option Config × Cli.Surroundings) := do
  let environment ← IO.getEnv Config.environmentName
  let here := Path.parts (← IO.currentDir).toString
  let mut t ← lookAlong false ⟨[], here⟩ [] here
  let asked := values.lookup "config"
  for path in (Config.filePath asked environment).toOption.toList do
    t ← look false t path
  for path in fileOptions.filterMap (fun name => values.lookup name) do
    t ← look false t path
  let c := (Config.load t asked environment).toOption
  for path in (c.bind (·.store.path)).toList do
    t ← look false t path
  for path in (c.bind (·.server.log.path)).toList do
    t ← look true t (trim path)
  return (c, ⟨environment, t, ← now⟩)

/-! ### Serving -/

/-- The address of a peer. -/
def ipOf : Std.Net.SocketAddress → IpAddress
  | .v4 s =>
    let o := s.addr.octets
    .v4 o[0] o[1] o[2] o[3]
  | .v6 s => .v6 s.addr.segments

/-- Where to listen. -/
def socketOf (s : SocketAddress) : Std.Net.SocketAddress :=
  match s.ip with
  | .v4 a b c d => .v4 ⟨⟨#v[a, b, c, d]⟩, s.port⟩
  | .v6 groups => .v6 ⟨⟨groups⟩, s.port⟩

/-- A server at work: its configuration, and behind a lock its store and
the files. -/
structure Serving where
  config : Config
  server : Server
  state : Std.Mutex (Backend × FileTree)

/-- Answers a request, saves the store and writes the log. -/
def Serving.answer (s : Serving) (r : Request) : IO Response :=
  s.state.atomically do
    let (store, files) ← get
    let time ← (now : IO Instant)
    let (response, event, store) := s.server.answer store r time
    let saved := s.config.saveStore files store
    set (store, saved)
    let lines := event.toList.map fun e => eventLine time e.members
    match s.config.writeLog saved lines with
    | .ok (logged, errors) => (do save files logged; IO.eprint errors : IO Unit)
    | .error _ => (save files saved : IO Unit)
    return response

/-- The body of a request. One that is too large is not read to its end;
any other body that is too large stands for it. -/
def bodyOf (limit : Nat) (body : Std.Http.Body.Stream) : Std.Async.ContextAsync (List UInt8) :=
  try
    let bytes : ByteArray ← body.readAll (some limit.toUInt64)
    return bytes.toList
  catch _ => return List.replicate (limit + 1) 0

/-- The request that has arrived. -/
def requestOf (limit : Nat) (r : Std.Http.Request Std.Http.Body.Stream) :
    Std.Async.ContextAsync Request := do
  let target := toString r.line.uri
  let (path, query) := target.toList.span (· ≠ '?')
  let peer := (r.extensions.get Std.Http.Server.RemoteAddr).elim
    (IpAddress.v4 0 0 0 0) fun a => ipOf a.addr
  return {
    method := toString r.line.method
    path := String.ofList path
    query := String.ofList (query.drop 1)
    headers := r.line.headers.toList.map fun (name, value) =>
      (name.value, Utf8.encode value.value)
    body := ← bodyOf limit r.body
    peer }

/-- The answer as it is sent. -/
def responseOf (a : Response) : Std.Async.Async (Std.Http.Response Std.Http.Body.Any) := do
  let status := (Std.Http.Status.ofCode none a.status.toUInt16).getD .internalServerError
  let text := match a.body with
    | some v => v.compact
    | none => ""
  let body := Std.Http.Body.Any.ofBody (← Std.Http.Body.Full.ofString text)
  let head := Std.Http.Response.withStatus status
  let head :=
    if a.body.isSome then (head.header? "content-type" "application/json").getD head else head
  return head.body body

instance : Std.Http.Server.Handler Serving where
  ResponseBody := Std.Http.Body.Any
  onRequest s r := do
    let r ← requestOf s.server.maxBodyBytes r
    responseOf (← (s.answer r : IO Response))

/-- Listens until the server is stopped. -/
def listen (c : Config) (started : Started) : IO Unit := do
  let state ← Std.Mutex.new (started.store, started.files)
  let serving : Serving := ⟨c, started.server, state⟩
  let address := socketOf started.address
  let running ← (Std.Http.Server.serve address serving { serverName := none }).block
  running.waitShutdown.block

/-- Goes on with a server that has started. -/
def serve (c : Config) (before : FileTree) (started : Started) : IO UInt32 := do
  save before started.files
  IO.eprint started.errors
  IO.eprintln ("divine-guard: listening on " ++ started.address.text)
  match ← (listen c started).toBaseIO with
  | .ok _ => return 0
  | .error e =>
    IO.eprintln ("server failed: transport error: http bind failed: " ++ toString e)
    return 1

end Overrides.Host

open Overrides Overrides.Host in
/-- Runs the program. -/
def main (arguments : List String) : IO UInt32 := do
  let values := match Cli.read arguments with
    | .ok (.run _ values) => values
    | _ => []
  let (c, around) ← surroundings values
  match Cli.run arguments around with
  | .ended o =>
    save around.files o.files
    IO.print o.output
    IO.eprint o.errors
    return o.status.toUInt32
  | .serving started => serve (c.getD .default) around.files started
