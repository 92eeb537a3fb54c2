import Overrides.Files.Path
import Overrides.Store.Database

/-!
# `Overrides.Files.Tree`: the files that a program sees

A tree holds files, directories and databases by the names on the way
from the root, and a working directory where relative paths begin.
Going through a path needs a directory at every step; two dots lead
one step back from the directory reached.

A database is opened by its plain path: dots are worked out on the
names alone, and the directories on the way are made first.
-/

set_option autoImplicit false

namespace Overrides

/-- Why a file operation fails. -/
inductive FileFault where
  | missing
  | exists
  | notDirectory
  | isDirectory
  | nameTooLong
  /-- The character NUL stands in the path. -/
  | nulInPath
  deriving DecidableEq, Repr

/-- The wording of a file fault. -/
def FileFault.message : FileFault → String
  | .missing => "No such file or directory (os error 2)"
  | .exists => "File exists (os error 17)"
  | .notDirectory => "Not a directory (os error 20)"
  | .isDirectory => "Is a directory (os error 21)"
  | .nameTooLong => "File name too long (os error 36)"
  | .nulInPath => "file name contained an unexpected NUL byte"

/-- What stands at a place. -/
inductive Node where
  | file (bytes : List UInt8)
  | directory
  | database (d : Database)
  deriving DecidableEq, Inhabited

/-- Files, directories and databases. -/
structure FileTree where
  nodes : List (List String × Node)
  /-- The names on the way to the working directory. -/
  here : List String
  deriving Inhabited

namespace FileTree

/-- A working directory and nothing in it. -/
def empty : FileTree := ⟨[(["work"], .directory)], ["work"]⟩

/-- What stands at a place; the root is a directory. -/
def node? (t : FileTree) (place : List String) : Option Node :=
  if place.isEmpty then some .directory else t.nodes.lookup place

/-- The tree with something else at a place. -/
def put (t : FileTree) (place : List String) (n : Node) : FileTree :=
  { t with nodes := (place, n) :: t.nodes.filter (·.1 ≠ place) }

/-- Where a path begins. -/
def origin (t : FileTree) (path : String) : List String :=
  if Path.isAbsolute path then [] else t.here

/-- Goes from a directory through further ones. -/
def walk (t : FileTree) : List String → List String → Except FileFault (List String)
  | place, [] => .ok place
  | place, name :: rest =>
    if name = ".." then walk t place.dropLast rest
    else if Path.maxPartBytes < name.utf8ByteSize then .error .nameTooLong
    else match t.node? (place ++ [name]) with
      | some .directory => walk t (place ++ [name]) rest
      | some _ => .error .notDirectory
      | none => .error .missing

/-- The path can name a directory only. -/
def namesDirectory (path : String) : Bool :=
  match (path.splitOn "/").getLast? with
  | some last => last = "" || last = "." || last = ".."
  | none => true

/-- The place that a path names, whether something stands there or not;
the directories before it have to be there. -/
def locate (t : FileTree) (path : String) : Except FileFault (List String) := do
  if path.isEmpty then .error .missing
  if Path.hasNul path then .error .nulInPath
  let parts := Path.parts path
  match parts.getLast? with
  | none => .ok (t.origin path)
  | some last =>
    let place ← t.walk (t.origin path) parts.dropLast
    if last = ".." then .ok place.dropLast
    else if Path.maxPartBytes < last.utf8ByteSize then .error .nameTooLong
    else .ok (place ++ [last])

/-- A directory stands at a path. -/
def isDirectory (t : FileTree) (path : String) : Bool :=
  match t.locate path with
  | .ok place =>
    match t.node? place with
    | some .directory => true
    | _ => false
  | .error _ => false

/-- The bytes that every database begins with. -/
def databaseMark : List UInt8 := Text.Utf8.encode "SQLite format 3" ++ ([0x00, 0xff] : List UInt8)

/-- The bytes of a file. -/
def read (t : FileTree) (path : String) : Except FileFault (List UInt8) := do
  let place ← t.locate path
  match t.node? place with
  | none => .error .missing
  | some .directory => .error .isDirectory
  | some n =>
    if namesDirectory path then .error .notDirectory
    else match n with
      | .file bytes => .ok bytes
      | _ => .ok databaseMark

/-- The tree with more bytes at the end of a file, which is made where
there is none. -/
def append (t : FileTree) (path : String) (bytes : List UInt8) : Except FileFault FileTree := do
  let place ← t.locate path
  match t.node? place with
  | some .directory => .error .isDirectory
  | some (.file old) =>
    if namesDirectory path then .error .notDirectory else .ok (t.put place (.file (old ++ bytes)))
  | some (.database _) => if namesDirectory path then .error .notDirectory else .ok t
  | none => if namesDirectory path then .error .isDirectory else .ok (t.put place (.file bytes))

/-- Makes the directories on a way that are missing. -/
def makeDirectories (t : FileTree) : List String → List String → Except FileFault FileTree
  | _, [] => .ok t
  | place, name :: rest =>
    if name = ".." then makeDirectories t place.dropLast rest
    else if Path.hasNul name then .error .nulInPath
    else match t.node? (place ++ [name]) with
      | some .directory => makeDirectories t (place ++ [name]) rest
      | some _ => .error (if rest.isEmpty then .exists else .notDirectory)
      | none => makeDirectories (t.put (place ++ [name]) .directory) (place ++ [name]) rest

/-! ### Databases -/

/-- The path of a database that is kept in memory. -/
def transientPath : String := ":memory:"

/-- The most bytes that the full path of a database may have. -/
def maxDatabasePathBytes : Nat := 504

/-- The place of names from the root, dots worked out on the names alone. -/
def plainPlace (origin parts : List String) : List String :=
  parts.foldl (fun place name => if name = ".." then place.dropLast else place ++ [name]) origin

/-- The place of the database at a path. -/
def databasePlace (t : FileTree) (path : String) : List String :=
  plainPlace (t.origin path) (Path.parts path)

/-- Checks the path of a database. -/
def checkDatabasePath (t : FileTree) (path : String) : Except StoreFault Unit :=
  if path.isEmpty then .error .emptyPath
  else if Path.isTooLong path then .error .pathTooLong
  else if Path.hasLongPart path then .error .pathPartTooLong
  else if t.isDirectory path then .error .pathIsDirectory
  else .ok ()

/-- What the engine finds at a place: a database, or room for one. -/
def findDatabase (t : FileTree) (place : List String) : Except StoreFault Database :=
  if place.any Path.hasNul then .error .engineFailure
  else if maxDatabasePathBytes < place.foldl (fun n name => n + name.utf8ByteSize + 1) 0 then
    .error .engineFailure
  else match t.node? place with
    | some (.database d) => .ok d
    | some (.file []) => .ok .blank
    | some _ => .error .engineFailure
    | none =>
      match t.walk [] place.dropLast with
      | .ok _ => .ok .blank
      | .error _ => .error .engineFailure

/-- Opens the database at a path, making it and the directories before it
where they are missing. -/
def openDatabase (t : FileTree) (path : String) : Except StoreFault (Database × FileTree) := do
  t.checkDatabasePath path
  let t ← (t.makeDirectories (t.origin path) (Path.parts path).dropLast).mapError fun e =>
    StoreFault.fileFailure e.message
  if path = transientPath then return (.empty, t)
  let place := t.databasePlace path
  let d ← (← t.findDatabase place).opened
  return (d, t.put place (.database d))

/-- The tree after a database was written to. -/
def saveDatabase (t : FileTree) (path : String) (d : Database) : FileTree :=
  if path = transientPath then t else t.put (t.databasePlace path) (.database d)

end FileTree

end Overrides
