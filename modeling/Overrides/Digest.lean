import Overrides.Digest.Sha256
import Overrides.Json.Record

/-!
# `Overrides.Digest`: labelled hashes

A digest names its algorithm beside the lower-case hexadecimal value,
so that a stored hash says how to check it. One algorithm is known.
The hash of a JSON value is the hash of its canonical text.
-/

set_option autoImplicit false

namespace Overrides

open Overrides.Text

/-- A hash algorithm. -/
inductive HashAlgorithm where
  | sha256
  deriving DecidableEq, Repr, Inhabited

namespace HashAlgorithm

/-- The label under which the algorithm is stored. -/
def label : HashAlgorithm → String
  | .sha256 => "sha256"

/-- The algorithm of this exact label. -/
def ofLabel? (label : String) : Option HashAlgorithm :=
  if label = "sha256" then some .sha256 else none

/-- What is said of a label that names no algorithm. -/
def unknownMessage (label : String) : String := "unsupported hash algorithm: " ++ label

/-- The hash of bytes. -/
def hash : HashAlgorithm → List UInt8 → List UInt8
  | .sha256 => Sha256.hash

end HashAlgorithm

/-- A byte as two hexadecimal digits. -/
def hexByte (b : UInt8) : List Char := [Nat.digitChar (b.toNat / 16), Nat.digitChar (b.toNat % 16)]

/-- Bytes in lower-case hexadecimal. -/
def hexBytes (bytes : List UInt8) : String := String.ofList (bytes.flatMap hexByte)

/-- A hash with the name of its algorithm. -/
structure Digest where
  algorithm : HashAlgorithm
  value : String
  deriving DecidableEq, Repr, Inhabited

namespace Digest

/-- The digest of bytes. -/
def ofBytes (algorithm : HashAlgorithm) (bytes : List UInt8) : Digest :=
  ⟨algorithm, hexBytes (algorithm.hash bytes)⟩

/-- The digest of a text. -/
def ofText (algorithm : HashAlgorithm) (text : String) : Digest :=
  ofBytes algorithm (Utf8.encode text)

/-- The digest of the canonical text of a value. -/
def ofCanonical (algorithm : HashAlgorithm) (v : Json) : Digest :=
  ofText algorithm v.canonical

/-- The bytes hash to this digest. -/
def verifies (d : Digest) (bytes : List UInt8) : Bool :=
  (ofBytes d.algorithm bytes).value == d.value

/-- The digest as a value. -/
def toJson (d : Digest) : Json :=
  .object [("algorithm", .string d.algorithm.label), ("value", .string d.value)]

/-- Reads a digest. -/
def ofJson (v : Json) : Except Json.Mismatch Digest := do
  let (algorithm, value) ← Json.foldRecord .json
    ⟨"a digest", ["algorithm", "value"], false, false⟩
    (fun (a, t) name v =>
      if name = "algorithm" then do
        return (some (← Json.asChoice .json [("sha256", HashAlgorithm.sha256)] v), t)
      else do return (a, some (← Json.asText v)))
    ((none : Option HashAlgorithm), (none : Option String)) v
  return ⟨← Json.required "algorithm" algorithm, ← Json.required "value" value⟩

end Digest

end Overrides
