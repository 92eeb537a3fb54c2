import Overrides.Text.Quoted

/-!
# `Overrides.Server.Address`: addresses of hosts and sockets

An IPv4 address is four numbers without leading zeros. An IPv6 address
is eight groups; one run of zero groups may be left out, and the last
two groups may be spelled as an IPv4 address. Around it a socket
address has brackets and perhaps a zone. A port may have leading
zeros.

Written back, an address is in its shortest form: the first longest
run of two or more zero groups is left out, and an IPv4 address mapped
into IPv6 keeps its dots.
-/

set_option autoImplicit false

namespace Overrides

open Overrides.Text

/-- The address of a host. -/
inductive IpAddress where
  | v4 (a b c d : UInt8)
  | v6 (groups : Vector UInt16 8)
  deriving DecidableEq

/-- The address of a socket. -/
structure SocketAddress where
  ip : IpAddress
  port : UInt16
  /-- The zone of an IPv6 address; zero for none. -/
  zone : UInt32
  deriving DecidableEq

namespace IpAddress

/-! ### Reading -/

/-- Takes something off the front of a text, if it stands there. -/
abbrev Taker (α : Type) := List Char → Option (α × List Char)

/-- The value of a digit in a base up to sixteen. -/
def digit? (base : Nat) (c : Char) : Option Nat :=
  let n :=
    if '0' ≤ c ∧ c ≤ '9' then c.toNat - '0'.toNat
    else if 'a' ≤ c ∧ c ≤ 'f' then c.toNat - 'a'.toNat + 10
    else if 'A' ≤ c ∧ c ≤ 'F' then c.toNat - 'A'.toNat + 10
    else 16
  if n < base then some n else none

/-- The digits at the front of a text. -/
def digits (base : Nat) : List Char → List Nat × List Char
  | [] => ([], [])
  | c :: cs =>
    match digit? base c with
    | some n =>
      let (ns, rest) := digits base cs
      (n :: ns, rest)
    | none => ([], c :: cs)

/-- Takes a number below a bound. -/
def number (base bound : Nat) (allowed : List Nat → Bool) : Taker Nat := fun cs =>
  let (ns, rest) := digits base cs
  let n := ns.foldl (fun n d => n * base + d) 0
  if !ns.isEmpty && allowed ns && n < bound then some (n, rest) else none

/-- Takes a character. -/
def char (c : Char) : Taker Unit
  | [] => none
  | d :: cs => if c = d then some ((), cs) else none

/-- Takes a number of an IPv4 address. -/
def octet : Taker Nat := number 10 256 fun ns => ns.length ≤ 3 && (ns.head? != some 0 || ns == [0])

/-- Takes a group of an IPv6 address. -/
def group : Taker Nat := number 16 65536 fun ns => ns.length ≤ 4

/-- Takes the four numbers of an IPv4 address. -/
def octets : Taker (Nat × Nat × Nat × Nat) := fun cs => do
  let (a, cs) ← octet cs
  let (_, cs) ← char '.' cs
  let (b, cs) ← octet cs
  let (_, cs) ← char '.' cs
  let (c, cs) ← octet cs
  let (_, cs) ← char '.' cs
  let (d, cs) ← octet cs
  return ((a, b, c, d), cs)

/-- Takes as many groups as there are, up to a limit. The flag says that
the last two were spelled as an IPv4 address. -/
def groups : Nat → Bool → List Char → List Nat × Bool × List Char
  | 0, _, cs => ([], false, cs)
  | limit + 1, first, cs =>
    match if first then some ((), cs) else char ':' cs with
    | none => ([], false, cs)
    | some (_, rest) =>
      -- An IPv4 tail counts for two groups.
      match if limit = 0 then none else octets rest with
      | some ((a, b, c, d), rest) => ([a * 256 + b, c * 256 + d], true, rest)
      | none =>
        match group rest with
        | some (g, rest) =>
          let (gs, mapped, rest) := groups limit false rest
          (g :: gs, mapped, rest)
        | none => ([], false, cs)

/-- Takes the eight groups of an IPv6 address. -/
def allGroups : Taker (List Nat) := fun cs =>
  let (front, mapped, rest) := groups 8 true cs
  if front.length = 8 then some (front, rest)
  else if mapped then none
  else do
    let (_, rest) ← char ':' rest
    let (_, rest) ← char ':' rest
    let (back, _, rest) := groups (7 - front.length) true rest
    return (front ++ List.replicate (8 - front.length - back.length) 0 ++ back, rest)

/-- Takes an IPv4 address. -/
def takeV4 : Taker IpAddress := fun cs => do
  let ((a, b, c, d), rest) ← octets cs
  return (.v4 (.ofNat a) (.ofNat b) (.ofNat c) (.ofNat d), rest)

/-- Takes an IPv6 address. -/
def takeV6 : Taker IpAddress := fun cs => do
  let (gs, rest) ← allGroups cs
  return (.v6 (Vector.ofFn fun i => UInt16.ofNat (gs.getD i 0)), rest)

/-- What was taken, if nothing is left over. -/
def whole {α : Type} : Option (α × List Char) → Option α
  | some (a, []) => some a
  | _ => none

/-- The address that a text spells. -/
def parse? (text : String) : Option IpAddress :=
  whole (takeV4 text.toList) <|> whole (takeV6 text.toList)

/-! ### Writing -/

/-- The start and length of the first longest run of zeros; `best` is the
one found so far, `run` the length of the one that ends before `at`. -/
def longestZeros : List UInt16 → (position run : Nat) → (best : Nat × Nat) → Nat × Nat
  | [], _, _, best => best
  | g :: gs, position, run, best =>
    if g = 0 then
      let run := run + 1
      longestZeros gs (position + 1) run
        (if best.2 < run then (position + 1 - run, run) else best)
    else longestZeros gs (position + 1) 0 best

/-- Groups with colons between them. -/
def writeGroups (gs : List UInt16) : String :=
  ":".intercalate (gs.map fun g => hex g.toNat)

/-- Four numbers with dots between them. -/
def writeOctets (ns : List Nat) : String := ".".intercalate (ns.map Nat.repr)

/-- The text of the address. -/
def text : IpAddress → String
  | v4 a b c d => writeOctets [a.toNat, b.toNat, c.toNat, d.toNat]
  | v6 groups =>
    let gs := groups.toList
    if gs.take 6 = [0, 0, 0, 0, 0, 0xffff] then
      "::ffff:" ++ writeOctets ((gs.drop 6).flatMap fun g => [g.toNat / 256, g.toNat % 256])
    else
      let (start, length) := longestZeros gs 0 0 (0, 0)
      if 1 < length then
        writeGroups (gs.take start) ++ "::" ++ writeGroups (gs.drop (start + length))
      else writeGroups gs

/-- The address is one of this host itself. An IPv4 address mapped into
IPv6 is not. -/
def isLoopback : IpAddress → Bool
  | v4 a _ _ _ => a = 127
  | v6 groups => groups.toList = [0, 0, 0, 0, 0, 0, 0, 1]

end IpAddress

namespace SocketAddress

open IpAddress

/-- Takes a port. -/
def takePort : Taker Nat := number 10 65536 fun _ => true

/-- Takes a zone, or nothing. -/
def takeZone (cs : List Char) : Nat × List Char :=
  match char '%' cs with
  | some (_, rest) => (number 10 UInt32.size (fun _ => true) rest).getD (0, cs)
  | none => (0, cs)

/-- Takes an IPv4 address and a port. -/
def takeV4 : Taker SocketAddress := fun cs => do
  let (ip, cs) ← IpAddress.takeV4 cs
  let (_, cs) ← char ':' cs
  let (port, cs) ← takePort cs
  return (⟨ip, .ofNat port, 0⟩, cs)

/-- Takes an IPv6 address in brackets and a port. -/
def takeV6 : Taker SocketAddress := fun cs => do
  let (_, cs) ← char '[' cs
  let (ip, cs) ← IpAddress.takeV6 cs
  let (zone, cs) := takeZone cs
  let (_, cs) ← char ']' cs
  let (_, cs) ← char ':' cs
  let (port, cs) ← takePort cs
  return (⟨ip, .ofNat port, .ofNat zone⟩, cs)

/-- The socket address that a text spells. -/
def parse? (text : String) : Option SocketAddress :=
  whole (takeV4 text.toList) <|> whole (takeV6 text.toList)

/-- The text of the address. -/
def text (s : SocketAddress) : String :=
  let port := ":" ++ Nat.repr s.port.toNat
  match s.ip with
  | .v4 .. => s.ip.text ++ port
  | .v6 _ =>
    "[" ++ s.ip.text ++ (if s.zone = 0 then "" else "%" ++ Nat.repr s.zone.toNat) ++ "]" ++ port

end SocketAddress

end Overrides
