/-!
# `Overrides.Text.Utf8`: bytes read as text

One step takes either a well-formed character or the longest
ill-formed piece off the front of a byte list. The strict reader
refuses the first ill-formed piece; the forgiving reader puts the
replacement character in its place. Surrogates, overlong forms and
values past U+10FFFF are ill-formed.
-/

set_option autoImplicit false

namespace Overrides.Text.Utf8

/-- The bytes of a text. -/
def encode (s : String) : List UInt8 := s.toUTF8.toList

/-- A byte that may follow the first byte of a character. -/
def isContinuation (b : UInt8) : Bool := 0x80 ≤ b && b ≤ 0xbf

/-- Where the second byte of a character must lie, and how many bytes
follow the first one. A byte that starts no character gives `none`. -/
def lead (b : UInt8) : Option (UInt8 × UInt8 × Nat) :=
  if 0xc2 ≤ b && b ≤ 0xdf then some (0x80, 0xbf, 1)
  else if b == 0xe0 then some (0xa0, 0xbf, 2)
  else if b == 0xed then some (0x80, 0x9f, 2)
  else if 0xe1 ≤ b && b ≤ 0xef then some (0x80, 0xbf, 2)
  else if b == 0xf0 then some (0x90, 0xbf, 3)
  else if 0xf1 ≤ b && b ≤ 0xf3 then some (0x80, 0xbf, 3)
  else if b == 0xf4 then some (0x80, 0x8f, 3)
  else none

/-- The payload bits of a first byte with `k` bytes after it. -/
def leadBits (b : UInt8) (k : Nat) : Nat :=
  if k == 1 then b.toNat - 0xc0 else if k == 2 then b.toNat - 0xe0 else b.toNat - 0xf0

/-- One step: what the front of the bytes holds, and how many bytes it
takes. `none` stands for an ill-formed piece. -/
def step (b : UInt8) (rest : List UInt8) : Option Char × Nat :=
  if b < 0x80 then (some (Char.ofNat b.toNat), 1)
  else match lead b with
    | none => (none, 1)
    | some (lo, hi, k) =>
      match rest with
      | [] => (none, 1)
      | c :: rest =>
        -- The second byte is what rules out overlong forms and surrogates.
        if !(lo ≤ c && c ≤ hi) then (none, 1)
        else
          let n := leadBits b k * 64 + (c.toNat - 0x80)
          if k == 1 then (some (Char.ofNat n), 2)
          else match rest with
            | [] => (none, 2)
            | d :: rest =>
              -- The two bytes are one ill-formed piece, and the third one is looked at anew.
              if !isContinuation d then (none, 2)
              else
                let n := n * 64 + (d.toNat - 0x80)
                if k == 2 then (some (Char.ofNat n), 3)
                else match rest with
                  | [] => (none, 3)
                  | e :: _ =>
                    if !isContinuation e then (none, 3)
                    else (some (Char.ofNat (n * 64 + (e.toNat - 0x80))), 4)

/-- The pieces of the bytes in order, `fuel` steps at most, added in
reverse to `done`. -/
def pieces : Nat → List UInt8 → List (Option Char) → List (Option Char)
  | 0, _, done => done
  | _, [], done => done
  | fuel + 1, b :: rest, done =>
    let (c, n) := step b rest
    pieces fuel (rest.drop (n - 1)) (c :: done)

/-- The bytes as text, unless some piece is ill-formed. -/
def decode? (bytes : List UInt8) : Option String :=
  (pieces bytes.length bytes []).foldl
    (fun text c => do let text ← text; let c ← c; pure (c :: text)) (some [])
  |>.map String.ofList

/-- The bytes as text, each ill-formed piece as U+FFFD. -/
def decodeLossy (bytes : List UInt8) : String :=
  String.ofList ((pieces bytes.length bytes []).reverse.map (·.getD (Char.ofNat 0xfffd)))

end Overrides.Text.Utf8
