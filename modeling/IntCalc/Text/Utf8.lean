/-!
# UTF-8 in pieces

Encoded text may arrive in pieces that end in the middle of a character.
`Utf8.step` reads one byte and knows what it has seen of an unfinished
character (`Utf8.Pending`). `Utf8.decode` reads a piece: it gives the
characters that the piece finishes and what is pending behind it, and fails
at the first byte that cannot continue any text.
-/

namespace IntCalc.Utf8

/-- What has been read of a character that is not finished. -/
structure Pending where
  /-- The number of bytes that are missing, without the next one. -/
  further : Nat
  /-- The next byte lies between these two. -/
  lo : Nat
  hi : Nat
  /-- The bits read so far. -/
  bits : Nat
  deriving DecidableEq, Repr

/-- What is pending behind the first byte of a character outside ASCII. The
second byte is restricted where it would make a character that has a shorter
form, that is half of a pair, or that is too large. -/
def ofLead? (byte : Nat) : Option Pending :=
  if 0xc2 ≤ byte ∧ byte ≤ 0xdf then some ⟨0, 0x80, 0xbf, byte - 0xc0⟩
  else if 0xe0 ≤ byte ∧ byte ≤ 0xef then
    some ⟨1, if byte = 0xe0 then 0xa0 else 0x80, if byte = 0xed then 0x9f else 0xbf, byte - 0xe0⟩
  else if 0xf0 ≤ byte ∧ byte ≤ 0xf4 then
    some ⟨2, if byte = 0xf0 then 0x90 else 0x80, if byte = 0xf4 then 0x8f else 0xbf, byte - 0xf0⟩
  else none

/-- Reads one more byte of a character. -/
def Pending.step (p : Pending) (byte : Nat) : Option (List Char × Option Pending) :=
  if p.lo ≤ byte ∧ byte ≤ p.hi then
    let bits := 64 * p.bits + (byte - 0x80)
    match p.further with
    | 0 => some ([Char.ofNat bits], none)
    | further + 1 => some ([], some ⟨further, 0x80, 0xbf, bits⟩)
  else none

/-- Reads one byte: the character it finishes, and what is pending behind it. -/
def step (pending : Option Pending) (byte : UInt8) : Option (List Char × Option Pending) :=
  match pending with
  | some p => p.step byte.toNat
  | none =>
    if byte.toNat < 0x80 then some ([Char.ofNat byte.toNat], none)
    else (ofLead? byte.toNat).map fun p => ([], some p)

/-- Reads a piece: the characters it finishes, and what is pending behind it. -/
def decode (pending : Option Pending) : List UInt8 → Option (List Char × Option Pending)
  | [] => some ([], pending)
  | byte :: bytes => do
    let (front, pending) ← step pending byte
    let (chars, pending) ← decode pending bytes
    return (front ++ chars, pending)

/-- The bytes of a text. -/
def encode (chars : List Char) : List UInt8 :=
  chars.flatMap String.utf8EncodeChar

end IntCalc.Utf8
