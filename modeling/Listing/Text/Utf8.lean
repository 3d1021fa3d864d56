import Listing.Text.Digits

namespace Listing.Text.Utf8

abbrev Bytes := List UInt8

-- One to four bytes for a character; the first byte tells how many.
def encodeChar (c : Char) : Bytes :=
  let n := c.toNat
  if n < 0x80 then [n.toUInt8]
  else if n < 0x800 then [(0xc0 + n / 0x40).toUInt8, (0x80 + n % 0x40).toUInt8]
  else if n < 0x10000 then
    [(0xe0 + n / 0x1000).toUInt8, (0x80 + n / 0x40 % 0x40).toUInt8, (0x80 + n % 0x40).toUInt8]
  else
    [(0xf0 + n / 0x40000).toUInt8, (0x80 + n / 0x1000 % 0x40).toUInt8,
      (0x80 + n / 0x40 % 0x40).toUInt8, (0x80 + n % 0x40).toUInt8]

def encode (cs : List Char) : Bytes := cs.flatMap encodeChar

def ofString (s : String) : Bytes := encode s.toList

inductive Reason where
  | invalidStart
  | invalidContinuation
  | unexpectedEnd
deriving DecidableEq, Repr

def Reason.text : Reason → String
  | .invalidStart => "invalid start byte"
  | .invalidContinuation => "invalid continuation byte"
  | .unexpectedEnd => "unexpected end of data"

-- What a leading byte announces: how many bytes follow, the bits it contributes, and the range
-- that its second byte has to keep, which rules out long forms, surrogates and overflow.
structure Lead where
  follow : Nat
  bits : Nat
  low : Nat
  high : Nat

def lead? (b : UInt8) : Option Lead :=
  let n := b.toNat
  if n < 0x80 then some ⟨0, n, 0x80, 0xbf⟩
  else if n < 0xc2 then none
  else if n < 0xe0 then some ⟨1, n - 0xc0, 0x80, 0xbf⟩
  else if n = 0xe0 then some ⟨2, 0, 0xa0, 0xbf⟩
  else if n = 0xed then some ⟨2, 0xd, 0x80, 0x9f⟩
  else if n < 0xf0 then some ⟨2, n - 0xe0, 0x80, 0xbf⟩
  else if n = 0xf0 then some ⟨3, 0, 0x90, 0xbf⟩
  else if n < 0xf4 then some ⟨3, n - 0xf0, 0x80, 0xbf⟩
  else if n = 0xf4 then some ⟨3, 4, 0x80, 0x8f⟩
  else none

-- A step of decoding: a character with the bytes it took, or a reason with the bytes at fault.
inductive Step where
  | char (c : Char) (used : Nat)
  | fault (reason : Reason) (used : Nat)
deriving DecidableEq, Repr

-- Takes `follow` more bytes, the next one within `low` and `high`, the others within the
-- general range of following bytes.
def takeFollowing (code used : Nat) : (follow low high : Nat) → Bytes → Step
  | 0, _, _, _ => .char (Char.ofNat code) used
  | _ + 1, _, _, [] => .fault .unexpectedEnd used
  | follow + 1, low, high, b :: rest =>
    if low ≤ b.toNat ∧ b.toNat ≤ high then
      takeFollowing (0x40 * code + (b.toNat - 0x80)) (used + 1) follow 0x80 0xbf rest
    else .fault .invalidContinuation used

def step (b : UInt8) (rest : Bytes) : Step :=
  match lead? b with
  | none => .fault .invalidStart 1
  | some l => takeFollowing l.bits 1 l.follow l.low l.high rest

-- Where a byte sequence stops being text.
structure Fault where
  first : UInt8
  start : Nat
  length : Nat
  reason : Reason
deriving DecidableEq, Repr

def Fault.message (f : Fault) : String :=
  let place :=
    if f.length = 1 then
      s!"byte 0x{String.ofList (hex 2 f.first.toNat)} in position {f.start}"
    else s!"bytes in position {f.start}-{f.start + f.length - 1}"
  s!"'utf-8' codec can't decode {place}: {f.reason.text}"

-- Decoding with a bound on the number of steps; every step takes at least one byte.
def decodeFrom : (fuel : Nat) → (position : Nat) → Bytes → Except Fault (List Char)
  | 0, _, _ => .ok []
  | _ + 1, _, [] => .ok []
  | fuel + 1, position, b :: rest =>
    match step b rest with
    | .fault reason used => .error ⟨b, position, used, reason⟩
    | .char c used => do
      return c :: (← decodeFrom fuel (position + used) (rest.drop (used - 1)))

def decode (bytes : Bytes) : Except Fault (List Char) := decodeFrom bytes.length 0 bytes

-- Lenient decoding puts one replacement character in the place of each faulty run.
def decodeLenientFrom : (fuel : Nat) → Bytes → List Char
  | 0, _ => []
  | _ + 1, [] => []
  | fuel + 1, b :: rest =>
    match step b rest with
    | .fault _ used => '\ufffd' :: decodeLenientFrom fuel (rest.drop (used - 1))
    | .char c used => c :: decodeLenientFrom fuel (rest.drop (used - 1))

def decodeLenient (bytes : Bytes) : List Char := decodeLenientFrom bytes.length bytes

end Listing.Text.Utf8
