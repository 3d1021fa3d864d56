import Listing.Text.Lines

namespace Listing.Text

def hexDigit (n : Nat) : Char :=
  Char.ofNat (if n < 10 then '0'.toNat + n else 'a'.toNat + (n - 10))

-- The last `width` base sixteen digits of a number, in lower case.
def hex : Nat → Nat → List Char
  | 0, _ => []
  | width + 1, n => hex width (n / 16) ++ [hexDigit (n % 16)]

-- Both cases are read.
def hexValue? (c : Char) : Option Nat :=
  if '0' ≤ c ∧ c ≤ '9' then some (c.toNat - '0'.toNat)
  else if 'a' ≤ c ∧ c ≤ 'f' then some (c.toNat - 'a'.toNat + 10)
  else if 'A' ≤ c ∧ c ≤ 'F' then some (c.toNat - 'A'.toNat + 10)
  else none

theorem hexValue?_hexDigit {n : Nat} (h : n < 16) : hexValue? (hexDigit n) = some n := by
  have hall : ∀ m : Fin 16, hexValue? (hexDigit m) = some m.val := by decide
  exact hall ⟨n, h⟩

-- Every script that has decimal digits lists them in order from its zero.
-- These are the zeros, in ascending order.
def decimalZeros : List Nat :=
  [0x30, 0x660, 0x6f0, 0x7c0, 0x966, 0x9e6, 0xa66, 0xae6, 0xb66, 0xbe6, 0xc66, 0xce6, 0xd66,
   0xde6, 0xe50, 0xed0, 0xf20, 0x1040, 0x1090, 0x17e0, 0x1810, 0x1946, 0x19d0, 0x1a80, 0x1a90,
   0x1b50, 0x1bb0, 0x1c40, 0x1c50, 0xa620, 0xa8d0, 0xa900, 0xa9d0, 0xa9f0, 0xaa50, 0xabf0,
   0xff10, 0x104a0, 0x10d30, 0x11066, 0x110f0, 0x11136, 0x111d0, 0x112f0, 0x11450, 0x114d0,
   0x11650, 0x116c0, 0x11730, 0x118e0, 0x11950, 0x11c50, 0x11d50, 0x11da0, 0x16a60, 0x16ac0,
   0x16b50, 0x1d7ce, 0x1d7d8, 0x1d7e2, 0x1d7ec, 0x1d7f6, 0x1e140, 0x1e2f0, 0x1e950, 0x1fbf0]

-- The value of a decimal digit of any script.
def digitValue? (c : Char) : Option Nat :=
  (decimalZeros.find? fun z => z ≤ c.toNat && c.toNat < z + 10).map (c.toNat - ·)

-- ASCII digits alone, for formats that know no other.
def isAsciiDigit (c : Char) : Bool := '0' ≤ c && c ≤ '9'

-- The number written by a run of digits, most significant first.
def ofDigits (ds : List Nat) : Nat := ds.foldl (fun n d => 10 * n + d) 0

def asciiDigitValue (c : Char) : Nat := c.toNat - '0'.toNat

-- Digits of any script, with at most one underscore between two of them.
def readDigits : List Char → Option (List Nat)
  | [] => none
  | [c] => (digitValue? c).map ([·])
  | c :: '_' :: rest => do return (← digitValue? c) :: (← readDigits rest)
  | c :: rest => do return (← digitValue? c) :: (← readDigits rest)

-- The blanks that may surround a number: all but the four separator controls.
def isIntegerBlank (c : Char) : Bool :=
  isBlank c && !(0x1c ≤ c.toNat && c.toNat ≤ 0x1f)

-- An integer in decimal: blanks around it, a sign, and digits.
def readInteger (cs : List Char) : Option Int :=
  match ((cs.dropWhile isIntegerBlank).reverse.dropWhile isIntegerBlank).reverse with
  | '+' :: ds => (readDigits ds).map fun ds => (ofDigits ds : Int)
  | '-' :: ds => (readDigits ds).map fun ds => -(ofDigits ds : Int)
  | ds => (readDigits ds).map fun ds => (ofDigits ds : Int)

end Listing.Text
