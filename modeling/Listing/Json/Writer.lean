import Listing.Json.Basic
import Listing.Decimal.Layout
import Listing.Text.Digits

namespace Listing.Json

-- Beyond the sixteen-bit plane a character is written as a pair of surrogates.
def unicodeEscape (c : Char) : List Char :=
  let n := c.toNat
  if n < 0x10000 then '\\' :: 'u' :: Text.hex 4 n
  else
    let m := n - 0x10000
    '\\' :: 'u' :: Text.hex 4 (0xd800 + m / 0x400) ++
      '\\' :: 'u' :: Text.hex 4 (0xdc00 + m % 0x400)

-- Written text is ASCII from the space to the tilde; all else is escaped.
def writeChar (c : Char) : List Char :=
  if c = '"' ∨ c = '\\' then ['\\', c]
  else if c = '\n' then ['\\', 'n']
  else if c = '\r' then ['\\', 'r']
  else if c = '\t' then ['\\', 't']
  else if c = '\x08' then ['\\', 'b']
  else if c = '\x0c' then ['\\', 'f']
  else if ' ' ≤ c ∧ c ≤ '~' then [c]
  else unicodeEscape c

def writeText (s : String) : List Char := '"' :: s.toList.flatMap writeChar ++ ['"']

def writeInt : Int → List Char
  | .ofNat n => Nat.toDigits 10 n
  | .negSucc n => '-' :: Nat.toDigits 10 (n + 1)

def numberLayout : Decimal.Layout :=
  { Decimal.plain with nan := "NaN".toList, infinite := "Infinity".toList }

-- `none` writes one line. An indent breaks lines, and a negative one breaks them like zero.
abbrev Indent := Option Int

-- Whether a machine word can hold the number of blanks.
def Indent.fits : Indent → Bool
  | none => true
  | some n => -9223372036854775808 ≤ n && n ≤ 9223372036854775807

-- How many blanks an indentation has.
def Indent.width : Indent → Nat
  | none => 0
  | some n => n.toNat

-- What stands between a bracket and what it encloses, at a depth of nesting.
def Indent.gap (indent : Indent) (depth : Nat) : List Char :=
  match indent with
  | none => []
  | some _ => '\n' :: List.replicate (indent.width * depth) ' '

-- What stands between two items.
def Indent.between (indent : Indent) (depth : Nat) : List Char :=
  match indent with
  | none => [',', ' ']
  | some _ => ',' :: indent.gap depth

mutual

def writeAt (indent : Indent) (depth : Nat) : Json → List Char
  | .null => "null".toList
  | .bool true => "true".toList
  | .bool false => "false".toList
  | .int n => writeInt n
  | .float x => numberLayout.write x
  | .str s => writeText s
  | .arr [] => ['[', ']']
  | .arr (v :: vs) =>
    '[' :: indent.gap (depth + 1) ++ writeAt indent (depth + 1) v ++
      writeItems indent (depth + 1) vs ++ indent.gap depth ++ [']']
  | .obj [] => ['{', '}']
  | .obj ((k, v) :: fs) =>
    '{' :: indent.gap (depth + 1) ++ writeText k ++ ':' :: ' ' :: writeAt indent (depth + 1) v ++
      writeFields indent (depth + 1) fs ++ indent.gap depth ++ ['}']

-- The items after the first, each behind its separator.
def writeItems (indent : Indent) (depth : Nat) : List Json → List Char
  | [] => []
  | v :: vs => indent.between depth ++ writeAt indent depth v ++ writeItems indent depth vs

def writeFields (indent : Indent) (depth : Nat) : List (String × Json) → List Char
  | [] => []
  | (k, v) :: fs =>
    indent.between depth ++ writeText k ++ ':' :: ' ' :: writeAt indent depth v ++
      writeFields indent depth fs

end

def write (indent : Indent) (v : Json) : String := String.ofList (writeAt indent 0 v)

end Listing.Json
