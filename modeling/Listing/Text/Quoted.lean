import Listing.Text.Digits
import Listing.Text.Printable

namespace Listing.Text

-- A quoted text takes single quotes, unless it holds some and no double quote.
def quoteMark (cs : List Char) : Char :=
  if '\'' ∈ cs ∧ '"' ∉ cs then '"' else '\''

-- Visible characters stand for themselves. The others are named by the shortest of the three
-- fixed widths that holds their code point.
def quotedChar (mark c : Char) : List Char :=
  if c = mark ∨ c = '\\' then ['\\', c]
  else if c = '\n' then ['\\', 'n']
  else if c = '\r' then ['\\', 'r']
  else if c = '\t' then ['\\', 't']
  else if isPrintable c then [c]
  else if c.toNat < 0x100 then '\\' :: 'x' :: hex 2 c.toNat
  else if c.toNat < 0x10000 then '\\' :: 'u' :: hex 4 c.toNat
  else '\\' :: 'U' :: hex 8 c.toNat

def quotedChars (cs : List Char) : List Char :=
  let mark := quoteMark cs
  mark :: cs.flatMap (quotedChar mark) ++ [mark]

-- A text as it is shown in a message: in quotes, with nothing invisible left in it.
def quoted (s : String) : String := String.ofList (quotedChars s.toList)

-- Inside double quotes a backslash and a double quote stand behind a backslash.
def escapeChar (c : Char) : List Char :=
  if c = '\\' ∨ c = '"' then ['\\', c] else [c]

def escape (cs : List Char) : List Char := cs.flatMap escapeChar

@[simp] theorem escape_nil : escape [] = [] := rfl

@[simp] theorem escape_cons (c : Char) (cs : List Char) :
    escape (c :: cs) = escapeChar c ++ escape cs := rfl

-- A backslash gives way to the character after it. A line feed is not taken that way, so the
-- backslash before it stays.
def unescape : List Char → List Char
  | [] => []
  | ['\\'] => ['\\']
  | '\\' :: c :: rest => if c = '\n' then '\\' :: '\n' :: unescape rest else c :: unescape rest
  | c :: rest => c :: unescape rest

end Listing.Text
