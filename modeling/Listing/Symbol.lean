import Listing.Json.Access
import Listing.Text.Quoted

namespace Listing.Symbol

-- The characters that may begin a bare name, and those that may follow.
def isNameStart (c : Char) : Bool :=
  ('A' ≤ c && c ≤ 'Z') || ('a' ≤ c && c ≤ 'z') || c == '_' || c == '.' || c == '$'

def isNameRest (c : Char) : Bool :=
  isNameStart c || Text.isAsciiDigit c || c == '@'

-- One line feed at the very end is let pass.
def isBareRest : List Char → Bool
  | [] => true
  | ['\n'] => true
  | c :: cs => isNameRest c && isBareRest cs

def isBare : List Char → Bool
  | [] => false
  | c :: cs => isNameStart c && isBareRest cs

def printChars (cs : List Char) : List Char :=
  if isBare cs then cs else '"' :: Text.escape cs ++ ['"']

-- A symbol as an assembler prints it: bare if it can be, else in double quotes.
def print (name : String) : String := String.ofList (printChars name.toList)

-- Text in double quotes gives up its quotes and escapes. Any other text is a bare name.
def unquoteChars (cs : List Char) : List Char :=
  match cs with
  | '"' :: c :: rest =>
    if (c :: rest).getLast? = some '"' then Text.unescape (c :: rest).dropLast else cs
  | _ => cs

def unquote (text : String) : String := String.ofList (unquoteChars text.toList)

-- Only a string can be printed as a symbol.
def printed : Json → Except Misfit String
  | .str s => .ok (print s)
  | _ => .error .wrongType

-- Only a string can be a node's name. Lists and objects are stopped at another step than numbers.
def unquoted : Json → Except Misfit String
  | .str s => .ok (unquote s)
  | .arr (_ :: _ :: _) | .obj (_ :: _ :: _) => .error .noOperation
  | _ => .error .wrongType

end Listing.Symbol
