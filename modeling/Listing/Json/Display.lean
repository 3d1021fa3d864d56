import Listing.Json.Writer
import Listing.Text.Quoted

namespace Listing.Json

mutual

-- A value as messages show it.
def showChars : Json → List Char
  | .null => "None".toList
  | .bool true => "True".toList
  | .bool false => "False".toList
  | .int n => writeInt n
  | .float x => Decimal.plain.write x
  | .str s => Text.quotedChars s.toList
  | .arr [] => ['[', ']']
  | .arr (v :: vs) => '[' :: showChars v ++ showItems vs ++ [']']
  | .obj [] => ['{', '}']
  | .obj ((k, v) :: fs) =>
    '{' :: Text.quotedChars k.toList ++ ':' :: ' ' :: showChars v ++ showFields fs ++ ['}']

def showItems : List Json → List Char
  | [] => []
  | v :: vs => ',' :: ' ' :: showChars v ++ showItems vs

def showFields : List (String × Json) → List Char
  | [] => []
  | (k, v) :: fs =>
    ',' :: ' ' :: Text.quotedChars k.toList ++ ':' :: ' ' :: showChars v ++ showFields fs

end

def display (v : Json) : String := String.ofList (showChars v)

-- The text of a value: a string is its own text, any other value is shown.
def text : Json → String
  | .str s => s
  | v => v.display

end Listing.Json
