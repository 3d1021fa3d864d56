import Listing.Json.Basic

namespace Listing.Json

inductive Kind where
  | null
  | bool
  | int
  | float
  | str
  | arr
  | obj
deriving DecidableEq, Repr

def kind : Json → Kind
  | .null => .null
  | .bool _ => .bool
  | .int _ => .int
  | .float _ => .float
  | .str _ => .str
  | .arr _ => .arr
  | .obj _ => .obj

-- The names that messages use.
def Kind.name : Kind → String
  | .null => "NoneType"
  | .bool => "bool"
  | .int => "int"
  | .float => "float"
  | .str => "str"
  | .arr => "list"
  | .obj => "dict"

-- Empty values, zeros and false count as nothing given.
def isEmptyValue : Json → Bool
  | .null => true
  | .bool b => !b
  | .int n => n = 0
  | .float x => x.bits = 0 || x.bits = 0x8000000000000000
  | .str s => s = ""
  | .arr items => items.isEmpty
  | .obj fields => fields.isEmpty

-- Lists and objects can be no members of a set.
def isHashable : Json → Bool
  | .arr _ | .obj _ => false
  | _ => true

end Listing.Json
