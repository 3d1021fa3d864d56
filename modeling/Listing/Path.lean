import Listing.Text.Lines

namespace Listing

-- A path in normal form: without empty and single-dot components. Two leading slashes make
-- another root than one.
structure Path where
  root : String := ""
  parts : List String := []
deriving DecidableEq, Repr

namespace Path

def rootOf : List Char → String
  | '/' :: '/' :: '/' :: _ => "/"
  | '/' :: '/' :: _ => "//"
  | '/' :: _ => "/"
  | _ => ""

def ofString (s : String) : Path where
  root := rootOf s.toList
  parts := ((Text.splitAtMark '/' s.toList).map String.ofList).filter fun p => p ≠ "" && p ≠ "."

def toString (p : Path) : String :=
  if p.root = "" ∧ p.parts = [] then "." else p.root ++ "/".intercalate p.parts

def isAbsolute (p : Path) : Bool := p.root ≠ ""

def append (p q : Path) : Path := if q.isAbsolute then q else { p with parts := p.parts ++ q.parts }

def name (p : Path) : String := p.parts.getLast?.getD ""

-- What stands before the last dot of a name. A dot at either end does not count.
def stemOf (name : List Char) : List Char :=
  match name.reverse.span (· ≠ '.') with
  | (_ :: _, '.' :: c :: rest) => (c :: rest).reverse
  | _ => name

def stem (p : Path) : String := String.ofList (stemOf p.name.toList)

end Path
end Listing
