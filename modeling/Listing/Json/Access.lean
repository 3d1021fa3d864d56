import Listing.Json.Writer
import Listing.Misfit
import Listing.Text.Digits

namespace Listing.Json

-- A required field. Values of every kind but objects refuse a name as an index.
def item (key : String) : Json → Except Misfit Json
  | .obj fields =>
    match lookup key fields with
    | some v => .ok v
    | none => .error (.missingField key)
  | v => .error (.notSubscriptable v.kind)

-- An optional field. Only objects can be asked for one.
def get (v : Json) (key : String) (default : Json) : Except Misfit Json :=
  match v with
  | .obj fields => .ok ((lookup key fields).getD default)
  | _ => .error .noOperation

-- What a value holds when it is gone through: the items of a list, the characters of a string,
-- the keys of an object.
def elements : Json → Except Misfit (List Json)
  | .arr items => .ok items
  | .str s => .ok (s.toList.map fun c => .str (String.ofList [c]))
  | .obj fields => .ok (fields.map fun f => .str f.1)
  | v => .error (.notIterable v.kind)

-- Conversion to an integer: fractions are cut off toward zero, texts are read.
def toInt : Json → Except Misfit Int
  | .int n => .ok n
  | .bool b => .ok (if b then 1 else 0)
  | .float x =>
    match x.parts with
    | .nan => .error .nanToInteger
    | .infinite _ => .error .infinityToInteger
    | .finite negative m q => .ok (Binary64.truncate negative m q)
  | .str s =>
    match Text.readInteger s.toList with
    | some n => .ok n
    | none => .error (.notInteger s)
  | v => .error (.notConvertible v.kind)

-- An integer proper; truth values do not count.
def int? : Json → Option Int
  | .int n => some n
  | _ => none

def str? : Json → Option String
  | .str s => some s
  | _ => none

-- A line or column moved back by an offset, but not below zero.
def retreat (offset : Int) : Json → Except Misfit Json
  | .int n => .ok (.int (max (n - offset) 0))
  | .bool b => .ok (.int (max ((if b then 1 else 0) - offset) 0))
  | .float x =>
    match Binary64.ofInt? offset with
    | none => .error .integerTooLarge
    | some o =>
      let moved := x.sub o
      .ok (if moved.isBelowZero then .int 0 else .float moved)
  | _ => .error .wrongType

-- The text of a value. The memory holds strings of so many characters; the blanks of the
-- indentation are made first.
def render (room : Nat) (indent : Indent) (v : Json) : Except Misfit String :=
  if !indent.fits then .error .indentTooWide
  else if room < indent.width then .error .outOfMemory
  else
    let text := v.write indent
    if room < text.length then .error .outOfMemory else .ok text

end Listing.Json
