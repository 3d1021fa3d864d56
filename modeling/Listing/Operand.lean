import Listing.Json.Access
import Listing.Json.Compare

namespace Listing

-- A captured operand. Register names come from machine tables and may be any value.
inductive Operand where
  | register (name : Json)
  | integer (value : Int)
  | label (name : String)
deriving DecidableEq, Repr

namespace Operand

def minInteger : Int := -9223372036854775808

def maxInteger : Int := 9223372036854775807

def toJson : Operand → Json
  | register name => .obj [("type", .str "register"), ("value", name)]
  | integer value => .obj [("type", .str "integer"), ("value", .int value)]
  | label name => .obj [("type", .str "label"), ("value", .str name)]

-- Reading is lenient about the value: names are the value's text, integers its conversion.
def ofJson (data : Json) : Except Misfit Operand := do
  let type ← data.get "type" .null
  let value ← data.get "value" .null
  if type = .str "register" then return register (.str value.text)
  else if type = .str "integer" then return integer (← value.toInt)
  else if type = .str "label" then return label value.text
  else .error (.unknownOperandType type)

-- Text can be made of an operand only if its name is a string.
def text : Operand → Except Misfit String
  | register (.str name) => .ok name
  | register _ => .error .wrongType
  | integer value => .ok (String.ofList (Json.writeInt value))
  | label name => .ok name

-- The meaning-based equality of `Json.same`, extended to operands of one kind.
def same : Operand → Operand → Bool
  | register a, register b => a.same b
  | integer a, integer b => a = b
  | label a, label b => a = b
  | _, _ => false

-- What is handed over as an operand may be no operand at all.
inductive Offered where
  | operand (o : Operand)
  | value (v : Json)

def Offered.toJson : Offered → Except Misfit Json
  | .operand o => .ok o.toJson
  | .value v => .error (.notAnOperand v)

def Offered.text : Offered → Except Misfit String
  | .operand o => o.text
  | .value v => .error (.notAnOperand v)

end Operand
end Listing
