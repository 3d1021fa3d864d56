import Listing.Json.Access

namespace Listing

-- Where the decoder stood; zeros if it never said.
structure Location where
  line : Int := 0
  column : Int := 0
deriving DecidableEq, Repr

-- An operand as the decoder reports it, before anything is made of it. A null expression kind
-- is none.
structure RawOperand where
  kind : Json
  value : Json := .null
  expressionKind : Json := .null
deriving DecidableEq, Repr

namespace RawOperand

def kinds : List String := ["imm", "reg", "expr", "sfpimm", "dfpimm", "inst"]

def expressionKinds : List String := ["symbol_ref", "binary", "constant", "unary", "target"]

def isImmediate (r : RawOperand) : Bool := r.kind = .str "imm"

def isRegister (r : RawOperand) : Bool := r.kind = .str "reg"

def isSymbolReference (r : RawOperand) : Bool :=
  r.kind = .str "expr" && r.expressionKind = .str "symbol_ref"

def toJson (r : RawOperand) : Json :=
  .obj ([("kind", r.kind), ("value", r.value)] ++
    if r.expressionKind = .null then [] else [("expr_kind", r.expressionKind)])

-- Whether a value is one of some names; only what can be in a set can be asked about.
def isAmong (names : List String) (v : Json) : Except Misfit Bool :=
  match v with
  | .str s => .ok (names.contains s)
  | v => if v.isHashable then .ok false else .error (.notHashable v.kind)

def ofJson (data : Json) : Except Misfit RawOperand := do
  let kind ← data.item "kind"
  let value ← data.get "value" .null
  let expressionKind ← data.get "expr_kind" .null
  unless ← isAmong kinds kind do .error (.unknownOperandKind kind)
  unless expressionKind = .null do
    unless ← isAmong expressionKinds expressionKind do
      .error (.unknownExpressionKind expressionKind)
  if kind = .str "imm" ∧ value.int? = none then .error (.immediateNotInteger value)
  return ⟨kind, value, expressionKind⟩

end RawOperand

-- What a decoder reports. Names and opcodes are not checked.
inductive Event where
  | label (name : Json) (location : Location)
  | instruction (opcode : Json) (operands : List RawOperand) (location : Location)
  | symbolAttribute (symbol property : Json)
  | commonSymbol (symbol : Json) (size alignment : Int)
  | zeroFill (area symbol : Json) (size alignment : Int) (location : Location)
deriving DecidableEq, Repr

namespace Event

def locationFields (l : Location) : List (String × Json) :=
  [("line", .int l.line), ("column", .int l.column)]

def toJson : Event → Json
  | label name location =>
    .obj ([("event", .str "label"), ("name", name)] ++ locationFields location)
  | instruction opcode operands location =>
    .obj ([("event", .str "instruction"), ("opcode", opcode),
      ("operands", .arr (operands.map RawOperand.toJson))] ++ locationFields location)
  | symbolAttribute symbol property =>
    .obj [("event", .str "symbol_attribute"), ("symbol", symbol), ("attribute", property)]
  | commonSymbol symbol size alignment =>
    .obj [("event", .str "common_symbol"), ("symbol", symbol), ("size", .int size),
      ("alignment", .int alignment)]
  | zeroFill area symbol size alignment location =>
    .obj ([("event", .str "zerofill"), ("section", area), ("symbol", symbol),
      ("size", .int size), ("alignment", .int alignment)] ++ locationFields location)

-- An optional field that is converted to an integer.
def intField (key : String) (default : Int) (data : Json) : Except Misfit Int := do
  (← data.get key (.int default)).toInt

def locationOf (data : Json) : Except Misfit Location := do
  return ⟨← intField "line" 0 data, ← intField "column" 0 data⟩

-- A record of an unknown type is no event, and no error.
def ofJson (data : Json) : Except Misfit (Option Event) := do
  match ← data.get "event" .null with
  | .str "label" => return some (label (← data.item "name") (← locationOf data))
  | .str "instruction" =>
    let opcode ← data.item "opcode"
    let operands ← (← (← data.get "operands" (.arr [])).elements).mapM RawOperand.ofJson
    return some (instruction opcode operands (← locationOf data))
  | .str "symbol_attribute" =>
    return some (symbolAttribute (← data.item "symbol") (← data.get "attribute" (.str "")))
  | .str "common_symbol" =>
    return some (commonSymbol (← data.item "symbol") (← intField "size" 0 data)
      (← intField "alignment" 1 data))
  | .str "zerofill" =>
    let area ← data.item "section"
    let symbol ← data.get "symbol" .null
    let size ← intField "size" 0 data
    let alignment ← intField "alignment" 1 data
    return some (zeroFill area symbol size alignment (← locationOf data))
  | _ => return none

end Event
end Listing
