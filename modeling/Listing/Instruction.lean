import Listing.Operand

namespace Listing

-- A captured instruction with the labels that stood before it. What the decoder reported is
-- kept as it came, so opcode, labels and place may be any value.
structure Instruction where
  opcode : Json
  labels : List Json := []
  operands : List Operand := []
  line : Json := .int 0
  column : Json := .int 0
deriving DecidableEq, Repr

namespace Instruction

-- Decoders count lines one ahead of the source by the time they report an instruction.
def defaultOffset : Int := 1

def toJson (offset : Int) (i : Instruction) : Except Misfit Json := do
  let line ← i.line.retreat offset
  return .obj [("opcode", i.opcode), ("labels", .arr i.labels),
    ("operands", .arr (i.operands.map Operand.toJson)), ("line", line), ("column", i.column)]

-- An instruction without its place, and the line that its data give.
def readHead (data : Json) : Except Misfit (Instruction × Int) := do
  let opcode ← data.item "opcode"
  let labels ← (← data.get "labels" (.arr [])).elements
  let operands ← (← (← data.get "operands" (.arr [])).elements).mapM Operand.ofJson
  return (⟨opcode, labels, operands, .int 0, .int 0⟩, ← (← data.get "line" (.int 0)).toInt)

def ofJson (offset : Int) (data : Json) : Except Misfit Instruction := do
  let (i, line) ← readHead data
  let column ← (← data.get "column" (.int 0)).toInt
  return { i with line := .int (line + offset), column := .int column }

-- Opcode and operands on one line, with spaces between them.
def text (i : Instruction) : Except Misfit String := do
  let operands ← i.operands.mapM Operand.text
  match i.opcode with
  | .str opcode => return " ".intercalate (opcode :: operands)
  | _ => .error .wrongType

def summary (i : Instruction) : String :=
  s!"Instruction(opcode={i.opcode.display}, labels={(Json.arr i.labels).display}, " ++
    s!"operands={i.operands.length}, line={i.line.text}, column={i.column.text})"

def padLeft (width : Nat) (s : String) : String :=
  String.ofList (List.replicate (width - s.length) ' ') ++ s

def padRight (width : Nat) (s : String) : String :=
  s ++ String.ofList (List.replicate (width - s.length) ' ')

-- What can stand in a column: strings and numbers, truth values as the numbers they are.
def columnText : Json → Except Misfit String
  | .str s => .ok s
  | .int n => .ok (String.ofList (Json.writeInt n))
  | .bool b => .ok (if b then "1" else "0")
  | .float x => .ok (String.ofList (Decimal.plain.write x))
  | _ => .error .wrongType

def trimEnd (s : String) : String := String.ofList (Text.trimEnd s.toList)

-- The lines of a listing: one per label, then the instruction, each behind its line number.
def columns (offset : Int) (i : Instruction) : Except Misfit (List String) := do
  let line ← i.line.retreat offset
  let place := padLeft 5 line.text
  let operands ← i.operands.mapM Operand.text
  let opcode ← columnText i.opcode
  let list := ", ".intercalate operands
  return i.labels.map (fun l => s!"{place}  {l.text}:") ++
    [trimEnd s!"{place}      {padRight 10 opcode} {list}"]

-- The meaning-based equality of `Json.same`, extended to instructions.
def same (a b : Instruction) : Bool :=
  a.opcode.same b.opcode && Json.sameItems a.labels b.labels &&
    a.operands.length = b.operands.length &&
    (a.operands.zip b.operands).all (fun p => p.1.same p.2) &&
    a.line.same b.line && a.column.same b.column

end Instruction
end Listing
