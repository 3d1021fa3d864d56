import Listing.Instruction

namespace Listing

-- The captured instructions in source order.
structure Stream where
  instructions : List Instruction := []
deriving DecidableEq, Repr

namespace Stream

def size (s : Stream) : Nat := s.instructions.length

def push (s : Stream) (i : Instruction) : Stream := ⟨s.instructions ++ [i]⟩

@[simp] theorem instructions_push (s : Stream) (i : Instruction) :
    (s.push i).instructions = s.instructions ++ [i] := rfl

-- Negative positions count from the end.
def index? (s : Stream) (position : Int) : Option Nat :=
  let i := if position < 0 then position + s.size else position
  if 0 ≤ i ∧ i < s.size then some i.toNat else none

def get? (s : Stream) (position : Int) : Option Instruction := do
  s.instructions[← s.index? position]?

def relocate (s : Stream) (position : Int) (line column : Json) : Option Stream := do
  let i ← s.index? position
  return ⟨s.instructions.modify i fun x => { x with line, column }⟩

def opcodes (s : Stream) : List Json := s.instructions.map (·.opcode)

def toJson (offset : Int) (s : Stream) : Except Misfit Json := do
  return .obj [("instructions", .arr (← s.instructions.mapM (·.toJson offset)))]

def render (room : Nat) (indent : Json.Indent) (offset : Int) (s : Stream) :
    Except Misfit String := do
  (← s.toJson offset).render room indent

def ofJson (offset : Int) (data : Json) : Except Misfit Stream := do
  let items ← (← data.get "instructions" (.arr [])).elements
  return ⟨← items.mapM (Instruction.ofJson offset)⟩

-- Without an offset only a stream without instructions can be read. What is wrong with the first
-- instruction before its line is needed counts first.
def ofJsonUnplaced (data : Json) : Except Misfit Stream := do
  match ← (← data.get "instructions" (.arr [])).elements with
  | [] => return {}
  | first :: _ =>
    let _ ← Instruction.readHead first
    .error .noOffset

-- The stream as a listing in columns.
def listing (offset : Int) (s : Stream) : Except Misfit String := do
  return "\n".intercalate (← s.instructions.mapM (·.columns offset)).flatten

def same (a b : Stream) : Bool :=
  a.size = b.size && (a.instructions.zip b.instructions).all fun p => p.1.same p.2

def summary (s : Stream) : String := s!"InstructionStream(instructions={s.size})"

end Stream
end Listing
