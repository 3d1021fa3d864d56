import Listing.Event.Log
import Listing.Machine
import Listing.Stream
import Listing.Symbol

namespace Listing

-- What a recorder says while it works, in the order in which it says it.
inductive Report where
  | trace (line : String)
  | notice (n : Notice)
deriving DecidableEq, Repr

-- Where an instruction is said to stand. A value that is no location yet is taken apart as a
-- pair when the instruction is recorded.
inductive Place where
  | unset
  | at (line column : Json)
  | value (v : Json)
deriving DecidableEq, Repr

namespace Place

def ofLocation (l : Location) : Place := .at (.int l.line) (.int l.column)

-- A location given by its fields has these two and no other.
def ofFields (fields : List (String × Json)) : Except Misfit Place :=
  if fields.all fun f => f.1 = "line" ∨ f.1 = "column" then
    .ok (.at ((Json.lookup "line" fields).getD (.int 0))
      ((Json.lookup "column" fields).getD (.int 0)))
  else .error .wrongType

def ofJson : Json → Except Misfit Place
  | .null => .ok .unset
  | .obj fields => ofFields fields
  | v => .ok (.value v)

def resolve : Place → Except Misfit (Json × Json)
  | .unset => .ok (.int 0, .int 0)
  | .at line column => .ok (line, column)
  | .value v => do
    match ← v.elements with
    | [line, column] => return (line, column)
    | _ :: _ :: _ => .error .tooManyValues
    | few => .error (.tooFewValues few.length)

end Place

-- Takes decoder events in source order and builds the stream of instructions. Labels wait until
-- the next instruction takes them.
structure Recorder where
  machine : Machine := .generic
  offset : Int := Instruction.defaultOffset
  printLabels : Bool := false
  traced : Bool := false
  stream : Stream := {}
  pending : List Json := []
  dropped : Nat := 0
  reports : List Report := []
deriving DecidableEq, Repr

namespace Recorder

def note (r : Recorder) (n : Notice) : Recorder :=
  { r with reports := r.reports ++ [.notice n] }

def trace (r : Recorder) (line : String) : Recorder :=
  if r.traced then { r with reports := r.reports ++ [.trace line] } else r

def labelLine (label : Json) : String := s!";; label: {label.text}"

-- Only signed 64-bit immediates, registers and symbol references are recorded, and only if their
-- value has a type that fits.
def classify (m : Machine) (raw : RawOperand) : Option Operand :=
  if raw.isImmediate then
    match raw.value with
    | .int n =>
      if Operand.minInteger ≤ n ∧ n ≤ Operand.maxInteger then some (.integer n) else none
    | _ => none
  else if raw.isRegister then
    match raw.value with
    | .str name => some (.register (.str name))
    | .int id => some (.register (m.numberedName id))
    | _ => none
  else if raw.isSymbolReference then
    match raw.value with
    | .str name => some (.label (Symbol.print name))
    | _ => none
  else none

-- What is told about an operand while it is classified.
def operandNotices (m : Machine) (opcode : Json) (raw : RawOperand) : List Notice :=
  (if raw.isRegister then m.registerNotices raw.value else []) ++
    match classify m raw with
    | some _ => []
    | none => [.droppedOperand raw.kind opcode raw.value]

-- A label waits under the name it was reported with, or printed if the recorder prints labels.
def label (r : Recorder) (name : Json) : Recorder × Except Misfit Unit :=
  match if r.printLabels then (Symbol.printed name).map .str else .ok name with
  | .error m => (r, .error m)
  | .ok name => ({ r with pending := r.pending ++ [name] }.trace (labelLine name), .ok ())

-- An instruction takes all waiting labels. A place that cannot be resolved stops it before it is
-- recorded, but after its operands were counted; an instruction that has no text is recorded all
-- the same, and only then reported as a failure.
def instruction (r : Recorder) (opcode : Json) (operands : List RawOperand) (place : Place) :
    Recorder × Except Misfit Unit :=
  let captured := operands.filterMap (classify r.machine)
  let notices := operands.flatMap (operandNotices r.machine opcode)
  let r := { r with
    dropped := r.dropped + (operands.length - captured.length)
    reports := r.reports ++ notices.map .notice }
  match place.resolve with
  | .error m => (r, .error m)
  | .ok (line, column) =>
    let i : Instruction := ⟨opcode, r.pending, captured, line, column⟩
    let r := { r with stream := r.stream.push i, pending := [] }
    match i.text with
    | .error m => (r, .error m)
    | .ok text => (r.trace text, .ok ())

-- Events about symbols and zero-filled storage leave no mark on the stream.
def deliver (r : Recorder) : Event → Recorder × Except Misfit Unit
  | .label name _ => r.label name
  | .instruction opcode operands location =>
    r.instruction opcode operands (.ofLocation location)
  | .symbolAttribute .. | .commonSymbol .. | .zeroFill .. => (r, .ok ())

def replayFrom (r : Recorder) (delivered : Nat) (fault : Option Fault) :
    List Event.Entry → Recorder × Except Fault Unit
  | [] =>
    match fault with
    | some f => (r, .error f)
    | none => (r.note (.replayed delivered r.stream.size r.dropped), .ok ())
  | .notice n :: rest => (r.note n).replayFrom delivered fault rest
  | .event e :: rest =>
    match r.deliver e with
    | (r, .error m) => (r, .error (.misfit m))
    | (r, .ok ()) => r.replayFrom (delivered + 1) fault rest

-- Each entry of a reading is delivered before the next one is looked at, so what precedes a
-- fault has its effect.
def replay (r : Recorder) (reading : Event.Reading) : Recorder × Except Fault Unit :=
  r.replayFrom 0 reading.fault reading.entries

-- The tree of everything recorded so far.
def tree (r : Recorder) : Except Misfit Json := r.stream.toJson r.offset

def render (r : Recorder) (room : Nat) (indent : Json.Indent) : Except Misfit String :=
  r.stream.render room indent r.offset

def dumpLines : List Instruction → Except Misfit (List String)
  | [] => .ok []
  | i :: is => do
    let text ← i.text
    return i.labels.map labelLine ++ text :: (← dumpLines is)

-- The recording in the form in which it is traced.
def dump (r : Recorder) : Except Misfit String := do
  return "\n".intercalate ((← dumpLines r.stream.instructions) ++ r.pending.map labelLine)

def traceLines (r : Recorder) : List String :=
  r.reports.filterMap fun
    | .trace line => some line
    | .notice _ => none

def notices (r : Recorder) : List Notice :=
  r.reports.filterMap fun
    | .trace _ => none
    | .notice n => some n

def summary (r : Recorder) : String :=
  s!"CaptureListener(target={Text.quoted r.machine.name}, instructions={r.stream.size}, " ++
    s!"pending_labels={r.pending.length})"

-- A fresh recorder that has replayed a reading.
def capture (machine : Option Machine) (offset : Int) (reading : Event.Reading) :
    Recorder × Except Fault Unit :=
  { machine := .orGeneric machine, offset : Recorder }.replay reading

-- Capture from a file's bytes. The log is read to its end before the first event is replayed.
def captureFile (machine : Option Machine) (offset : Int) (path : String)
    (bytes : Text.Utf8.Bytes) : List Notice × Except Fault Recorder :=
  match Event.readBytes path bytes with
  | (notices, .error f) => (notices, .error f)
  | (notices, .ok events) =>
    match capture machine offset (.ofEvents events) with
    | (r, .error f) => (notices ++ r.notices, .error f)
    | (r, .ok ()) =>
      let r := r.note (.captured r.stream.size path)
      (notices ++ r.notices, .ok r)

end Recorder
end Listing
