import Listing.BlockGraph.Dot
import Listing.BlockGraph.Mermaid
import Listing.CommandLine.CaptureSettings
import Listing.External
import Listing.Machine.Table

namespace Listing.CommandLine.Capture

-- Where the stream comes from.
inductive Source where
  | log (machine : Machine)
  | program (e : External)
deriving DecidableEq, Repr

-- Why a command ends before it prints anything: texts to tell, or a fault that passes through.
inductive Failure where
  | told (texts : List String)
  | fault (f : Fault)
deriving DecidableEq, Repr

-- The paths that a run may read or write.
def paths (s : Settings) : List String :=
  [s.source, s.registers] ++ s.output.toList ++ s.parser.toList

-- Settings that exclude each other or that no output has.
def conflicts (indent : Int) (s : Settings) : List String :=
  (if s.parser.isSome ∧ s.isTraced then ["--trace cannot be combined with --parser"] else []) ++
  (if s.parser.isSome ∧ s.printLabels then
    ["--print-labels cannot be combined with --parser"] else []) ++
  if indent < 0 then ["--indent must not be negative"] else []

def machineOf (d : Disk) (s : Settings) : Except Fault Machine :=
  if s.registers ≠ "" then Machine.load d s.registers "" else Machine.named s.machine

-- All conflicts are told at once, with what is wrong with the registers. A program names its own
-- registers, so that with one the table is not looked at. No value is no indentation.
def prepare (environment : Environment) (d : Disk) (s : Settings) : Except Failure Source :=
  match s.indent with
  | none => .error (.fault (.misfit .wrongType))
  | some indent =>
    let flaws := conflicts indent s
    match s.parser with
    | some executable =>
      if flaws = [] then .ok (.program (.configured executable environment))
      else .error (.told flaws)
    | none =>
      match machineOf d s with
      | .ok m => if flaws = [] then .ok (.log m) else .error (.told flaws)
      | .error f =>
        if f.isSystem ∨ f.isValueFlaw then .error (.told (flaws ++ [f.message]))
        else .error (.fault f)

-- What is told about a log once all of it has been replayed. Labels that no instruction took have
-- to be texts to be told.
def closing (r : Recorder) : Recorder × Except Misfit Unit :=
  let r := if 0 < r.dropped then r.note (.operandsDropped r.dropped) else r
  if r.pending = [] then (r, .ok ())
  else
    match r.pending.mapM Json.str? with
    | some names => (r.note (.labelsUnattached names), .ok ())
    | none => (r, .error .wrongType)

-- Faults of the log itself and of the system are told with the name of the source.
def ofLogFault (s : Settings) : Fault → Failure
  | .line number flaw => .told [s!"{s.source}: {(Fault.line number flaw).message}"]
  | .system refusal path => .told [s!"{s.source}: {(Fault.system refusal path).message}"]
  | f => .fault f

-- The log is read to its end before its events are replayed.
def captureLog (d : Disk) (s : Settings) (m : Machine) : List Report × Except Failure Stream :=
  match d.contents (.ofString s.source) with
  | .error f => ([.notice (.readingLog s.source)], .error (ofLogFault s f))
  | .ok bytes =>
    match Event.readBytes s.source bytes with
    | (notices, .error f) => (notices.map .notice, .error (ofLogFault s f))
    | (notices, .ok events) =>
      let r : Recorder :=
        { machine := .orGeneric (some m), printLabels := s.printLabels, traced := s.isTraced
          reports := notices.map .notice }
      match r.replay (.ofEvents events) with
      | (r, .error f) => (r.reports, .error (ofLogFault s f))
      | (r, .ok ()) =>
        match closing r with
        | (r, .error m) => (r.reports, .error (.fault (.misfit m)))
        | (r, .ok ()) => (r.reports, .ok r.stream)

-- Failures of the program and of the system are told.
def ofProgramFault : Fault → Failure
  | .parser flaw complaint => .told [(Fault.parser flaw complaint).message]
  | .system refusal path => .told [(Fault.system refusal path).message]
  | f => .fault f

def fileHoldsHalf (d : Disk) (name : String) : Bool :=
  match d.contents (.ofString name) with
  | .ok bytes => holdHalf bytes
  | .error _ => false

-- A stream, and whether what it was read from names half of a surrogate pair.
structure Built where
  stream : Stream
  hasHalf : Bool
deriving DecidableEq, Repr

def build (launch : Launcher) (d : Disk) (s : Settings) :
    Source → Disk × List Report × Except Failure Built
  | .log m =>
    match captureLog d s m with
    | (reports, .error failure) => (d, reports, .error failure)
    | (reports, .ok stream) =>
      (d, reports, .ok ⟨stream, fileHoldsHalf d s.source ||
        s.registers ≠ "" && fileHoldsHalf d s.registers⟩)
  | .program e =>
    match e.runFile launch d s.source with
    | (d, notices, .error f) => (d, notices.map .notice, .error (ofProgramFault f))
    | (d, notices, .ok text) =>
      match External.load s.lineOffset text with
      | .error f => (d, notices.map .notice, .error (ofProgramFault f))
      | .ok stream => (d, notices.map .notice, .ok ⟨stream, Json.hasHalf text.toList⟩)

def drawGraph (room : Nat) (s : Settings) (g : BlockGraph) : GraphForm → Except Misfit String
  | .dot => BlockGraph.Dot.render BlockGraph.Dot.defaultTitle g
  | .tree => g.render room s.indent
  | .mermaid => BlockGraph.Mermaid.render BlockGraph.Mermaid.defaultTitle g

-- Lines can only be told against an offset, which a stream without instructions does not need.
def offsetFor (s : Settings) (stream : Stream) : Except Misfit Int :=
  match s.lineOffset with
  | some offset => .ok offset
  | none => if stream.size = 0 then .ok Instruction.defaultOffset else .error .noOffset

-- The text to print, and what is told about it: the labels that a graph lacks.
def draw (room : Nat) (s : Settings) (stream : Stream) : Except Misfit (String × List Notice) :=
  match s.graph with
  | some form => do
    let g ← BlockGraph.ofStream stream
    return (← drawGraph room s g form, g.undefinedNames.map .labelUndefined)
  | none => do
    let offset ← offsetFor s stream
    match s.form with
    | .tree => return (← stream.render room s.indent offset, [])
    | .listing => return (← stream.listing offset, [])

def Settings.threshold (s : Settings) : Level := if s.isVerbose then .debug else .warning

def errorLines (texts : List String) : String := lines (texts.map ("error: " ++ ·))

-- A file is opened, then written whole, and then told about.
def emit (s : Settings) (d : Disk) (complaint : String) (hasHalf : Bool) (text : String) :
    Outcome :=
  match s.output with
  | some "-" =>
    if isEncodable hasHalf text then
      { status := some 0, output := text ++ "\n", complaint, disk := d }
    else { status := none, fault := some .unencodable, complaint, disk := d }
  | some name =>
    let path := Path.ofString name
    match d.store path (if isEncodable hasHalf text then text else "") with
    | .error f => { status := none, fault := some f, complaint, disk := d }
    | .ok after =>
      if isEncodable hasHalf text then
        { status := some 0, output := d.passedOn path .output text, disk := after
          complaint := complaint ++ d.passedOn path .complaint text ++
            s!"Output written to {name}\n" }
      else { status := none, fault := some .unencodable, complaint, disk := after }
  | none => { status := none, fault := some (.misfit .wrongType), complaint, disk := d }

-- Checks the settings, builds the stream, renders it, and only then prints.
def run (room : Nat) (environment : Environment) (launch : Launcher) (d : Disk) (s : Settings) :
    Outcome :=
  match prepare environment d s with
  | .error (.told texts) => { status := some 2, complaint := errorLines texts, disk := d }
  | .error (.fault f) => { status := none, fault := some f, disk := d }
  | .ok source =>
    let (d, reports, built) := build launch d s source
    let complaint := told s.threshold reports
    match built with
    | .error (.told texts) =>
      { status := some 1, complaint := complaint ++ errorLines texts, disk := d }
    | .error (.fault f) => { status := none, fault := some f, complaint, disk := d }
    | .ok ⟨stream, hasHalf⟩ =>
      match draw room s stream with
      | .error m => { status := none, fault := some (.misfit m), complaint, disk := d }
      | .ok (text, notices) =>
        emit s d (complaint ++ told s.threshold (notices.map .notice)) hasHalf text

-- The command, with a memory of so many characters.
def main (room : Nat) (environment : Environment) (launch : Launcher) (d : Disk)
    (words : List String) : Outcome :=
  match Options.read grammar {} words with
  | .error stop => manual.answer d stop
  | .ok s => run room environment launch d s

end Listing.CommandLine.Capture
