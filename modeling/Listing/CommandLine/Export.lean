import Listing.BlockGraph.Dot
import Listing.BlockGraph.Mermaid
import Listing.CommandLine.Basic
import Listing.Machine.Table

namespace Listing.CommandLine.Export

-- A setting that holds no value was given two dashes in the place of one.
structure Settings where
  sources : List String := []
  machine : Option String := some "generic"
  directory : Option String := some "outputs/graphs"
  isDrawn : Bool := false
deriving DecidableEq, Repr

open Options (Flag Grammar)

def grammar : Grammar Settings where
  flags :=
    [.help,
     .texts ["--sources", "-s"] fun ws s => { s with sources := ws },
     .text ["--target", "-t"] fun w s => { s with machine := w },
     .text ["--output-dir", "-o"] fun w s => { s with directory := w },
     .switch ["--render-svg"] fun s => { s with isDrawn := true }]

def manual : Manual where
  program := "export_graphs.py"
  usage := lines
    ["usage: export_graphs.py [-h] --sources FILE [FILE ...] [--target NAME]",
     "                        [--output-dir DIR] [--render-svg]"]
  details := lines
    ["Export captured instruction streams and label graphs",
     "",
     "options:",
     "  -h, --help            show this help message and exit",
     "  --sources FILE [FILE ...], -s FILE [FILE ...]",
     "                        Event log file(s) (JSON Lines)",
     "  --target NAME, -t NAME",
     "  --output-dir DIR, -o DIR",
     "  --render-svg          Attempt to auto-render DOT → SVG via Graphviz"]

-- The paths that a run reads, and the directory that it writes below.
def paths (s : Settings) : List String := s.directory.toList ++ s.sources

-- What has happened so far.
structure Console where
  disk : Disk
  output : String := ""
  complaint : String := ""
deriving Repr

-- A fault ends the work, and what was done before it stays done.
abbrev Work := EStateM Fault Console

def attempt : Except Fault α → Work α
  | .ok a => pure a
  | .error f => throw f

def attemptFit : Except Misfit α → Work α
  | .ok a => pure a
  | .error m => throw (.misfit m)

def say (line : String) : Work Unit :=
  modify fun c => { c with output := c.output ++ line ++ "\n" }

-- Warnings are told by their message alone.
def warn (notices : List Notice) : Work Unit :=
  modify fun c =>
    { c with complaint := c.complaint ++
        lines ((notices.filter (·.isAtLeast .warning)).map (·.message)) }

def makeDirectory (p : Path) : Work Unit := do
  let d ← attempt ((← get).disk.make p)
  modify ({ · with disk := d })

-- Stores a text. A file for one that cannot be encoded is left empty.
def keep (p : Path) (hasHalf : Bool) (text : String) : Work Unit := do
  let c ← get
  let d ← attempt (c.disk.store p (if isEncodable hasHalf text then text else ""))
  set { c with disk := d }
  if !isEncodable hasHalf text then throw .unencodable

-- Stores a text, or puts it out where the path leads to a device, and tells about it.
def put (p : Path) (hasHalf : Bool) (text : String) : Work Unit := do
  let d := (← get).disk
  keep p hasHalf text
  modify fun c =>
    { c with output := c.output ++ d.passedOn p .output text
             complaint := c.complaint ++ d.passedOn p .complaint text }
  say s!"  wrote   : {p.toString}"

-- The log is captured as a whole: its file is read, and its events are replayed. Besides, whether
-- the file names half of a surrogate pair.
def captureSource (m : Machine) (source : String) : Work (Recorder × Bool) := do
  match (← get).disk.contents (.ofString source) with
  | .error f => throw f
  | .ok bytes =>
    let (notices, result) :=
      Recorder.captureFile (some m) Instruction.defaultOffset source bytes
    warn notices
    return (← attempt result, holdHalf bytes)

-- Asks a drawing program for an image of the graph. A program that is not there or that fails is
-- passed over.
def drawImage (launch : Launcher) (p image : Path) : Work Unit := do
  let c ← get
  let (d, launched) :=
    launch c.disk { words := ["dot", "-Tsvg", p.toString, "-o", image.toString] }
  set { c with disk := d }
  match launched with
  | .refused .noSuchFile => pure ()
  | .refused r => throw (.system r "dot")
  | .finished child => if child.status = 0 then say s!"    rendered {image.toString}" else pure ()

def inside (directory : Path) (name : String) : Path := directory.append (.ofString name)

-- The stream and the graph of one log go into a directory that is called after the log. Their
-- indentation of two takes no memory to speak of.
def exportOne (launch : Launcher) (s : Settings) (directory : Path) (source : String) :
    Work Unit := do
  let stem := (Path.ofString source).stem
  let place := inside directory stem
  makeDirectory place
  let (r, hasHalf) ← captureSource (← attempt (Machine.named s.machine)) source
  let g ← attemptFit (BlockGraph.ofStream r.stream)
  let missing := g.undefinedNames.length
  say s!"  instrs  : {r.stream.size}  dropped operands: {r.dropped}"
  say s!"  blocks  : {g.nodes.length - missing}  undefined: {missing}"
  put (inside place "stream.json") hasHalf ((← attemptFit r.tree).write (some 2))
  let dot := inside place "labels.dot"
  put dot hasHalf (← attemptFit (BlockGraph.Dot.render (stem ++ " – Label references") g))
  if s.isDrawn then drawImage launch dot (inside place "labels.svg")
  put (inside place "labels.json") hasHalf ((← attemptFit g.toJson).write (some 2))
  put (inside place "labels.mmd") hasHalf
    (← attemptFit (BlockGraph.Mermaid.render (stem ++ " label references") g))

def exportAll (launch : Launcher) (s : Settings) (directory : Path) : List String → Work Unit
  | [] => pure ()
  | source :: rest => do
    say s!"\n=== {source} ==="
    exportOne launch s directory source
    exportAll launch s directory rest

def work (launch : Launcher) (s : Settings) : Work Unit := do
  match s.directory with
  | none => throw (.misfit .wrongType)
  | some name =>
    makeDirectory (.ofString name)
    exportAll launch s (.ofString name) s.sources

-- The command has no status of its own when all sources are done.
def run (launch : Launcher) (d : Disk) (s : Settings) : Outcome :=
  match (work launch s).run { disk := d } with
  | .ok () c => { status := none, output := c.output, complaint := c.complaint, disk := c.disk }
  | .error f c =>
    { status := none, fault := some f, output := c.output, complaint := c.complaint,
      disk := c.disk }

def main (launch : Launcher) (d : Disk) (words : List String) : Outcome :=
  match Options.read grammar {} words with
  | .error stop => manual.answer d stop
  | .ok s => run launch d s

end Listing.CommandLine.Export
