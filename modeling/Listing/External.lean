import Listing.Child
import Listing.Notice
import Listing.Stream

namespace Listing

-- A program that reads assembly text, captures its events and prints the tree of the stream.
structure External where
  executable : String
  arguments : List String := []
  -- how many seconds it may run
  limit : Option Json := none
deriving DecidableEq, Repr

namespace External

-- The environment variable that names the program.
def variableName : String := "ASM_CAPTURE_PARSER"

-- Without a name of its own the program is the one that the environment names.
def configured (executable : String) (environment : Environment) : External where
  executable := if executable = "" then (environment.get? variableName).getD "" else executable

def words (e : External) : List String := e.executable :: e.arguments

-- A command that is not found is a failure of the program; other refusals are the system's.
def refusal (e : External) : Refusal → Fault
  | .noSuchFile => .parser (.notFound e.executable) ""
  | r => .system r e.executable

-- The text that a child printed, if it ended well.
def printed (c : Child) : Except Fault String :=
  let complaint := String.ofList (Text.Utf8.decodeLenient c.complaint)
  if c.status ≠ 0 then .error (.parser (.failed c.status) complaint)
  else
    match Text.Utf8.decode c.output with
    | .ok cs => .ok (String.ofList cs)
    | .error _ => .error (.parser .notText complaint)

def finish (e : External) (c : Child) : Except Fault String :=
  match e.limit with
  | none => printed c
  | some limit =>
    match c.exceeds limit with
    | .error m => .error (.misfit m)
    | .ok true => .error (.parser (.timedOut limit) "")
    | .ok false => printed c

-- Runs the program on some input and gives what it printed.
def run (e : External) (launch : Launcher) (d : Disk) (input : Text.Utf8.Bytes) :
    Disk × List Notice × Except Fault String :=
  if e.executable = "" then (d, [], .error (.parser .notConfigured ""))
  else
    let notice := Notice.runningParser e.words
    if e.words.any (·.toList.contains '\x00') then (d, [notice], .error .nullInPath)
    else
      match launch d { words := e.words, input } with
      | (d, .refused r) => (d, [notice], .error (e.refusal r))
      | (d, .finished c) => (d, [notice], e.finish c)

-- The stream in a printed tree. What is missing, of a wrong type or of a wrong value in it makes
-- it malformed; other faults pass through.
def load (offset : Option Int) (text : String) : Except Fault Stream :=
  match Json.read text.toList with
  | .error e => .error (.parser (.notJson e.flaw) "")
  | .ok (.obj fields) =>
    match Json.lookup "instructions" fields with
    | none => .error (.parser .noInstructions "")
    | some _ =>
      match offset.elim (Stream.ofJsonUnplaced (.obj fields)) (Stream.ofJson · (.obj fields)) with
      | .ok s => .ok s
      | .error m =>
        match m.breach with
        | .missing | .type | .value => .error (.parser (.malformed m) "")
        | .operation | .overflow | .memory => .error (.misfit m)
  | .ok _ => .error (.parser .noInstructions "")

def parse (e : External) (launch : Launcher) (d : Disk) (offset : Option Int)
    (input : Text.Utf8.Bytes) : Disk × List Notice × Except Fault Stream :=
  match e.run launch d input with
  | (d, notices, .error f) => (d, notices, .error f)
  | (d, notices, .ok text) => (d, notices, load offset text)

-- Runs the program on what a file holds.
def runFile (e : External) (launch : Launcher) (d : Disk) (path : String) :
    Disk × List Notice × Except Fault String :=
  let notice := Notice.parsingFile path
  match d.contents (.ofString path) with
  | .error f => (d, [notice], .error f)
  | .ok input =>
    match e.run launch d input with
    | (d, notices, result) => (d, notice :: notices, result)

def parseFile (e : External) (launch : Launcher) (d : Disk) (offset : Option Int)
    (path : String) : Disk × List Notice × Except Fault Stream :=
  match e.runFile launch d path with
  | (d, notices, .error f) => (d, notices, .error f)
  | (d, notices, .ok text) => (d, notices, load offset text)

end External
end Listing
