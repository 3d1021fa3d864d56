import Listing.Event
import Listing.Fault
import Listing.Notice
import Listing.Text.Lines

namespace Listing.Event

-- What a log line yields: an event, or a notice that its record was skipped.
inductive Entry where
  | event (e : Event)
  | notice (n : Notice)
deriving DecidableEq, Repr

-- The entries of a log up to its end, or up to the fault that ends the reading.
structure Reading where
  entries : List Entry := []
  fault : Option Fault := none
deriving DecidableEq, Repr

def Reading.cons (e : Entry) (r : Reading) : Reading := { r with entries := e :: r.entries }

def Reading.events (r : Reading) : List Event :=
  r.entries.filterMap fun
    | .event e => some e
    | .notice _ => none

def Reading.notices (r : Reading) : List Notice :=
  r.entries.filterMap fun
    | .event _ => none
    | .notice n => some n

def Reading.ofEvents (events : List Event) : Reading := { entries := events.map .event }

-- What is offered for replay may be something else than an event.
inductive Offered where
  | event (e : Event)
  | value (v : Json)
deriving DecidableEq, Repr

-- The first value that is no event ends the reading.
def Reading.ofOffered : List Offered → Reading
  | [] => {}
  | .event e :: rest => (ofOffered rest).cons (.event e)
  | .value v :: _ => { fault := some (.misfit (.notAnEvent v)) }

-- Blank lines and comments hold no record.
def isIgnored (line : List Char) : Bool :=
  match line with
  | [] => true
  | c :: _ => c == '#'

-- A record that cannot be made an event is malformed, unless a number in it is infinite: that
-- is no flaw of the line and passes through.
def ofRecord (number : Nat) (fields : List (String × Json)) : Except Fault Entry :=
  let type := (Json.lookup "event" fields).getD .null
  match ofJson (.obj fields) with
  | .ok (some e) => .ok (.event e)
  | .ok none => .ok (.notice (.unknownEvent type number))
  | .error m =>
    match m.breach with
    | .missing | .type | .value =>
      let shown := (Json.lookup "event" fields).getD (.str "?")
      .error (.line number (.malformed shown m))
    | .operation | .overflow | .memory => .error (.misfit m)

-- One line that holds a record.
def ofLine (number : Nat) (line : List Char) : Except Fault Entry :=
  match Json.readText line with
  | .error stop => .error (.line number (.notJson stop.flaw))
  | .ok (.obj fields) => ofRecord number fields
  | .ok _ => .error (.line number .notAnObject)

def readLines (number : Nat) : List (List Char) → Reading
  | [] => {}
  | line :: lines =>
    let line := Text.trim line
    if isIgnored line then readLines (number + 1) lines
    else
      match ofLine number line with
      | .ok entry => (readLines (number + 1) lines).cons entry
      | .error fault => { fault := some fault }

-- A log has one record per line; lines count from one.
def readLog (text : String) : Reading := readLines 1 (Text.splitLines text.toList)

-- One line per event.
def writeLog (events : List Event) : String :=
  "\n".intercalate (events.map fun e => e.toJson.write none) ++ "\n"

-- Reading from bytes: the text has to be valid and all of the log sound. The notices come
-- before the result.
def readBytes (path : String) (bytes : Text.Utf8.Bytes) : List Notice × Except Fault (List Event) :=
  let first := Notice.readingLog path
  match Text.Utf8.decode bytes with
  | .error e => ([first], .error (.undecodable e))
  | .ok cs =>
    let reading := readLog (String.ofList (Text.unifyNewlines cs))
    (first :: reading.notices,
      match reading.fault with
      | some fault => .error fault
      | none => .ok reading.events)

end Listing.Event
