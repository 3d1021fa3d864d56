import Listing.Json.Display

namespace Listing

-- How grave a notice is, from the least on.
inductive Level where
  | debug
  | info
  | warning
  | error
deriving DecidableEq, Repr

def Level.rank : Level → Nat
  | .debug => 0
  | .info => 1
  | .warning => 2
  | .error => 3

def Level.name : Level → String
  | .debug => "DEBUG"
  | .info => "INFO"
  | .warning => "WARNING"
  | .error => "ERROR"

-- What is told about a run besides its result.
inductive Notice where
  | readingLog (path : String)
  | unknownEvent (event : Json) (line : Nat)
  | unnamedRegister (id : Int) (machine : String)
  | droppedOperand (kind opcode value : Json)
  | replayed (events instructions dropped : Nat)
  | captured (instructions : Nat) (path : String)
  | runningParser (command : List String)
  | parsingFile (path : String)
  | operandsDropped (count : Nat)
  | labelsUnattached (names : List String)
  | labelUndefined (name : String)
deriving DecidableEq, Repr

namespace Notice

def level : Notice → Level
  | unnamedRegister .. | droppedOperand .. | replayed .. | runningParser .. => .debug
  | readingLog _ | captured .. | parsingFile _ | operandsDropped _ => .info
  | unknownEvent .. | labelsUnattached _ | labelUndefined _ => .warning

-- The part of the program that speaks.
def origin : Notice → String
  | readingLog _ | unknownEvent .. => "asm_capture.events"
  | unnamedRegister .. => "asm_capture.streamer.target"
  | droppedOperand .. => "asm_capture.streamer.capture_listener"
  | replayed .. | captured .. => "asm_capture.pipeline.replay"
  | runningParser _ | parsingFile _ => "asm_capture.pipeline.runner"
  | operandsDropped _ | labelsUnattached _ | labelUndefined _ => "asm_capture.cli"

def message : Notice → String
  | readingLog path => s!"Reading event log: {path}"
  | unknownEvent event line => s!"Skipping unknown event type {event.display} on line {line}"
  | unnamedRegister id machine => s!"No name for register id {id} on target {machine}"
  | droppedOperand kind opcode value =>
    s!"Dropping {kind.text} operand of {opcode.text}: {value.display}"
  | replayed events instructions dropped =>
    s!"Replayed {events} events: {instructions} instructions, {dropped} dropped operands"
  | captured instructions path => s!"Captured {instructions} instructions from {path}"
  | runningParser command => "Running parser: " ++ " ".intercalate command
  | parsingFile path => s!"Parsing file: {path}"
  | operandsDropped count => s!"{count} untracked operand(s) dropped"
  | labelsUnattached names =>
    s!"{names.length} label(s) after the last instruction were not attached: " ++
      ", ".intercalate names
  | labelUndefined name => s!"Label referenced but never defined: {name}"

def line (n : Notice) : String := s!"{n.level.name} {n.origin}: {n.message}"

def isAtLeast (threshold : Level) (n : Notice) : Bool := threshold.rank ≤ n.level.rank

end Notice
end Listing
