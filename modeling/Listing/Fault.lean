import Listing.Json.Reader
import Listing.Machine
import Listing.Text.Lines
import Listing.Text.Utf8

namespace Listing

-- What is wrong with a line of an event log.
inductive LineFlaw where
  | notJson (flaw : Json.Flaw)
  | notAnObject
  | malformed (event : Json) (misfit : Misfit)
deriving DecidableEq, Repr

def LineFlaw.message : LineFlaw → String
  | notJson flaw => s!"invalid JSON: {flaw.message}"
  | notAnObject => "expected a JSON object"
  | malformed event misfit => s!"malformed {event.display} event: {misfit.message}"

-- Why an external parser gave no stream.
inductive ParserFlaw where
  | notConfigured
  | notFound (executable : String)
  | timedOut (limit : Json)
  | failed (status : Int)
  | notText
  | notJson (flaw : Json.Flaw)
  | noInstructions
  | malformed (misfit : Misfit)
deriving DecidableEq, Repr

def ParserFlaw.message : ParserFlaw → String
  | notConfigured => "no parser executable configured (set ASM_CAPTURE_PARSER or pass one)"
  | notFound executable => s!"parser executable not found: {executable}"
  | timedOut limit => s!"parser timed out after {limit.text}s"
  | failed status => s!"parser exited with status {status}"
  | notText => "parser output is not valid UTF-8"
  | notJson flaw => s!"parser output is not valid JSON: {flaw.message}"
  | noInstructions => "parser output has no 'instructions' list"
  | malformed misfit => s!"malformed instruction in parser output: {misfit.message}"

-- What the system refuses.
inductive Refusal where
  | noSuchFile
  | notExecutable
  | permission
  | alreadyExists
  | notADirectory
  | isADirectory
  | nameTooLong
deriving DecidableEq, Repr

def Refusal.code : Refusal → Nat
  | noSuchFile => 2
  | notExecutable => 8
  | permission => 13
  | alreadyExists => 17
  | notADirectory => 20
  | isADirectory => 21
  | nameTooLong => 36

def Refusal.text : Refusal → String
  | noSuchFile => "No such file or directory"
  | notExecutable => "Exec format error"
  | permission => "Permission denied"
  | alreadyExists => "File exists"
  | notADirectory => "Not a directory"
  | isADirectory => "Is a directory"
  | nameTooLong => "File name too long"

def Refusal.name : Refusal → String
  | noSuchFile => "FileNotFoundError"
  | permission => "PermissionError"
  | alreadyExists => "FileExistsError"
  | notADirectory => "NotADirectoryError"
  | isADirectory => "IsADirectoryError"
  | notExecutable | nameTooLong => "OSError"

-- Every way in which an operation of this library fails.
inductive Fault where
  | misfit (m : Misfit)
  | outOfRange
  | line (number : Nat) (flaw : LineFlaw)
  | misread (e : Json.Misread)
  | undecodable (e : Text.Utf8.Fault)
  | unknownMachine (name : String)
  | notARegisterTable (path : String)
  | nullInPath
  -- a text with half of a surrogate pair, which no channel and no file takes
  | unencodable
  -- the message ends with what the child said on its error channel
  | parser (flaw : ParserFlaw) (complaint : String)
  | system (refusal : Refusal) (path : String)
deriving DecidableEq, Repr

namespace Fault

-- Faults of the system, as against faults of what was read.
def isSystem : Fault → Bool
  | system .. => true
  | _ => false

-- Faults of a value or of a text, as against values of a wrong type.
def isValueFlaw : Fault → Bool
  | misfit m => m.breach = .value
  | line .. | misread _ | undecodable _ | unknownMachine _ | notARegisterTable _ | nullInPath
  | unencodable => true
  | outOfRange | parser .. | system .. => false

-- What a fault is called when nothing takes it up.
def name : Fault → String
  | misfit m => m.breach.name
  | outOfRange => "IndexError"
  | line .. => "EventLogError"
  | misread _ => "JSONDecodeError"
  | undecodable _ => "UnicodeDecodeError"
  | unencodable => "UnicodeEncodeError"
  | unknownMachine _ | notARegisterTable _ | nullInPath => "ValueError"
  | parser .. => "ParserRunError"
  | system refusal _ => refusal.name

def trimmed (s : String) : String := String.ofList (Text.trim s.toList)

def message : Fault → String
  | misfit m => m.message
  | outOfRange => ""
  | line number flaw => s!"line {number}: {flaw.message}"
  | misread e => e.message
  | undecodable e => e.message
  | unknownMachine name =>
    let names := ", ".intercalate Machine.builtinNames
    s!"unknown target {Text.quoted name} (choose from {names})"
  | notARegisterTable path => s!"{path}: expected a JSON list or object of register names"
  | nullInPath => "embedded null byte"
  | unencodable => "surrogates not allowed"
  | parser flaw complaint =>
    let said := trimmed complaint
    if said = "" then flaw.message else flaw.message ++ "\n" ++ said
  | system refusal path => s!"[Errno {refusal.code}] {refusal.text}: {Text.quoted path}"

end Fault

instance : MonadLift (Except Misfit) (Except Fault) where
  monadLift
    | .ok a => .ok a
    | .error m => .error (.misfit m)

end Listing
