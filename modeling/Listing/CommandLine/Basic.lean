import Listing.Child
import Listing.Options.Reader
import Listing.Recorder

namespace Listing.CommandLine

-- What a command leaves when it ends: its status, unless it ended without one of its own or by a
-- fault that nothing took up, what it printed on two channels, and the files.
structure Outcome where
  status : Option Nat
  fault : Option Fault := none
  output : String := ""
  complaint : String := ""
  disk : Disk
deriving Repr

-- What a command says about itself.
structure Manual where
  program : String
  usage : String
  details : String

-- Help goes to the output and is a success; a refusal goes to the complaints with the usage.
def Manual.answer (m : Manual) (d : Disk) : Options.Stop → Outcome
  | .help => { status := some 0, output := m.usage ++ "\n" ++ m.details, disk := d }
  | .problem p =>
    { status := some 2, complaint := m.usage ++ s!"{m.program}: error: {p.message}\n", disk := d }

-- Traced lines are always shown, notices from a level on.
def shown (threshold : Level) : Report → Option String
  | .trace line => some line
  | .notice n => if n.isAtLeast threshold then some n.line else none

def lines (texts : List String) : String := String.join (texts.map (· ++ "\n"))

def told (threshold : Level) (reports : List Report) : String :=
  lines (reports.filterMap (shown threshold))

-- Whether bytes name half of a surrogate pair.
def holdHalf (bytes : Text.Utf8.Bytes) : Bool := Json.hasHalf (Text.Utf8.decodeLenient bytes)

-- A text that shows half of a surrogate pair cannot be encoded. What takes the place of a half tells
-- where one is shown, if there is one at all.
def isEncodable (hasHalf : Bool) (text : String) : Bool :=
  !(hasHalf && text.toList.contains Json.replacement)

end Listing.CommandLine
