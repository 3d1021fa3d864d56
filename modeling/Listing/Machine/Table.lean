import Listing.Disk
import Listing.Machine
import Listing.Text.Lines

namespace Listing.Machine

-- A register table is a list of names, numbered from zero, or an object from numbers to names.
def ofTable (path name : String) : Json → Except Fault Machine
  | .arr names => .ok (ofNames name names)
  | .obj fields =>
    match ofFields name fields with
    | .ok m => .ok m
    | .error e => .error (.misfit e)
  | _ => .error (.notARegisterTable path)

def readTable (path name : String) (bytes : Text.Utf8.Bytes) : Except Fault Machine :=
  match Text.Utf8.decode bytes with
  | .error e => .error (.undecodable e)
  | .ok cs =>
    match Json.read (Text.unifyNewlines cs) with
    | .error e => .error (.misread e)
    | .ok data => ofTable path (if name = "" then (Path.ofString path).stem else name) data

-- A machine without a name of its own is called after its file.
def load (d : Disk) (path name : String) : Except Fault Machine := do
  readTable path name (← d.contents (.ofString path))

def builtin (name : String) : Except Fault Machine :=
  match builtin? name with
  | some m => .ok m
  | none => .error (.unknownMachine name)

-- Without a text there is no name to look for.
def named : Option String → Except Fault Machine
  | some name => builtin name
  | none => .error (.misfit .noOperation)

end Listing.Machine
