import Listing.Fault
import Listing.Path

namespace Listing

-- What takes a text without keeping it: the null device loses it, two others pass it on to the
-- channels of the command, and a pipe to another process. Nothing is there to be read from them.
inductive Device where
  | null
  | output
  | complaint
  | pipe
deriving DecidableEq, Repr

-- What a path can lead to. There are no links between places.
inductive Entry where
  | directory
  | file (content : Text.Utf8.Bytes) (executable : Bool)
  | device (kind : Device)
deriving DecidableEq, Repr

-- A tree of files, as entries at absolute places, with the directory that relative paths start
-- from.
structure Disk where
  home : List String := ["home"]
  entries : List (List String × Entry) := []
deriving Repr

namespace Disk

def entry? (d : Disk) (place : List String) : Option Entry :=
  (d.entries.find? (·.1 = place)).map (·.2)

def putEntry (place : List String) (e : Entry) :
    List (List String × Entry) → List (List String × Entry)
  | [] => [(place, e)]
  | (p, x) :: rest => if p = place then (p, e) :: rest else (p, x) :: putEntry place e rest

def put (d : Disk) (place : List String) (e : Entry) : Disk :=
  { d with entries := putEntry place e d.entries }

-- Names longer than this are refused, in bytes.
def nameLimit : Nat := 255

-- So are paths longer than this.
def pathLimit : Nat := 4095

-- Follows the components of a path from a directory. All but the last have to be directories;
-- the last need not be there. An empty component, or a dot, says that a directory stands before it.
def follow (d : Disk) (place : List String) :
    List String → Except Refusal (List String × Option Entry)
  | [] => .ok (place, d.entry? place)
  | part :: rest =>
    match d.entry? place with
    | none => .error .noSuchFile
    | some .directory =>
      if part = "" ∨ part = "." then d.follow place rest
      else if part = ".." then d.follow place.dropLast rest
      else if nameLimit < (Text.Utf8.ofString part).length then .error .nameTooLong
      else if rest = [] then .ok (place ++ [part], d.entry? (place ++ [part]))
      else d.follow (place ++ [part]) rest
    | some _ => .error .notADirectory

-- Where the text of a path leads.
def find (d : Disk) (name : String) : Except Refusal (List String × Option Entry) :=
  if name = "" then .error .noSuchFile
  else if pathLimit < (Text.Utf8.ofString name).length then .error .nameTooLong
  else
    d.follow (if name.toList.head? = some '/' then [] else d.home)
      ((Text.splitAtMark '/' name.toList).map String.ofList)

def locate (d : Disk) (p : Path) : Except Refusal (List String × Option Entry) :=
  d.find p.toString

def read? (d : Disk) (p : Path) : Except Refusal Text.Utf8.Bytes := do
  match (← d.locate p).2 with
  | none => .error .noSuchFile
  | some .directory => .error .isADirectory
  | some (.file content _) => .ok content
  | some (.device _) => .ok []

-- A file that is written over keeps being executable.
def write? (d : Disk) (p : Path) (content : Text.Utf8.Bytes) : Except Refusal Disk := do
  let (place, found) ← d.locate p
  match found with
  | none => .ok (d.put place (.file content false))
  | some (.file _ executable) => .ok (d.put place (.file content executable))
  | some .directory => .error .isADirectory
  | some (.device _) => .ok d

-- What a device puts out of a text that is written to it.
def passedOn (d : Disk) (p : Path) (kind : Device) (text : String) : String :=
  match d.locate p with
  | .ok (_, some (.device k)) => if k = kind then text else ""
  | _ => ""

def isDirectory (d : Disk) (p : Path) : Bool :=
  match d.locate p with
  | .ok (_, some .directory) => true
  | _ => false

-- Makes one directory, whose parent has to be there.
def makeOne (d : Disk) (p : Path) : Except Refusal Disk := do
  let (place, found) ← d.locate p
  match found with
  | none => .ok (d.put place .directory)
  | some _ => if d.isDirectory p then .ok d else .error .alreadyExists

-- Makes a directory and the missing ones above it. The refusal names the path that was refused.
def makeAll (d : Disk) (root : String) : (parts : List String) → (length : Nat) →
    Except (Refusal × Path) Disk
  | parts, length =>
    let path : Path := ⟨root, parts.take length⟩
    match d.makeOne path with
    | .ok d => .ok d
    | .error .noSuchFile =>
      match length with
      | 0 => .error (.noSuchFile, path)
      | length + 1 => do
        let d ← d.makeAll root parts length
        match d.makeOne path with
        | .ok d => .ok d
        | .error r => .error (r, path)
    | .error r => .error (r, path)

def makeDirectories (d : Disk) (p : Path) : Except (Refusal × Path) Disk :=
  d.makeAll p.root p.parts p.parts.length

-- A disk whose starting directory is empty.
def empty : Disk where
  entries := [([], .directory), (["tmp"], .directory), (["home"], .directory),
    (["dev"], .directory), (["dev", "null"], .device .null),
    (["dev", "stdout"], .device .output), (["dev", "stderr"], .device .complaint)]

-- Puts a file below the starting directory, with the directories above it.
def addFile (d : Disk) (name : String) (content : Text.Utf8.Bytes) (executable : Bool) : Disk :=
  let p := Path.ofString name
  match d.makeDirectories { p with parts := p.parts.dropLast } with
  | .ok d =>
    match d.locate p with
    | .ok (place, _) => d.put place (.file content executable)
    | .error _ => d
  | .error _ => d

-- Every file by its absolute place.
def files (d : Disk) : List (List String × Text.Utf8.Bytes) :=
  d.entries.filterMap fun
    | (place, .file content _) => some (place, content)
    | _ => none

-- The files of a disk that another one does not hold in the same form.
def changedSince (d before : Disk) : List (List String × Text.Utf8.Bytes) :=
  d.files.filter fun f => ¬ before.files.contains f

-- A path for the system must not hold a null character.
def checked (p : Path) (a : Except Refusal α) : Except Fault α :=
  if p.toString.toList.contains '\x00' then .error .nullInPath
  else
    match a with
    | .ok x => .ok x
    | .error r => .error (.system r p.toString)

-- Makes a directory and those above it; the fault names the one that was refused.
def make (d : Disk) (p : Path) : Except Fault Disk :=
  if p.toString.toList.contains '\x00' then .error .nullInPath
  else
    match d.makeDirectories p with
    | .ok d => .ok d
    | .error (r, path) => .error (.system r path.toString)

def contents (d : Disk) (p : Path) : Except Fault Text.Utf8.Bytes := checked p (d.read? p)

def store (d : Disk) (p : Path) (content : String) : Except Fault Disk :=
  checked p (d.write? p (Text.Utf8.ofString content))

end Disk
end Listing
