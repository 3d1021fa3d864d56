import Listing.CommandLine.Capture
import Listing.CommandLine.Export

namespace Listing.Main

def isDirectory (p : Path) : IO Bool := do
  try (← IO.FS.realPath p.toString).isDir
  catch _ => return false

def addDirectory (d : Disk) (p : Path) : Disk := (d.makeDirectories p).toOption.getD d

-- Loads what stands at a path: a file, or at least the directories above it. What cannot be read
-- is as good as missing.
def load (d : Disk) (name : String) : IO Disk := do
  let p := Path.ofString name
  let above : Path := { p with parts := p.parts.dropLast }
  if ← isDirectory p then return addDirectory d p
  let d := if (← isDirectory above) then addDirectory d above else d
  try return d.addFile name (← IO.FS.readBinFile p.toString).toList true
  catch _ => return d

def loadAll (names : List String) : IO Disk := do
  let here := Path.ofString (← IO.currentDir).toString
  names.foldlM load (addDirectory { Disk.empty with home := here.parts } here)

def save (d before : Disk) : IO Unit := do
  for (place, bytes) in d.changedSince before do
    let above := "/" ++ "/".intercalate place.dropLast
    IO.FS.createDirAll above
    IO.FS.writeBinFile ("/" ++ "/".intercalate place) ⟨bytes.toArray⟩

def environment : IO Environment := do
  let names := [External.variableName]
  names.filterMapM fun name => do return (← IO.getEnv name).map (name, ·)

-- Texts up to some gigabytes are made.
def room : Nat := 4294967296

-- Prints an outcome and keeps its files. A fault that nothing took up ends the process like a
-- failure.
def finish (o : CommandLine.Outcome) (before : Disk) : IO UInt32 := do
  save o.disk before
  IO.print o.output
  IO.eprint o.complaint
  match o.fault with
  | some f =>
    IO.eprintln s!"{f.name}: {f.message}"
    return 1
  | none => return (o.status.getD 0).toUInt32

-- The names that a command line brings up, if it can be read.
def namesIn (g : Options.Grammar σ) (blank : σ) (paths : σ → List String) (words : List String) :
    List String :=
  match Options.read g blank words with
  | .ok s => paths s
  | .error _ => []

end Listing.Main

-- The first word `graphs` asks for the export of streams and graphs; otherwise one log is
-- captured. No other programs are started from here, so that none is found.
def main (words : List String) : IO UInt32 := do
  let env ← Listing.Main.environment
  let launch := Listing.Launcher.bare
  match words with
  | "graphs" :: words =>
    let disk ← Listing.Main.loadAll
      (Listing.Main.namesIn Listing.CommandLine.Export.grammar {}
        Listing.CommandLine.Export.paths words)
    Listing.Main.finish (Listing.CommandLine.Export.main launch disk words) disk
  | words =>
    let disk ← Listing.Main.loadAll
      (Listing.Main.namesIn Listing.CommandLine.Capture.grammar {}
        Listing.CommandLine.Capture.paths words)
    Listing.Main.finish
      (Listing.CommandLine.Capture.main Listing.Main.room env launch disk words) disk
