import Listing.Json.Access
import Listing.Notice

namespace Listing

-- A machine knows its registers by number. The names come from tables that nobody checked, so
-- an entry may be any value; no id stands twice.
structure Machine where
  name : String := "generic"
  registers : List (Int × Json) := []
deriving DecidableEq, Repr

namespace Machine

def setRegister (id : Int) (name : Json) : List (Int × Json) → List (Int × Json)
  | [] => [(id, name)]
  | (i, n) :: rest => if i = id then (id, name) :: rest else (i, n) :: setRegister id name rest

def ofPairs (name : String) (pairs : List (Int × Json)) : Machine :=
  ⟨name, pairs.foldl (fun table p => setRegister p.1 p.2 table) []⟩

def numberFrom (first : Int) : List Json → List (Int × Json)
  | [] => []
  | n :: ns => (first, n) :: numberFrom (first + 1) ns

-- Names are numbered from zero on.
def ofNames (name : String) (names : List Json) : Machine := ⟨name, numberFrom 0 names⟩

-- A key is read as an integer.
def pairOf (f : String × Json) : Except Misfit (Int × Json) := do
  return (← (Json.str f.1).toInt, f.2)

-- Different keys can mean one register; the last one counts.
def ofFields (name : String) (fields : List (String × Json)) : Except Misfit Machine := do
  return ofPairs name (← fields.mapM pairOf)

-- A list of names can be given by any value that can be gone through.
def fromNames (name : String) (names : Json) : Except Misfit Machine := do
  return ofNames name (← names.elements)

def fromMapping (name : String) : Json → Except Misfit Machine
  | .obj fields => ofFields name fields
  | _ => .error .noOperation

-- The entry of a register, unless there is none or it is null.
def entry? (m : Machine) (id : Int) : Option Json :=
  match m.registers.find? (·.1 = id) with
  | some (_, .null) => none
  | some (_, name) => some name
  | none => none

-- A register's name: what the table says, else one made from the number.
def numberedName (m : Machine) (id : Int) : Json :=
  (m.entry? id).getD (.str s!"r{id}")

-- Registers are reported by number or by a name that stands as it is.
def registerName (m : Machine) : Json → Except Misfit Json
  | .str s => .ok (.str s)
  | .int id => .ok (m.numberedName id)
  | v => .error (.notARegister v)

-- A register that has no name in the table is told about.
def registerNotices (m : Machine) : Json → List Notice
  | .int id => if m.entry? id = none then [.unnamedRegister id m.name] else []
  | _ => []

def size (m : Machine) : Nat := m.registers.length

def summary (m : Machine) : String :=
  s!"TargetInfo(name={Text.quoted m.name}, registers={m.size})"

def numbered (stem : String) (count : Nat) : List Json :=
  (List.range count).map fun i => .str s!"{stem}{i}"

def generic : Machine := {}

def aarch64 : Machine :=
  ofNames "aarch64" (numbered "x" 31 ++ [.str "sp", .str "xzr"] ++ numbered "w" 31 ++
    [.str "wsp", .str "wzr"])

def riscv : Machine :=
  ofNames "riscv" <|
    ["zero", "ra", "sp", "gp", "tp", "t0", "t1", "t2", "s0", "s1", "a0", "a1", "a2", "a3", "a4",
      "a5", "a6", "a7", "s2", "s3", "s4", "s5", "s6", "s7", "s8", "s9", "s10", "s11", "t3", "t4",
      "t5", "t6"].map .str

-- The machines that are built in, in the order of their names.
def builtins : List (String × Machine) :=
  [("aarch64", aarch64), ("generic", generic), ("riscv", riscv)]

-- They are found whatever the case of the letters.
def builtin? (name : String) : Option Machine :=
  builtins.lookup (String.ofList (name.toList.map Char.toLower))

def builtinNames : List String := builtins.map (·.1)

-- A machine without registers stands for none given, and the generic one takes its place.
def orGeneric : Option Machine → Machine
  | some m => if m.registers.isEmpty then generic else m
  | none => generic

end Machine
end Listing
