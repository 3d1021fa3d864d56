import Listing.Json.Compare
import Listing.Json.Kind

namespace Listing

-- The graph of label blocks. Nodes stand in the order in which they were met.
namespace BlockGraph

-- A block is the start of the stream before any label, begins where a label is attached, or is
-- missing if a name is used that no label has.
inductive Status where
  | entry
  | defined
  | missing
deriving DecidableEq, Repr

def Status.name : Status → String
  | .entry => "entry"
  | .defined => "defined"
  | .missing => "missing"

structure Node where
  name : String
  status : Status
  instructions : Nat := 0
deriving DecidableEq, Repr

-- Two blocks have at most one edge in a direction: `next` says that the target follows in the
-- text, `reference` that the source names it, with the opcodes that do.
structure Edge where
  source : String
  target : String
  next : Bool := false
  reference : Bool := false
  opcodes : List Json := []
deriving DecidableEq, Repr

def Edge.follow (e : Edge) : Edge := { e with next := true }

-- Opcodes form a set; empty ones are left out. A NaN is a member only if its bit pattern is.
def addOpcode (opcode : Json) (opcodes : List Json) : List Json :=
  if opcode.isEmptyValue || opcodes.any (fun o => o = opcode || o.same opcode) then opcodes
  else opcodes ++ [opcode]

def Edge.refer (opcode : Json) (e : Edge) : Edge :=
  { e with reference := true, opcodes := addOpcode opcode e.opcodes }

def hasNode (name : String) (nodes : List Node) : Bool := nodes.any (·.name = name)

-- A node keeps the status it was first added with.
def addNode (name : String) (status : Status) (nodes : List Node) : List Node :=
  if hasNode name nodes then nodes else nodes ++ [⟨name, status, 0⟩]

def countInstruction (name : String) (nodes : List Node) : List Node :=
  nodes.map fun n => if n.name = name then { n with instructions := n.instructions + 1 } else n

-- Changes the edge between two blocks, a fresh one if there is none yet.
def mark (source target : String) (f : Edge → Edge) : List Edge → List Edge
  | [] => [f { source, target }]
  | e :: es =>
    if e.source = source ∧ e.target = target then f e :: es else e :: mark source target f es

end BlockGraph

structure BlockGraph where
  nodes : List BlockGraph.Node := []
  edges : List BlockGraph.Edge := []
deriving DecidableEq, Repr

end Listing
