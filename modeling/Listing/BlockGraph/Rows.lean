import Listing.BlockGraph.Basic
import Listing.Stream
import Listing.Symbol

namespace Listing.BlockGraph

-- The block before the first label.
def entryName : String := "<entry>"

-- What the graph takes from an instruction: the names of its labels, the names that its operands
-- refer to, and its opcode.
structure Row where
  labels : List String := []
  references : List String := []
  opcode : Json
deriving DecidableEq, Repr

def referenceNames (operands : List Operand) : List String :=
  operands.filterMap fun
    | .label name => some (Symbol.unquote name)
    | _ => none

-- Names are unquoted, so that bare and quoted spellings of a name meet.
def Row.ofInstruction (i : Instruction) : Except Misfit Row := do
  return ⟨← i.labels.mapM Symbol.unquoted, referenceNames i.operands, i.opcode⟩

-- An opcode that can be no member of a set cannot annotate a reference.
def Row.isSound (r : Row) : Bool :=
  r.references.isEmpty || r.opcode.isEmptyValue || r.opcode.isHashable

structure Reference where
  block : String
  target : String
  opcode : Json
deriving DecidableEq, Repr

-- The graph while rows are read: references wait until all labels are known.
structure Growth where
  nodes : List Node := []
  edges : List Edge := []
  current : String := entryName
  references : List Reference := []
deriving DecidableEq, Repr

-- A label starts its block, which follows the block before it if that one is in the graph.
def Growth.enter (g : Growth) (name : String) : Growth :=
  let nodes := addNode name .defined g.nodes
  let edges := if hasNode g.current nodes then mark g.current name Edge.follow g.edges else g.edges
  { g with nodes, edges, current := name }

def Growth.add (g : Growth) (row : Row) : Growth :=
  let g := row.labels.foldl Growth.enter g
  { g with
    nodes := countInstruction g.current (addNode g.current .entry g.nodes)
    references := g.references ++ row.references.map fun t => ⟨g.current, t, row.opcode⟩ }

def refer (graph : BlockGraph) (r : Reference) : BlockGraph where
  nodes := addNode r.target .missing graph.nodes
  edges := mark r.block r.target (Edge.refer r.opcode) graph.edges

def Growth.resolve (g : Growth) : BlockGraph :=
  g.references.foldl refer { nodes := g.nodes, edges := g.edges }

def ofRows (rows : List Row) : BlockGraph := (rows.foldl Growth.add {}).resolve

def ofStream (s : Stream) : Except Misfit BlockGraph := do
  let rows ← s.instructions.mapM Row.ofInstruction
  if rows.all Row.isSound then return ofRows rows else .error .wrongType

end Listing.BlockGraph
