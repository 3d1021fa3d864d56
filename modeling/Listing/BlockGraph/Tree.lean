import Listing.BlockGraph.Query

namespace Listing.BlockGraph

def Status.fill : Status → String
  | .entry => "#2E86AB"
  | .defined => "#27AE60"
  | .missing => "#E74C3C"

-- An edge to a missing block has the block's colour.
def edgeColor (g : BlockGraph) (e : Edge) : String :=
  if g.isMissing e.target then "#E74C3C" else "#444444"

def nodeTree (n : Node) : Json :=
  .obj [("id", .str n.name), ("status", .str n.status.name), ("color", .str n.status.fill),
    ("instructions", .int n.instructions)]

def Edge.kinds (e : Edge) : List Json :=
  (if e.next then [.str "next"] else []) ++ if e.reference then [.str "reference"] else []

def edgeTree (g : BlockGraph) (e : Edge) : Except Misfit Json := do
  return .obj [("from", .str e.source), ("to", .str e.target), ("kinds", .arr e.kinds),
    ("opcodes", .arr (← sortOpcodes e.opcodes)), ("color", .str (g.edgeColor e))]

def toJson (g : BlockGraph) : Except Misfit Json := do
  return .obj [("nodes", .arr (g.nodes.map nodeTree)),
    ("edges", .arr (← g.orderedEdges.mapM g.edgeTree))]

def render (room : Nat) (indent : Json.Indent) (g : BlockGraph) : Except Misfit String := do
  (← g.toJson).render room indent

end Listing.BlockGraph
