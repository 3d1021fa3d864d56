import Listing.BlockGraph.Tree
import Listing.Text.Quoted

namespace Listing.BlockGraph.Dot

def defaultTitle : String := "Label reference graph"

def escape (s : String) : String := String.ofList (Text.escape s.toList)

def shape : Status → String
  | .entry => "doubleoctagon"
  | .defined | .missing => "box"

def style : Status → String
  | .entry | .defined => "filled"
  | .missing => "filled,dashed"

def header (title : String) : List String :=
  ["digraph \"labels\" \x7b",
   s!"    label=\"{title}\";",
   "    labelloc=t;",
   "    rankdir=TB;",
   "    node [fontname=\"Courier New\", fontsize=11, margin=\"0.2,0.1\"];",
   "    edge [fontname=\"Courier New\", fontsize=9];",
   ""]

-- A block shows how many instructions it holds, a missing one that it is undefined.
def caption (n : Node) : String :=
  match n.status with
  | .missing => s!"{escape n.name}\\n[UNDEFINED]"
  | _ => s!"{escape n.name}\\n({n.instructions} instr)"

def nodeLine (n : Node) : String :=
  s!"    \"{escape n.name}\" [label=\"{caption n}\", shape={shape n.status}, " ++
    s!"style=\"{style n.status}\", fillcolor=\"{n.status.fill}\", fontcolor=\"white\"];"

-- References carry their opcodes; what merely follows is dotted.
def edgeLine (g : BlockGraph) (e : Edge) : Except Misfit String := do
  let head := s!"    \"{escape e.source}\" -> \"{escape e.target}\""
  let color := g.edgeColor e
  if e.reference then
    let opcodes ← opcodeLine e
    return s!"{head} [label=\"{opcodes}\", color=\"{color}\"];"
  else return s!"{head} [color=\"{color}\", style=dotted];"

def render (title : String) (g : BlockGraph) : Except Misfit String := do
  let edges ← g.orderedEdges.mapM (edgeLine g)
  let lines := header title ++ g.nodes.map nodeLine ++ [""] ++ edges ++ ["\x7d"]
  return "\n".intercalate lines ++ "\n"

end Listing.BlockGraph.Dot
