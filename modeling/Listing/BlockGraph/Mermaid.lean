import Listing.BlockGraph.Query

namespace Listing.BlockGraph.Mermaid

def defaultTitle : String := "Label reference graph"

-- The format has no escape for a double quote but its entity.
def escapeChar (c : Char) : List Char := if c = '"' then "#quot;".toList else [c]

def escape (s : String) : String := String.ofList (s.toList.flatMap escapeChar)

def header (title : String) : List String :=
  ["---", s!"title: \"{title}\"", "---", "flowchart TD"]

-- Blocks are numbered by their place; names are only shown.
def position (g : BlockGraph) (name : String) : Nat := g.nodes.findIdx (·.name = name)

def caption (n : Node) : String :=
  match n.status with
  | .missing => s!"{escape n.name}\\nUNDEFINED"
  | _ => escape n.name

def nodeLine (place : Nat) (n : Node) : String :=
  s!"    n{place}[\"{caption n}\"]:::{n.status.name}"

def nodeLines (place : Nat) : List Node → List String
  | [] => []
  | n :: ns => nodeLine place n :: nodeLines (place + 1) ns

def edgeLine (g : BlockGraph) (e : Edge) : Except Misfit String := do
  let source := position g e.source
  let target := position g e.target
  if e.reference then
    let opcodes ← opcodeLine e
    return s!"    n{source} -->|\"{opcodes}\"| n{target}"
  else return s!"    n{source} -.-> n{target}"

def classLines : List String :=
  ["    classDef entry   fill:#2E86AB,color:#fff,stroke:#1a5276",
   "    classDef defined fill:#27AE60,color:#fff,stroke:#1e8449",
   "    classDef missing fill:#E74C3C,color:#fff,stroke:#922b21,stroke-dasharray:5 5"]

def render (title : String) (g : BlockGraph) : Except Misfit String := do
  let edges ← g.orderedEdges.mapM (edgeLine g)
  return "\n".intercalate
    (header title ++ nodeLines 0 g.nodes ++ [""] ++ edges ++ [""] ++ classLines) ++ "\n"

end Listing.BlockGraph.Mermaid
