import Listing.BlockGraph.Rows

namespace Listing.BlockGraph

def names (g : BlockGraph) : List String := g.nodes.map (·.name)

def namesWith (g : BlockGraph) (status : Status) : List String :=
  (g.nodes.filter (·.status = status)).map (·.name)

-- Texts are ordered by code points.
def sortNames (names : List String) : List String := names.mergeSort fun a b => a ≤ b

-- The names that are referred to and attached nowhere, in order.
def undefinedNames (g : BlockGraph) : List String := sortNames (g.namesWith .missing)

-- Edges are listed by source, in node order, and for one source in the order of their making.
def orderedEdges (g : BlockGraph) : List Edge :=
  g.nodes.flatMap fun n => g.edges.filter (·.source = n.name)

-- The blocks that name a label, in order.
def referencesTo (g : BlockGraph) (name : String) : List String :=
  sortNames ((g.edges.filter fun e => e.target = name && e.reference).map (·.source))

def successors (g : BlockGraph) (name : String) : List String :=
  (g.edges.filter (·.source = name)).map (·.target)

-- One round of growth: everything an edge leads to from what was already found.
def grow (g : BlockGraph) (found : List String) : List String :=
  found ++ ((found.flatMap g.successors).filter (· ∉ found)).eraseDups

def growTimes (g : BlockGraph) : Nat → List String → List String
  | 0, found => found
  | rounds + 1, found => g.growTimes rounds (g.grow found)

-- The blocks other than `name` that edges lead to from it. A path without repetition has fewer
-- edges than there are nodes, so that many rounds find all.
def reachableFrom (g : BlockGraph) (name : String) : List String :=
  if hasNode name g.nodes then (g.growTimes g.nodes.length [name]).filter (· ≠ name) else []

def summary (g : BlockGraph) : String :=
  s!"LabelGraph(nodes={g.nodes.length}, edges={g.edges.length})"

-- Numbers can be ordered among themselves, and texts, but not one with the other.
def sortOpcodes (opcodes : List Json) : Except Misfit (List Json) :=
  if opcodes.length < 2 then .ok opcodes
  else if opcodes.all (·.isNumber) then
    .ok (opcodes.mergeSort fun a b =>
      match a.magnitude?, b.magnitude? with
      | some x, some y => x.compare y ≠ .gt
      | _, _ => true)
  else
    match opcodes.mapM Json.str? with
    | some texts => .ok ((sortNames texts).map .str)
    | none => .error .wrongType

-- Whether edges to a block lead nowhere.
def isMissing (g : BlockGraph) (name : String) : Bool :=
  g.nodes.any fun n => n.name = name && n.status = .missing

-- The opcodes of a reference on one line; only texts can be joined.
def opcodeLine (e : Edge) : Except Misfit String := do
  match (← sortOpcodes e.opcodes).mapM Json.str? with
  | some texts => return " | ".intercalate texts
  | none => .error .wrongType

end Listing.BlockGraph
