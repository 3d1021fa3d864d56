import Listing.Proofs.BlockGraph.Drawing
import Listing.Proofs.Text.Quotation

namespace Listing

open Text (Part)

namespace BlockGraph

-- What of a graph is no text: the kinds and sizes of its blocks, and the places of the blocks
-- between which an edge lies, with whether it is a reference.
structure Shape where
  nodes : List (Status × Nat)
  edges : List (Nat × Nat × Bool)
deriving DecidableEq, Repr

def shape (g : BlockGraph) : Shape where
  nodes := g.nodes.map fun n => (n.status, n.instructions)
  edges := g.orderedEdges.map fun e =>
    (Mermaid.position g e.source, Mermaid.position g e.target, e.reference)

-- The opcodes of a reference as they are drawn, if they can be.
def opcodeText (e : Edge) : String := (opcodeLine e).toOption.getD ""

def endLines (lines : List (List Part)) : List Part := lines.flatMap (· ++ [.plain "\n"])

namespace Dot

-- The lines of a drawing in the pieces that the quotes in them are meant to cut them into.
def headerParts (title : String) : List (List Part) :=
  [[.plain "digraph ", .quoted "labels", .plain " \x7b"],
   [.plain "    label=", .quoted title, .plain ";"],
   [.plain "    labelloc=t;"],
   [.plain "    rankdir=TB;"],
   [.plain "    node [fontname=", .quoted "Courier New", .plain ", fontsize=11, margin=",
     .quoted "0.2,0.1", .plain "];"],
   [.plain "    edge [fontname=", .quoted "Courier New", .plain ", fontsize=9];"],
   []]

def nodeParts (n : Node) : List Part :=
  [.plain "    ", .quoted (escape n.name), .plain " [label=", .quoted (caption n),
    .plain s!", shape={shape n.status}, style=", .quoted (style n.status), .plain ", fillcolor=",
    .quoted n.status.fill, .plain ", fontcolor=", .quoted "white", .plain "];"]

def edgeParts (source target color : String) (reference : Bool) (opcodes : String) : List Part :=
  [.plain "    ", .quoted (escape source), .plain " -> ", .quoted (escape target)] ++
    if reference then
      [.plain " [label=", .quoted opcodes, .plain ", color=", .quoted color, .plain "];"]
    else [.plain " [color=", .quoted color, .plain ", style=dotted];"]

def layout (title : String) (nodes : List Node) (edges : List (List Part)) : List Part :=
  endLines (headerParts title ++ nodes.map nodeParts ++ [[]] ++ edges ++ [[.plain "\x7d"]])

def parts (title : String) (g : BlockGraph) : List Part :=
  layout title g.nodes <| g.orderedEdges.map fun e =>
    edgeParts e.source e.target (g.edgeColor e) e.reference (opcodeText e)

-- What is quoted for the sake of a name.
def named (g : BlockGraph) : List String :=
  (g.nodes.flatMap fun n => [escape n.name, caption n]) ++
    g.orderedEdges.flatMap fun e => [escape e.source, escape e.target]

-- A drawing with nothing between its quotes.
def outline (s : Shape) : List Char :=
  (layout "" (s.nodes.map fun n => ⟨"", n.1, n.2⟩) <|
    s.edges.map fun e => edgeParts "" "" "" e.2.2 "").flatMap Part.frame

end Dot

namespace Mermaid

def headerParts (title : String) : List (List Part) :=
  [[.plain "---"], [.plain "title: ", .quoted title], [.plain "---"], [.plain "flowchart TD"]]

def nodeParts (n : Node) (place : Nat) : List Part :=
  [.plain s!"    n{place}[", .quoted (caption n), .plain s!"]:::{n.status.name}"]

def edgeParts (source target : Nat) (reference : Bool) (opcodes : String) : List Part :=
  if reference then [.plain s!"    n{source} -->|", .quoted opcodes, .plain s!"| n{target}"]
  else [.plain s!"    n{source} -.-> n{target}"]

def layout (title : String) (nodes : List Node) (edges : List (List Part)) : List Part :=
  endLines (headerParts title ++ (nodes.zipIdx.map fun n => nodeParts n.1 n.2) ++ [[]] ++ edges ++
    [[]] ++ classLines.map fun line => [.plain line])

def parts (title : String) (g : BlockGraph) : List Part :=
  layout title g.nodes <| g.orderedEdges.map fun e =>
    edgeParts (position g e.source) (position g e.target) e.reference (opcodeText e)

def named (g : BlockGraph) : List String := g.nodes.map caption

def outline (s : Shape) : List Char :=
  (layout "" (s.nodes.map fun n => ⟨"", n.1, n.2⟩) <|
    s.edges.map fun e => edgeParts e.1 e.2.1 e.2.2 "").flatMap Part.frame

end Mermaid

section Written

theorem flatMap_endLines {f : Part → List Char} (h : f (.plain "\n") = ['\n'])
    (lines : List (List Part)) :
    (endLines lines).flatMap f = (lines.map (·.flatMap f)).flatMap (· ++ ['\n']) := by
  simp [endLines, List.flatMap_assoc, List.flatMap_map, h]

theorem toList_lines {lines : List String} (hne : lines ≠ []) :
    ("\n".intercalate lines ++ "\n").toList =
      (lines.map String.toList).flatMap (· ++ ['\n']) := by
  have hfeed : "\n".toList = ['\n'] := rfl
  obtain ⟨line, rest, rfl⟩ := List.exists_cons_of_ne_nil hne
  rw [String.toList_append, String.toList_intercalate, hfeed, List.map_cons,
    intercalate_append_self]

theorem toList_joinLines {lines : List String} {parts : List (List Part)} (hne : lines ≠ [])
    (h : lines.map String.toList = parts.map (·.flatMap Part.text)) :
    ("\n".intercalate lines ++ "\n").toList = (endLines parts).flatMap Part.text := by
  rw [flatMap_endLines rfl, ← h, toList_lines hne]

theorem opcodeText_of_ok {e : Edge} {line : String} (h : opcodeLine e = .ok line) :
    opcodeText e = line := by
  rw [opcodeText, h]
  rfl

theorem drawn_eq {e : Edge} {labelled : String → String} {bare line : String}
    (h : (if e.reference then do return labelled (← opcodeLine e) else return bare) =
      Except.ok line) :
    line = if e.reference then labelled (opcodeText e) else bare := by
  split at h
  · rename_i hreference
    obtain ⟨opcodes, hopcodes, hline⟩ := bind_eq_ok.mp h
    rw [if_pos hreference, opcodeText_of_ok hopcodes, pure_eq_ok.mp hline]
  · rename_i hreference
    rw [if_neg hreference, pure_eq_ok.mp h]

theorem Dot.toList_nodeLine (n : Node) :
    (Dot.nodeLine n).toList = (Dot.nodeParts n).flatMap Part.text := by
  delta Dot.nodeLine
  simp [Dot.nodeParts, Part.text, toString]

theorem Dot.toList_edgeLine {g : BlockGraph} {e : Edge} {line : String}
    (h : Dot.edgeLine g e = .ok line) :
    line.toList = (Dot.edgeParts e.source e.target (g.edgeColor e) e.reference
      (opcodeText e)).flatMap Part.text := by
  rw [drawn_eq h]
  cases e.reference with
  | true => simp [Dot.edgeParts, Part.text, toString]
  | false => simp [Dot.edgeParts, Part.text, toString]

theorem Dot.toList_render {title text : String} {g : BlockGraph}
    (h : Dot.render title g = .ok text) :
    text.toList = (Dot.parts title g).flatMap Part.text := by
  rw [Dot.render] at h
  obtain ⟨edges, hedges, htext⟩ := bind_eq_ok.mp h
  have hlines := map_eq_of_mapM (fun e _ => Dot.toList_edgeLine (g := g) (e := e)) hedges
  have hheader : (Dot.header title).map String.toList =
      (Dot.headerParts title).map (·.flatMap Part.text) := by
    simp [Dot.header, Dot.headerParts, Part.text, toString]
  have hblank : [""].map String.toList = [([] : List Part)].map (·.flatMap Part.text) := rfl
  have hclose : ["\x7d"].map String.toList = [[Part.plain "\x7d"]].map (·.flatMap Part.text) := rfl
  rw [← pure_eq_ok.mp htext, Dot.parts, Dot.layout]
  refine toList_joinLines (by simp [Dot.header]) ?_
  simp only [List.map_append, hheader, hlines, List.map_map, Function.comp_def,
    Dot.toList_nodeLine, hblank, hclose]

theorem Mermaid.nodeLines_eq_map (place : Nat) (ns : List Node) :
    Mermaid.nodeLines place ns = (ns.zipIdx place).map fun n => Mermaid.nodeLine n.2 n.1 := by
  induction ns generalizing place with
  | nil => rfl
  | cons n ns ih => rw [Mermaid.nodeLines, ih, List.zipIdx_cons, List.map_cons]

theorem Mermaid.toList_nodeLine (n : Node) (place : Nat) :
    (Mermaid.nodeLine place n).toList = (Mermaid.nodeParts n place).flatMap Part.text := by
  simp [Mermaid.nodeLine, Mermaid.nodeParts, Part.text, toString]

theorem Mermaid.toList_edgeLine {g : BlockGraph} {e : Edge} {line : String}
    (h : Mermaid.edgeLine g e = .ok line) :
    line.toList = (Mermaid.edgeParts (Mermaid.position g e.source) (Mermaid.position g e.target)
      e.reference (opcodeText e)).flatMap Part.text := by
  rw [drawn_eq h]
  cases e.reference with
  | true => simp [Mermaid.edgeParts, Part.text, toString]
  | false => simp [Mermaid.edgeParts, Part.text, toString]

theorem Mermaid.toList_render {title text : String} {g : BlockGraph}
    (h : Mermaid.render title g = .ok text) :
    text.toList = (Mermaid.parts title g).flatMap Part.text := by
  rw [Mermaid.render] at h
  obtain ⟨edges, hedges, htext⟩ := bind_eq_ok.mp h
  have hlines := map_eq_of_mapM (fun e _ => Mermaid.toList_edgeLine (g := g) (e := e)) hedges
  have hheader : (Mermaid.header title).map String.toList =
      (Mermaid.headerParts title).map (·.flatMap Part.text) := by
    simp [Mermaid.header, Mermaid.headerParts, Part.text, toString]
  have hblank : [""].map String.toList = [([] : List Part)].map (·.flatMap Part.text) := rfl
  have hclasses : classLines.map String.toList =
      (classLines.map fun line => [Part.plain line]).map (·.flatMap Part.text) := by
    simp only [List.map_map, Function.comp_def, List.flatMap_singleton, Part.text]
  rw [← pure_eq_ok.mp htext, Mermaid.parts, Mermaid.layout]
  refine toList_joinLines (by simp [Mermaid.header]) ?_
  simp only [List.map_append, hheader, hlines, List.map_map, Mermaid.nodeLines_eq_map,
    Function.comp_def, Mermaid.toList_nodeLine, hblank, hclasses]

-- Each line is opened into its characters before it is looked at: to take the text of a literal
-- apart is slow.
theorem Mermaid.notMem_classLines {c : Char} (h : c = '\n' ∨ c = '"') :
    ∀ line ∈ Mermaid.classLines, c ∉ line.toList := by
  simp only [Mermaid.classLines, List.forall_mem_cons, List.not_mem_nil, false_imp_iff,
    implies_true, and_true]
  refine ⟨?_, ?_, ?_⟩
  all_goals
    rw [← String.ofList_eq.mp rfl]
    rcases h with rfl | rfl <;> decide

end Written

section Outline

-- Names, opcodes and the title stand between quotes only.
theorem Dot.frame_parts (title : String) (g : BlockGraph) :
    (Dot.parts title g).flatMap Part.frame = Dot.outline g.shape := by
  have hheader : (Dot.headerParts title).map (·.flatMap Part.frame) =
      (Dot.headerParts "").map (·.flatMap Part.frame) := by
    simp only [Dot.headerParts, List.map_cons, List.flatMap_cons, Part.frame]
  have hnodes : (fun n : Node => (Dot.nodeParts n).flatMap Part.frame) =
      fun n => (Dot.nodeParts ⟨"", n.status, n.instructions⟩).flatMap Part.frame := by
    simp only [Dot.nodeParts, List.flatMap_cons, Part.frame]
  have hedge (e : Edge) :
      (Dot.edgeParts e.source e.target (g.edgeColor e) e.reference (opcodeText e)).flatMap
          Part.frame =
        (Dot.edgeParts "" "" "" e.reference "").flatMap Part.frame := by
    cases e.reference <;> simp only [Dot.edgeParts, List.flatMap_append, List.flatMap_cons,
      Part.frame, ↓reduceIte, Bool.false_eq_true]
  have hlines := flatMap_endLines (f := Part.frame) rfl
  simp only [Dot.parts, Dot.outline, Dot.layout, BlockGraph.shape, hlines, List.map_append,
    List.map_map, Function.comp_def, hedge, hheader]
  rw [hnodes]

theorem Mermaid.frame_parts (title : String) (g : BlockGraph) :
    (Mermaid.parts title g).flatMap Part.frame = Mermaid.outline g.shape := by
  have hheader : (Mermaid.headerParts title).map (·.flatMap Part.frame) =
      (Mermaid.headerParts "").map (·.flatMap Part.frame) := by
    simp only [Mermaid.headerParts, List.map_cons, List.flatMap_cons, Part.frame]
  have hnodes : (fun n : Node × Nat => (Mermaid.nodeParts n.1 n.2).flatMap Part.frame) =
      fun n => (Mermaid.nodeParts ⟨"", n.1.status, n.1.instructions⟩ n.2).flatMap Part.frame := by
    simp only [Mermaid.nodeParts, List.flatMap_cons, Part.frame]
  have hedge (e : Edge) (source target : Nat) :
      (Mermaid.edgeParts source target e.reference (opcodeText e)).flatMap Part.frame =
        (Mermaid.edgeParts source target e.reference "").flatMap Part.frame := by
    cases e.reference <;> rfl
  have hlines := flatMap_endLines (f := Part.frame) rfl
  simp only [Mermaid.parts, Mermaid.outline, Mermaid.layout, BlockGraph.shape, hlines,
    List.map_append, List.map_map, List.zipIdx_map, Function.comp_def, hedge, hheader]
  rw [hnodes]
  simp only [Prod.map_fst, Prod.map_snd, id]

end Outline

end BlockGraph
end Listing
