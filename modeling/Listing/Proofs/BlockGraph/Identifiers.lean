import Listing.Proofs.BlockGraph.Pieces

namespace Listing

namespace Text

-- Reads on from behind an opening quote. A backslash takes the next character as it is, and the
-- first quote that is not taken along ends the string. Gives what was read and what follows.
def scanQuoted : List Char → Option (List Char × List Char)
  | [] | ['\\'] => none
  | '"' :: rest => some ([], rest)
  | '\\' :: c :: rest => (scanQuoted rest).map (Prod.map (c :: ·) id)
  | c :: rest => (scanQuoted rest).map (Prod.map (c :: ·) id)

theorem scanQuoted_pair (c : Char) (rest : List Char) :
    scanQuoted ('\\' :: c :: rest) = (scanQuoted rest).map (Prod.map (c :: ·) id) := by
  rw [scanQuoted]

theorem scanQuoted_cons {c : Char} (hslash : c ≠ '\\') (hquote : c ≠ '"') (rest : List Char) :
    scanQuoted (c :: rest) = (scanQuoted rest).map (Prod.map (c :: ·) id) := by
  rw [scanQuoted]
  · rintro ⟨⟩
    exact absurd rfl hslash
  · exact hquote
  · exact fun _ _ h _ => hslash h

-- Each occurrence of a character gives way to a text.
def substitute (c : Char) (text cs : List Char) : List Char :=
  cs.flatMap fun x => if x = c then text else [x]

-- Backslashes are doubled before the quotes get theirs.
theorem substitute_substitute (cs : List Char) :
    substitute '"' ['\\', '"'] (substitute '\\' ['\\', '\\'] cs) = escape cs := by
  rw [substitute, substitute, List.flatMap_assoc, escape]
  congr 1
  funext c
  by_cases hslash : c = '\\'
  · simp [escapeChar, hslash]
  · by_cases hquote : c = '"' <;> simp [escapeChar, hslash, hquote]

-- The other way round the mark of a quote is doubled too.
example : substitute '\\' ['\\', '\\'] (substitute '"' ['\\', '"'] ['"']) ≠ escape ['"'] := by
  decide

-- Escaped text is read up to the quote behind it, no further, and as it was before.
theorem scanQuoted_escape (cs rest : List Char) :
    scanQuoted (escape cs ++ '"' :: rest) = some (cs, rest) := by
  induction cs with
  | nil => rw [escape_nil, List.nil_append, scanQuoted]
  | cons c cs ih =>
      rw [escape_cons, List.append_assoc, escapeChar]
      split
      · rw [List.cons_append, List.singleton_append, scanQuoted_pair, ih]
        rfl
      · rename_i hplain
        obtain ⟨hslash, hquote⟩ := not_or.mp hplain
        rw [List.singleton_append, scanQuoted_cons hslash hquote, ih]
        rfl

end Text

namespace BlockGraph

open Text (Part scanQuoted substitute)

-- A stream that has a graph has that of its rows.
theorem ofRows_of_ofStream {s : Stream} {g : BlockGraph} (h : ofStream s = .ok g) :
    ∃ rows, g = ofRows rows := by
  obtain ⟨rows, -, hrows⟩ := bind_eq_ok.mp h
  split at hrows
  · exact ⟨rows, (pure_eq_ok.mp hrows).symm⟩
  · cases hrows

namespace Dot

-- Reads the ids that a statement begins with: that of a block, or those of the ends of an edge.
def readIds (line : List Char) : Option (String × Option String) :=
  match line with
  | ' ' :: ' ' :: ' ' :: ' ' :: '"' :: text =>
    match scanQuoted text with
    | some (name, ' ' :: '[' :: _) => some (String.ofList name, none)
    | some (source, ' ' :: '-' :: '>' :: ' ' :: '"' :: text) =>
      match scanQuoted text with
      | some (target, ' ' :: '[' :: _) => some (String.ofList source, some (String.ofList target))
      | _ => none
    | _ => none
  | _ => none

section Statements

theorem scanQuoted_name (name : String) (rest : List Char) :
    scanQuoted ((escape name).toList ++ '"' :: rest) = some (name.toList, rest) := by
  rw [escape, String.toList_ofList, Text.scanQuoted_escape]

theorem toList_escape (name : String) : (escape name).toList =
    substitute '"' ['\\', '"'] (substitute '\\' ['\\', '\\'] name.toList) := by
  rw [escape, String.toList_ofList, Text.substitute_substitute]

theorem escape_injective : Function.Injective escape := by
  intro a b h
  have hread := scanQuoted_name a []
  rw [h, scanQuoted_name] at hread
  exact (String.toList_injective (Prod.mk.inj (Option.some.inj hread)).1).symm

theorem readIds_block (name : String) (rest : List Char) :
    readIds ("    ".toList ++ '"' :: ((escape name).toList ++ '"' :: (" [".toList ++ rest))) =
      some (name, none) := by
  simp [readIds, scanQuoted_name]

theorem readIds_edge (source target : String) (rest : List Char) :
    readIds ("    ".toList ++ '"' :: ((escape source).toList ++ '"' :: (" -> ".toList ++
      '"' :: ((escape target).toList ++ '"' :: (" [".toList ++ rest))))) =
      some (source, some target) := by
  simp [readIds, scanQuoted_name]

theorem readIds_nodeLine (n : Node) : readIds (nodeLine n).toList = some (n.name, none) := by
  rw [toList_nodeLine]
  simpa [nodeParts, Part.text] using readIds_block n.name _

theorem readIds_edgeLine {g : BlockGraph} {e : Edge} {line : String} (h : edgeLine g e = .ok line) :
    readIds line.toList = some (e.source, some e.target) := by
  rw [toList_edgeLine h]
  cases hreference : e.reference with
  | true => simpa [edgeParts, Part.text] using readIds_edge e.source e.target _
  | false => simpa [edgeParts, Part.text] using readIds_edge e.source e.target _

-- No title makes the header a statement.
theorem readIds_header (title : String) : ∀ line ∈ header title, readIds line.toList = none := by
  simp [header, readIds, toString]

end Statements

-- What is read off the lines of a drawing.
def idsOf (lines : List String) : List (String × Option String) :=
  lines.filterMap fun line => readIds line.toList

theorem idsOf_append (front back : List String) :
    idsOf (front ++ back) = idsOf front ++ idsOf back :=
  List.filterMap_append

theorem idsOf_eq_nil {lines : List String} (h : ∀ line ∈ lines, readIds line.toList = none) :
    idsOf lines = [] :=
  List.filterMap_eq_nil_iff.mpr h

theorem idsOf_eq {α : Type} {lines : List String} {xs : List α} {f : α → String × Option String}
    (h : lines.map (fun line => readIds line.toList) = xs.map fun x => some (f x)) :
    idsOf lines = xs.map f := by
  have hids : idsOf lines = (lines.map fun line => readIds line.toList).filterMap id := by
    rw [List.filterMap_map]
    rfl
  rw [hids, h, List.filterMap_map, ← List.filterMap_eq_map]
  rfl

-- The lines of a drawing tell the blocks and then the edges of its graph.
theorem render_lines {title text : String} {g : BlockGraph} (h : render title g = .ok text) :
    ∃ lines, text = "\n".intercalate lines ++ "\n" ∧
      idsOf lines = (g.nodes.map fun n => (n.name, none)) ++
        g.orderedEdges.map fun e => (e.source, some e.target) := by
  rw [render] at h
  obtain ⟨edges, hedges, htext⟩ := bind_eq_ok.mp h
  have hblocks : idsOf (g.nodes.map nodeLine) = g.nodes.map fun n => (n.name, none) := by
    apply idsOf_eq
    simp only [List.map_map, Function.comp_def, readIds_nodeLine]
  have hends : idsOf edges = g.orderedEdges.map fun e => (e.source, some e.target) :=
    idsOf_eq (map_eq_of_mapM (fun e _ he => readIds_edgeLine he) hedges)
  have hblank : idsOf [""] = [] := rfl
  have hclose : idsOf ["\x7d"] = [] := rfl
  rw [← pure_eq_ok.mp htext]
  refine ⟨_, rfl, ?_⟩
  simp only [idsOf_append, idsOf_eq_nil (readIds_header title), hblocks, hends, hblank, hclose,
    List.nil_append, List.append_nil]

-- A name whose backslashes and then quotes are replaced ends at the quote behind it, whatever
-- follows, and is read as it was. So no two blocks of a stream are drawn with one id, and the lines
-- of the drawing are read back as the blocks and the edges that they stand for.
theorem ids_ofStream :
    (∀ name : String, (escape name).toList =
      substitute '"' ['\\', '"'] (substitute '\\' ['\\', '\\'] name.toList)) ∧
    (∀ (name : String) (rest : List Char),
      scanQuoted ((escape name).toList ++ '"' :: rest) = some (name.toList, rest)) ∧
    ∀ (s : Stream) (g : BlockGraph), ofStream s = .ok g →
      (g.nodes.map fun n => escape n.name).Nodup ∧
      ∀ title text, render title g = .ok text → ∃ lines, text = "\n".intercalate lines ++ "\n" ∧
        idsOf lines = (g.nodes.map fun n => (n.name, none)) ++
          g.orderedEdges.map fun e => (e.source, some e.target) := by
  refine ⟨toList_escape, scanQuoted_name, fun s g hg => ⟨?_, fun title text => render_lines⟩⟩
  obtain ⟨rows, rfl⟩ := ofRows_of_ofStream hg
  have hnames := (nodup_names_ofRows rows).map escape_injective
  rwa [names, List.map_map] at hnames

-- Names of which the one would end its id, and the other would not let it end.
def markedStream : Stream :=
  ⟨[{ opcode := .str "JUMP", labels := [.str "a\""], operands := [.label "a\\"] },
    { opcode := .str "RET", labels := [.str "a\\"] }]⟩

def markedGraph : BlockGraph where
  nodes := [⟨"a\"", .defined, 1⟩, ⟨"a\\", .defined, 1⟩]
  edges := [{ source := "a\"", target := "a\\", next := true, reference := true,
              opcodes := [.str "JUMP"] }]

theorem ids_ofStream_marked :
    ofStream markedStream = .ok markedGraph ∧
      ∃ text lines, render defaultTitle markedGraph = .ok text ∧
        text = "\n".intercalate lines ++ "\n" ∧
        idsOf lines = [("a\"", none), ("a\\", none), ("a\"", some "a\\")] := by
  have hgraph : ofStream markedStream = .ok markedGraph := rfl
  obtain ⟨text, htext⟩ : ∃ text, render defaultTitle markedGraph = .ok text := ⟨_, rfl⟩
  obtain ⟨lines, hlines, hids⟩ := (ids_ofStream.2.2 _ _ hgraph).2 _ _ htext
  exact ⟨hgraph, text, lines, htext, hlines, hids⟩

end Dot

end BlockGraph
end Listing
