import Listing.Proofs.BlockGraph.Pieces
import Listing.Proofs.Json.Number
import Listing.Proofs.Text.Parts

namespace Listing.BlockGraph

open Text (Part splitAtMark)

section Names

variable {g : BlockGraph} {rows : List Row}

theorem getElem?_position {name : String} (h : name ∈ g.names) :
    g.names[Mermaid.position g name]? = some name := by
  obtain ⟨n, hn, hname⟩ := List.mem_map.mp h
  have hlt : g.nodes.findIdx (·.name = name) < g.nodes.length :=
    List.findIdx_lt_length_of_exists ⟨n, hn, by simpa using hname⟩
  have hfound : g.nodes[g.nodes.findIdx (·.name = name)].name = name := by
    simpa using List.findIdx_getElem (w := hlt)
  rw [Mermaid.position, names, List.getElem?_map, List.getElem?_eq_getElem hlt, Option.map_some,
    hfound]

theorem mem_orderedEdges_ofRows {e : Edge} :
    e ∈ (ofRows rows).orderedEdges ↔ e ∈ (ofRows rows).edges := by
  rw [orderedEdges, List.mem_flatMap]
  constructor
  · rintro ⟨n, -, he⟩
    exact (List.mem_filter.mp he).1
  · intro he
    obtain ⟨n, hn, hname⟩ := List.mem_map.mp (ends_mem_names_ofRows he).1
    exact ⟨n, hn, List.mem_filter.mpr ⟨he, by simp [hname]⟩⟩

end Names

-- A character that is not in the separator comes from an opcode.
theorem mem_opcodeText {e : Edge} (h : ∀ o ∈ e.opcodes, ∃ text, o = .str text) {c : Char}
    (hc : c ∉ " | ".toList) :
    c ∈ (opcodeText e).toList ↔ ∃ text, .str text ∈ e.opcodes ∧ c ∈ text.toList := by
  obtain ⟨texts, htexts⟩ := Json.exists_map_str h
  obtain ⟨sorted, hperm, hsorted⟩ := sortOpcodes_map_str texts
  have hline : opcodeLine e = .ok (" | ".intercalate sorted) := by
    rw [opcodeLine, htexts, hsorted, ok_bind, Json.mapM_str?]
    rfl
  rw [opcodeText_of_ok hline, String.toList_intercalate, mem_intercalate hc, htexts]
  simp [hperm.mem_iff]

-- The tree of an edge names the blocks that it joins.
def HasEnds (tree : Json) (source target : String) : Prop :=
  ∃ fields, tree = .obj fields ∧ Json.lookup "from" fields = some (.str source) ∧
    Json.lookup "to" fields = some (.str target)

theorem hasEnds_edgeTree {g : BlockGraph} {e : Edge} {tree : Json} (h : g.edgeTree e = .ok tree) :
    HasEnds tree e.source e.target := by
  rw [edgeTree] at h
  obtain ⟨opcodes, -, htree⟩ := bind_eq_ok.mp h
  exact ⟨_, (pure_eq_ok.mp htree).symm, by simp [Json.lookup], by simp [Json.lookup]⟩

namespace Mermaid

-- A line that shows a block under its place.
def Shows (place : Nat) (name line : String) : Prop :=
  ∃ note : String, note ∈ ["", "\\nUNDEFINED"] ∧ ∃ status : Status,
    line = s!"    n{place}[\"{escape name}{note}\"]:::{status.name}"

-- A line that joins two places.
def Joins (source target : Nat) (line : String) : Prop :=
  line = s!"    n{source} -.-> n{target}" ∨
    ∃ opcodes : String, line = s!"    n{source} -->|\"{opcodes}\"| n{target}"

-- The lines of a drawing beside the tree of the same graph. Each block has one name, and so one
-- place.
structure Elements (g : BlockGraph) (tree : Json) (nodes edges : List String) : Prop where
  names : g.names.Nodup
  nodes : List.Forall₂ (fun n line => Shows n.2 n.1 line) g.names.zipIdx nodes
  edges : ∃ fields trees, tree = .obj fields ∧ Json.lookup "edges" fields = some (.arr trees) ∧
    List.Forall₂ (fun tree line => ∃ source target first last, HasEnds tree source target ∧
      g.names[first]? = some source ∧ g.names[last]? = some target ∧ Joins first last line)
      trees edges

section Elements

variable {g : BlockGraph}

theorem shows_nodeLine (place : Nat) (n : Node) : Shows place n.name (nodeLine place n) := by
  unfold nodeLine caption
  split
  · exact ⟨"\\nUNDEFINED", by simp, n.status, by simp [toString, String.append_assoc]⟩
  · exact ⟨"", by simp, n.status, by simp [toString]⟩

theorem joins_edgeLine {e : Edge} {line : String} (h : edgeLine g e = .ok line) :
    Joins (position g e.source) (position g e.target) line := by
  rw [drawn_eq h]
  split
  · exact .inr ⟨opcodeText e, rfl⟩
  · exact .inl rfl

theorem elements_ofRows {rows : List Row} {tree : Json} {edges : List String}
    (htree : (ofRows rows).toJson = .ok tree)
    (hedges : (ofRows rows).orderedEdges.mapM (edgeLine (ofRows rows)) = .ok edges) :
    Elements (ofRows rows) tree (nodeLines 0 (ofRows rows).nodes) edges where
  names := nodup_names_ofRows rows
  nodes := by
    have hnames : (ofRows rows).names.zipIdx =
        (ofRows rows).nodes.zipIdx.map (Prod.map Node.name id) := List.zipIdx_map
    rw [hnames, nodeLines_eq_map, List.forall₂_map_left_iff, List.forall₂_map_right_iff,
      List.forall₂_same]
    exact fun n _ => shows_nodeLine n.2 n.1
  edges := by
    rw [toJson] at htree
    obtain ⟨trees, htrees, hobj⟩ := bind_eq_ok.mp htree
    refine ⟨_, trees, (pure_eq_ok.mp hobj).symm, by simp [Json.lookup],
      forall₂_of_mapM ?_ htrees hedges⟩
    intro e he tree line hends hline
    obtain ⟨hsource, htarget⟩ := ends_mem_names_ofRows (mem_orderedEdges_ofRows.mp he)
    exact ⟨e.source, e.target, _, _, hasEnds_edgeTree hends, getElem?_position hsource,
      getElem?_position htarget, joins_edgeLine hline⟩

end Elements

-- All lines of a drawing, in order.
def linesOf (nodes edges : List String) : List String :=
  header defaultTitle ++ nodes ++ [""] ++ edges ++ [""] ++ classLines

section Feeds

variable {g : BlockGraph}

theorem feed_mem_escape (s : String) : '\n' ∈ (escape s).toList ↔ '\n' ∈ s.toList := by
  have hchar (c : Char) : '\n' ∈ escapeChar c ↔ c = '\n' := by
    unfold escapeChar
    split
    · rename_i hquote
      subst hquote
      decide
    · simp [eq_comm]
  simp [escape, List.mem_flatMap, hchar]

theorem feed_mem_shows {place : Nat} {name line : String} (h : Shows place name line) :
    '\n' ∈ line.toList ↔ '\n' ∈ name.toList := by
  obtain ⟨note, hnote, status, rfl⟩ := h
  have hplace : '\n' ∉ Nat.toDigits 10 place := Json.notMem_toDigits rfl place
  have hnote : '\n' ∉ note.toList := by
    simp only [List.mem_cons, List.not_mem_nil, or_false] at hnote
    rcases hnote with rfl | rfl <;> decide
  have hstatus : '\n' ∉ status.name.toList := by cases status <;> decide
  simp [toString, hplace, hnote, hstatus, feed_mem_escape]

theorem feed_mem_edgeLine {e : Edge} {line : String} (h : edgeLine g e = .ok line) :
    '\n' ∈ line.toList ↔ e.reference = true ∧ '\n' ∈ (opcodeText e).toList := by
  have hplace (n : Nat) : '\n' ∉ Nat.toDigits 10 n := Json.notMem_toDigits rfl n
  rw [toList_edgeLine h]
  cases e.reference with
  | true => simp [edgeParts, Part.text, toString, hplace]
  | false => simp [edgeParts, Part.text, toString, hplace]

theorem feed_notMem_nodeLines (nodes : List Node) :
    (∀ line ∈ nodeLines 0 nodes, '\n' ∉ line.toList) ↔ ∀ n ∈ nodes, '\n' ∉ n.name.toList := by
  have hline (n : Node × Nat) := not_congr (feed_mem_shows (shows_nodeLine n.2 n.1))
  simp only [nodeLines_eq_map, List.forall_mem_map, hline]
  rw [← List.forall_mem_map (P := fun n : Node => '\n' ∉ n.name.toList) (f := Prod.fst),
    List.zipIdx_map_fst]

theorem feed_notMem_linesOf {nodes edges : List String} :
    (∀ line ∈ linesOf nodes edges, '\n' ∉ line.toList) ↔
      (∀ line ∈ nodes, '\n' ∉ line.toList) ∧ ∀ line ∈ edges, '\n' ∉ line.toList := by
  have hheader : ∀ line ∈ header defaultTitle, '\n' ∉ line.toList := by decide +kernel
  have hclass := notMem_classLines (c := '\n') (.inl rfl)
  have hempty : ∀ line ∈ [""], '\n' ∉ line.toList := by decide
  simp only [linesOf, List.forall_mem_append]
  constructor
  · rintro ⟨⟨⟨⟨⟨-, hnodes⟩, -⟩, hedges⟩, -⟩, -⟩
    exact ⟨hnodes, hedges⟩
  · rintro ⟨hnodes, hedges⟩
    exact ⟨⟨⟨⟨⟨hheader, hnodes⟩, hempty⟩, hedges⟩, hempty⟩, hclass⟩

end Feeds

end Mermaid

-- No name of a stream holds a line feed, nor does the opcode of an instruction that refers to one.
structure KeepsLines (s : Stream) : Prop where
  labels : ∀ i ∈ s.instructions, ∀ name, .str name ∈ i.labels →
    '\n' ∉ (Symbol.unquote name).toList
  operands : ∀ i ∈ s.instructions, ∀ name, .label name ∈ i.operands →
    '\n' ∉ (Symbol.unquote name).toList
  opcodes : ∀ i ∈ s.instructions, (∃ name, .label name ∈ i.operands) →
    ∀ opcode, i.opcode = .str opcode → '\n' ∉ opcode.toList

section KeepsLines

variable {s : Stream}

theorem forall_names_textRows {P : String → Prop} (hentry : P entryName)
    (hlabels : ∀ i ∈ s.instructions, ∀ l ∈ i.labels, ∃ name, l = .str name) :
    (∀ name ∈ (ofRows (textRows s)).names, P name) ↔
      (∀ i ∈ s.instructions, ∀ name, .str name ∈ i.labels → P (Symbol.unquote name)) ∧
        ∀ i ∈ s.instructions, ∀ name, .label name ∈ i.operands → P (Symbol.unquote name) := by
  have hopening : ∀ name ∈ if opensUnlabelled (textRows s) then [entryName] else [], P name := by
    split
    · simpa using hentry
    · simp
  have hattached : (∀ name ∈ attached (textRows s), P name) ↔
      ∀ i ∈ s.instructions, ∀ name, .str name ∈ i.labels → P (Symbol.unquote name) := by
    simp only [attached, textRows, List.forall_mem_flatMap, List.forall_mem_map, Row.ofTexts]
    refine forall₂_congr fun i hi => ⟨fun h name hname => h (.str name) hname, fun h l hl => ?_⟩
    obtain ⟨name, rfl⟩ := hlabels i hi l hl
    exact h name hl
  have hreferred : (∀ name ∈ referred (textRows s), P name) ↔
      ∀ i ∈ s.instructions, ∀ name, .label name ∈ i.operands → P (Symbol.unquote name) := by
    simp only [referred, textRows, List.forall_mem_flatMap, List.forall_mem_map, Row.ofTexts,
      mem_referenceNames]
    refine forall₂_congr fun i hi => ⟨fun h name hname => h _ ⟨name, hname, rfl⟩, ?_⟩
    rintro h _ ⟨name, hname, rfl⟩
    exact h name hname
  rw [names_ofRows]
  simp only [List.mem_eraseDups, trail, List.forall_mem_append, hattached, hreferred]
  exact ⟨fun h => ⟨h.1.2, h.2⟩, fun h => ⟨⟨hopening, h.1⟩, h.2⟩⟩

-- The opcodes that are drawn are those of instructions that refer to a name.
theorem notMem_opcodeText_textRows
    (hopcodes : ∀ i ∈ s.instructions, ∃ opcode, i.opcode = .str opcode) {c : Char}
    (hc : c ∉ " | ".toList) :
    (∀ e ∈ (ofRows (textRows s)).orderedEdges, ¬(e.reference = true ∧ c ∈ (opcodeText e).toList)) ↔
      ∀ i ∈ s.instructions, (∃ name, .label name ∈ i.operands) →
        ∀ opcode, i.opcode = .str opcode → c ∉ opcode.toList := by
  have hmentioned := text_of_mem_mentions hopcodes
  have htexts {e : Edge} (he : e ∈ (ofRows (textRows s)).edges) :
      ∀ o ∈ e.opcodes, ∃ text, o = .str text := by
    intro o ho
    obtain ⟨-, r, hr, -, rfl⟩ := ((opcodes_ofRows hmentioned he).2 o).mp ho
    exact hmentioned r hr
  simp only [mem_orderedEdges_ofRows]
  constructor
  · rintro h i hi ⟨operand, hoperand⟩ opcode hopcode hmem
    obtain ⟨before, after, hcut⟩ := List.append_of_mem hi
    have hrefers : Refers s.instructions (blockAfter ((before ++ [i]).map Row.ofTexts))
        (Symbol.unquote operand) i := ⟨before, after, hcut, rfl, operand, hoperand, rfl⟩
    have hr : ⟨_, _, i.opcode⟩ ∈ mentions (textRows s) := mem_mentions_texts.mpr ⟨i, hrefers, rfl⟩
    obtain ⟨e, he, hends, hreference⟩ := reference_ofRows.mpr ⟨_, hr, rfl⟩
    have hne : Json.str opcode ≠ .str "" := by
      rintro ⟨⟩
      simp at hmem
    refine h e he ⟨hreference, (mem_opcodeText (htexts he) hc).mpr ⟨opcode, ?_, hmem⟩⟩
    exact ((opcodes_ofRows hmentioned he).2 _).mpr ⟨hne, _, hr, hends.symm, hopcode⟩
  · rintro h e he ⟨-, hmem⟩
    obtain ⟨text, htext, hmem⟩ := (mem_opcodeText (htexts he) hc).mp hmem
    obtain ⟨-, r, hr, -, hopcode⟩ := ((opcodes_ofRows hmentioned he).2 _).mp htext
    obtain ⟨i, ⟨before, after, hcut, -, operand, hoperand, -⟩, hi⟩ := mem_mentions_texts.mp hr
    exact h i (by simp [hcut]) ⟨operand, hoperand⟩ text (hi.trans hopcode) hmem

-- Every line of a drawing is an element of the graph, and every element a line, exactly if the
-- texts that are drawn hold no line feed, as nothing but a quote is escaped in them.
theorem Mermaid.lines_ofStream
    (hopcodes : ∀ i ∈ s.instructions, ∃ opcode, i.opcode = .str opcode)
    (hlabels : ∀ i ∈ s.instructions, ∀ l ∈ i.labels, ∃ name, l = .str name) :
    ∃ g text tree nodes edges, ofStream s = .ok g ∧
      Mermaid.render Mermaid.defaultTitle g = .ok text ∧ g.toJson = .ok tree ∧
      Elements g tree nodes edges ∧
      (header defaultTitle).length = 4 ∧ classLines.length = 3 ∧
      text.toList = ((linesOf nodes edges).map String.toList).flatMap (· ++ ['\n']) ∧
      (splitAtMark '\n' text.toList = (linesOf nodes edges).map String.toList ++ [[]] ↔
        KeepsLines s) := by
  rcases ofStream_cases hopcodes with ⟨-, g, hg, htexts⟩ | ⟨hnone, -⟩
  · obtain rfl : ofRows (textRows s) = g :=
      Except.ok.inj ((ofStream_texts hopcodes hlabels).symm.trans hg)
    obtain ⟨tree, htree⟩ := toJson_isOk htexts
    obtain ⟨text, htext⟩ := Mermaid.render_isOk htexts Mermaid.defaultTitle
    obtain ⟨edges, hedges, hlines⟩ := bind_eq_ok.mp htext
    have hwritten : text.toList = ((linesOf (nodeLines 0 (ofRows (textRows s)).nodes) edges).map
        String.toList).flatMap (· ++ ['\n']) := by
      rw [← pure_eq_ok.mp hlines]
      exact toList_lines (by simp [header])
    refine ⟨ofRows (textRows s), text, tree, nodeLines 0 (ofRows (textRows s)).nodes, edges, hg,
      htext, htree, elements_ofRows htree hedges, rfl, rfl, hwritten, ?_⟩
    have hnodes : (∀ line ∈ nodeLines 0 (ofRows (textRows s)).nodes, '\n' ∉ line.toList) ↔
        ∀ name ∈ (ofRows (textRows s)).names, '\n' ∉ name.toList := by
      rw [feed_notMem_nodeLines, names, List.forall_mem_map]
    have hedgeLines : (∀ line ∈ edges, '\n' ∉ line.toList) ↔
        ∀ e ∈ (ofRows (textRows s)).orderedEdges,
          ¬(e.reference = true ∧ '\n' ∈ (opcodeText e).toList) := by
      exact forall_of_mapM (fun e line hline => not_congr (feed_mem_edgeLine hline)) hedges
    rw [hwritten, Text.splitAtMark_flatMap_eq_iff, List.forall_mem_map]
    rw [feed_notMem_linesOf, hnodes, hedgeLines, notMem_opcodeText_textRows hopcodes (by decide),
      forall_names_textRows (P := fun name => '\n' ∉ name.toList) (by decide) hlabels]
    exact ⟨fun h => ⟨h.1.1, h.1.2, h.2⟩, fun h => ⟨⟨h.labels, h.operands⟩, h.opcodes⟩⟩
  · exact absurd hlabels hnone

-- Names with a carriage return and a quote, one of them attached, both in one edge.
def returnStream : Stream :=
  ⟨[{ opcode := .str "b\u2028", labels := [.str "a\rb"], operands := [.label "\"\\\"\""] }]⟩

def returnGraph : BlockGraph where
  nodes := [⟨"a\rb", .defined, 1⟩, ⟨"\"", .missing, 0⟩]
  edges := [{ source := "a\rb", target := "\"", reference := true, opcodes := [.str "b\u2028"] }]

theorem Mermaid.lines_ofStream_return :
    ∃ text nodes edges, ofStream returnStream = .ok returnGraph ∧
      Mermaid.render Mermaid.defaultTitle returnGraph = .ok text ∧ nodes.length = 2 ∧
      splitAtMark '\n' text.toList = (linesOf nodes edges).map String.toList ++ [[]] := by
  have hgraph : ofStream returnStream = .ok returnGraph := rfl
  have hkeeps : KeepsLines returnStream := by
    constructor <;> simp [returnStream] <;> decide
  obtain ⟨g, text, tree, nodes, edges, hg, htext, -, helements, -, -, -, hlines⟩ :=
    Mermaid.lines_ofStream (s := returnStream) (by simp [returnStream]) (by simp [returnStream])
  obtain rfl : returnGraph = g := Except.ok.inj (hgraph.symm.trans hg)
  exact ⟨text, nodes, edges, hgraph, htext, helements.nodes.length_eq.symm, hlines.mpr hkeeps⟩

-- A name with a line feed in it makes two lines of one block.
def feedStream : Stream := ⟨[{ opcode := .str "b", labels := [.str "a\nc"] }]⟩

def feedGraph : BlockGraph where
  nodes := [⟨"a\nc", .defined, 1⟩]

theorem Mermaid.lines_brokenName :
    (∀ i ∈ feedStream.instructions, (∃ opcode, i.opcode = .str opcode) ∧
      ∀ l ∈ i.labels, ∃ name, l = .str name) ∧
      ofStream feedStream = .ok feedGraph ∧ feedGraph.orderedEdges = [] ∧
      ∃ text, Mermaid.render Mermaid.defaultTitle feedGraph = .ok text ∧
        (splitAtMark '\n' text.toList).length = 4 + 2 + 1 + 1 + 3 + 1 ∧
        (splitAtMark '\n' text.toList)[5]? = some "c\"]:::defined".toList := by
  have hrender : Mermaid.render Mermaid.defaultTitle feedGraph =
      .ok ("\n".intercalate (linesOf ["    n0[\"a\nc\"]:::defined"] []) ++ "\n") := rfl
  refine ⟨by simp [feedStream], rfl, rfl, _, hrender, ?_⟩
  rw [toList_lines (by simp [linesOf, header]), Text.splitAtMark_flatMap]
  exact ⟨by decide +kernel, by decide +kernel⟩

end KeepsLines

end Listing.BlockGraph
