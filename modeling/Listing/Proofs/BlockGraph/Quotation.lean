import Listing.Proofs.BlockGraph.Pieces
import Listing.Proofs.Json.Number

namespace Listing

open Text (Part Closes ReadsAs outsideQuotes)

namespace BlockGraph

section Closing

theorem quote_notMem_toDigits (n : Nat) : '"' ∉ Nat.toDigits 10 n := Json.notMem_toDigits rfl n

theorem Dot.closes_escape (s : String) : Closes true (Dot.escape s).toList := by
  rw [Dot.escape, String.toList_ofList]
  exact Text.closes_escape s.toList

-- The backslash that a caption sets behind the name takes a letter along.
theorem Dot.closes_caption (n : Node) : Closes true (Dot.caption n).toList := by
  have hcount : Closes true ("\\n(" ++ toString n.instructions ++ " instr)").toList := by
    have hdigits : (toString n.instructions).toList = Nat.toDigits 10 n.instructions :=
      Nat.toList_repr
    have hplain : ∀ c ∈ Nat.toDigits 10 n.instructions, c ≠ '"' ∧ c ≠ '\\' := by
      intro c hc
      have hdigit := Json.isAsciiDigit_of_mem_toDigits hc
      constructor <;> (rintro rfl; cases hdigit)
    have hopen : Closes true "\\n(".toList := by decide
    have hclose : Closes true " instr)".toList := by decide
    rw [String.toList_append, String.toList_append, hdigits]
    exact Text.closes_append (Text.closes_append hopen (Text.closes_of_plain hplain)) hclose
  have hmissing : Closes true "\\n[UNDEFINED]".toList := by decide
  have hname := Dot.closes_escape n.name
  unfold Dot.caption
  split
  · simpa [toString] using Text.closes_append hname hmissing
  · simpa [toString] using Text.closes_append hname hcount

theorem Mermaid.closes_escape (s : String) : Closes false (Mermaid.escape s).toList := by
  rw [Text.closes_unescaped, Mermaid.escape, String.toList_ofList]
  intro h
  obtain ⟨c, -, hc⟩ := List.mem_flatMap.mp h
  by_cases hquote : c = '"'
  · rw [Mermaid.escapeChar, if_pos hquote] at hc
    exact absurd hc (by decide)
  · rw [Mermaid.escapeChar, if_neg hquote] at hc
    exact hquote (List.mem_singleton.mp hc).symm

theorem Mermaid.closes_caption (n : Node) : Closes false (Mermaid.caption n).toList := by
  have hname := Mermaid.closes_escape n.name
  have hmissing : Closes false "\\nUNDEFINED".toList := by decide
  unfold Mermaid.caption
  split
  · simpa [toString] using Text.closes_append hname hmissing
  · exact hname

end Closing

section Pieces

-- A piece that is not quoted holds no quote, and a quoted one is allowed.
def Fits (allowed : String → Prop) : Part → Prop
  | .plain s => '"' ∉ s.toList
  | .quoted s => allowed s

variable {allowed : String → Prop}

theorem fits_endLines {lines : List (List Part)}
    (h : ∀ line ∈ lines, ∀ p ∈ line, Fits allowed p) : ∀ p ∈ endLines lines, Fits allowed p := by
  intro p hp
  obtain ⟨line, hline, hp⟩ := List.mem_flatMap.mp hp
  rcases List.mem_append.mp hp with hp | hp
  · exact h line hline p hp
  · rw [List.mem_singleton.mp hp]
    exact show '"' ∉ "\n".toList by decide

theorem Dot.fits_parts {title : String} {g : BlockGraph} (htitle : allowed title)
    (hopcodes : ∀ e ∈ g.orderedEdges, e.reference = true → allowed (opcodeText e))
    (hcloses : ∀ s : String, Closes true s.toList → allowed s) :
    ∀ p ∈ Dot.parts title g, Fits allowed p := by
  have hheader : ∀ line ∈ Dot.headerParts title, ∀ p ∈ line, Fits allowed p := by
    have hname := hcloses "labels" (by decide)
    have hfont := hcloses "Courier New" (by decide)
    have hmargin := hcloses "0.2,0.1" (by decide)
    simp [Dot.headerParts, Fits, htitle, hname, hfont, hmargin]
  have hnode (n : Node) : ∀ p ∈ Dot.nodeParts n, Fits allowed p := by
    have hname := hcloses _ (Dot.closes_escape n.name)
    have hcaption := hcloses _ (Dot.closes_caption n)
    have hstyle := hcloses (Dot.style n.status) (by cases n.status <;> decide)
    have hfill := hcloses n.status.fill (by cases n.status <;> decide)
    have hfont := hcloses "white" (by decide)
    have hshape : '"' ∉ (Dot.shape n.status).toList := by cases n.status <;> decide
    simp [Dot.nodeParts, Fits, toString, hname, hcaption, hstyle, hfill, hfont, hshape]
  have hedge (e : Edge) (he : e ∈ g.orderedEdges) : ∀ p ∈ Dot.edgeParts e.source e.target
      (g.edgeColor e) e.reference (opcodeText e), Fits allowed p := by
    have hsource := hcloses _ (Dot.closes_escape e.source)
    have htarget := hcloses _ (Dot.closes_escape e.target)
    have hcolor := hcloses (g.edgeColor e) (by unfold edgeColor; split <;> decide)
    cases hreference : e.reference with
    | true => simp [Dot.edgeParts, Fits, hsource, htarget, hcolor, hopcodes e he hreference]
    | false => simp [Dot.edgeParts, Fits, hsource, htarget, hcolor]
  apply fits_endLines
  simp only [List.forall_mem_append, List.forall_mem_map, List.forall_mem_singleton]
  exact ⟨⟨⟨⟨hheader, fun n _ => hnode n⟩, by simp⟩, hedge⟩, show '"' ∉ "\x7d".toList by decide⟩

theorem Mermaid.fits_parts {title : String} {g : BlockGraph} (htitle : allowed title)
    (hopcodes : ∀ e ∈ g.orderedEdges, e.reference = true → allowed (opcodeText e))
    (hcloses : ∀ s : String, Closes false s.toList → allowed s) :
    ∀ p ∈ Mermaid.parts title g, Fits allowed p := by
  have hheader : ∀ line ∈ Mermaid.headerParts title, ∀ p ∈ line, Fits allowed p := by
    simp [Mermaid.headerParts, Fits, htitle]
  have hnode (n : Node × Nat) : ∀ p ∈ Mermaid.nodeParts n.1 n.2, Fits allowed p := by
    have hcaption := hcloses _ (Mermaid.closes_caption n.1)
    have hplace := quote_notMem_toDigits n.2
    have hstatus : '"' ∉ n.1.status.name.toList := by cases n.1.status <;> decide
    simp [Mermaid.nodeParts, Fits, toString, hcaption, hplace, hstatus]
  have hedge (e : Edge) (he : e ∈ g.orderedEdges) : ∀ p ∈ Mermaid.edgeParts
      (Mermaid.position g e.source) (Mermaid.position g e.target) e.reference (opcodeText e),
      Fits allowed p := by
    have hsource := quote_notMem_toDigits (Mermaid.position g e.source)
    have htarget := quote_notMem_toDigits (Mermaid.position g e.target)
    cases hreference : e.reference with
    | true => simp [Mermaid.edgeParts, Fits, toString, hsource, htarget, hopcodes e he hreference]
    | false => simp [Mermaid.edgeParts, Fits, toString, hsource, htarget]
  have hclass := Mermaid.notMem_classLines (c := '"') (.inr rfl)
  apply fits_endLines
  simp only [List.forall_mem_append, List.forall_mem_map, List.forall_mem_singleton]
  exact ⟨⟨⟨⟨⟨hheader, fun n _ => hnode n⟩, by simp⟩, hedge⟩, by simp⟩, hclass⟩

end Pieces

-- What the quotes in a drawing come to for a reader. A name never runs on; the title and the
-- opcodes of references can, and only if they do, the reader is led astray.
structure Quotes (escaping : Bool) (title : String) (g : BlockGraph) (text : String)
    (named : List String) (parts : List Part) (outline : List Char) : Prop where
  written : text.toList = parts.flatMap Part.text
  named : ∀ s ∈ named, .quoted s ∈ parts ∧ Closes escaping s.toList
  reads : ReadsAs escaping parts ↔ Closes escaping title.toList ∧
    ∀ e ∈ g.orderedEdges, e.reference = true → Closes escaping (opcodeText e).toList
  outside : ReadsAs escaping parts → outsideQuotes escaping text.toList = outline

section Quotes

variable {escaping : Bool} {title text : String} {g : BlockGraph} {parts : List Part}

theorem mem_endLines {lines : List (List Part)} {p : Part} (line : List Part) (hline : line ∈ lines)
    (hp : p ∈ line) : p ∈ endLines lines :=
  List.mem_flatMap.mpr ⟨line, hline, List.mem_append_left _ hp⟩

-- Only what the title and the opcodes leave open decides how a drawing reads.
theorem readsAs_parts
    (hfits : ∀ allowed : String → Prop, allowed title →
      (∀ e ∈ g.orderedEdges, e.reference = true → allowed (opcodeText e)) →
      (∀ s : String, Closes escaping s.toList → allowed s) → ∀ p ∈ parts, Fits allowed p)
    (htitle : .quoted title ∈ parts)
    (hopcodes : ∀ e ∈ g.orderedEdges, e.reference = true → .quoted (opcodeText e) ∈ parts) :
    ReadsAs escaping parts ↔ Closes escaping title.toList ∧
      ∀ e ∈ g.orderedEdges, e.reference = true → Closes escaping (opcodeText e).toList := by
  have hplain (s : String) (hs : .plain s ∈ parts) : '"' ∉ s.toList :=
    hfits (fun _ => True) trivial (fun _ _ _ => trivial) (fun _ _ => trivial) (.plain s) hs
  rw [Text.readsAs_iff hplain]
  constructor
  · exact fun h => ⟨h title htitle, fun e he hreference => h _ (hopcodes e he hreference)⟩
  · rintro ⟨hclosed, hlines⟩ s hs
    exact hfits (fun s => Closes escaping s.toList) hclosed hlines (fun _ h => h) (.quoted s) hs

theorem Dot.quoted_mem_parts (title : String) (g : BlockGraph) :
    (∀ s ∈ Dot.named g, .quoted s ∈ Dot.parts title g) ∧ .quoted title ∈ Dot.parts title g ∧
      ∀ e ∈ g.orderedEdges, e.reference = true → .quoted (opcodeText e) ∈ Dot.parts title g := by
  have hnode (n : Node) (hn : n ∈ g.nodes) {p : Part} (hp : p ∈ Dot.nodeParts n) :
      p ∈ Dot.parts title g := by
    refine mem_endLines (Dot.nodeParts n) ?_ hp
    simp only [List.mem_append, List.mem_map]
    exact .inl (.inl (.inl (.inr ⟨n, hn, rfl⟩)))
  have hedge (e : Edge) (he : e ∈ g.orderedEdges) {p : Part} (hp : p ∈ Dot.edgeParts e.source
      e.target (g.edgeColor e) e.reference (opcodeText e)) : p ∈ Dot.parts title g := by
    refine mem_endLines _ ?_ hp
    simp only [List.mem_append, List.mem_map]
    exact .inl (.inr ⟨e, he, rfl⟩)
  refine ⟨?_, ?_, ?_⟩
  · intro s hs
    rcases List.mem_append.mp hs with hs | hs
    · obtain ⟨n, hn, hs⟩ := List.mem_flatMap.mp hs
      apply hnode n hn
      simp only [List.mem_cons, List.not_mem_nil, or_false] at hs
      rcases hs with rfl | rfl <;> simp [Dot.nodeParts]
    · obtain ⟨e, he, hs⟩ := List.mem_flatMap.mp hs
      apply hedge e he
      simp only [List.mem_cons, List.not_mem_nil, or_false] at hs
      rcases hs with rfl | rfl <;> simp [Dot.edgeParts]
  · apply mem_endLines [.plain "    label=", .quoted title, .plain ";"]
    · simp [Dot.headerParts]
    · simp
  · intro e he hreference
    apply hedge e he
    simp [Dot.edgeParts, hreference]

theorem Mermaid.quoted_mem_parts (title : String) (g : BlockGraph) :
    (∀ s ∈ Mermaid.named g, .quoted s ∈ Mermaid.parts title g) ∧
      .quoted title ∈ Mermaid.parts title g ∧
      ∀ e ∈ g.orderedEdges, e.reference = true →
        .quoted (opcodeText e) ∈ Mermaid.parts title g := by
  refine ⟨?_, ?_, ?_⟩
  · intro s hs
    obtain ⟨n, hn, rfl⟩ := List.mem_map.mp hs
    obtain ⟨place, hplace⟩ := List.mem_iff_getElem?.mp hn
    apply mem_endLines (Mermaid.nodeParts n place)
    · simp only [List.mem_append, List.mem_map]
      have hplaced : (n, place) ∈ g.nodes.zipIdx := List.mem_zipIdx_iff_getElem?.mpr hplace
      exact .inl (.inl (.inl (.inl (.inr ⟨(n, place), hplaced, rfl⟩))))
    · simp [Mermaid.nodeParts]
  · apply mem_endLines [.plain "title: ", .quoted title]
    · simp [Mermaid.headerParts]
    · simp
  · intro e he hreference
    apply mem_endLines (Mermaid.edgeParts (Mermaid.position g e.source)
      (Mermaid.position g e.target) e.reference (opcodeText e))
    · simp only [List.mem_append, List.mem_map]
      exact .inl (.inl (.inr ⟨e, he, rfl⟩))
    · simp [Mermaid.edgeParts, hreference]

theorem Dot.closes_named {s : String} (h : s ∈ Dot.named g) : Closes true s.toList := by
  rcases List.mem_append.mp h with h | h
  · obtain ⟨n, -, h⟩ := List.mem_flatMap.mp h
    simp only [List.mem_cons, List.not_mem_nil, or_false] at h
    rcases h with rfl | rfl
    · exact Dot.closes_escape n.name
    · exact Dot.closes_caption n
  · obtain ⟨e, -, h⟩ := List.mem_flatMap.mp h
    simp only [List.mem_cons, List.not_mem_nil, or_false] at h
    rcases h with rfl | rfl
    · exact Dot.closes_escape e.source
    · exact Dot.closes_escape e.target

theorem Dot.quotes (h : Dot.render title g = .ok text) :
    Quotes true title g text (Dot.named g) (Dot.parts title g) (Dot.outline g.shape) where
  written := Dot.toList_render h
  named s hs := ⟨(Dot.quoted_mem_parts title g).1 s hs, Dot.closes_named hs⟩
  reads := by
    obtain ⟨-, htitle, hopcodes⟩ := Dot.quoted_mem_parts title g
    exact readsAs_parts (fun _ => Dot.fits_parts) htitle hopcodes
  outside hreads := by
    rw [Dot.toList_render h, Text.outsideQuotes_of_readsAs hreads, Dot.frame_parts]

theorem Mermaid.quotes (h : Mermaid.render title g = .ok text) :
    Quotes false title g text (Mermaid.named g) (Mermaid.parts title g)
      (Mermaid.outline g.shape) where
  written := Mermaid.toList_render h
  named s hs := by
    obtain ⟨n, -, rfl⟩ := List.mem_map.mp hs
    exact ⟨(Mermaid.quoted_mem_parts title g).1 _ hs, Mermaid.closes_caption n⟩
  reads := by
    obtain ⟨-, htitle, hopcodes⟩ := Mermaid.quoted_mem_parts title g
    exact readsAs_parts (fun _ => Mermaid.fits_parts) htitle hopcodes
  outside hreads := by
    rw [Mermaid.toList_render h, Text.outsideQuotes_of_readsAs hreads, Mermaid.frame_parts]

-- Both drawings of a stream's graph read as they are meant exactly where the title and the opcodes
-- of every reference keep to their quotes, which names always do. Then nothing of any text stands
-- outside of the quotes.
theorem quotes_ofStream {s : Stream}
    (hopcodes : ∀ i ∈ s.instructions, ∃ opcode, i.opcode = .str opcode)
    (hlabels : ∀ i ∈ s.instructions, ∀ l ∈ i.labels, ∃ name, l = .str name) (title : String) :
    ∃ g dot mermaid, ofStream s = .ok g ∧ Dot.render title g = .ok dot ∧
      Mermaid.render title g = .ok mermaid ∧
      Quotes true title g dot (Dot.named g) (Dot.parts title g) (Dot.outline g.shape) ∧
      Quotes false title g mermaid (Mermaid.named g) (Mermaid.parts title g)
        (Mermaid.outline g.shape) := by
  rcases ofStream_cases hopcodes with ⟨-, g, hg, htexts⟩ | ⟨hnone, -⟩
  · obtain ⟨dot, hdot⟩ := Dot.render_isOk htexts title
    obtain ⟨mermaid, hmermaid⟩ := Mermaid.render_isOk htexts title
    exact ⟨g, dot, mermaid, hg, hdot, hmermaid, Dot.quotes hdot, Mermaid.quotes hmermaid⟩
  · exact absurd hlabels hnone

-- A name with a quote in it and a backslash at its end, in a block that refers to itself.
def slashName : String := "a\"b\\"

def slashStream : Stream :=
  ⟨[{ opcode := .str "JUMP", labels := [.str slashName], operands := [.label slashName] }]⟩

def slashGraph : BlockGraph where
  nodes := [⟨slashName, .defined, 1⟩]
  edges := [{ source := slashName, target := slashName, reference := true, opcodes := [.str "JUMP"] }]

theorem quotes_ofStream_slash :
    ∃ dot mermaid, ofStream slashStream = .ok slashGraph ∧
      Dot.render "a\\\\" slashGraph = .ok dot ∧ Mermaid.render "a\\\\" slashGraph = .ok mermaid ∧
      outsideQuotes true dot.toList = Dot.outline slashGraph.shape ∧
      outsideQuotes false mermaid.toList = Mermaid.outline slashGraph.shape := by
  have hgraph : ofStream slashStream = .ok slashGraph := rfl
  have hlines (escaping : Bool) : ∀ e ∈ slashGraph.orderedEdges, e.reference = true →
      Closes escaping (opcodeText e).toList := by
    cases escaping <;> decide
  obtain ⟨g, dot, mermaid, hg, hdot, hmermaid, hdotQuotes, hmermaidQuotes⟩ :=
    quotes_ofStream (s := slashStream) (by simp [slashStream]) (by simp [slashStream]) "a\\\\"
  obtain rfl : slashGraph = g := Except.ok.inj (hgraph.symm.trans hg)
  exact ⟨dot, mermaid, hg, hdot, hmermaid,
    hdotQuotes.outside (hdotQuotes.reads.mpr ⟨by decide, hlines true⟩),
    hmermaidQuotes.outside (hmermaidQuotes.reads.mpr ⟨by decide, hlines false⟩)⟩

-- Opcodes are drawn as they are, with a quote that ends what is quoted too soon.
def quotedOpcode : Stream := ⟨[{ opcode := .str "a\"b", operands := [.label "x"] }]⟩

def quotedEdge : Edge :=
  { source := entryName, target := "x", reference := true, opcodes := [.str "a\"b"] }

def quotedGraph : BlockGraph where
  nodes := [⟨entryName, .entry, 1⟩, ⟨"x", .missing, 0⟩]
  edges := [quotedEdge]

theorem drawings_quotedOpcode :
    (∀ i ∈ quotedOpcode.instructions, (∃ opcode, i.opcode = .str opcode) ∧
      ∀ l ∈ i.labels, ∃ name, l = .str name) ∧
      ofStream quotedOpcode = .ok quotedGraph ∧
      (∃ dot, Dot.render Dot.defaultTitle quotedGraph = .ok dot ∧
        dot.toList = (Dot.parts Dot.defaultTitle quotedGraph).flatMap Part.text ∧
        ¬ReadsAs true (Dot.parts Dot.defaultTitle quotedGraph)) ∧
      ∃ mermaid, Mermaid.render Mermaid.defaultTitle quotedGraph = .ok mermaid ∧
        mermaid.toList = (Mermaid.parts Mermaid.defaultTitle quotedGraph).flatMap Part.text ∧
        ¬ReadsAs false (Mermaid.parts Mermaid.defaultTitle quotedGraph) := by
  have htexts : quotedGraph.HasTextOpcodes := by
    simp [HasTextOpcodes, quotedGraph, quotedEdge]
  have hedge : quotedEdge ∈ quotedGraph.orderedEdges := by decide
  have hopen (escaping : Bool) : ¬Closes escaping (opcodeText quotedEdge).toList := by
    cases escaping <;> decide
  obtain ⟨dot, hdot⟩ := Dot.render_isOk htexts Dot.defaultTitle
  obtain ⟨mermaid, hmermaid⟩ := Mermaid.render_isOk htexts Mermaid.defaultTitle
  refine ⟨by simp [quotedOpcode], rfl, ⟨dot, hdot, Dot.toList_render hdot, fun h => ?_⟩,
    mermaid, hmermaid, Mermaid.toList_render hmermaid, fun h => ?_⟩
  · exact hopen true (((Dot.quotes hdot).reads.mp h).2 quotedEdge hedge rfl)
  · exact hopen false (((Mermaid.quotes hmermaid).reads.mp h).2 quotedEdge hedge rfl)

end Quotes

end BlockGraph
end Listing
