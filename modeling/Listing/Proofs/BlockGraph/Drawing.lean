import Listing.BlockGraph.Dot
import Listing.BlockGraph.Mermaid
import Listing.Proofs.BlockGraph.EdgeList
import Listing.Proofs.Json.Conversion

namespace Listing

-- What a name that is no text is refused for.
theorem Symbol.unquoted_cases (label : Json) :
    (∃ text, label = .str text ∧ unquoted label = .ok (unquote text)) ∨
      (¬∃ text, label = .str text) ∧
        ∃ m, (m = .wrongType ∨ m = .noOperation) ∧ unquoted label = .error m := by
  unfold unquoted
  split
  · exact .inl ⟨_, rfl, rfl⟩
  · exact .inr ⟨by simp, _, .inr rfl, rfl⟩
  · exact .inr ⟨by simp, _, .inr rfl, rfl⟩
  · rename_i hother _ _
    exact .inr ⟨by simpa using hother, _, .inl rfl, rfl⟩

theorem Symbol.unquoted_isOk {label : Json} :
    (∃ name, unquoted label = .ok name) ↔ ∃ text, label = .str text := by
  rcases unquoted_cases label with ⟨text, hlabel, hread⟩ | ⟨hlabel, m, -, hread⟩
  · exact ⟨fun _ => ⟨text, hlabel⟩, fun _ => ⟨_, hread⟩⟩
  · exact ⟨fun ⟨name, hname⟩ => (by simp [hread] at hname), fun h => absurd h hlabel⟩

theorem Symbol.unquoted_failsOnly (label : Json) :
    FailsOnly (fun m => m = .wrongType ∨ m = .noOperation) (unquoted label) := by
  rcases unquoted_cases label with ⟨text, -, hread⟩ | ⟨-, m, hm, hread⟩
  · rw [hread]
    exact failsOnly_ok _
  · rw [hread]
    exact failsOnly_error hm

namespace BlockGraph

section Rows

-- Only labels that are texts have rows.
theorem rows_isOk {is : List Instruction} :
    (∃ rows, is.mapM Row.ofInstruction = .ok rows) ↔ ∀ i ∈ is, ∀ l ∈ i.labels, ∃ text, l = .str text := by
  have hrow (i : Instruction) : (∃ row, Row.ofInstruction i = .ok row) ↔
      ∃ names, i.labels.mapM Symbol.unquoted = .ok names := by
    simp [Row.ofInstruction, map_eq_ok]
  simp only [mapM_isOk, hrow, Symbol.unquoted_isOk]

theorem rows_failsOnly (is : List Instruction) :
    FailsOnly (fun m => m = .wrongType ∨ m = .noOperation) (is.mapM Row.ofInstruction) := by
  refine failsOnly_mapM fun i _ => .bind ?_ fun _ _ => failsOnly_ok _
  exact failsOnly_mapM fun l _ => Symbol.unquoted_failsOnly l

end Rows

-- All opcodes that references are annotated with are texts.
def HasTextOpcodes (g : BlockGraph) : Prop := ∀ e ∈ g.edges, ∀ o ∈ e.opcodes, ∃ text, o = .str text

-- A stream with texts for its opcodes has a graph if its labels are texts too.
theorem ofStream_cases {s : Stream}
    (hopcodes : ∀ i ∈ s.instructions, ∃ opcode, i.opcode = .str opcode) :
    (∀ i ∈ s.instructions, ∀ l ∈ i.labels, ∃ text, l = .str text) ∧
        (∃ g, ofStream s = .ok g ∧ g.HasTextOpcodes) ∨
      (¬∀ i ∈ s.instructions, ∀ l ∈ i.labels, ∃ text, l = .str text) ∧
        ∃ m, (m = .wrongType ∨ m = .noOperation) ∧ ofStream s = .error m := by
  by_cases hlabels : ∀ i ∈ s.instructions, ∀ l ∈ i.labels, ∃ text, l = .str text
  · refine .inl ⟨hlabels, _, ofStream_texts hopcodes hlabels, fun e he o ho => ?_⟩
    have htexts := text_of_mem_mentions hopcodes
    obtain ⟨-, r, hr, -, rfl⟩ := ((opcodes_ofRows htexts he).2 o).mp ho
    exact htexts r hr
  · refine .inr ⟨hlabels, ?_⟩
    cases hrows : s.instructions.mapM Row.ofInstruction with
    | ok rows => exact absurd (rows_isOk.mp ⟨rows, hrows⟩) hlabels
    | error m => exact ⟨m, rows_failsOnly _ m hrows, by rw [ofStream, hrows]; rfl⟩

section Opcodes

variable {opcodes : List Json}

-- Texts can be ordered among themselves.
theorem sortOpcodes_map_str (texts : List String) :
    ∃ sorted : List String, sorted.Perm texts ∧
      sortOpcodes (texts.map .str) = .ok (sorted.map .str) := by
  rw [sortOpcodes]
  split
  · exact ⟨texts, .refl _, rfl⟩
  · rename_i hlength
    have hnumber : (texts.map Json.str).all (·.isNumber) = false := by
      cases texts with
      | nil => simp at hlength
      | cons text texts => rfl
    rw [hnumber, Json.mapM_str?]
    exact ⟨sortNames texts, sortNames_perm texts, rfl⟩

theorem opcodeLine_isOk {e : Edge} (h : ∀ o ∈ e.opcodes, ∃ text, o = .str text) :
    ∃ line, opcodeLine e = .ok line := by
  obtain ⟨texts, htexts⟩ := Json.exists_map_str h
  obtain ⟨sorted, -, hsorted⟩ := sortOpcodes_map_str texts
  rw [opcodeLine, htexts, hsorted, ok_bind, Json.mapM_str?]
  exact ⟨_, rfl⟩

-- An edge is drawn with its opcodes if it is a reference, and by itself otherwise.
theorem drawn_isOk {e : Edge} (h : ∀ o ∈ e.opcodes, ∃ text, o = .str text)
    (labelled : String → String) (bare : String) :
    ∃ line, (if e.reference then do return labelled (← opcodeLine e) else return bare) =
      Except.ok line := by
  obtain ⟨opcodes, hopcodes⟩ := opcodeLine_isOk h
  rw [hopcodes]
  split
  · exact ⟨_, rfl⟩
  · exact ⟨_, rfl⟩

end Opcodes

section Render

variable {g : BlockGraph}

-- What can be made of every edge that carries texts can be made of all the edges.
theorem mapM_orderedEdges_isOk {β : Type} {f : Edge → Except Misfit β} (h : g.HasTextOpcodes)
    (hf : ∀ e, (∀ o ∈ e.opcodes, ∃ text, o = .str text) → ∃ b, f e = .ok b) :
    ∃ bs, g.orderedEdges.mapM f = .ok bs := by
  refine mapM_isOk.mpr fun e he => hf e ?_
  obtain ⟨n, -, he⟩ := List.mem_flatMap.mp he
  exact h e (List.mem_filter.mp he).1

theorem Dot.render_isOk (h : g.HasTextOpcodes) (title : String) :
    ∃ text, Dot.render title g = .ok text := by
  obtain ⟨lines, hlines⟩ := mapM_orderedEdges_isOk (f := Dot.edgeLine g) h fun _ he =>
    drawn_isOk he _ _
  rw [Dot.render, hlines]
  exact ⟨_, rfl⟩

theorem Mermaid.render_isOk (h : g.HasTextOpcodes) (title : String) :
    ∃ text, Mermaid.render title g = .ok text := by
  obtain ⟨lines, hlines⟩ := mapM_orderedEdges_isOk (f := Mermaid.edgeLine g) h fun _ he =>
    drawn_isOk he _ _
  rw [Mermaid.render, hlines]
  exact ⟨_, rfl⟩

theorem toJson_isOk (h : g.HasTextOpcodes) : ∃ tree, g.toJson = .ok tree := by
  obtain ⟨trees, htrees⟩ := mapM_orderedEdges_isOk (f := g.edgeTree) h fun e he => by
    obtain ⟨texts, htexts⟩ := Json.exists_map_str he
    obtain ⟨sorted, -, hsorted⟩ := sortOpcodes_map_str texts
    rw [edgeTree, htexts, hsorted]
    exact ⟨_, rfl⟩
  rw [toJson, htrees]
  exact ⟨_, rfl⟩

end Render

end BlockGraph
end Listing
