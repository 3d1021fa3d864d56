import Listing.Proofs.BlockGraph.Nodes
import Listing.Proofs.Symbol

namespace Listing.BlockGraph

-- A row whose labels are renamed. What it refers to keeps its name.
def Row.relabel (f : String → String) (row : Row) : Row := { row with labels := row.labels.map f }

theorem Row.relabel_id (row : Row) : row.relabel id = row := by
  rw [relabel, List.map_id]

section Relabel

variable {rows : List Row} {f : String → String}

theorem attached_relabel : attached (rows.map (Row.relabel f)) = (attached rows).map f := by
  rw [attached, attached, List.flatMap_map, List.map_flatMap]
  rfl

theorem opensUnlabelled_relabel :
    opensUnlabelled (rows.map (Row.relabel f)) = opensUnlabelled rows := by
  cases rows with
  | nil => rfl
  | cons row rows => simp [opensUnlabelled, Row.relabel]

-- The block before all labels has no label that could be renamed.
theorem trail_relabel (hentry : f entryName = entryName) :
    trail (rows.map (Row.relabel f)) = (trail rows).map f := by
  rw [trail, trail, opensUnlabelled_relabel, attached_relabel, List.map_append]
  split
  · rw [List.map_singleton, hentry]
  · rfl

end Relabel

-- The blocks that begin are the nodes that are not missing.
theorem mem_trail_iff_node {rows : List Row} {name : String} :
    name ∈ trail rows ↔ ∃ n ∈ (ofRows rows).nodes, n.name = name ∧ n.status ≠ .missing := by
  constructor
  · intro h
    exact ⟨⟨name, statusIn rows name, countIn rows name⟩,
      mem_nodes_ofRows.mpr ⟨.inl h, rfl, rfl⟩, rfl, mem_trail_iff_status.mp h⟩
  · rintro ⟨n, hn, rfl, hne⟩
    rw [(mem_nodes_ofRows.mp hn).2.1] at hne
    exact mem_trail_iff_status.mpr hne

-- Unquoting the labels once more changes the graph if and only if one of them is in quotes.
theorem ofRows_relabel_unquote {rows : List Row} :
    ofRows (rows.map (Row.relabel Symbol.unquote)) = ofRows rows ↔
      ∀ name ∈ attached rows, ¬Symbol.IsQuoted name := by
  constructor
  · intro heq name hname hquoted
    have htrail : trail rows ⊆ (trail rows).map Symbol.unquote := by
      intro block hblock
      rw [mem_trail_iff_node, ← heq, ← mem_trail_iff_node] at hblock
      rwa [trail_relabel (by decide)] at hblock
    have hsize := size_map_of_subset Symbol.length_unquote_le htrail
      (List.mem_append_right _ hname)
    exact Nat.ne_of_lt (Symbol.length_unquote_lt hquoted) hsize
  · intro h
    have hrow : ∀ row ∈ rows, row.relabel Symbol.unquote = row := by
      intro row hrow
      have hlabels : row.labels.map Symbol.unquote = row.labels :=
        (List.map_congr_left fun l hl =>
          Symbol.unquote_of_not_quoted (h l (List.mem_flatMap.mpr ⟨row, hrow, hl⟩))).trans
            (List.map_id _)
      rw [Row.relabel, hlabels]
    rw [(List.map_congr_left hrow).trans (List.map_id _)]

end Listing.BlockGraph
