import Listing.BlockGraph.Rows
import Listing.Proofs.Lists

namespace Listing.BlockGraph

-- The names of labels in the order in which they are attached, with repetitions.
def attached (rows : List Row) : List String := rows.flatMap (·.labels)

-- The names that operands refer to, in order and with repetitions.
def referred (rows : List Row) : List String := rows.flatMap (·.references)

-- Whether instructions stand before any label.
def opensUnlabelled : List Row → Bool
  | [] => false
  | row :: _ => row.labels.isEmpty

-- The blocks in the order in which they begin, with repetitions.
def trail (rows : List Row) : List String :=
  (if opensUnlabelled rows then [entryName] else []) ++ attached rows

-- The block at the end of the rows: that of the label attached last.
def blockAfter (rows : List Row) : String := (attached rows).getLast?.getD entryName

-- The block of each row.
def blocks (rows : List Row) : List String :=
  (List.range rows.length).map fun k => blockAfter (rows.take (k + 1))

-- What the operands of the rows refer to, each from the block of its row.
def mentions (rows : List Row) : List Reference :=
  ((blocks rows).zip rows).flatMap fun p => p.2.references.map fun t => ⟨p.1, t, p.2.opcode⟩

theorem attached_append (rows more : List Row) :
    attached (rows ++ more) = attached rows ++ attached more :=
  List.flatMap_append

theorem referred_append (rows more : List Row) :
    referred (rows ++ more) = referred rows ++ referred more :=
  List.flatMap_append

theorem attached_singleton (row : Row) : attached [row] = row.labels :=
  List.flatMap_singleton _ row

theorem opensUnlabelled_append {rows : List Row} (h : rows ≠ []) (more : List Row) :
    opensUnlabelled (rows ++ more) = opensUnlabelled rows := by
  cases rows with
  | nil => exact absurd rfl h
  | cons row rows => rfl

-- Only the first row can begin the block before all labels.
theorem trail_concat (rows : List Row) (row : Row) :
    trail (rows ++ [row]) =
      trail rows ++ if rows = [] ∧ row.labels = [] then [entryName] else row.labels := by
  cases rows with
  | nil =>
      by_cases hlabels : row.labels = []
      · simp [trail, opensUnlabelled, attached, hlabels]
      · simp [trail, opensUnlabelled, attached, hlabels]
  | cons first rows =>
      have hne : first :: rows ≠ [] := List.cons_ne_nil first rows
      have hrow : ¬(first :: rows = [] ∧ row.labels = []) := fun h => hne h.1
      rw [if_neg hrow, trail, opensUnlabelled_append hne, attached_append, attached_singleton,
        trail, List.append_assoc]

theorem trail_append {rows : List Row} (h : rows ≠ []) (more : List Row) :
    trail (rows ++ more) = trail rows ++ attached more := by
  rw [trail, opensUnlabelled_append h, attached_append, ← List.append_assoc, trail]

theorem blockAfter_concat (rows : List Row) (row : Row) :
    blockAfter (rows ++ [row]) = row.labels.getLast?.getD (blockAfter rows) := by
  rw [blockAfter, attached_append, attached_singleton, List.getLast?_append]
  cases row.labels.getLast? with
  | none => rfl
  | some name => rfl

theorem length_blocks (rows : List Row) : (blocks rows).length = rows.length := by
  simp [blocks]

theorem blocks_concat (rows : List Row) (row : Row) :
    blocks (rows ++ [row]) = blocks rows ++ [blockAfter (rows ++ [row])] := by
  have hbefore : (List.range rows.length).map
      (fun k => blockAfter ((rows ++ [row]).take (k + 1))) = blocks rows := by
    refine List.map_congr_left fun k hk => ?_
    have hle : k + 1 ≤ rows.length := List.mem_range.mp hk
    rw [List.take_append_of_le_length hle]
  have hlast : (rows ++ [row]).take (rows.length + 1) = rows ++ [row] :=
    List.take_of_length_le (by simp)
  rw [blocks, List.length_append, List.length_singleton, List.range_succ, List.map_append, hbefore,
    List.map_singleton, hlast]

-- Rows keep their blocks, whatever follows.
theorem prefix_blocks_append (rows more : List Row) : blocks rows <+: blocks (rows ++ more) := by
  refine prefix_append_of_concat (fun rows row => ?_) rows more
  rw [blocks_concat]
  exact List.prefix_append _ _

theorem mentions_concat (rows : List Row) (row : Row) :
    mentions (rows ++ [row]) =
      mentions rows ++ row.references.map fun t => ⟨blockAfter (rows ++ [row]), t, row.opcode⟩ := by
  rw [mentions, blocks_concat, List.zip_append (length_blocks rows), List.flatMap_append]
  simp [mentions]

theorem prefix_mentions_append (rows more : List Row) :
    mentions rows <+: mentions (rows ++ more) := by
  refine prefix_append_of_concat (fun rows row => ?_) rows more
  rw [mentions_concat]
  exact List.prefix_append _ _

theorem target_mentions (rows : List Row) : (mentions rows).map (·.target) = referred rows := by
  induction rows using List.reverseRecOn with
  | nil => rfl
  | append_singleton rows row ih =>
      rw [mentions_concat, List.map_append, ih, referred_append]
      simp [referred, Function.comp_def]

-- Each row's block is one of those that begin.
theorem blockAfter_mem_trail {rows : List Row} (h : rows ≠ []) : blockAfter rows ∈ trail rows := by
  induction rows using List.reverseRecOn with
  | nil => exact absurd rfl h
  | append_singleton rows row ih =>
      rw [blockAfter_concat, trail_concat]
      cases hlast : row.labels.getLast? with
      | some name =>
          have hmem : name ∈ row.labels := List.mem_of_getLast? hlast
          have hne : ¬(rows = [] ∧ row.labels = []) := fun h => by simp [h.2] at hmem
          rw [if_neg hne]
          exact List.mem_append_right _ hmem
      | none =>
          have hnil : row.labels = [] := List.getLast?_eq_none_iff.mp hlast
          by_cases hrows : rows = []
          · simp [hrows, hnil, blockAfter, attached]
          · exact List.mem_append_left _ (ih hrows)

theorem mem_trail_of_mem_blocks {rows : List Row} {name : String} (h : name ∈ blocks rows) :
    name ∈ trail rows := by
  induction rows using List.reverseRecOn with
  | nil => cases h
  | append_singleton rows row ih =>
      rw [blocks_concat] at h
      rcases List.mem_append.mp h with h | h
      · rw [trail_concat]
        exact List.mem_append_left _ (ih h)
      · rw [List.mem_singleton.mp h]
        exact blockAfter_mem_trail (by simp)

end Listing.BlockGraph
