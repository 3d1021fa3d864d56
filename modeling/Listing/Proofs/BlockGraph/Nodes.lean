import Listing.BlockGraph.Query
import Listing.Proofs.BlockGraph.Trail
import Listing.Proofs.Lists

namespace Listing.BlockGraph

-- The nodes for names as they were met, each once, with what is known about a name.
def nodesOf (status : String → Status) (count : String → Nat) (met : List String) : List Node :=
  met.eraseDups.map fun n => ⟨n, status n, count n⟩

section NodesOf

variable {status status' : String → Status} {count count' : String → Nat} {met names : List String}

theorem nodesOf_congr (hstatus : ∀ n ∈ met, status n = status' n)
    (hcount : ∀ n ∈ met, count n = count' n) :
    nodesOf status count met = nodesOf status' count' met := by
  refine List.map_congr_left fun n hn => ?_
  have hn : n ∈ met := List.mem_eraseDups.mp hn
  rw [hstatus n hn, hcount n hn]

theorem hasNode_nodesOf (name : String) :
    hasNode name (nodesOf status count met) = true ↔ name ∈ met := by
  simp [hasNode, nodesOf]

theorem nodesOf_concat_of_mem {name : String} (h : name ∈ met) :
    nodesOf status count (met ++ [name]) = nodesOf status count met := by
  rw [nodesOf, eraseDups_concat_of_mem h, nodesOf]

theorem nodesOf_concat_of_notMem {name : String} (h : name ∉ met) :
    nodesOf status count (met ++ [name]) =
      nodesOf status count met ++ [⟨name, status name, count name⟩] := by
  rw [nodesOf, eraseDups_concat_of_notMem h, List.map_append, List.map_singleton, nodesOf]

-- A node is added for a name that was not met before.
theorem addNode_nodesOf {name : String} {given : Status}
    (h : name ∉ met → status name = given ∧ count name = 0) :
    addNode name given (nodesOf status count met) = nodesOf status count (met ++ [name]) := by
  by_cases hmem : name ∈ met
  · rw [addNode, if_pos ((hasNode_nodesOf name).mpr hmem), nodesOf_concat_of_mem hmem]
  · have hnode : ¬hasNode name (nodesOf status count met) = true :=
      fun hn => hmem ((hasNode_nodesOf name).mp hn)
    obtain ⟨hstatus, hcount⟩ := h hmem
    rw [addNode, if_neg hnode, nodesOf_concat_of_notMem hmem, hstatus, hcount]

theorem foldl_addNode_nodesOf {given : Status}
    (h : ∀ n ∈ names, n ∉ met → status n = given ∧ count n = 0) :
    names.foldl (fun nodes n => addNode n given nodes) (nodesOf status count met) =
      nodesOf status count (met ++ names) := by
  induction names generalizing met with
  | nil => rw [List.foldl_nil, List.append_nil]
  | cons name names ih =>
      rw [List.foldl_cons, addNode_nodesOf (h name List.mem_cons_self), ih, List.append_assoc,
        List.singleton_append]
      exact fun n hn hmet =>
        h n (List.mem_cons_of_mem _ hn) fun hm => hmet (List.mem_append_left _ hm)

theorem countInstruction_nodesOf (name : String) :
    countInstruction name (nodesOf status count met) =
      nodesOf status (fun n => count n + if n = name then 1 else 0) met := by
  rw [countInstruction, nodesOf, List.map_map]
  refine List.map_congr_left fun n _ => ?_
  by_cases h : n = name
  · simp [h]
  · simp [h]

end NodesOf

-- A block is missing if it never begins.
def statusIn (rows : List Row) (name : String) : Status :=
  if name ∈ trail rows then
    if name = entryName ∧ opensUnlabelled rows then .entry else .defined
  else .missing

def countIn (rows : List Row) (name : String) : Nat := (blocks rows).count name

theorem mem_trail_iff_status : name ∈ trail rows ↔ statusIn rows name ≠ .missing := by
  rw [statusIn]
  split
  · rename_i h
    exact iff_of_true h (by split <;> simp)
  · rename_i h
    exact iff_of_false h fun hne => hne rfl

theorem countIn_of_notMem {rows : List Row} {name : String} (h : name ∉ trail rows) :
    countIn rows name = 0 :=
  List.count_eq_zero.mpr fun hb => h (mem_trail_of_mem_blocks hb)

theorem statusIn_concat {rows : List Row} {name : String} (h : name ∈ trail rows) (row : Row) :
    statusIn (rows ++ [row]) name = statusIn rows name := by
  have hne : rows ≠ [] := fun hnil => by simp [hnil, trail, opensUnlabelled, attached] at h
  have hmem : name ∈ trail (rows ++ [row]) := by
    rw [trail_concat]
    exact List.mem_append_left _ h
  rw [statusIn, statusIn, if_pos h, if_pos hmem, opensUnlabelled_append hne]

-- A label that begins a block no other has begun yet defines it, even one that is named like the
-- entry.
theorem statusIn_concat_label {rows : List Row} {name : String} {row : Row} (h : name ∈ row.labels)
    (hnew : name ∉ trail rows) : statusIn (rows ++ [row]) name = .defined := by
  have hlabels : ¬(rows = [] ∧ row.labels = []) := fun hnil => by simp [hnil.2] at h
  have hmem : name ∈ trail (rows ++ [row]) := by
    rw [trail_concat, if_neg hlabels]
    exact List.mem_append_right _ h
  have hentry : ¬(name = entryName ∧ opensUnlabelled (rows ++ [row]) = true) := by
    rintro ⟨rfl, hopens⟩
    cases rows with
    | nil =>
        have hnil : row.labels = [] := List.isEmpty_iff.mp hopens
        exact hlabels ⟨rfl, hnil⟩
    | cons first rows =>
        rw [opensUnlabelled_append (List.cons_ne_nil first rows)] at hopens
        exact hnew (by simp [trail, hopens])
  rw [statusIn, if_pos hmem, if_neg hentry]

theorem countIn_concat (rows : List Row) (row : Row) (name : String) :
    countIn (rows ++ [row]) name =
      countIn rows name + if name = blockAfter (rows ++ [row]) then 1 else 0 := by
  rw [countIn, blocks_concat, List.count_append, List.count_singleton, countIn]
  by_cases h : name = blockAfter (rows ++ [row])
  · rw [if_pos h, if_pos (beq_iff_eq.mpr h.symm)]
  · rw [if_neg h, if_neg fun hb => h (beq_iff_eq.mp hb).symm]

-- What is known of the graph after some rows, apart from its edges.
structure Grown (rows : List Row) (g : Growth) : Prop where
  nodes : g.nodes = nodesOf (statusIn rows) (countIn rows) (trail rows)
  current : g.current = blockAfter rows
  references : g.references = mentions rows

theorem grown_nil : Grown [] {} := ⟨rfl, rfl, rfl⟩

theorem foldl_enter (labels : List String) (g : Growth) :
    (labels.foldl Growth.enter g).nodes =
        labels.foldl (fun nodes n => addNode n .defined nodes) g.nodes ∧
      (labels.foldl Growth.enter g).current = labels.getLast?.getD g.current ∧
      (labels.foldl Growth.enter g).references = g.references := by
  induction labels generalizing g with
  | nil => exact ⟨rfl, rfl, rfl⟩
  | cons name labels ih =>
      obtain ⟨hnodes, hcurrent, hreferences⟩ := ih (g.enter name)
      refine ⟨hnodes, ?_, hreferences⟩
      rw [List.foldl_cons, hcurrent, List.getLast?_cons]
      cases labels.getLast? with
      | none => rfl
      | some last => rfl

theorem Grown.add {rows : List Row} {g : Growth} (h : Grown rows g) (row : Row) :
    Grown (rows ++ [row]) (g.add row) := by
  obtain ⟨hnodes, hcurrent, hreferences⟩ := foldl_enter row.labels g
  have hblock : (row.labels.foldl Growth.enter g).current = blockAfter (rows ++ [row]) := by
    rw [hcurrent, blockAfter_concat, h.current]
  have hentered : (row.labels.foldl Growth.enter g).nodes =
      nodesOf (statusIn (rows ++ [row])) (countIn rows) (trail rows ++ row.labels) := by
    have hbefore : nodesOf (statusIn rows) (countIn rows) (trail rows) =
        nodesOf (statusIn (rows ++ [row])) (countIn rows) (trail rows) :=
      nodesOf_congr (fun n hn => (statusIn_concat hn row).symm) fun _ _ => rfl
    rw [hnodes, h.nodes, hbefore]
    exact foldl_addNode_nodesOf fun n hn hnew =>
      ⟨statusIn_concat_label hn hnew, countIn_of_notMem hnew⟩
  -- The current block is new only if the row is the first and has no label.
  have hplaced : addNode (blockAfter (rows ++ [row])) .entry
      (row.labels.foldl Growth.enter g).nodes =
        nodesOf (statusIn (rows ++ [row])) (countIn rows) (trail (rows ++ [row])) := by
    rw [hentered, trail_concat]
    by_cases hfirst : rows = [] ∧ row.labels = []
    · obtain ⟨rfl, hlabels⟩ := hfirst
      have hentry : blockAfter ([] ++ [row]) = entryName := by simp [blockAfter, attached, hlabels]
      have hstatus : statusIn ([] ++ [row]) entryName = .entry := by
        simp [statusIn, trail, opensUnlabelled, hlabels]
      rw [if_pos ⟨rfl, hlabels⟩, hlabels, List.append_nil, hentry]
      exact addNode_nodesOf fun _ => ⟨hstatus, rfl⟩
    · have hmem : blockAfter (rows ++ [row]) ∈ trail (rows ++ [row]) :=
        blockAfter_mem_trail (by simp)
      rw [trail_concat, if_neg hfirst] at hmem
      rw [if_neg hfirst, addNode_nodesOf fun hnew => absurd hmem hnew, nodesOf_concat_of_mem hmem]
  constructor
  · rw [Growth.add]
    simp only [hblock, hplaced, countInstruction_nodesOf]
    exact nodesOf_congr (fun _ _ => rfl) fun n _ => (countIn_concat rows row n).symm
  · exact hblock
  · rw [Growth.add]
    simp only [hblock, hreferences, h.references, mentions_concat]

theorem Grown.run {before rows : List Row} {g : Growth} (h : Grown before g) :
    Grown (before ++ rows) (rows.foldl Growth.add g) := by
  induction rows generalizing before g with
  | nil => rwa [List.append_nil]
  | cons row rows ih =>
      rw [List.foldl_cons, ← List.singleton_append, ← List.append_assoc]
      exact ih (h.add row)

theorem grown_foldl (rows : List Row) : Grown rows (rows.foldl Growth.add {}) := grown_nil.run

theorem nodes_foldl_refer (references : List Reference) (graph : BlockGraph) :
    (references.foldl refer graph).nodes =
      (references.map (·.target)).foldl (fun nodes n => addNode n .missing nodes) graph.nodes := by
  induction references generalizing graph with
  | nil => rfl
  | cons r references ih => exact ih (refer graph r)

-- The nodes of a graph, whatever its rows: the blocks that begin, then the missing ones.
theorem nodes_ofRows (rows : List Row) :
    (ofRows rows).nodes =
      nodesOf (statusIn rows) (countIn rows) (trail rows ++ referred rows) := by
  obtain ⟨hnodes, -, hreferences⟩ := grown_foldl rows
  rw [ofRows, Growth.resolve, nodes_foldl_refer, hreferences, target_mentions, hnodes]
  refine foldl_addNode_nodesOf fun n _ hn => ⟨?_, countIn_of_notMem hn⟩
  rw [statusIn, if_neg hn]

theorem mem_nodes_ofRows {n : Node} :
    n ∈ (ofRows rows).nodes ↔ (n.name ∈ trail rows ∨ n.name ∈ referred rows) ∧
      n.status = statusIn rows n.name ∧ n.instructions = countIn rows n.name := by
  rw [nodes_ofRows, nodesOf, List.mem_map]
  constructor
  · rintro ⟨name, hname, rfl⟩
    exact ⟨List.mem_append.mp (List.mem_eraseDups.mp hname), rfl, rfl⟩
  · rintro ⟨hname, hstatus, hcount⟩
    refine ⟨n.name, List.mem_eraseDups.mpr (List.mem_append.mpr hname), ?_⟩
    rw [← hstatus, ← hcount]

-- Every name has one node.
theorem names_ofRows (rows : List Row) :
    (ofRows rows).names = (trail rows ++ referred rows).eraseDups := by
  rw [names, nodes_ofRows, nodesOf, List.map_map]
  exact List.map_id _

theorem nodup_names_ofRows (rows : List Row) : (ofRows rows).names.Nodup := by
  rw [names_ofRows]
  exact nodup_eraseDups _

end Listing.BlockGraph
