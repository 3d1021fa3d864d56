import Listing.Proofs.BlockGraph.EdgeList

namespace Listing.BlockGraph

section Rows

variable {rows more : List Row} {name : String}

theorem statusIn_append (hne : rows ≠ []) (h : name ∈ trail rows) :
    statusIn (rows ++ more) name = statusIn rows name := by
  have hmem : name ∈ trail (rows ++ more) := by
    rw [trail_append hne]
    exact List.mem_append_left _ h
  rw [statusIn, statusIn, if_pos h, if_pos hmem, opensUnlabelled_append hne]

-- What was missing can only be begun by a label. The block before all labels, if there is one,
-- was begun by the first row and never missing.
theorem statusIn_append_of_notMem (hne : rows ≠ []) (h : name ∉ trail rows) :
    statusIn (rows ++ more) name = if name ∈ attached more then .defined else .missing := by
  have hmem : name ∈ trail (rows ++ more) ↔ name ∈ attached more := by
    rw [trail_append hne, List.mem_append]
    exact or_iff_right h
  have hentry : ¬(name = entryName ∧ opensUnlabelled rows = true) := by
    rintro ⟨rfl, hopens⟩
    exact h (by simp [trail, hopens])
  simp only [statusIn, hmem, opensUnlabelled_append hne, if_neg hentry]

theorem countIn_le_append (rows more : List Row) (name : String) :
    countIn rows name ≤ countIn (rows ++ more) name :=
  (prefix_blocks_append rows more).sublist.count_le name

-- The nodes of a graph are nodes of what it grows into. Only a missing one can change its status.
theorem node_append (more : List Row) (hne : rows ≠ []) {n : Node} (hn : n ∈ (ofRows rows).nodes) :
    ∃ m ∈ (ofRows (rows ++ more)).nodes, m.name = n.name ∧ n.instructions ≤ m.instructions ∧
      (n.status ≠ .missing → m.status = n.status) ∧
      (n.status = .missing → m.status = if n.name ∈ attached more then .defined else .missing) := by
  obtain ⟨hname, hstatus, hcount⟩ := mem_nodes_ofRows.mp hn
  refine ⟨⟨n.name, statusIn (rows ++ more) n.name, countIn (rows ++ more) n.name⟩,
    mem_nodes_ofRows.mpr ⟨?_, rfl, rfl⟩, rfl, ?_, ?_, ?_⟩
  · rw [trail_append hne, referred_append]
    exact hname.imp (List.mem_append_left _) (List.mem_append_left _)
  · rw [hcount]
    exact countIn_le_append rows more n.name
  · intro hfound
    rw [hstatus] at hfound ⊢
    exact statusIn_append hne (mem_trail_iff_status.mpr hfound)
  · intro hmissing
    rw [hstatus] at hmissing
    exact statusIn_append_of_notMem hne fun h => mem_trail_iff_status.mp h hmissing

theorem steps_route_append (hne : rows ≠ []) :
    steps (route rows) ⊆ steps (route (rows ++ more)) := by
  rintro ⟨u, v⟩ h
  rw [mem_steps] at h ⊢
  rw [route_append hne]
  exact h.trans (List.prefix_append _ _).isInfix

-- An edge of a graph is one of what it grows into, where it has at least its kinds and opcodes.
theorem edge_append (hne : rows ≠ [])
    (htexts : ∀ r ∈ mentions (rows ++ more), ∃ text, r.opcode = .str text) {e : Edge}
    (he : e ∈ (ofRows rows).edges) :
    ∃ f ∈ (ofRows (rows ++ more)).edges, f.ends = e.ends ∧ (e.next = true → f.next = true) ∧
      (e.reference = true → f.reference = true) ∧ e.opcodes ⊆ f.opcodes := by
  have hmentions : mentions rows ⊆ mentions (rows ++ more) :=
    (prefix_mentions_append rows more).subset
  have hsteps : steps (route rows) ⊆ steps (route (rows ++ more)) := steps_route_append hne
  obtain ⟨hends, heq⟩ := mem_edges_ofRows.mp he
  have hf : edgeOf (steps (route (rows ++ more))) (mentions (rows ++ more)) e.ends ∈
      (ofRows (rows ++ more)).edges :=
    mem_edges_ofRows.mpr ⟨hends.imp (@hsteps _) fun ⟨r, hr, hre⟩ => ⟨r, hmentions hr, hre⟩, rfl⟩
  refine ⟨_, hf, rfl, ?_, ?_, ?_⟩
  · intro hnext
    rw [heq] at hnext
    simpa [edgeOf] using hsteps (by simpa [edgeOf] using hnext)
  · intro hreference
    rw [heq] at hreference
    obtain ⟨r, hr, hre⟩ : ∃ r ∈ mentions rows, r.ends = e.ends := by
      simpa [edgeOf] using hreference
    simpa [edgeOf] using ⟨r, hmentions hr, hre⟩
  · intro o ho
    obtain ⟨hne, r, hr, hre, hopcode⟩ :=
      ((opcodes_ofRows (fun r hr => htexts r (hmentions hr)) he).2 o).mp ho
    exact ((opcodes_ofRows htexts hf).2 o).mpr ⟨hne, r, hmentions hr, hre, hopcode⟩

end Rows

section Reach

variable {g h : BlockGraph}

theorem mem_grow {found : List String} {name : String} :
    name ∈ g.grow found ↔ name ∈ found ∨ ∃ other ∈ found, name ∈ g.successors other := by
  simp only [grow, List.mem_append, List.mem_eraseDups, List.mem_filter, List.mem_flatMap,
    decide_eq_true_eq]
  tauto

-- More edges, more rounds and a larger start find at least as much.
theorem growTimes_subset (hsuccessors : ∀ name, g.successors name ⊆ h.successors name)
    {rounds more : Nat} (hrounds : rounds ≤ more) {found others : List String}
    (hfound : found ⊆ others) : g.growTimes rounds found ⊆ h.growTimes more others := by
  induction more generalizing rounds found others with
  | zero =>
      rw [Nat.le_zero.mp hrounds]
      exact hfound
  | succ more ih =>
      cases rounds with
      | zero => exact ih (Nat.zero_le more) fun name hname => mem_grow.mpr (.inl (hfound hname))
      | succ rounds =>
          refine ih (Nat.le_of_succ_le_succ hrounds) fun name hname => ?_
          rw [mem_grow] at hname ⊢
          exact hname.imp (@hfound _) fun ⟨other, hother, hedge⟩ =>
            ⟨other, hfound hother, hsuccessors other hedge⟩

theorem reachableFrom_subset (hnodup : g.names.Nodup) (hnames : g.names ⊆ h.names)
    (hends : ∀ e ∈ g.edges, ∃ f ∈ h.edges, f.ends = e.ends) (name : String) :
    g.reachableFrom name ⊆ h.reachableFrom name := by
  have hsuccessors : ∀ block, g.successors block ⊆ h.successors block := by
    intro block target htarget
    obtain ⟨e, he, rfl⟩ := List.mem_map.mp htarget
    obtain ⟨he, hsource⟩ := List.mem_filter.mp he
    obtain ⟨f, hf, hends⟩ := hends e he
    obtain ⟨hfsource, hftarget⟩ := Prod.mk.inj hends
    rw [successors, ← hftarget]
    exact List.mem_map_of_mem (List.mem_filter.mpr ⟨hf, by rwa [hfsource]⟩)
  have hlength : g.nodes.length ≤ h.nodes.length := by
    simpa [names] using (List.subperm_of_subset hnodup hnames).length_le
  have hnode : hasNode name g.nodes = true → hasNode name h.nodes = true := by
    simpa [hasNode, names] using @hnames name
  intro block hblock
  rw [reachableFrom] at hblock ⊢
  split at hblock
  · rename_i hthere
    obtain ⟨hfound, hother⟩ := List.mem_filter.mp hblock
    rw [if_pos (hnode hthere)]
    exact List.mem_filter.mpr
      ⟨growTimes_subset hsuccessors hlength (List.Subset.refl _) hfound, hother⟩
  · cases hblock

end Reach

-- Instructions that are added to a stream take nothing away from its graph. A missing block is
-- defined once a label begins it, all else keeps its status.
theorem ofStream_append {s t : Stream} (hne : s.instructions ≠ [])
    (hopcodes : ∀ i ∈ s.instructions ++ t.instructions, ∃ opcode, i.opcode = .str opcode)
    (hlabels : ∀ i ∈ s.instructions ++ t.instructions, ∀ l ∈ i.labels, ∃ name, l = .str name) :
    ∃ g h, ofStream s = .ok g ∧ ofStream ⟨s.instructions ++ t.instructions⟩ = .ok h ∧
      h.names.Nodup ∧ (h.edges.map Edge.ends).Nodup ∧
      (∀ n ∈ g.nodes, ∃ m ∈ h.nodes, m.name = n.name ∧ n.instructions ≤ m.instructions ∧
        (n.status ≠ .missing → m.status = n.status) ∧
        (n.status = .missing →
          m.status = if n.name ∈ attached (textRows t) then .defined else .missing)) ∧
      (h.nodes.map (·.instructions)).sum = (g.nodes.map (·.instructions)).sum + t.size ∧
      (∀ e ∈ g.edges, ∃ f ∈ h.edges, f.ends = e.ends ∧ (e.next = true → f.next = true) ∧
        (e.reference = true → f.reference = true) ∧ e.opcodes ⊆ f.opcodes) ∧
      ∀ name, g.reachableFrom name ⊆ h.reachableFrom name := by
  have hrows : textRows ⟨s.instructions ++ t.instructions⟩ = textRows s ++ textRows t :=
    List.map_append
  have hfirst : textRows s ≠ [] := by simpa [textRows] using hne
  have htexts : ∀ r ∈ mentions (textRows s ++ textRows t), ∃ text, r.opcode = .str text := by
    rw [← hrows]
    exact text_of_mem_mentions hopcodes
  have hnodes := fun n (hn : n ∈ (ofRows (textRows s)).nodes) =>
    node_append (textRows t) hfirst hn
  have hedges := fun e (he : e ∈ (ofRows (textRows s)).edges) => edge_append hfirst htexts he
  have hnames : (ofRows (textRows s)).names ⊆ (ofRows (textRows s ++ textRows t)).names := by
    intro name hname
    obtain ⟨n, hn, rfl⟩ := List.mem_map.mp hname
    obtain ⟨m, hm, hsame, -⟩ := hnodes n hn
    exact List.mem_map.mpr ⟨m, hm, hsame⟩
  have hnodup : ∀ rows, (ofRows rows).names.Nodup := fun rows => by
    rw [names_ofRows]
    exact nodup_eraseDups _
  have hgrown := ofStream_texts (s := ⟨s.instructions ++ t.instructions⟩) hopcodes hlabels
  rw [hrows] at hgrown
  refine ⟨_, _, ofStream_texts (fun i hi => hopcodes i (List.mem_append_left _ hi))
    (fun i hi => hlabels i (List.mem_append_left _ hi)), hgrown, hnodup _, nodup_ends_ofRows _,
    hnodes, ?_, hedges, reachableFrom_subset (hnodup _) hnames fun e he => ?_⟩
  · rw [sum_nodes_ofRows, sum_nodes_ofRows, List.length_append, textRows, textRows,
      List.length_map, List.length_map, Stream.size]
  · obtain ⟨f, hf, hends, -⟩ := hedges e he
    exact ⟨f, hf, hends⟩

-- A name that is missing so far, and a stream that goes on with a label for it and with one that
-- is spelled like the entry.
def openStream : Stream :=
  ⟨[{ opcode := .str "jmp", operands := [.label "b"] }]⟩

def closingStream : Stream :=
  ⟨[{ opcode := .str "add", labels := [.str "\"b\""] },
    { opcode := .str "jmp", labels := [.str entryName], operands := [.label "c"] }]⟩

theorem ofStream_append_open :
    ∃ g h, ofStream openStream = .ok g ∧
      ofStream ⟨openStream.instructions ++ closingStream.instructions⟩ = .ok h ∧
      (⟨"b", .missing, 0⟩ : Node) ∈ g.nodes ∧ (∃ m ∈ h.nodes, m.name = "b" ∧ m.status = .defined) ∧
      (∃ m ∈ h.nodes, m.name = entryName ∧ m.status = .entry ∧ 1 ≤ m.instructions) ∧
      g.reachableFrom entryName ⊆ h.reachableFrom entryName := by
  obtain ⟨g, h, hg, hh, -, -, hnodes, -, -, hreach⟩ :=
    ofStream_append (s := openStream) (t := closingStream) (by decide)
      (by simp [openStream, closingStream]) (by simp [openStream, closingStream])
  obtain rfl : ofRows (textRows openStream) = g := Except.ok.inj hg
  have hmissing : (⟨"b", .missing, 0⟩ : Node) ∈ (ofRows (textRows openStream)).nodes := by decide
  have hentry : (⟨entryName, .entry, 1⟩ : Node) ∈ (ofRows (textRows openStream)).nodes := by decide
  obtain ⟨m, hm, hname, -, -, hdefined⟩ := hnodes _ hmissing
  obtain ⟨k, hk, hkname, hcount, hkept, -⟩ := hnodes _ hentry
  exact ⟨_, h, hg, hh, hmissing, ⟨m, hm, hname, (hdefined rfl).trans (by decide)⟩,
    ⟨k, hk, hkname, hkept (by decide), hcount⟩, hreach entryName⟩

end Listing.BlockGraph
