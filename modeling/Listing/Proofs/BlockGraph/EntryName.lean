import Listing.Proofs.BlockGraph.EdgeList

namespace Listing.BlockGraph

-- A label of this name is no block of its own: it continues the one before all labels.
def sharesEntry (rows : List Row) (name : String) : Bool :=
  decide (name = entryName) && opensUnlabelled rows

-- The label attached last up to each row, itself included, if there is one.
def lastLabels (rows : List Row) : List (Option String) :=
  (List.range rows.length).map fun k => (attached (rows.take (k + 1))).getLast?

section Rows

variable {rows : List Row} {name : String}

theorem count_map_getD (names : List (Option String)) (name other : String) :
    (names.map (·.getD other)).count name =
      names.count (some name) + if name = other then names.count none else 0 := by
  induction names with
  | nil => simp
  | cons last names ih =>
      rw [List.map_cons, List.count_cons, ih]
      by_cases hname : name = other
      · subst hname
        cases last with
        | none => simp [Nat.add_assoc]
        | some first => simp [List.count_cons, Nat.add_right_comm]
      · cases last with
        | none => simp [hname, Ne.symm hname]
        | some first => simp [hname, List.count_cons]

theorem none_mem_lastLabels : none ∈ lastLabels rows ↔ opensUnlabelled rows = true := by
  cases rows with
  | nil => simp [lastLabels, opensUnlabelled]
  | cons row rows =>
      simp only [lastLabels, List.mem_map, List.getLast?_eq_none_iff, List.take_succ_cons,
        opensUnlabelled, List.isEmpty_iff]
      constructor
      · rintro ⟨k, -, hnone⟩
        exact List.flatMap_eq_nil_iff.mp hnone row List.mem_cons_self
      · intro hlabels
        exact ⟨0, by simp, by simp [attached, hlabels]⟩

-- A block has the rows for which its label is the last one. The rows before all labels come on top
-- of those of a label that shares their block.
theorem countIn_eq_lastLabels (rows : List Row) (name : String) :
    countIn rows name = (lastLabels rows).count (some name) +
      if sharesEntry rows name then (lastLabels rows).count none else 0 := by
  have hblocks : blocks rows = (lastLabels rows).map (·.getD entryName) := by
    rw [blocks, lastLabels, List.map_map]
    rfl
  rw [countIn, hblocks, count_map_getD]
  by_cases hopens : opensUnlabelled rows = true
  · simp [sharesEntry, hopens]
  · have hnone : (lastLabels rows).count none = 0 :=
      List.count_eq_zero.mpr fun hmem => hopens (none_mem_lastLabels.mp hmem)
    simp [sharesEntry, hnone]

theorem mem_trail_iff :
    name ∈ trail rows ↔ sharesEntry rows name = true ∨ name ∈ attached rows := by
  rw [trail, List.mem_append, sharesEntry, Bool.and_eq_true, decide_eq_true_eq]
  refine or_congr ?_ Iff.rfl
  by_cases hopens : opensUnlabelled rows = true
  · simp [hopens]
  · simp [hopens]

theorem statusIn_eq_of_mem (h : name ∈ trail rows) :
    statusIn rows name = if sharesEntry rows name then .entry else .defined := by
  rw [statusIn, if_pos h]
  simp [sharesEntry]

-- What is used and not attached is missing, unless its name is that of a block without a label.
theorem mem_undefinedNames_ofRows (href : name ∈ referred rows) (hout : name ∉ attached rows) :
    name ∈ (ofRows rows).undefinedNames ↔ sharesEntry rows name = false := by
  have hmissing : statusIn rows name = .missing ↔ sharesEntry rows name = false := by
    rw [← not_iff_not, ← ne_eq, ← mem_trail_iff_status, mem_trail_iff, or_iff_left hout,
      Bool.not_eq_false]
  rw [undefinedNames, (sortNames_perm _).mem_iff, namesWith, List.mem_map, ← hmissing]
  constructor
  · rintro ⟨n, hn, rfl⟩
    obtain ⟨hn, hstatus⟩ := List.mem_filter.mp hn
    rw [← (mem_nodes_ofRows.mp hn).2.1]
    exact decide_eq_true_eq.mp hstatus
  · intro hstatus
    refine ⟨⟨name, statusIn rows name, countIn rows name⟩, List.mem_filter.mpr ⟨?_, ?_⟩, rfl⟩
    · exact mem_nodes_ofRows.mpr ⟨.inr href, rfl, rfl⟩
    · exact decide_eq_true hstatus

theorem pair_infix_cons {names : List String} {first : String} :
    [name, name] <:+: first :: names ↔
      [name, name] <:+: names ∨ name = first ∧ names.head? = some first := by
  have hprefix : [name] <+: names ↔ names.head? = some name := by
    cases names <;> simp [List.prefix_cons_iff, eq_comm]
  rw [List.infix_cons_iff, List.cons_prefix_cons, hprefix, or_comm]
  exact or_congr_right (and_congr_right fun heq => by rw [heq])

-- A block follows itself if its label is attached twice in a row, or if the first label of all
-- has the name of the entry.
theorem self_next_ofRows :
    (∃ e ∈ (ofRows rows).edges, e.ends = (name, name) ∧ e.next = true) ↔
      [name, name] <:+: attached rows ∨
        name = entryName ∧ (attached rows).head? = some entryName := by
  rw [next_ofRows, route]
  split
  · exact pair_infix_cons
  · rename_i hentry
    have hhead : (attached rows).head? ≠ some entryName := fun hh => hentry (.inr hh)
    simp [hhead]

end Rows

-- A label can be confused with the block before all labels only if it has that block's name. Then
-- its use is not reported as undefined, its status and its count are those of that block, or the
-- block follows itself.
theorem entryName_ofStream {s : Stream}
    (hlabels : ∀ i ∈ s.instructions, ∀ l ∈ i.labels, ∃ name, l = .str name) :
    (CanAnnotate s → ∃ g, ofStream s = .ok g ∧ g.names.Nodup ∧
      (∀ name ∈ referred (textRows s), name ∉ attached (textRows s) →
        (name ∈ g.undefinedNames ↔ sharesEntry (textRows s) name = false)) ∧
      (∀ name ∈ attached (textRows s), ∃ n ∈ g.nodes, n.name = name ∧
        n.status = (if sharesEntry (textRows s) name then .entry else .defined) ∧
        n.instructions = (lastLabels (textRows s)).count (some name) +
          if sharesEntry (textRows s) name then (lastLabels (textRows s)).count none else 0) ∧
      ∀ name, (∃ e ∈ g.edges, e.ends = (name, name) ∧ e.next = true) ↔
        [name, name] <:+: attached (textRows s) ∨
          name = entryName ∧ (attached (textRows s)).head? = some entryName) ∧
    (¬CanAnnotate s → ofStream s = .error .wrongType) := by
  refine ⟨fun hsound => ⟨_, ofStream_of_canAnnotate hlabels hsound, ?_, ?_, ?_, ?_⟩,
    ofStream_of_not_canAnnotate hlabels⟩
  · rw [names_ofRows]
    exact nodup_eraseDups _
  · exact fun name href hout => mem_undefinedNames_ofRows href hout
  · intro name hname
    have hmem : name ∈ trail (textRows s) := mem_trail_iff.mpr (.inr hname)
    exact ⟨⟨name, statusIn (textRows s) name, countIn (textRows s) name⟩,
      mem_nodes_ofRows.mpr ⟨.inl hmem, rfl, rfl⟩, rfl, statusIn_eq_of_mem hmem,
      countIn_eq_lastLabels _ _⟩
  · exact fun name => self_next_ofRows

-- Two instructions before any label, then a label named like their block, which they refer to.
def prologueStream : Stream :=
  ⟨[{ opcode := .str "add" },
    { opcode := .str "jmp", operands := [.label entryName, .label "b"] },
    { opcode := .str "sub", labels := [.str entryName] },
    { opcode := .str "ret", labels := [.str "a", .str "\"a\""] }]⟩

theorem entryName_ofStream_prologue :
    (∀ i ∈ prologueStream.instructions, ∀ l ∈ i.labels, ∃ name, l = .str name) ∧
      ∃ g, ofStream prologueStream = .ok g ∧ "b" ∈ g.undefinedNames ∧
        (∃ n ∈ g.nodes, n.name = entryName ∧ n.status = .entry ∧ n.instructions = 1 + 2) ∧
        (∃ n ∈ g.nodes, n.name = "a" ∧ n.status = .defined ∧ n.instructions = 1) ∧
        (∃ e ∈ g.edges, e.ends = (entryName, entryName) ∧ e.next = true) ∧
        (∃ e ∈ g.edges, e.ends = ("a", "a") ∧ e.next = true) := by
  have hlabels : ∀ i ∈ prologueStream.instructions, ∀ l ∈ i.labels, ∃ name, l = .str name := by
    simp [prologueStream]
  have hsound : CanAnnotate prologueStream := by
    intro i hi _
    simp only [prologueStream, List.mem_cons, List.not_mem_nil, or_false] at hi
    rcases hi with rfl | rfl | rfl | rfl <;> exact .inr rfl
  obtain ⟨g, hg, -, hundefined, hdefined, hself⟩ := (entryName_ofStream hlabels).1 hsound
  exact ⟨hlabels, g, hg, (hundefined "b" (by decide) (by decide)).mpr (by decide),
    hdefined entryName (by decide), hdefined "a" (by decide),
    (hself entryName).mpr (.inr ⟨rfl, by decide⟩),
    (hself "a").mpr (.inl ⟨[entryName], [], by decide⟩)⟩

-- A first label named like the entry is attached once, and its block follows itself.
def entryLabelStream : Stream := ⟨[{ opcode := .str "a", labels := [.str entryName] }]⟩

theorem ofStream_entryLabel :
    (∀ i ∈ entryLabelStream.instructions, ∀ l ∈ i.labels, ∃ name, l = .str name) ∧
      ¬[entryName, entryName] <:+: attached (textRows entryLabelStream) ∧
      ∃ g, ofStream entryLabelStream = .ok g ∧
        ∃ e ∈ g.edges, e.ends = (entryName, entryName) ∧ e.next = true :=
  ⟨by simp [entryLabelStream], by decide, _, rfl, by decide⟩

end Listing.BlockGraph
