import Mathlib.Logic.Relation
import Listing.Proofs.BlockGraph.Extension

namespace Listing.BlockGraph

section Search

variable {g : BlockGraph} {found : List String}

theorem mem_successors {u v : String} : v ∈ g.successors u ↔ ∃ e ∈ g.edges, e.ends = (u, v) := by
  simp only [successors, List.mem_map, List.mem_filter, decide_eq_true_eq, Edge.ends,
    Prod.mk.injEq, and_assoc]

theorem hasNode_nodes {name : String} : hasNode name g.nodes = true ↔ name ∈ g.names := by
  simp [hasNode, names]

-- No edge leads out of what was found.
def Closed (g : BlockGraph) (found : List String) : Prop := ∀ u ∈ found, g.successors u ⊆ found

theorem grow_of_closed (h : g.Closed found) : g.grow found = found := by
  have hnone : (found.flatMap g.successors).filter (· ∉ found) = [] := by
    refine List.filter_eq_nil_iff.mpr fun v hv => ?_
    obtain ⟨u, hu, hv⟩ := List.mem_flatMap.mp hv
    simpa using h u hu hv
  rw [grow, hnone, List.eraseDups_nil, List.append_nil]

theorem growTimes_of_closed (h : g.Closed found) (rounds : Nat) :
    g.growTimes rounds found = found := by
  induction rounds with
  | zero => rfl
  | succ rounds ih => rw [growTimes, grow_of_closed h, ih]

-- A round that has an edge to follow finds a block more.
theorem length_lt_grow (h : ¬g.Closed found) : found.length < (g.grow found).length := by
  obtain ⟨u, hu, hout⟩ : ∃ u ∈ found, ¬g.successors u ⊆ found := by simpa [Closed] using h
  obtain ⟨v, hv, hnew⟩ : ∃ v ∈ g.successors u, v ∉ found := by
    simpa [List.subset_def] using hout
  have hmem : v ∈ ((found.flatMap g.successors).filter (· ∉ found)).eraseDups :=
    List.mem_eraseDups.mpr
      (List.mem_filter.mpr ⟨List.mem_flatMap.mpr ⟨u, hu, hv⟩, by simpa using hnew⟩)
  have hpos := List.length_pos_of_mem hmem
  rw [grow, List.length_append]
  omega

theorem nodup_grow (h : found.Nodup) : (g.grow found).Nodup := by
  rw [grow, List.nodup_append]
  refine ⟨h, nodup_eraseDups _, ?_⟩
  rintro a ha b hb rfl
  simpa [ha] using (List.mem_filter.mp (List.mem_eraseDups.mp hb)).2

-- What one round keeps, all rounds keep.
theorem growTimes_keeps {P : List String → Prop} (hgrow : ∀ found, P found → P (g.grow found))
    (h : P found) (rounds : Nat) : P (g.growTimes rounds found) := by
  induction rounds generalizing found with
  | zero => exact h
  | succ rounds ih => exact ih (hgrow found h)

theorem nodup_growTimes (g : BlockGraph) (rounds : Nat) (x : String) :
    (g.growTimes rounds [x]).Nodup :=
  growTimes_keeps (P := List.Nodup) (fun _ => nodup_grow) (List.nodup_singleton x) rounds

-- Each round finds a block more, until there is no edge left to follow.
theorem closed_or_le_length_growTimes (rounds : Nat) (found : List String) :
    g.Closed (g.growTimes rounds found) ∨
      found.length + rounds ≤ (g.growTimes rounds found).length := by
  induction rounds generalizing found with
  | zero => exact .inr (Nat.le_refl _)
  | succ rounds ih =>
      by_cases h : g.Closed found
      · left
        rwa [growTimes_of_closed h]
      · have hlength := length_lt_grow h
        rw [growTimes]
        refine (ih (g.grow found)).imp_right fun hle => ?_
        omega

end Search

section Reach

variable {g : BlockGraph} {R : String → String → Prop}
  (hR : ∀ u v, v ∈ g.successors u ↔ R u v) (hends : ∀ u v, R u v → v ∈ g.names)

include hR

theorem reflTransGen_of_mem_growTimes {x y : String} {rounds : Nat}
    (h : y ∈ g.growTimes rounds [x]) : Relation.ReflTransGen R x y := by
  refine growTimes_keeps (P := fun found => ∀ v ∈ found, Relation.ReflTransGen R x v)
    (fun found hfound v hv => ?_) (by simp [Relation.ReflTransGen.refl]) rounds y h
  rcases mem_grow.mp hv with hv | ⟨u, hu, hv⟩
  · exact hfound v hv
  · exact (hfound u hu).tail ((hR u v).mp hv)

include hends

-- There are no more rounds with an edge to follow than there are nodes.
theorem closed_growTimes {x : String} (hx : x ∈ g.names) :
    g.Closed (g.growTimes g.nodes.length [x]) := by
  have hnodup := nodup_growTimes g g.nodes.length x
  have hsubset : g.growTimes g.nodes.length [x] ⊆ g.names := by
    refine growTimes_keeps (P := fun found => found ⊆ g.names) (fun found hfound v hv => ?_)
      (by simpa using hx) _
    rcases mem_grow.mp hv with hv | ⟨u, -, hv⟩
    · exact hfound hv
    · exact hends u v ((hR u v).mp hv)
  have hlength : (g.growTimes g.nodes.length [x]).length ≤ g.nodes.length := by
    simpa [names] using (List.subperm_of_subset hnodup hsubset).length_le
  refine (closed_or_le_length_growTimes g.nodes.length [x]).resolve_right fun hle => ?_
  rw [List.length_singleton] at hle
  omega

theorem mem_growTimes_iff {x y : String} (hx : x ∈ g.names) :
    y ∈ g.growTimes g.nodes.length [x] ↔ Relation.ReflTransGen R x y := by
  refine ⟨reflTransGen_of_mem_growTimes hR, fun h => ?_⟩
  induction h with
  | refl =>
      exact growTimes_keeps (P := (x ∈ ·)) (fun _ hmem => mem_grow.mpr (.inl hmem))
        List.mem_cons_self _
  | tail _ hstep ih => exact closed_growTimes hR hends hx _ ih ((hR _ _).mpr hstep)

-- The search finds what paths lead to, and finds it once.
theorem mem_reachableFrom {x y : String} :
    y ∈ g.reachableFrom x ↔ x ∈ g.names ∧ y ≠ x ∧ Relation.ReflTransGen R x y := by
  rw [reachableFrom]
  split
  · rename_i hnode
    have hx := hasNode_nodes.mp hnode
    rw [List.mem_filter, mem_growTimes_iff hR hends hx, decide_eq_true_eq]
    exact ⟨fun h => ⟨hx, h.2, h.1⟩, fun h => ⟨h.2.2, h.2.1⟩⟩
  · rename_i hnode
    exact iff_of_false List.not_mem_nil fun h => hnode (hasNode_nodes.mpr h.1)

omit hR hends in
theorem nodup_reachableFrom (g : BlockGraph) (x : String) : (g.reachableFrom x).Nodup := by
  rw [reachableFrom]
  split
  · exact (nodup_growTimes g _ x).filter _
  · exact List.nodup_nil

end Reach

-- An edge of either kind.
def Leads (g : BlockGraph) (u v : String) : Prop :=
  ∃ e ∈ g.edges, e.ends = (u, v) ∧ (e.next = true ∨ e.reference = true)

section Rows

variable {rows : List Row}

theorem mem_successors_ofRows (u v : String) :
    v ∈ (ofRows rows).successors u ↔ (ofRows rows).Leads u v := by
  rw [mem_successors]
  exact ⟨fun ⟨e, he, hends⟩ => ⟨e, he, hends, next_or_reference_ofRows he⟩,
    fun ⟨e, he, hends, _⟩ => ⟨e, he, hends⟩⟩

theorem mem_names_of_leads (u v : String) (h : (ofRows rows).Leads u v) :
    v ∈ (ofRows rows).names := by
  obtain ⟨e, he, hends, -⟩ := h
  rw [← (Prod.mk.inj hends).2]
  exact (ends_mem_names_ofRows he).2

theorem mem_reachableFrom_ofRows {x y : String} :
    y ∈ (ofRows rows).reachableFrom x ↔
      x ∈ (ofRows rows).names ∧ y ≠ x ∧ Relation.ReflTransGen (ofRows rows).Leads x y :=
  mem_reachableFrom mem_successors_ofRows mem_names_of_leads

-- From a block on, edges lead to the next one again and again.
theorem reflTransGen_of_route {before after : List String} {x y : String}
    (h : route rows = before ++ x :: after) (hy : y ∈ after) :
    Relation.ReflTransGen (ofRows rows).Leads x y := by
  induction after generalizing before x with
  | nil => cases hy
  | cons z after ih =>
      have hfollows : [x, z] <:+: route rows := ⟨before, after, by simp [h]⟩
      obtain ⟨e, he, hends, hnext⟩ := next_ofRows.mpr hfollows
      have hleads : (ofRows rows).Leads x z := ⟨e, he, hends, .inl hnext⟩
      rcases List.mem_cons.mp hy with rfl | hy
      · exact .single hleads
      · have hrest : route rows = (before ++ [x]) ++ z :: after := by simp [h]
        exact .head hleads (ih hrest hy)

theorem mem_reachableFrom_of_route {before after : List String} {x y : String}
    (h : route rows = before ++ x :: after) (hy : y ∈ after) (hne : y ≠ x) :
    y ∈ (ofRows rows).reachableFrom x := by
  have hx : x ∈ route rows := by simp [h]
  exact mem_reachableFrom_ofRows.mpr
    ⟨mem_names_ofRows.mpr (.inl (mem_trail_of_mem_route hx)), hne, reflTransGen_of_route h hy⟩

theorem mem_reachableFrom_of_attached {before after : List String} {x y : String}
    (h : attached rows = before ++ x :: after) (hy : y ∈ after) (hne : y ≠ x) :
    y ∈ (ofRows rows).reachableFrom x := by
  have hroute : route rows = (if opensUnlabelled rows ∨ (attached rows).head? = some entryName then
      [entryName] else []) ++ before ++ x :: after := by
    rw [List.append_assoc, ← h, route]
  exact mem_reachableFrom_of_route hroute hy hne

theorem mem_reachableFrom_entry {y : String} (hopens : opensUnlabelled rows = true)
    (hy : y ∈ attached rows) (hne : y ≠ entryName) :
    y ∈ (ofRows rows).reachableFrom entryName := by
  have hroute : route rows = [] ++ entryName :: attached rows := by simp [route, hopens]
  exact mem_reachableFrom_of_route hroute hy hne

end Rows

-- What can be reached from a block is what paths of edges lead to. Among it is every block that
-- begins later in the text, however the names repeat.
theorem reachable_ofStream {s : Stream}
    (hlabels : ∀ i ∈ s.instructions, ∀ l ∈ i.labels, ∃ name, l = .str name) :
    (CanAnnotate s → ∃ g, ofStream s = .ok g ∧ ∀ x,
      (x ∉ g.names → g.reachableFrom x = []) ∧
      (x ∈ g.names → (g.reachableFrom x).Nodup ∧ ∀ y, y ∈ g.reachableFrom x ↔
        y ∈ g.names ∧ y ≠ x ∧ Relation.ReflTransGen g.Leads x y) ∧
      (∀ before after, attached (textRows s) = before ++ x :: after →
        ∀ y ∈ after, y ≠ x → y ∈ g.reachableFrom x) ∧
      (x = entryName → opensUnlabelled (textRows s) = true →
        ∀ y ∈ attached (textRows s), y ≠ x → y ∈ g.reachableFrom x)) ∧
    (¬CanAnnotate s → ofStream s = .error .wrongType) := by
  refine ⟨fun hsound => ⟨_, ofStream_of_canAnnotate hlabels hsound, fun x => ⟨?_, ?_, ?_, ?_⟩⟩,
    ofStream_of_not_canAnnotate hlabels⟩
  · intro hx
    exact if_neg fun hnode => hx (hasNode_nodes.mp hnode)
  · intro hx
    refine ⟨nodup_reachableFrom _ x, fun y => mem_reachableFrom_ofRows.trans ?_⟩
    constructor
    · rintro ⟨-, hne, hpath⟩
      refine ⟨?_, hne, hpath⟩
      cases hpath with
      | refl => exact hx
      | tail _ hstep => exact mem_names_of_leads _ _ hstep
    · rintro ⟨-, hne, hpath⟩
      exact ⟨hx, hne, hpath⟩
  · intro before after h y hy hne
    exact mem_reachableFrom_of_attached h hy hne
  · rintro rfl hopens y hy hne
    exact mem_reachableFrom_entry hopens hy hne

-- A block that leads back to an earlier one, to itself and to a name that has no block.
def cyclicStream : Stream :=
  ⟨[{ opcode := .str "add" },
    { opcode := .str "b", labels := [.str "a"], operands := [.label "\"c d\""] },
    { opcode := .str "jmp", labels := [.str "c d"],
      operands := [.label "a", .label "\"c d\"", .label "e"] }]⟩

theorem reachable_ofStream_cyclic :
    (∀ i ∈ cyclicStream.instructions, ∀ l ∈ i.labels, ∃ name, l = .str name) ∧
      ∃ g, ofStream cyclicStream = .ok g ∧
        (∀ y, y ∈ g.reachableFrom "c d" ↔
          y ∈ g.names ∧ y ≠ "c d" ∧ Relation.ReflTransGen g.Leads "c d" y) ∧
        g.reachableFrom "c d" = ["a", "e"] ∧ "c d" ∈ g.reachableFrom "a" ∧
        "c d" ∈ g.reachableFrom entryName ∧ g.reachableFrom "f" = [] := by
  have hlabels : ∀ i ∈ cyclicStream.instructions, ∀ l ∈ i.labels, ∃ name, l = .str name := by
    simp [cyclicStream]
  have hsound : CanAnnotate cyclicStream := by
    intro i hi _
    simp only [cyclicStream, List.mem_cons, List.not_mem_nil, or_false] at hi
    rcases hi with rfl | rfl | rfl <;> exact .inr rfl
  obtain ⟨g, hg, hreach⟩ := (reachable_ofStream hlabels).1 hsound
  obtain rfl : ofRows (textRows cyclicStream) = g := Except.ok.inj hg
  exact ⟨hlabels, _, hg, ((hreach "c d").2.1 (by decide)).2, by decide,
    (hreach "a").2.2.1 [] ["c d"] (by decide) "c d" (by simp) (by decide),
    (hreach entryName).2.2.2 rfl (by decide) "c d" (by decide) (by decide),
    (hreach "f").1 (by decide)⟩

-- The reference of an instruction whose opcode is an object is refused, and with it the graph.
def objectOpcodeStream : Stream :=
  ⟨[{ opcode := .obj [("k", .int 1)], operands := [.label "x"] }]⟩

theorem ofStream_objectOpcode :
    (∀ i ∈ objectOpcodeStream.instructions, ∀ l ∈ i.labels, ∃ name, l = .str name) ∧
      ¬∃ g, ofStream objectOpcodeStream = .ok g ∧ "x" ∈ g.reachableFrom entryName := by
  refine ⟨by simp [objectOpcodeStream], ?_⟩
  rintro ⟨g, hg, -⟩
  cases hg

end Listing.BlockGraph
