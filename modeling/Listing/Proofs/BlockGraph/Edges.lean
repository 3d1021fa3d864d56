import Listing.Proofs.BlockGraph.Nodes

namespace Listing.BlockGraph

def Edge.ends (e : Edge) : String × String := (e.source, e.target)

def Reference.ends (r : Reference) : String × String := (r.block, r.target)

section Mark

variable {edge edge' : String × String → Edge} {met : List (String × String)}
  {ends : String × String} {f : Edge → Edge}

theorem mark_map_of_notMem (hends : ∀ p, (edge p).ends = p) (h : ends ∉ met) :
    mark ends.1 ends.2 f (met.map edge) =
      met.map edge ++ [f { source := ends.1, target := ends.2 }] := by
  induction met with
  | nil => rfl
  | cons p met ih =>
      have hne : ¬((edge p).source = ends.1 ∧ (edge p).target = ends.2) := fun heq =>
        h (by rw [← hends p, Edge.ends, heq.1, heq.2]; exact List.mem_cons_self)
      rw [List.map_cons, mark, if_neg hne, ih fun hm => h (List.mem_cons_of_mem _ hm)]
      rfl

theorem mark_map_of_mem (hends : ∀ p, (edge p).ends = p) (hmarked : f (edge ends) = edge' ends)
    (hother : ∀ p, p ≠ ends → edge p = edge' p) (hnodup : met.Nodup) (h : ends ∈ met) :
    mark ends.1 ends.2 f (met.map edge) = met.map edge' := by
  induction met with
  | nil => cases h
  | cons p met ih =>
      obtain ⟨hp, hnodup⟩ := List.nodup_cons.mp hnodup
      by_cases heq : p = ends
      · subst heq
        have hfound : (edge p).source = p.1 ∧ (edge p).target = p.2 := Prod.mk.inj (hends p)
        have hrest : met.map edge = met.map edge' :=
          List.map_congr_left fun q hq => hother q fun hqp => hp (hqp ▸ hq)
        rw [List.map_cons, mark, if_pos hfound, hmarked, hrest, List.map_cons]
      · have hmem : ends ∈ met := (List.mem_cons.mp h).resolve_left (Ne.symm heq)
        have hne : ¬((edge p).source = ends.1 ∧ (edge p).target = ends.2) := fun hfound =>
          heq (by rw [← hends p, Edge.ends, hfound.1, hfound.2])
        rw [List.map_cons, mark, if_neg hne, ih hnodup hmem, hother p heq, List.map_cons]

-- Marking an edge changes it where it stands. It is a new one if its ends were not met before.
theorem mark_eraseDups (hends : ∀ p, (edge p).ends = p)
    (hfresh : ends ∉ met → edge ends = { source := ends.1, target := ends.2 })
    (hmarked : f (edge ends) = edge' ends) (hother : ∀ p, p ≠ ends → edge p = edge' p) :
    mark ends.1 ends.2 f (met.eraseDups.map edge) = (met ++ [ends]).eraseDups.map edge' := by
  by_cases h : ends ∈ met
  · rw [eraseDups_concat_of_mem h]
    exact mark_map_of_mem hends hmarked hother (nodup_eraseDups met) (List.mem_eraseDups.mpr h)
  · have hnew : ends ∉ met.eraseDups := fun hm => h (List.mem_eraseDups.mp hm)
    have hrest : met.eraseDups.map edge = met.eraseDups.map edge' :=
      List.map_congr_left fun p hp => hother p fun heq => hnew (heq ▸ hp)
    rw [mark_map_of_notMem hends hnew, eraseDups_concat_of_notMem h, ← hfresh h, hmarked, hrest,
      List.map_append, List.map_singleton]

end Mark

-- The edge between two blocks by what follows what and by what refers to what.
def edgeOf (followed : List (String × String)) (references : List Reference)
    (ends : String × String) : Edge where
  source := ends.1
  target := ends.2
  next := decide (ends ∈ followed)
  reference := references.any (·.ends = ends)
  opcodes :=
    (references.filter (·.ends = ends)).foldl (fun opcodes r => addOpcode r.opcode opcodes) []

def edgesOf (followed : List (String × String)) (references : List Reference) : List Edge :=
  (followed ++ references.map Reference.ends).eraseDups.map (edgeOf followed references)

section EdgesOf

variable {followed : List (String × String)} {references : List Reference}

-- Blocks that nothing joins have a fresh edge.
theorem edgeOf_of_notMem {ends : String × String}
    (h : ends ∉ followed ++ references.map Reference.ends) :
    edgeOf followed references ends = { source := ends.1, target := ends.2 } := by
  obtain ⟨hfollowed, hreferences⟩ : ends ∉ followed ∧ ends ∉ references.map Reference.ends := by
    simpa only [List.mem_append, not_or] using h
  have hne : ∀ r ∈ references, ¬r.ends = ends := fun r hr heq =>
    hreferences (List.mem_map.mpr ⟨r, hr, heq⟩)
  have hfilter : references.filter (·.ends = ends) = [] :=
    List.filter_eq_nil_iff.mpr fun r hr => by simpa using hne r hr
  have hany : references.any (·.ends = ends) = false :=
    List.any_eq_false.mpr fun r hr => by simpa using hne r hr
  simp only [edgeOf, hfilter, hany, List.foldl_nil, decide_eq_false hfollowed]

theorem mark_follow_edgesOf (ends : String × String) :
    mark ends.1 ends.2 Edge.follow (edgesOf followed []) = edgesOf (followed ++ [ends]) [] := by
  simp only [edgesOf, List.map_nil, List.append_nil]
  refine mark_eraseDups (fun _ => rfl) (fun h => ?_) ?_ fun p hp => ?_
  · exact edgeOf_of_notMem (by simpa using h)
  · simp [edgeOf, Edge.follow]
  · simp [edgeOf, hp]

theorem mark_refer_edgesOf (r : Reference) :
    mark r.block r.target (Edge.refer r.opcode) (edgesOf followed references) =
      edgesOf followed (references ++ [r]) := by
  simp only [edgesOf, List.map_append, List.map_singleton, ← List.append_assoc]
  change mark r.ends.1 r.ends.2 (Edge.refer r.opcode) _ = _
  refine mark_eraseDups (fun _ => rfl) edgeOf_of_notMem ?_ fun p hp => ?_
  · simp [edgeOf, Edge.refer, List.filter_append]
  · simp [edgeOf, List.filter_append, Ne.symm hp]

theorem edges_foldl_refer (more : List Reference) (graph : BlockGraph)
    (h : graph.edges = edgesOf followed references) :
    (more.foldl refer graph).edges = edgesOf followed (references ++ more) := by
  induction more generalizing references graph with
  | nil => rw [List.foldl_nil, h, List.append_nil]
  | cons r more ih =>
      have hstep : (refer graph r).edges = edgesOf followed (references ++ [r]) := by
        rw [refer, h, mark_refer_edgesOf]
      rw [List.foldl_cons, ih (refer graph r) hstep, List.append_assoc, List.singleton_append]

end EdgesOf

theorem hasNode_addNode (name added : String) (status : Status) (nodes : List Node) :
    hasNode name (addNode added status nodes) = true ↔
      hasNode name nodes = true ∨ name = added := by
  rw [addNode]
  split
  · rename_i h
    exact ⟨.inl, fun hor => hor.elim id fun heq => heq ▸ h⟩
  · simp [hasNode, eq_comm (a := added)]

theorem hasNode_countInstruction (name counted : String) (nodes : List Node) :
    hasNode name (countInstruction counted nodes) = hasNode name nodes := by
  have hname : ∀ n : Node,
      (if n.name = counted then { n with instructions := n.instructions + 1 } else n).name =
        n.name := by
    intro n
    split <;> rfl
  simp [hasNode, countInstruction, Function.comp_def, hname]

-- The blocks along which edges follow one another. A first label named like the entry follows
-- itself, for its block is then the one at which the stream begins.
def route (rows : List Row) : List String :=
  (if opensUnlabelled rows ∨ (attached rows).head? = some entryName then [entryName] else []) ++
    attached rows

theorem route_of_notMem {rows : List Row} (h : entryName ∉ attached rows) :
    route rows = trail rows := by
  have hhead : (attached rows).head? ≠ some entryName := fun hh => h (List.mem_of_mem_head? hh)
  simp [route, trail, hhead]

theorem opensUnlabelled_of_attached {rows : List Row} (h : rows ≠ []) (hnone : attached rows = []) :
    opensUnlabelled rows = true := by
  cases rows with
  | nil => exact absurd rfl h
  | cons row rows =>
      have hlabels : row.labels = [] := List.flatMap_eq_nil_iff.mp hnone row List.mem_cons_self
      simp [opensUnlabelled, hlabels]

theorem route_ne_nil {rows : List Row} (h : rows ≠ []) : route rows ≠ [] := by
  by_cases hnone : attached rows = []
  · simp [route, opensUnlabelled_of_attached h hnone]
  · simp [route, hnone]

theorem route_append {rows : List Row} (h : rows ≠ []) (more : List Row) :
    route (rows ++ more) = route rows ++ attached more := by
  rw [route, opensUnlabelled_append h, attached_append, route, List.append_assoc]
  by_cases hnone : attached rows = []
  · simp [opensUnlabelled_of_attached h hnone]
  · obtain ⟨name, names, hattached⟩ := List.exists_cons_of_ne_nil hnone
    simp [hattached]

theorem route_concat {rows : List Row} (h : rows ≠ []) (row : Row) :
    route (rows ++ [row]) = route rows ++ row.labels := by
  rw [route_append h, attached_singleton]

-- How a graph stands after a route, before any reference.
structure Routed (met : List String) (g : Growth) : Prop where
  nodes : ∀ name, hasNode name g.nodes = true ↔ name ∈ met
  current : g.current = met.getLast?.getD entryName
  edges : g.edges = edgesOf (steps met) []

section Routed

variable {met : List String} {g : Growth}

theorem Routed.enter (h : Routed met g) {name : String} (hname : met = [] → name ≠ entryName) :
    Routed (met ++ [name]) (g.enter name) where
  nodes := by
    intro n
    rw [Growth.enter, hasNode_addNode, h.nodes, List.mem_append, List.mem_singleton]
  current := by rw [List.getLast?_concat]; rfl
  edges := by
    have hnode : hasNode g.current (addNode name .defined g.nodes) = true ↔
        g.current ∈ met ∨ g.current = name := by
      rw [hasNode_addNode, h.nodes]
    simp only [Growth.enter, hnode]
    cases met using List.reverseRecOn with
    | nil =>
        have hout : ¬(g.current ∈ ([] : List String) ∨ g.current = name) := by
          rw [h.current]
          simpa using Ne.symm (hname rfl)
        rw [if_neg hout, h.edges]
        rfl
    | append_singleton before last =>
        have hcurrent : g.current = last := by rw [h.current, List.getLast?_concat]; rfl
        rw [hcurrent, if_pos (.inl (by simp)), h.edges, List.append_assoc, List.singleton_append,
          steps_concat]
        exact mark_follow_edgesOf (last, name)

theorem Routed.foldl_enter (h : Routed met g) (hmet : met ≠ []) (labels : List String) :
    Routed (met ++ labels) (labels.foldl Growth.enter g) := by
  induction labels generalizing met g with
  | nil => rwa [List.append_nil]
  | cons name labels ih =>
      rw [List.foldl_cons, ← List.singleton_append, ← List.append_assoc]
      exact ih (h.enter fun hnil => absurd hnil hmet) (by simp)

-- Apart from its labels a row adds nothing to a graph that has its block.
theorem Routed.add {row : Row} (h : Routed met (row.labels.foldl Growth.enter g))
    (hmet : met ≠ []) : Routed met (g.add row) where
  nodes := by
    have hcurrent : (row.labels.foldl Growth.enter g).current ∈ met := by
      rw [h.current, List.getLast?_eq_some_getLast hmet]
      exact List.getLast_mem hmet
    intro name
    simp only [Growth.add]
    rw [hasNode_countInstruction, hasNode_addNode, h.nodes]
    exact ⟨fun hor => hor.elim id fun heq => heq ▸ hcurrent, .inl⟩
  current := h.current
  edges := h.edges

end Routed

theorem routed_first (row : Row) : Routed (route [row]) (({} : Growth).add row) := by
  have hempty : Routed [] {} := ⟨by simp [hasNode], rfl, rfl⟩
  obtain ⟨labels, references, opcode⟩ := row
  cases labels with
  | nil =>
      have hroute : route [⟨[], references, opcode⟩] = [entryName] := rfl
      rw [hroute]
      refine ⟨fun name => ?_, rfl, rfl⟩
      simp only [Growth.add, List.foldl_nil]
      rw [hasNode_countInstruction, hasNode_addNode, hempty.nodes]
      simp
  | cons name labels =>
      have hentered : Routed (if name = entryName then [entryName, name] else [name])
          (({} : Growth).enter name) := by
        by_cases hname : name = entryName
        · subst hname
          refine ⟨fun n => ?_, rfl, by decide⟩
          rw [Growth.enter, hasNode_addNode, hempty.nodes]
          simp
        · simpa [hname] using hempty.enter fun _ => hname
      have hroute : route [⟨name :: labels, references, opcode⟩] =
          (if name = entryName then [entryName, name] else [name]) ++ labels := by
        by_cases hname : name = entryName
        · simp [route, opensUnlabelled, attached, hname]
        · simp [route, opensUnlabelled, attached, hname]
      rw [hroute]
      exact Routed.add (hentered.foldl_enter (by split <;> simp) labels) (by split <;> simp)

theorem routed_foldl {rows : List Row} (h : rows ≠ []) :
    Routed (route rows) (rows.foldl Growth.add {}) := by
  induction rows using List.reverseRecOn with
  | nil => exact absurd rfl h
  | append_singleton rows row ih =>
      by_cases hrows : rows = []
      · rw [hrows]
        exact routed_first row
      · have hroute : route rows ++ row.labels ≠ [] := by simp [route_ne_nil hrows]
        rw [List.foldl_append, route_concat hrows]
        exact ((ih hrows).foldl_enter (route_ne_nil hrows) row.labels).add hroute

-- The edges of a graph, whatever its rows, in the order of their making.
theorem edges_ofRows (rows : List Row) :
    (ofRows rows).edges = edgesOf (steps (route rows)) (mentions rows) := by
  have hedges : (rows.foldl Growth.add {}).edges = edgesOf (steps (route rows)) [] := by
    by_cases h : rows = []
    · rw [h]
      rfl
    · exact (routed_foldl h).edges
  rw [ofRows, Growth.resolve, edges_foldl_refer _ _ hedges, (grown_foldl rows).references,
    List.nil_append]

end Listing.BlockGraph
