import Listing.Proofs.BlockGraph.Edges
import Listing.Proofs.BlockGraph.NodeList

namespace Listing.BlockGraph

section Rows

variable {rows : List Row} {u v : String}

theorem mem_edges_ofRows {e : Edge} :
    e ∈ (ofRows rows).edges ↔
      (e.ends ∈ steps (route rows) ∨ ∃ r ∈ mentions rows, r.ends = e.ends) ∧
        e = edgeOf (steps (route rows)) (mentions rows) e.ends := by
  rw [edges_ofRows, edgesOf, List.mem_map]
  constructor
  · rintro ⟨ends, hmem, rfl⟩
    rw [List.mem_eraseDups, List.mem_append, List.mem_map] at hmem
    exact ⟨hmem, rfl⟩
  · rintro ⟨hmem, he⟩
    refine ⟨e.ends, ?_, he.symm⟩
    rwa [List.mem_eraseDups, List.mem_append, List.mem_map]

-- Two blocks have at most one edge in a direction.
theorem nodup_ends_ofRows (rows : List Row) : ((ofRows rows).edges.map Edge.ends).Nodup := by
  have hends : Edge.ends ∘ edgeOf (steps (route rows)) (mentions rows) = id := rfl
  rw [edges_ofRows, edgesOf, List.map_map, hends, List.map_id]
  exact nodup_eraseDups _

theorem next_ofRows :
    (∃ e ∈ (ofRows rows).edges, e.ends = (u, v) ∧ e.next = true) ↔ [u, v] <:+: route rows := by
  rw [← mem_steps]
  constructor
  · rintro ⟨e, he, hends, hnext⟩
    rw [(mem_edges_ofRows.mp he).2, hends] at hnext
    simpa [edgeOf] using hnext
  · intro h
    refine ⟨edgeOf (steps (route rows)) (mentions rows) (u, v), ?_, rfl, by simpa [edgeOf] using h⟩
    exact mem_edges_ofRows.mpr ⟨.inl h, rfl⟩

theorem reference_ofRows :
    (∃ e ∈ (ofRows rows).edges, e.ends = (u, v) ∧ e.reference = true) ↔
      ∃ r ∈ mentions rows, r.ends = (u, v) := by
  constructor
  · rintro ⟨e, he, hends, hreference⟩
    rw [(mem_edges_ofRows.mp he).2, hends] at hreference
    simpa [edgeOf] using hreference
  · rintro ⟨r, hr, hends⟩
    refine ⟨edgeOf (steps (route rows)) (mentions rows) (u, v), ?_, rfl, ?_⟩
    · exact mem_edges_ofRows.mpr ⟨.inr ⟨r, hr, hends⟩, rfl⟩
    · simpa [edgeOf] using ⟨r, hr, hends⟩

-- No edge is of neither kind.
theorem next_or_reference_ofRows {e : Edge} (h : e ∈ (ofRows rows).edges) :
    e.next = true ∨ e.reference = true := by
  obtain ⟨hends, he⟩ := mem_edges_ofRows.mp h
  rw [he]
  exact hends.imp (by simp [edgeOf]) (by simp [edgeOf])

theorem mem_names_ofRows {name : String} :
    name ∈ (ofRows rows).names ↔ name ∈ trail rows ∨ name ∈ referred rows := by
  rw [names_ofRows, List.mem_eraseDups, List.mem_append]

theorem mem_trail_of_mem_route {name : String} (h : name ∈ route rows) : name ∈ trail rows := by
  rw [route, List.mem_append] at h
  rw [trail, List.mem_append]
  refine h.elim (fun hentry => ?_) .inr
  split at hentry
  · rename_i hor
    rw [List.mem_singleton.mp hentry]
    exact hor.imp (by simp +contextual) List.mem_of_mem_head?
  · cases hentry

theorem mem_of_mem_mentions {r : Reference} (h : r ∈ mentions rows) :
    r.block ∈ trail rows ∧ r.target ∈ referred rows := by
  have htarget : r.target ∈ referred rows := by
    rw [← target_mentions]
    exact List.mem_map_of_mem h
  obtain ⟨⟨block, row⟩, hpair, hr⟩ := List.mem_flatMap.mp h
  obtain ⟨target, -, rfl⟩ := List.mem_map.mp hr
  exact ⟨mem_trail_of_mem_blocks (List.of_mem_zip hpair).1, htarget⟩

theorem ends_mem_names_ofRows {e : Edge} (h : e ∈ (ofRows rows).edges) :
    e.source ∈ (ofRows rows).names ∧ e.target ∈ (ofRows rows).names := by
  rw [mem_names_ofRows, mem_names_ofRows]
  rcases (mem_edges_ofRows.mp h).1 with hstep | ⟨r, hr, hends⟩
  · have hpair := (mem_steps.mp hstep).subset
    exact ⟨.inl (mem_trail_of_mem_route (hpair (by simp))),
      .inl (mem_trail_of_mem_route (hpair (by simp)))⟩
  · obtain ⟨hblock, htarget⟩ := mem_of_mem_mentions hr
    obtain ⟨hsource, htarget'⟩ := Prod.mk.inj hends
    exact ⟨.inl (hsource ▸ hblock), .inr (htarget' ▸ htarget)⟩

theorem mem_referencesTo_ofRows :
    u ∈ (ofRows rows).referencesTo v ↔ ∃ r ∈ mentions rows, r.ends = (u, v) := by
  rw [referencesTo, (sortNames_perm _).mem_iff, ← reference_ofRows]
  simp only [List.mem_map, List.mem_filter, Bool.and_eq_true, decide_eq_true_eq, Edge.ends,
    Prod.mk.injEq]
  constructor
  · rintro ⟨e, ⟨he, htarget, hreference⟩, hsource⟩
    exact ⟨e, he, ⟨hsource, htarget⟩, hreference⟩
  · rintro ⟨e, he, ⟨hsource, htarget⟩, hreference⟩
    exact ⟨e, ⟨he, htarget, hreference⟩, hsource⟩

-- No block is listed twice, since edges to one target have different sources.
theorem referencesTo_ofRows_ascending (rows : List Row) (v : String) :
    ((ofRows rows).referencesTo v).Pairwise (· < ·) := by
  have hdistinct : (ofRows rows).edges.Pairwise fun a b => a.ends ≠ b.ends :=
    List.pairwise_map.mp (nodup_ends_ofRows rows)
  have hsources : (((ofRows rows).edges.filter fun e => e.target = v && e.reference).map
      (·.source)).Nodup := by
    refine List.pairwise_map.mpr ((hdistinct.filter _).imp_of_mem fun ha hb hne heq => hne ?_)
    have hatarget := (List.mem_filter.mp ha).2
    have hbtarget := (List.mem_filter.mp hb).2
    simp only [Bool.and_eq_true, decide_eq_true_eq] at hatarget hbtarget
    rw [Edge.ends, Edge.ends, heq, hatarget.1, hbtarget.1]
  have hnodup := (sortNames_perm _).nodup_iff.mpr hsources
  exact ((sortNames_sorted _).and hnodup).imp fun h => lt_of_le_of_ne h.1 h.2

end Rows

section Opcodes

variable {opcodes : List Json} {references : List Reference}

theorem same_str {o : Json} {text : String} : o.same (.str text) = true ↔ o = .str text := by
  cases o <;> simp [Json.same, Json.isNumber]

theorem addOpcode_str (text : String) (opcodes : List Json) :
    addOpcode (.str text) opcodes =
      if text = "" ∨ .str text ∈ opcodes then opcodes else opcodes ++ [.str text] := by
  have hany : (opcodes.any fun o => decide (o = .str text) || o.same (.str text)) = true ↔
      .str text ∈ opcodes := by
    simp [same_str]
  simp only [addOpcode, Json.isEmptyValue, Bool.or_eq_true, hany, decide_eq_true_eq]

-- Of texts all are kept but the empty one.
theorem mem_addOpcode {o opcode : Json} (htext : ∃ text, opcode = .str text) :
    o ∈ addOpcode opcode opcodes ↔ o ∈ opcodes ∨ o ≠ .str "" ∧ opcode = o := by
  obtain ⟨text, rfl⟩ := htext
  rw [addOpcode_str]
  split
  · rename_i hold
    refine ⟨.inl, fun hor => hor.elim id ?_⟩
    rintro ⟨hne, rfl⟩
    exact hold.resolve_left fun hempty => hne (by rw [hempty])
  · rename_i hnew
    rw [List.mem_append, List.mem_singleton]
    refine or_congr_right ⟨?_, fun h => h.2.symm⟩
    rintro rfl
    exact ⟨fun heq => hnew (.inl (by simpa using heq)), rfl⟩

theorem mem_foldl_addOpcode {o : Json} (htexts : ∀ r ∈ references, ∃ text, r.opcode = .str text) :
    o ∈ references.foldl (fun opcodes r => addOpcode r.opcode opcodes) opcodes ↔
      o ∈ opcodes ∨ o ≠ .str "" ∧ ∃ r ∈ references, r.opcode = o := by
  induction references generalizing opcodes with
  | nil => simp
  | cons r references ih =>
      rw [List.foldl_cons, ih fun q hq => htexts q (List.mem_cons_of_mem _ hq),
        mem_addOpcode (htexts r List.mem_cons_self), or_assoc, ← and_or_left]
      simp only [List.mem_cons, exists_eq_or_imp]

theorem nodup_addOpcode {opcode : Json} (h : opcodes.Nodup) : (addOpcode opcode opcodes).Nodup := by
  rw [addOpcode]
  split
  · exact h
  · rename_i hnew
    simp only [Bool.or_eq_true, List.any_eq_true, decide_eq_true_eq, not_or, not_exists,
      not_and] at hnew
    rw [List.nodup_append]
    refine ⟨h, by simp, ?_⟩
    rintro a ha b hb rfl
    exact (hnew.2 a ha).1 (List.mem_singleton.mp hb)

theorem nodup_foldl_addOpcode (h : opcodes.Nodup) :
    (references.foldl (fun opcodes r => addOpcode r.opcode opcodes) opcodes).Nodup := by
  induction references generalizing opcodes with
  | nil => exact h
  | cons r references ih => exact ih (nodup_addOpcode h)

end Opcodes

theorem opcodes_ofRows {rows : List Row}
    (htexts : ∀ r ∈ mentions rows, ∃ text, r.opcode = .str text) {e : Edge}
    (h : e ∈ (ofRows rows).edges) :
    e.opcodes.Nodup ∧
      ∀ o, o ∈ e.opcodes ↔ o ≠ .str "" ∧ ∃ r ∈ mentions rows, r.ends = e.ends ∧ r.opcode = o := by
  have hopcodes : e.opcodes = ((mentions rows).filter (·.ends = e.ends)).foldl
      (fun opcodes r => addOpcode r.opcode opcodes) [] :=
    congrArg Edge.opcodes (mem_edges_ofRows.mp h).2
  constructor
  · rw [hopcodes]
    exact nodup_foldl_addOpcode List.nodup_nil
  · intro o
    rw [hopcodes, mem_foldl_addOpcode fun r hr => htexts r (List.mem_filter.mp hr).1]
    simp only [List.not_mem_nil, false_or, List.mem_filter, decide_eq_true_eq, and_assoc]

-- An instruction refers to a name from its block, that of the label attached last before it or on
-- it.
def Refers (is : List Instruction) (block name : String) (i : Instruction) : Prop :=
  ∃ before after, is = before ++ i :: after ∧
    blockAfter ((before ++ [i]).map Row.ofTexts) = block ∧
      ∃ operand, .label operand ∈ i.operands ∧ Symbol.unquote operand = name

theorem mem_referenceNames {operands : List Operand} {name : String} :
    name ∈ referenceNames operands ↔
      ∃ operand, .label operand ∈ operands ∧ Symbol.unquote operand = name := by
  rw [referenceNames, List.mem_filterMap]
  constructor
  · rintro ⟨o, ho, hname⟩
    cases o with
    | label operand => exact ⟨operand, ho, by simpa using hname⟩
    | _ => cases hname
  · rintro ⟨operand, ho, rfl⟩
    exact ⟨_, ho, rfl⟩

theorem refers_concat {is : List Instruction} {i j : Instruction} {block name : String} :
    Refers (is ++ [i]) block name j ↔ Refers is block name j ∨
      j = i ∧ block = blockAfter ((is ++ [i]).map Row.ofTexts) ∧
        name ∈ referenceNames i.operands := by
  rw [mem_referenceNames]
  constructor
  · rintro ⟨before, after, hcut, hblock, hnames⟩
    rcases concat_eq_append_cons hcut with ⟨rfl, rfl⟩ | ⟨rest, -, hrest⟩
    · exact .inr ⟨rfl, hblock.symm, hnames⟩
    · exact .inl ⟨before, rest, hrest, hblock, hnames⟩
  · rintro (⟨before, after, rfl, hblock, hnames⟩ | ⟨rfl, rfl, hnames⟩)
    · exact ⟨before, after ++ [i], by simp, hblock, hnames⟩
    · exact ⟨is, [], rfl, rfl, hnames⟩

-- What rows mention is what instructions refer to.
theorem mem_mentions_texts {is : List Instruction} {r : Reference} :
    r ∈ mentions (is.map Row.ofTexts) ↔
      ∃ i, Refers is r.block r.target i ∧ i.opcode = r.opcode := by
  induction is using List.reverseRecOn with
  | nil => simp [mentions, blocks, Refers]
  | append_singleton is i ih =>
      obtain ⟨block, target, opcode⟩ := r
      have hlast : (⟨block, target, opcode⟩ : Reference) ∈
          (Row.ofTexts i).references.map (fun t =>
            ⟨blockAfter ((is ++ [i]).map Row.ofTexts), t, (Row.ofTexts i).opcode⟩) ↔
          block = blockAfter ((is ++ [i]).map Row.ofTexts) ∧
            target ∈ referenceNames i.operands ∧ i.opcode = opcode := by
        simp only [List.mem_map, Reference.mk.injEq, Row.ofTexts]
        constructor
        · rintro ⟨t, ht, rfl, rfl, rfl⟩
          exact ⟨rfl, ht, rfl⟩
        · rintro ⟨rfl, ht, rfl⟩
          exact ⟨target, ht, rfl, rfl, rfl⟩
      rw [List.map_append, List.map_singleton, mentions_concat, List.mem_append, ih,
        ← List.map_singleton, ← List.map_append, hlast]
      simp only [refers_concat]
      constructor
      · rintro (⟨j, hj, hopcode⟩ | ⟨hblock, htarget, hopcode⟩)
        · exact ⟨j, .inl hj, hopcode⟩
        · exact ⟨i, .inr ⟨rfl, hblock, htarget⟩, hopcode⟩
      · rintro ⟨j, hj | ⟨rfl, hblock, htarget⟩, hopcode⟩
        · exact .inl ⟨j, hj, hopcode⟩
        · exact .inr ⟨hblock, htarget, hopcode⟩

-- A stream of texts has a graph.
theorem ofStream_texts {s : Stream}
    (hopcodes : ∀ i ∈ s.instructions, ∃ opcode, i.opcode = .str opcode)
    (hlabels : ∀ i ∈ s.instructions, ∀ l ∈ i.labels, ∃ name, l = .str name) :
    ofStream s = .ok (ofRows (textRows s)) := by
  have hsound : CanAnnotate s := by
    intro i hi _
    obtain ⟨opcode, hopcode⟩ := hopcodes i hi
    exact .inr (by rw [hopcode]; rfl)
  exact ofStream_of_canAnnotate hlabels hsound

theorem text_of_mem_mentions {s : Stream}
    (hopcodes : ∀ i ∈ s.instructions, ∃ opcode, i.opcode = .str opcode) :
    ∀ r ∈ mentions (textRows s), ∃ text, r.opcode = .str text := by
  intro r hr
  obtain ⟨i, ⟨before, after, hcut, -⟩, hopcode⟩ := mem_mentions_texts.mp hr
  rw [← hopcode]
  exact hopcodes i (by simp [hcut])

-- The edges of a stream's graph. What follows and what refers share one edge, and only what refers
-- gives it opcodes.
theorem edges_ofStream {s : Stream}
    (hopcodes : ∀ i ∈ s.instructions, ∃ opcode, i.opcode = .str opcode)
    (hlabels : ∀ i ∈ s.instructions, ∀ l ∈ i.labels, ∃ name, l = .str name)
    (hattached : entryName ∉ attached (textRows s)) :
    ∃ g, ofStream s = .ok g ∧
      (g.edges.map Edge.ends).Nodup ∧
      (∀ u v, (∃ e ∈ g.edges, e.ends = (u, v) ∧ e.next = true) ↔ [u, v] <:+: trail (textRows s)) ∧
      (∀ u v, (∃ e ∈ g.edges, e.ends = (u, v) ∧ e.reference = true) ↔
        ∃ i, Refers s.instructions u v i) ∧
      (∀ e ∈ g.edges, e.opcodes.Nodup ∧ ∀ o, o ∈ e.opcodes ↔
        o ≠ .str "" ∧ ∃ i, Refers s.instructions e.source e.target i ∧ i.opcode = o) ∧
      (∀ e ∈ g.edges, (e.next = true ∨ e.reference = true) ∧
        e.source ∈ g.names ∧ e.target ∈ g.names) ∧
      ∀ v, (g.referencesTo v).Pairwise (· < ·) ∧
        ∀ u, u ∈ g.referencesTo v ↔ ∃ i, Refers s.instructions u v i := by
  have hrefers : ∀ u v, (∃ r ∈ mentions (textRows s), r.ends = (u, v)) ↔
      ∃ i, Refers s.instructions u v i := by
    intro u v
    constructor
    · rintro ⟨⟨block, target, opcode⟩, hr, hends⟩
      obtain ⟨rfl, rfl⟩ := Prod.mk.inj hends
      obtain ⟨i, hi, -⟩ := mem_mentions_texts.mp hr
      exact ⟨i, hi⟩
    · rintro ⟨i, hi⟩
      exact ⟨⟨u, v, i.opcode⟩, mem_mentions_texts.mpr ⟨i, hi, rfl⟩, rfl⟩
  have htexts := text_of_mem_mentions hopcodes
  refine ⟨ofRows (textRows s), ofStream_texts hopcodes hlabels, nodup_ends_ofRows _, ?_, ?_, ?_, ?_,
    ?_⟩
  · intro u v
    rw [next_ofRows, route_of_notMem hattached]
  · intro u v
    rw [reference_ofRows, hrefers]
  · intro e he
    obtain ⟨hnodup, hmem⟩ := opcodes_ofRows htexts he
    refine ⟨hnodup, fun o => (hmem o).trans (and_congr_right fun _ => ?_)⟩
    constructor
    · rintro ⟨r, hr, hends, rfl⟩
      obtain ⟨hblock, htarget⟩ := Prod.mk.inj hends
      rw [← hblock, ← htarget]
      exact mem_mentions_texts.mp hr
    · rintro ⟨i, hi, rfl⟩
      exact ⟨⟨e.source, e.target, i.opcode⟩, mem_mentions_texts.mpr ⟨i, hi, rfl⟩, rfl, rfl⟩
  · exact fun e he => ⟨next_or_reference_ofRows he, ends_mem_names_ofRows he⟩
  · exact fun v => ⟨referencesTo_ofRows_ascending _ v, fun u => by
      rw [mem_referencesTo_ofRows, hrefers]⟩

-- The entry both precedes a block and refers to it, and a block is begun twice.
def loopStream : Stream :=
  ⟨[{ opcode := .str "b", operands := [.label "a"] },
    { opcode := .str "add", labels := [.str "a", .str "\"b c\""] },
    { opcode := .str "jmp", operands := [.label "\"b c\""] },
    { opcode := .str "", labels := [.str "a"], operands := [.label "a"] }]⟩

theorem edges_ofStream_loop :
    ∃ g, ofStream loopStream = .ok g ∧
      (∃ e ∈ g.edges, e.ends = (entryName, "a") ∧ e.next = true) ∧
      (∃ e ∈ g.edges, e.ends = (entryName, "a") ∧ e.reference = true) ∧
      (∃ e ∈ g.edges, e.ends = ("b c", "a") ∧ e.next = true) ∧
      "b c" ∈ g.referencesTo "b c" := by
  obtain ⟨g, hg, -, hnext, hreference, -, -, hreferences⟩ :=
    edges_ofStream (s := loopStream) (by simp [loopStream]) (by simp [loopStream]) (by decide)
  refine ⟨g, hg, (hnext _ _).mpr ⟨[], ["b c", "a"], by decide⟩, (hreference _ _).mpr ?_,
    (hnext _ _).mpr ⟨[entryName, "a"], [], by decide⟩, ((hreferences _).2 _).mpr ?_⟩
  · exact ⟨_, [], _, rfl, by decide, "a", by simp, by decide⟩
  · exact ⟨{ opcode := .str "jmp", operands := [.label "\"b c\""] }, loopStream.instructions.take 2,
      loopStream.instructions.drop 3, rfl, by decide, "\"b c\"", by simp, by decide⟩

end Listing.BlockGraph
