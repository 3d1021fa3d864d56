import Listing.Proofs.BlockGraph.EdgeList
import Listing.Proofs.BlockGraph.Relabel
import Listing.Proofs.Recorder.Delivery

namespace Listing

namespace Recorder

-- What is captured of an operand if a symbol keeps the name it was reported with.
def classifyVerbatim (m : Machine) (raw : RawOperand) : Option Operand :=
  (classify m raw).map fun
    | .label _ => .label raw.value.text
    | o => o

-- The stream that events make if labels and symbols keep the names they were reported with.
def verbatimStream (m : Machine) (events : List Event) : Stream :=
  ⟨Event.instructions id (classifyVerbatim m) [] events⟩

end Recorder

namespace BlockGraph

open Recorder

def operandNames (operands : List Operand) : List String :=
  operands.filterMap fun
    | .label name => some name
    | _ => none

-- The row of an instruction whose names stand as they are.
def Row.verbatim (i : Instruction) : Row :=
  ⟨i.labels.map Json.text, operandNames i.operands, i.opcode⟩

def verbatimRows (s : Stream) : List Row := s.instructions.map Row.verbatim

-- The graph of a stream, built without unquoting.
def ofVerbatim (s : Stream) : BlockGraph := ofRows (verbatimRows s)

theorem referenceNames_classify (m : Machine) (operands : List RawOperand) :
    referenceNames (operands.filterMap (classify m)) =
      operandNames (operands.filterMap (classifyVerbatim m)) := by
  rw [referenceNames, operandNames, List.filterMap_filterMap, List.filterMap_filterMap]
  refine List.filterMap_congr fun raw _ => ?_
  cases h : classify m raw with
  | none => simp [classifyVerbatim, h]
  | some o =>
      cases (classify_eq_some_iff m raw o).mp h with
      | symbol => simp [classifyVerbatim, h, Json.text, Symbol.unquote_print]
      | _ => simp [classifyVerbatim, h]

-- The name that a graph has for a label: the reported one if labels are printed, else what
-- unquoting leaves of it.
def graphName (printLabels : Bool) : String → String := if printLabels then id else Symbol.unquote

theorem unquote_attachedName (printLabels : Bool) (text : String) :
    Symbol.unquote (attachedName printLabels (.str text)).text = graphName printLabels text := by
  cases printLabels with
  | true => exact Symbol.unquote_print text
  | false => rfl

-- The rows of what is recorded are those of the reported names, with the labels as a graph has
-- them.
theorem rows_instructions {m : Machine} {printLabels : Bool} {events : List Event}
    (hlabels : ∀ e ∈ events, e.HasTextLabel) {waiting reported : List Json}
    (hwaiting : waiting.map (fun l => Symbol.unquote l.text) =
      reported.map fun l => graphName printLabels l.text) :
    (Event.instructions (attachedName printLabels) (classify m) waiting events).map Row.ofTexts =
      (Event.instructions id (classifyVerbatim m) reported events).map fun i =>
        (Row.verbatim i).relabel (graphName printLabels) := by
  induction events generalizing waiting reported with
  | nil => rfl
  | cons e es ih =>
      obtain ⟨hname, hlater⟩ := List.forall_mem_cons.mp hlabels
      cases e with
      | label name location =>
          obtain ⟨text, rfl⟩ := hname
          refine ih hlater ?_
          rw [List.map_append, List.map_append, hwaiting, List.map_singleton, unquote_attachedName]
          rfl
      | instruction opcode operands location =>
          have hrow : Row.ofTexts ⟨opcode, waiting, operands.filterMap (classify m),
              .int location.line, .int location.column⟩ =
              (Row.verbatim ⟨opcode, reported, operands.filterMap (classifyVerbatim m),
                .int location.line, .int location.column⟩).relabel (graphName printLabels) := by
            rw [Row.ofTexts, hwaiting, referenceNames_classify, Row.verbatim, Row.relabel,
              List.map_map]
            rfl
          have hnone : ([] : List Json).map (fun l => Symbol.unquote l.text) =
              [].map fun l : Json => graphName printLabels l.text := rfl
          simp only [Event.instructions, List.map_cons, hrow, ih hlater hnone]
      | symbolAttribute => exact ih hlater hwaiting
      | commonSymbol => exact ih hlater hwaiting
      | zeroFill => exact ih hlater hwaiting

theorem attachedName_str (printLabels : Bool) (text : String) :
    ∃ made, attachedName printLabels (.str text) = .str made :=
  ⟨_, rfl⟩

-- What a replay records has the graph of the reported names, up to where the replay ends. Only
-- labels can have another name in it.
theorem graph_replay (machine : Option Machine) (offset : Int) (printLabels traced : Bool)
    {events : List Event} (hopcodes : ∀ e ∈ events, e.HasTextOpcode)
    (hlabels : ∀ e ∈ events, e.HasTextLabel) {reported : Stream}
    (hreported : reported =
      verbatimStream (.orGeneric machine) (delivered (.orGeneric machine) events)) :
    ∃ r outcome,
      (fresh machine offset printLabels traced).replay (.ofEvents events) = (r, outcome) ∧
      (outcome = .ok () → delivered (.orGeneric machine) events = events) ∧
      ofStream r.stream =
        .ok (ofRows ((verbatimRows reported).map (Row.relabel (graphName printLabels)))) := by
  obtain ⟨r, outcome, hreplay, hstream, hall⟩ :=
    replay_foreseen (r := fresh machine offset printLabels traced) fun _ => hlabels
  have hrecorded : r.stream.instructions = Event.instructions (attachedName printLabels)
      (classify (.orGeneric machine)) [] (delivered (.orGeneric machine) events) := hstream
  have hdelivered : ∀ e ∈ delivered (.orGeneric machine) events, e.HasTextLabel :=
    fun e he => hlabels e (mem_of_mem_delivered he)
  have htexts : ∀ i ∈ r.stream.instructions,
      (∃ opcode, i.opcode = .str opcode) ∧ ∀ l ∈ i.labels, ∃ name, l = .str name := by
    rw [hrecorded]
    exact Event.texts_instructions (attachedName_str printLabels) (by simp)
      (fun e he => hopcodes e (mem_of_mem_delivered he)) hdelivered
  have hrows : textRows r.stream =
      (verbatimRows reported).map (Row.relabel (graphName printLabels)) := by
    rw [textRows, hrecorded, hreported, verbatimRows, List.map_map]
    exact rows_instructions hdelivered rfl
  refine ⟨r, outcome, hreplay, hall, ?_⟩
  rw [ofStream_texts (fun i hi => (htexts i hi).1) fun i hi => (htexts i hi).2, hrows]

-- A printed label unquotes to the name that was reported.
theorem map_relabel_printed (rows : List Row) :
    rows.map (Row.relabel (graphName true)) = rows :=
  (List.map_congr_left fun row _ => row.relabel_id).trans (List.map_id _)

-- If labels are printed, the graph is that of the reported names, each of which has one node.
theorem graph_of_printed (machine : Option Machine) (offset : Int) (traced : Bool)
    {events : List Event} (hopcodes : ∀ e ∈ events, e.HasTextOpcode)
    (hlabels : ∀ e ∈ events, e.HasTextLabel) :
    ∃ r outcome reported,
      (fresh machine offset true traced).replay (.ofEvents events) = (r, outcome) ∧
      reported = verbatimStream (.orGeneric machine) (delivered (.orGeneric machine) events) ∧
      (outcome = .ok () → delivered (.orGeneric machine) events = events) ∧
      ofStream r.stream = .ok (ofVerbatim reported) ∧
      (ofVerbatim reported).names =
        (trail (verbatimRows reported) ++ referred (verbatimRows reported)).eraseDups := by
  obtain ⟨r, outcome, hreplay, hall, hgraph⟩ :=
    graph_replay machine offset true traced hopcodes hlabels rfl
  rw [map_relabel_printed] at hgraph
  exact ⟨r, outcome, _, hreplay, rfl, hall, hgraph, names_ofRows _⟩

-- One name is the other in quotes, and a third ends in a line feed behind a backslash.
def nestedNames : List Event :=
  [.label (.str "\"a\"") {}, .label (.str "a") {},
    .instruction (.str "b") [⟨.str "expr", .str "\"a\"", .str "symbol_ref"⟩,
      ⟨.str "expr", .str "\\\n", .str "symbol_ref"⟩] {}]

theorem graph_of_printed_nested :
    (∀ e ∈ nestedNames, e.HasTextOpcode) ∧ (∀ e ∈ nestedNames, e.HasTextLabel) ∧
      ∃ r outcome g, (fresh none 1 true false).replay (.ofEvents nestedNames) = (r, outcome) ∧
        ofStream r.stream = .ok g ∧ g.names = ["\"a\"", "a", "\\\n"] := by
  have hopcodes : ∀ e ∈ nestedNames, e.HasTextOpcode := by simp [nestedNames, Event.HasTextOpcode]
  have hlabels : ∀ e ∈ nestedNames, e.HasTextLabel := by simp [nestedNames, Event.HasTextLabel]
  obtain ⟨r, outcome, reported, hreplay, rfl, -, hgraph, hnames⟩ :=
    graph_of_printed none 1 false hopcodes hlabels
  exact ⟨hopcodes, hlabels, r, outcome, _, hreplay, hgraph, hnames.trans (by decide)⟩

theorem forall_mem_attached_verbatimRows {s : Stream} {p : String → Prop} :
    (∀ name ∈ attached (verbatimRows s), p name) ↔
      ∀ i ∈ s.instructions, ∀ l ∈ i.labels, p l.text := by
  simp only [attached, verbatimRows, List.forall_mem_flatMap, List.forall_mem_map, Row.verbatim]

-- Whether labels are printed makes no difference to the graph, which is then that of the reported
-- names, if and only if no label that an instruction has was reported in quotes.
theorem graph_printed_or_not (machine : Option Machine) (offset : Int) (traced : Bool)
    {events : List Event} (hopcodes : ∀ e ∈ events, e.HasTextOpcode)
    (hlabels : ∀ e ∈ events, e.HasTextLabel) :
    ∃ reported unprinted printed,
      reported = verbatimStream (.orGeneric machine) (delivered (.orGeneric machine) events) ∧
      (∃ r outcome,
        (fresh machine offset false traced).replay (.ofEvents events) = (r, outcome) ∧
          ofStream r.stream = .ok unprinted) ∧
      (∃ r outcome,
        (fresh machine offset true traced).replay (.ofEvents events) = (r, outcome) ∧
          ofStream r.stream = .ok printed) ∧
      unprinted = ofRows ((verbatimRows reported).map (Row.relabel Symbol.unquote)) ∧
      printed = ofVerbatim reported ∧
      printed.names =
        (trail (verbatimRows reported) ++ referred (verbatimRows reported)).eraseDups ∧
      (unprinted = printed ↔
        ∀ i ∈ reported.instructions, ∀ l ∈ i.labels, ¬Symbol.IsQuoted l.text) := by
  obtain ⟨r, outcome, hreplay, -, hunprinted⟩ :=
    graph_replay machine offset false traced hopcodes hlabels rfl
  obtain ⟨r', outcome', hreplay', -, hprinted⟩ :=
    graph_replay machine offset true traced hopcodes hlabels rfl
  rw [map_relabel_printed] at hprinted
  refine ⟨_, _, _, rfl, ⟨r, outcome, hreplay, hunprinted⟩, ⟨r', outcome', hreplay', hprinted⟩,
    rfl, rfl, names_ofRows _, ofRows_relabel_unquote.trans forall_mem_attached_verbatimRows⟩

-- A name that is printed in quotes, but was reported without.
def spacedLabel : List Event :=
  [.label (.str "in loop") {},
    .instruction (.str "b") [⟨.str "expr", .str "in loop", .str "symbol_ref"⟩] {}]

theorem graph_printed_or_not_spaced :
    ∃ g, ∀ printLabels, ∃ r outcome,
      (fresh none 1 printLabels false).replay (.ofEvents spacedLabel) = (r, outcome) ∧
        ofStream r.stream = .ok g := by
  have hopcodes : ∀ e ∈ spacedLabel, e.HasTextOpcode := by simp [spacedLabel, Event.HasTextOpcode]
  have hlabels : ∀ e ∈ spacedLabel, e.HasTextLabel := by simp [spacedLabel, Event.HasTextLabel]
  obtain ⟨reported, unprinted, printed, hreported, hunprinted, hprinted, -, -, -, hiff⟩ :=
    graph_printed_or_not none 1 false hopcodes hlabels
  have hlabelled : reported.instructions.map (·.labels) = [[.str "in loop"]] := by
    rw [hreported]
    rfl
  have hsame : unprinted = printed := by
    refine hiff.mpr fun i hi l hl => Symbol.unquote_eq_self_iff.mp ?_
    have hnamed : i.labels = [.str "in loop"] :=
      List.mem_singleton.mp (hlabelled ▸ List.mem_map_of_mem hi)
    rw [hnamed] at hl
    rw [List.mem_singleton.mp hl]
    decide
  refine ⟨printed, fun printLabels => ?_⟩
  cases printLabels with
  | true => exact hprinted
  | false => exact hsame ▸ hunprinted

-- The label is reported in quotes that belong to its name.
def quotedLabel : List Event :=
  [.label (.str "\"a\"") {},
    .instruction (.str "b") [⟨.str "expr", .str "\"a\"", .str "symbol_ref"⟩] {}]

-- Unless labels are printed, a label in quotes loses them, and what refers to it misses it.
theorem graph_of_quoted :
    (∀ e ∈ quotedLabel, e.HasTextOpcode) ∧ (∀ e ∈ quotedLabel, e.HasTextLabel) ∧
      ∃ g h,
        ofStream ((fresh none 1 false false).replay (.ofEvents quotedLabel)).1.stream = .ok g ∧
        ofStream ((fresh none 1 true false).replay (.ofEvents quotedLabel)).1.stream = .ok h ∧
        g ≠ h ∧ g.names = ["a", "\"a\""] ∧ h.names = ["\"a\""] := by
  refine ⟨by simp [quotedLabel, Event.HasTextOpcode], by simp [quotedLabel, Event.HasTextLabel],
    _, _, rfl, rfl, by decide, by decide, by decide⟩

end BlockGraph
end Listing
