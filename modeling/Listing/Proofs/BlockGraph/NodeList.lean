import Mathlib
import Listing.Proofs.BlockGraph.Nodes
import Listing.Proofs.Outcome

namespace Listing.BlockGraph

-- Counted under names that cover a list without repetition, each of its items is counted once.
theorem sum_count {names items : List String} (hnames : names.Nodup)
    (hitems : ∀ item ∈ items, item ∈ names) :
    (names.map fun n => items.count n).sum = items.length := by
  have hcover : ∀ item ∈ (items : Multiset String), item ∈ names.toFinset := by simpa using hitems
  have hcard := Multiset.sum_count_eq_card hcover
  simp only [Multiset.coe_count, Multiset.coe_card] at hcard
  rw [← List.sum_toFinset _ hnames, hcard]

-- The counts of a graph add up to its rows.
theorem sum_nodes_ofRows (rows : List Row) :
    ((ofRows rows).nodes.map (·.instructions)).sum = rows.length := by
  have hcover : ∀ name ∈ blocks rows, name ∈ (trail rows ++ referred rows).eraseDups :=
    fun name hname => List.mem_eraseDups.mpr
      (List.mem_append_left _ (mem_trail_of_mem_blocks hname))
  rw [nodes_ofRows, nodesOf, List.map_map, ← length_blocks rows]
  exact sum_count (nodup_eraseDups _) hcover

section NoEntryName

variable {rows : List Row} (hattached : entryName ∉ attached rows)
  (hreferred : entryName ∉ referred rows)

theorem mem_trail_of_ne {name : String} (h : name ≠ entryName) :
    name ∈ trail rows ↔ name ∈ attached rows := by
  rw [trail]
  split
  · simp [h]
  · simp

include hattached

-- The entry stands first, the other blocks in the order of their first labels.
theorem eraseDups_trail :
    (trail rows).eraseDups =
      (if opensUnlabelled rows then [entryName] else []) ++ (attached rows).eraseDups := by
  rw [trail]
  split
  · have hfilter : (attached rows).filter (fun n => !n == entryName) = attached rows :=
      List.filter_eq_self.mpr fun n hn => by
        simpa using fun heq : n = entryName => hattached (heq ▸ hn)
    rw [List.singleton_append, List.eraseDups_cons, hfilter]
    rfl
  · simp

theorem statusIn_of_mem_attached {name : String} (h : name ∈ attached rows) :
    statusIn rows name = .defined := by
  have hne : name ≠ entryName := fun heq => hattached (heq ▸ h)
  rw [statusIn, if_pos ((mem_trail_of_ne hne).mpr h), if_neg fun he => hne he.1]

include hreferred

-- The nodes if no name is that of the entry: the entry, the attached names, the missing ones.
theorem nodes_ofRows_of_notMem :
    (ofRows rows).nodes =
      (if opensUnlabelled rows then [⟨entryName, .entry, countIn rows entryName⟩] else []) ++
      (attached rows).eraseDups.map (fun n => ⟨n, .defined, countIn rows n⟩) ++
      ((referred rows).filter (· ∉ attached rows)).eraseDups.map fun n => ⟨n, .missing, 0⟩ := by
  have hne : ∀ n ∈ referred rows, n ≠ entryName := fun n hn heq => hreferred (heq ▸ hn)
  have hmissing : (referred rows).removeAll (trail rows) =
      (referred rows).filter (· ∉ attached rows) :=
    List.filter_congr fun n hn => by simp [mem_trail_of_ne (hne n hn)]
  have hopening : (if opensUnlabelled rows then [entryName] else []).map
      (fun n => (⟨n, statusIn rows n, countIn rows n⟩ : Node)) =
      if opensUnlabelled rows then [⟨entryName, .entry, countIn rows entryName⟩] else [] := by
    split
    · rename_i hopens
      simp [statusIn, trail, hopens]
    · rfl
  have hdefined : ∀ n ∈ (attached rows).eraseDups,
      (⟨n, statusIn rows n, countIn rows n⟩ : Node) = ⟨n, .defined, countIn rows n⟩ := by
    intro n hn
    rw [statusIn_of_mem_attached hattached (List.mem_eraseDups.mp hn)]
  have habsent : ∀ n ∈ ((referred rows).filter (· ∉ attached rows)).eraseDups,
      (⟨n, statusIn rows n, countIn rows n⟩ : Node) = ⟨n, .missing, 0⟩ := by
    intro n hn
    obtain ⟨hn, hnot⟩ := List.mem_filter.mp (List.mem_eraseDups.mp hn)
    have hout : n ∉ trail rows := by simpa [mem_trail_of_ne (hne n hn)] using hnot
    rw [statusIn, if_neg hout, countIn_of_notMem hout]
  rw [nodes_ofRows, nodesOf, List.eraseDups_append, eraseDups_trail hattached, hmissing,
    List.map_append, List.map_append, hopening, List.map_congr_left hdefined,
    List.map_congr_left habsent]

theorem namesWith_missing_ofRows :
    (ofRows rows).namesWith .missing =
      ((referred rows).filter (· ∉ attached rows)).eraseDups := by
  have hopening : (if opensUnlabelled rows then
      [(⟨entryName, .entry, countIn rows entryName⟩ : Node)] else []).filter
        (·.status = .missing) = [] := by
    split <;> rfl
  rw [namesWith, nodes_ofRows_of_notMem hattached hreferred, List.filter_append,
    List.filter_append, hopening]
  simp [List.filter_map, Function.comp_def]

end NoEntryName

-- The row of an instruction whose labels are strings.
def Row.ofTexts (i : Instruction) : Row :=
  ⟨i.labels.map fun l => Symbol.unquote l.text, referenceNames i.operands, i.opcode⟩

def textRows (s : Stream) : List Row := s.instructions.map Row.ofTexts

-- Opcodes of instructions that name a label become members of a set, unless they are empty.
def CanAnnotate (s : Stream) : Prop :=
  ∀ i ∈ s.instructions, (∃ name, .label name ∈ i.operands) →
    i.opcode.isEmptyValue = true ∨ i.opcode.isHashable = true

theorem labelNames_texts {labels : List Json} (h : ∀ l ∈ labels, ∃ name, l = .str name) :
    labels.mapM Symbol.unquoted = .ok (labels.map fun l => Symbol.unquote l.text) := by
  refine mapM_of_forall fun l hl => ?_
  obtain ⟨name, rfl⟩ := h l hl
  rfl

theorem rowsOf_texts {is : List Instruction}
    (h : ∀ i ∈ is, ∀ l ∈ i.labels, ∃ name, l = .str name) :
    is.mapM Row.ofInstruction = .ok (is.map Row.ofTexts) := by
  refine mapM_of_forall fun i hi => ?_
  rw [Row.ofInstruction, labelNames_texts (h i hi)]
  rfl

theorem referenceNames_eq_nil {operands : List Operand} :
    referenceNames operands = [] ↔ ¬∃ name, .label name ∈ operands := by
  rw [referenceNames, List.filterMap_eq_nil_iff]
  constructor
  · rintro h ⟨name, hname⟩
    exact nomatch h _ hname
  · intro h o ho
    cases o with
    | label name => exact absurd ⟨name, ho⟩ h
    | _ => rfl

theorem all_isSound_textRows {s : Stream} :
    (textRows s).all Row.isSound = true ↔ CanAnnotate s := by
  have hrow : ∀ i : Instruction, (Row.ofTexts i).isSound = true ↔
      ((∃ name, .label name ∈ i.operands) →
        i.opcode.isEmptyValue = true ∨ i.opcode.isHashable = true) := by
    intro i
    rw [← not_not (a := ∃ name, .label name ∈ i.operands), ← referenceNames_eq_nil]
    simp only [Row.isSound, Row.ofTexts, Bool.or_eq_true, List.isEmpty_iff]
    tauto
  simp only [textRows, List.all_map, List.all_eq_true, Function.comp_apply, hrow]
  rfl

-- Labels that are texts give a graph, unless a reference cannot be annotated.
theorem ofStream_of_canAnnotate {s : Stream}
    (hlabels : ∀ i ∈ s.instructions, ∀ l ∈ i.labels, ∃ name, l = .str name) (h : CanAnnotate s) :
    ofStream s = .ok (ofRows (textRows s)) := by
  rw [ofStream, rowsOf_texts hlabels]
  exact if_pos (all_isSound_textRows.mpr h)

theorem ofStream_of_not_canAnnotate {s : Stream}
    (hlabels : ∀ i ∈ s.instructions, ∀ l ∈ i.labels, ∃ name, l = .str name)
    (h : ¬CanAnnotate s) : ofStream s = .error .wrongType := by
  rw [ofStream, rowsOf_texts hlabels]
  exact if_neg fun hsound => h (all_isSound_textRows.mp hsound)

theorem sortNames_perm (names : List String) : (sortNames names).Perm names :=
  List.mergeSort_perm _ _

theorem sortNames_sorted (names : List String) : (sortNames names).Pairwise (· ≤ ·) := by
  have htrans : ∀ a b c : String, decide (a ≤ b) = true → decide (b ≤ c) = true →
      decide (a ≤ c) = true := by
    intro a b c hab hbc
    rw [decide_eq_true_eq] at hab hbc ⊢
    exact String.le_trans hab hbc
  have htotal : ∀ a b : String, (decide (a ≤ b) || decide (b ≤ a)) = true := by
    intro a b
    rw [Bool.or_eq_true, decide_eq_true_eq, decide_eq_true_eq]
    exact String.le_total a b
  exact (List.pairwise_mergeSort htrans htotal names).imp fun h => decide_eq_true_eq.mp h

-- The nodes of a stream's graph, in order. Wherever a name is attached, it is not missing.
theorem nodes_ofStream {s : Stream}
    (hlabels : ∀ i ∈ s.instructions, ∀ l ∈ i.labels, ∃ name, l = .str name)
    (hattached : entryName ∉ attached (textRows s))
    (hreferred : entryName ∉ referred (textRows s)) :
    (CanAnnotate s → ∃ g, ofStream s = .ok g ∧
      g.nodes =
        (if opensUnlabelled (textRows s) then
          [⟨entryName, .entry, countIn (textRows s) entryName⟩] else []) ++
        (attached (textRows s)).eraseDups.map (fun n => ⟨n, .defined, countIn (textRows s) n⟩) ++
        ((referred (textRows s)).filter (· ∉ attached (textRows s))).eraseDups.map
          (fun n => ⟨n, .missing, 0⟩) ∧
      g.undefinedNames.Perm
        ((referred (textRows s)).filter (· ∉ attached (textRows s))).eraseDups ∧
      g.undefinedNames.Pairwise (· ≤ ·) ∧
      (g.nodes.map (·.instructions)).sum = s.size) ∧
    (¬CanAnnotate s → ofStream s = .error .wrongType) := by
  have hrows := rowsOf_texts hlabels
  rw [← textRows] at hrows
  constructor
  · intro hsound
    refine ⟨ofRows (textRows s), ?_, nodes_ofRows_of_notMem hattached hreferred, ?_,
      sortNames_sorted _, ?_⟩
    · rw [ofStream, hrows]
      exact if_pos (all_isSound_textRows.mpr hsound)
    · rw [undefinedNames, namesWith_missing_ofRows hattached hreferred]
      exact sortNames_perm _
    · rw [sum_nodes_ofRows, textRows, List.length_map, Stream.size]
  · intro hunsound
    rw [ofStream, hrows]
    exact if_neg fun h => hunsound (all_isSound_textRows.mp h)

-- A name is used before it is attached in quotes, another one is attached nowhere.
def forwardStream : Stream :=
  ⟨[{ opcode := .str "jmp", operands := [.label "b"] },
    { opcode := .str "add", labels := [.str "a", .str "\"b\""] },
    { opcode := .str "jmp", operands := [.label "c", .label "a"] }]⟩

theorem nodes_ofStream_forward :
    ∃ g, ofStream forwardStream = .ok g ∧
      g.nodes = [⟨entryName, .entry, 1⟩, ⟨"a", .defined, 0⟩, ⟨"b", .defined, 2⟩,
        ⟨"c", .missing, 0⟩] ∧ (g.nodes.map (·.instructions)).sum = 3 := by
  have hlabels : ∀ i ∈ forwardStream.instructions, ∀ l ∈ i.labels, ∃ name, l = .str name := by
    simp [forwardStream]
  have hsound : CanAnnotate forwardStream := by
    intro i hi _
    simp only [forwardStream, List.mem_cons, List.not_mem_nil, or_false] at hi
    rcases hi with rfl | rfl | rfl <;> exact .inr rfl
  obtain ⟨g, hg, hnodes, -, -, hsum⟩ :=
    (nodes_ofStream hlabels (by decide) (by decide)).1 hsound
  exact ⟨g, hg, hnodes.trans (by decide), hsum⟩

-- An opcode that is a list cannot annotate the reference of its instruction.
def listOpcodeStream : Stream :=
  ⟨[{ opcode := .arr [.int 1], operands := [.label "x"] }]⟩

theorem ofStream_listOpcode :
    (∀ i ∈ listOpcodeStream.instructions, ∀ l ∈ i.labels, ∃ name, l = .str name) ∧
      entryName ∉ attached (textRows listOpcodeStream) ∧
      entryName ∉ referred (textRows listOpcodeStream) ∧
      ¬∃ g, ofStream listOpcodeStream = .ok g := by
  refine ⟨by simp [listOpcodeStream], by decide, by decide, ?_⟩
  rintro ⟨g, hg⟩
  cases hg

end Listing.BlockGraph
