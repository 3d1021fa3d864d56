import Listing.BlockGraph.Rows
import Listing.Proofs.Json.RoundTrip
import Listing.Proofs.Stream.Refusal

namespace Listing

namespace Operand

-- An operand that has text reads back from its tree as it was.
theorem ofJson_toJson {o : Operand} {text : String} (h : o.text = .ok text) :
    ofJson o.toJson = .ok o := by
  cases o with
  | register name =>
      cases name with
      | str name => rfl
      | _ => cases h
  | integer value => rfl
  | label name => rfl

theorem isPlain_toJson {o : Operand} {text : String} (h : o.text = .ok text) :
    o.toJson.IsPlain := by
  cases o with
  | register name =>
      cases name with
      | str name => simp [toJson]
      | _ => cases h
  | integer value => simp [toJson]
  | label name => simp [toJson]

end Operand

namespace Instruction

-- What a tree keeps of an instruction in full, its line apart.
structure Reloadable (i : Instruction) : Prop where
  opcode : i.opcode.IsPlain
  labels : ∀ l ∈ i.labels, l.IsPlain
  operands : ∀ o ∈ i.operands, ∃ text, o.text = .ok text
  line : ∃ n, i.line = .int n
  column : ∃ n, i.column = .int n

-- The line after it was moved back for a tree and forth again on reading. It is another one if
-- the way back stopped at zero.
def reloaded (offset : Int) (i : Instruction) : Instruction :=
  match i.line with
  | .int n => { i with line := .int (max (n - offset) 0 + offset) }
  | _ => i

variable (offset : Int) (i : Instruction)

@[simp] theorem opcode_reloaded : (i.reloaded offset).opcode = i.opcode := by
  simp only [reloaded]
  split <;> rfl

@[simp] theorem labels_reloaded : (i.reloaded offset).labels = i.labels := by
  simp only [reloaded]
  split <;> rfl

@[simp] theorem operands_reloaded : (i.reloaded offset).operands = i.operands := by
  simp only [reloaded]
  split <;> rfl

@[simp] theorem column_reloaded : (i.reloaded offset).column = i.column := by
  simp only [reloaded]
  split <;> rfl

-- A line that stopped at zero once stops there again.
@[simp] theorem retreat_line_reloaded :
    (i.reloaded offset).line.retreat offset = i.line.retreat offset := by
  simp only [reloaded]
  split
  · rename_i n hline
    have hmax : max (max (n - offset) 0 + offset - offset) 0 = max (n - offset) 0 := by omega
    simp only [hline, Json.retreat, hmax]
  · rfl

theorem toJson_reloaded : (i.reloaded offset).toJson offset = i.toJson offset := by
  simp [toJson]

theorem text_reloaded : (i.reloaded offset).text = i.text := by
  simp [text]

theorem columns_reloaded : (i.reloaded offset).columns offset = i.columns offset := by
  simp [columns]

theorem row_reloaded :
    BlockGraph.Row.ofInstruction (i.reloaded offset) = BlockGraph.Row.ofInstruction i := by
  simp [BlockGraph.Row.ofInstruction]

variable {offset i}

theorem operands_map_toJson {os : List Operand} (h : ∀ o ∈ os, ∃ text, o.text = .ok text) :
    (os.map Operand.toJson).mapM Operand.ofJson = .ok os := by
  have hread : ∀ o ∈ os, Operand.ofJson o.toJson = .ok o := fun o ho =>
    (h o ho).elim fun _ => Operand.ofJson_toJson
  rw [mapM_map_of_forall hread, List.map_id']

theorem readHead_toJson {opcode line column : Json} {labels : List Json} {os : List Operand}
    {n : Int} (hos : ∀ o ∈ os, ∃ text, o.text = .ok text) (hline : line = .int n) :
    readHead (.obj [("opcode", opcode), ("labels", .arr labels),
      ("operands", .arr (os.map Operand.toJson)), ("line", line), ("column", column)]) =
      .ok (⟨opcode, labels, os, .int 0, .int 0⟩, n) := by
  subst hline
  change (do
    let operands ← (os.map Operand.toJson).mapM Operand.ofJson
    return ((⟨opcode, labels, operands, .int 0, .int 0⟩ : Instruction), n)) = Except.ok _
  rw [operands_map_toJson hos]
  rfl

-- An instruction has a tree, and the tree reads as the instruction with its line reloaded.
theorem Reloadable.ofJson_toJson (h : i.Reloadable) (offset : Int) :
    ∃ tree, i.toJson offset = .ok tree ∧ tree.IsPlain ∧
      ofJson offset tree = .ok (i.reloaded offset) := by
  obtain ⟨opcode, labels, operands, line, column⟩ := i
  obtain ⟨hopcode, hlabels, hoperands, ⟨line, rfl⟩, ⟨column, rfl⟩⟩ := h
  refine ⟨_, rfl, ?_, ?_⟩
  · have htrees : ∀ o ∈ operands, o.toJson.IsPlain := fun o ho =>
      (hoperands o ho).elim fun _ => Operand.isPlain_toJson
    simpa using ⟨hopcode, hlabels, htrees⟩
  · rw [ofJson, readHead_toJson hoperands rfl]
    rfl

end Instruction

namespace Stream

def Reloadable (s : Stream) : Prop := ∀ i ∈ s.instructions, i.Reloadable

def reloaded (offset : Int) (s : Stream) : Stream :=
  ⟨s.instructions.map (Instruction.reloaded offset)⟩

theorem toJson_reloaded (offset : Int) (s : Stream) :
    (s.reloaded offset).toJson offset = s.toJson offset := by
  simp only [toJson, reloaded, List.mapM_map, Function.comp_def,
    Instruction.toJson_reloaded]

theorem render_reloaded (room : Nat) (indent : Json.Indent) (offset : Int) (s : Stream) :
    (s.reloaded offset).render room indent offset = s.render room indent offset := by
  simp only [render, toJson_reloaded]

theorem listing_reloaded (offset : Int) (s : Stream) :
    (s.reloaded offset).listing offset = s.listing offset := by
  simp only [listing, reloaded, List.mapM_map, Function.comp_def,
    Instruction.columns_reloaded]

theorem texts_reloaded (offset : Int) (s : Stream) :
    (s.reloaded offset).instructions.map Instruction.text =
      s.instructions.map Instruction.text := by
  simp only [reloaded, List.map_map, Function.comp_def, Instruction.text_reloaded]

theorem blockGraph_reloaded (offset : Int) (s : Stream) :
    BlockGraph.ofStream (s.reloaded offset) = BlockGraph.ofStream s := by
  simp only [BlockGraph.ofStream, reloaded, List.mapM_map, Function.comp_def,
    Instruction.row_reloaded]

-- If each instruction has a tree that reads as some instruction, the stream has one that reads as
-- all of these.
theorem ofJson_toJson_map {s : Stream} {offset : Int} {P : Json → Prop}
    {f : Instruction → Instruction}
    (h : ∀ i ∈ s.instructions, ∃ tree, i.toJson offset = .ok tree ∧ P tree ∧
      Instruction.ofJson offset tree = .ok (f i)) :
    ∃ items, s.toJson offset = .ok (.obj [("instructions", .arr items)]) ∧ (∀ v ∈ items, P v) ∧
      ofJson offset (.obj [("instructions", .arr items)]) = .ok ⟨s.instructions.map f⟩ := by
  choose! tree htree hp hread using h
  refine ⟨s.instructions.map tree, ?_, List.forall_mem_map.mpr hp, ?_⟩
  · rw [toJson, mapM_of_forall htree]
    rfl
  · change (do return ⟨← (s.instructions.map tree).mapM (Instruction.ofJson offset)⟩) =
      Except.ok (⟨s.instructions.map f⟩ : Stream)
    rw [mapM_map_of_forall hread]
    rfl

theorem Reloadable.ofJson_toJson {s : Stream} (h : s.Reloadable) (offset : Int) :
    ∃ tree, s.toJson offset = .ok tree ∧ tree.IsPlain ∧
      ofJson offset tree = .ok (s.reloaded offset) := by
  obtain ⟨items, htree, hplain, hread⟩ :=
    ofJson_toJson_map fun i hi => (h i hi).ofJson_toJson offset
  exact ⟨_, htree, by simpa using hplain, hread⟩

-- The text is written from the tree, and reads back as the tree.
theorem Reloadable.read_render {s : Stream} (h : s.Reloadable) (offset : Int)
    (indent : Json.Indent) :
    ∃ tree, (∀ room, s.render room indent offset = tree.render room indent) ∧
      Json.read (tree.write indent).toList = .ok tree ∧
      ofJson offset tree = .ok (s.reloaded offset) := by
  obtain ⟨tree, htree, hplain, hread⟩ := h.ofJson_toJson offset
  refine ⟨tree, fun room => ?_, ?_, hread⟩
  · rw [render, htree]
    rfl
  · rw [Json.write, String.toList_ofList, Json.read, Json.readText_writeAt hplain]

end Stream
end Listing
