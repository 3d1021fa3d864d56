import Listing.Proofs.Stream.Reload

namespace Listing

namespace Json

-- The integer that a value is; truth values are zero and one.
def integer? : Json → Option Int
  | .int n => some n
  | .bool b => some (if b then 1 else 0)
  | _ => none

section Integer

variable {v : Json} {n : Int}

theorem integer?_cases (h : v.integer? = some n) :
    v = .int n ∨ ∃ b, v = .bool b ∧ n = if b then 1 else 0 := by
  cases v with
  | int m =>
      cases h
      exact .inl rfl
  | bool b =>
      cases h
      exact .inr ⟨b, rfl, rfl⟩
  | _ => cases h

theorem toInt_of_integer? (h : v.integer? = some n) : v.toInt = .ok n := by
  rcases integer?_cases h with rfl | ⟨b, rfl, rfl⟩
  · rfl
  · rfl

theorem retreat_of_integer? (h : v.integer? = some n) (offset : Int) :
    v.retreat offset = .ok (.int (max (n - offset) 0)) := by
  rcases integer?_cases h with rfl | ⟨b, rfl, rfl⟩
  · rfl
  · rfl

-- An integer equals what is the same integer, and nothing else that is one.
theorem same_int_iff (h : v.integer? = some n) (m : Int) : (int m).same v = true ↔ m = n := by
  have hvalue : (int m).same v = sameNumber (.int m) (.int n) := by
    rcases integer?_cases h with rfl | ⟨b, rfl, rfl⟩
    · simp [same, isNumber]
    · simp [same, isNumber, sameNumber, magnitude?]
  rw [hvalue]
  simp [sameNumber, magnitude?, Magnitude.compare]

end Integer

theorem same_self_of_str {v : Json} (h : ∃ text, v = .str text) : v.same v = true := by
  obtain ⟨text, rfl⟩ := h
  simp [same]

theorem sameItems_self_of_strs {vs : List Json} (h : ∀ v ∈ vs, ∃ text, v = .str text) :
    sameItems vs vs = true := by
  induction vs with
  | nil => rfl
  | cons v vs ih =>
      obtain ⟨hv, hvs⟩ := List.forall_mem_cons.mp h
      rw [sameItems, same_self_of_str hv, ih hvs]
      rfl

end Json

namespace Operand

-- An operand that has text equals itself.
theorem same_self {o : Operand} {text : String} (h : o.text = .ok text) : o.same o = true := by
  cases o with
  | register name =>
      cases name with
      | str name => exact Json.same_self_of_str ⟨name, rfl⟩
      | _ => cases h
  | integer value => simp [same]
  | label name => simp [same]

theorem all_same_self {os : List Operand} (h : ∀ o ∈ os, ∃ text, o.text = .ok text) :
    (os.zip os).all (fun p => p.1.same p.2) = true := by
  induction os with
  | nil => rfl
  | cons o os ih =>
      obtain ⟨⟨text, htext⟩, hos⟩ := List.forall_mem_cons.mp h
      rw [List.zip_cons_cons, List.all_cons, same_self htext, ih hos]
      rfl

end Operand

namespace Instruction

-- Texts for all names, and integers for the place.
structure IsTyped (i : Instruction) : Prop where
  opcode : ∃ text, i.opcode = .str text
  labels : ∀ l ∈ i.labels, ∃ text, l = .str text
  registers : ∀ name, .register name ∈ i.operands → ∃ text, name = .str text
  line : ∃ n, i.line.integer? = some n
  column : ∃ n, i.column.integer? = some n

-- The instruction that is read from the tree of another one, both with an offset. A line before
-- the offset comes back as the offset.
def readBack (offset : Int) (i : Instruction) : Instruction :=
  { i with
    line := .int (max (i.line.integer?.getD 0) offset)
    column := .int (i.column.integer?.getD 0) }

-- The instruction with the offset for a line that is before it.
def notBefore (offset : Int) (i : Instruction) : Instruction :=
  { i with line := if i.line.integer?.getD 0 < offset then .int offset else i.line }

section IsTyped

variable {i : Instruction}

theorem IsTyped.operandText (h : i.IsTyped) {o : Operand} (ho : o ∈ i.operands) :
    ∃ text, o.text = .ok text := by
  cases o with
  | register name =>
      obtain ⟨text, rfl⟩ := h.registers name ho
      exact ⟨text, rfl⟩
  | integer value => exact ⟨_, rfl⟩
  | label name => exact ⟨name, rfl⟩

theorem IsTyped.ofJson_toJson (h : i.IsTyped) (offset : Int) :
    ∃ tree, i.toJson offset = .ok tree ∧ ofJson offset tree = .ok (i.readBack offset) := by
  obtain ⟨n, hline⟩ := h.line
  obtain ⟨m, hcolumn⟩ := h.column
  have hmax : max (n - offset) 0 + offset = max n offset := by omega
  refine ⟨_, by rw [toJson, Json.retreat_of_integer? hline]; rfl, ?_⟩
  rw [ofJson, readHead_toJson (fun o ho => h.operandText ho) rfl]
  change (do
    let column ← i.column.toInt
    return (⟨i.opcode, i.labels, i.operands, .int (max (n - offset) 0 + offset), .int column⟩ :
      Instruction)) = Except.ok _
  rw [Json.toInt_of_integer? hcolumn, hmax, readBack, hline, hcolumn]
  rfl

-- What comes back can only differ in its line.
theorem IsTyped.readBack_same (h : i.IsTyped) (offset : Int) {line : Json} {n : Int}
    (hline : line.integer? = some n) :
    (i.readBack offset).same { i with line } = true ↔
      max (i.line.integer?.getD 0) offset = n := by
  obtain ⟨m, hcolumn⟩ := h.column
  have hoperands := Operand.all_same_self fun o ho => h.operandText (o := o) ho
  have hcolumns : (Json.int (i.column.integer?.getD 0)).same i.column = true :=
    (Json.same_int_iff hcolumn _).mpr (by rw [hcolumn]; rfl)
  simp only [Instruction.same, readBack, Json.same_self_of_str h.opcode,
    Json.sameItems_self_of_strs h.labels, hoperands, hcolumns, decide_true, Bool.true_and,
    Bool.and_true, Json.same_int_iff hline]

end IsTyped

end Instruction

namespace Stream

def readBack (offset : Int) (s : Stream) : Stream :=
  ⟨s.instructions.map (Instruction.readBack offset)⟩

def notBefore (offset : Int) (s : Stream) : Stream :=
  ⟨s.instructions.map (Instruction.notBefore offset)⟩

theorem same_map {is : List Instruction} {f g : Instruction → Instruction} :
    (⟨is.map f⟩ : Stream).same ⟨is.map g⟩ = true ↔ ∀ i ∈ is, (f i).same (g i) = true := by
  simp [same, size, List.zip_map']

-- Reading inverts writing, with one offset for both, exactly if no line is before the offset.
-- Otherwise the lines before it come back as the offset, and nothing else is changed.
theorem readBack_same_iff {s : Stream} (h : ∀ i ∈ s.instructions, i.IsTyped) (offset : Int) :
    ∃ tree, s.toJson offset = .ok tree ∧ ofJson offset tree = .ok (s.readBack offset) ∧
      ((s.readBack offset).same s = true ↔
        ∀ i ∈ s.instructions, ∀ n, i.line.integer? = some n → offset ≤ n) ∧
      (s.readBack offset).same (s.notBefore offset) = true := by
  obtain ⟨items, htree, -, hread⟩ := ofJson_toJson_map (P := fun _ => True) fun i hi =>
    ((h i hi).ofJson_toJson offset).imp fun tree htree => ⟨htree.1, trivial, htree.2⟩
  refine ⟨_, htree, hread, ?_, ?_⟩
  · have hself : s = ⟨s.instructions.map id⟩ := by rw [List.map_id]
    have hline : ∀ i ∈ s.instructions, (i.readBack offset).same (id i) = true ↔
        ∀ n, i.line.integer? = some n → offset ≤ n := by
      intro i hi
      obtain ⟨n, hn⟩ := (h i hi).line
      refine ((h i hi).readBack_same offset hn).trans ?_
      simp only [hn, Option.getD_some, Option.some.injEq, forall_eq']
      omega
    rw [hself, readBack, List.map_map, same_map]
    simp only [List.map_id]
    exact forall₂_congr hline
  · rw [readBack, notBefore, same_map]
    intro i hi
    obtain ⟨n, hn⟩ := (h i hi).line
    have hnumber : (if n < offset then Json.int offset else i.line).integer? =
        some (max n offset) := by
      split
      · rw [Json.integer?, Int.max_eq_right (by omega)]
      · rw [hn, Int.max_eq_left (by omega)]
    rw [Instruction.notBefore, hn]
    exact ((h i hi).readBack_same offset hnumber).mpr (by rw [hn]; rfl)

-- One line is before the offset and one is not; the first place is given by truth values.
def placedStream : Stream :=
  ⟨[{ opcode := .str "b", labels := [.str "a"], operands := [.label "a", .integer 3],
      line := .bool true, column := .bool false },
    { opcode := .str "add", operands := [.register (.str "r1")], line := .int 7,
      column := .int 2 }]⟩

theorem readBack_same_iff_placed :
    (∀ i ∈ placedStream.instructions, i.IsTyped) ∧
      ∃ tree, placedStream.toJson 3 = .ok tree ∧
        ofJson 3 tree = .ok (placedStream.readBack 3) ∧
        ¬(placedStream.readBack 3).same placedStream = true ∧
        (placedStream.readBack 3).same (placedStream.notBefore 3) = true := by
  have htyped : ∀ i ∈ placedStream.instructions, i.IsTyped := by
    intro i hi
    simp only [placedStream, List.mem_cons, List.not_mem_nil, or_false] at hi
    rcases hi with rfl | rfl
    · exact ⟨⟨_, rfl⟩, by simp, by simp, ⟨1, rfl⟩, ⟨0, rfl⟩⟩
    · exact ⟨⟨_, rfl⟩, by simp, by simp, ⟨7, rfl⟩, ⟨2, rfl⟩⟩
  obtain ⟨tree, htree, hread, hsame, hchanged⟩ := readBack_same_iff htyped 3
  refine ⟨htyped, tree, htree, hread, fun h => ?_, hchanged⟩
  exact absurd (hsame.mp h _ List.mem_cons_self 1 rfl) (by decide)

end Stream
end Listing
