import Listing.Proofs.Recorder.Reached

namespace Listing

-- Only a register of a table that names it by no text has no text.
theorem Operand.text_isOk {o : Operand} :
    (∃ text, o.text = .ok text) ↔ ∀ name, o = .register name → ∃ text, name = .str text := by
  cases o with
  | register name =>
      cases name <;> simp [Operand.text]
  | integer value => simp [Operand.text]
  | label name => simp [Operand.text]

namespace Recorder

-- What is seen of two recorders, their notices apart, is the same.
structure SameRecording (r s : Recorder) : Prop where
  stream : s.stream = r.stream
  pending : s.pending = r.pending
  dropped : s.dropped = r.dropped
  trace : s.traceLines = r.traceLines

theorem not_isText_iff {opcode : Json} {labels : List Json} {captured : List Operand}
    {line column : Json} :
    (¬∃ text, Instruction.text ⟨opcode, labels, captured, line, column⟩ = .ok text) ↔
      (∀ text, opcode ≠ .str text) ∨
        ∃ name, .register name ∈ captured ∧ ∀ text, name ≠ .str text := by
  rw [Instruction.text_isOk, not_and_or, not_exists]
  refine or_congr_right ?_
  simp only [Operand.text_isOk]
  constructor
  · intro h
    push Not at h
    obtain ⟨o, ho, name, rfl, hname⟩ := h
    exact ⟨name, ho, hname⟩
  · rintro ⟨name, hmem, hname⟩ h
    obtain ⟨text, htext⟩ := h _ hmem name rfl
    exact hname text htext

-- A call for an instruction that fails has traced nothing, but has counted the operands that stand
-- for nothing. If its place is none, that is all that it has done. Else the instruction has no
-- text, and it was recorded with the labels that waited. So the recording is left alone only where
-- the place is none and no operand was dropped.
theorem instruction_failed {r s : Recorder} {opcode : Json} {operands : List RawOperand}
    {place : Place} {m : Misfit} (h : r.instruction opcode operands place = (s, .error m)) :
    ∃ captured, Kept (Stands r.machine) operands captured ∧
      s.dropped + captured.length = r.dropped + operands.length ∧ s.traceLines = r.traceLines ∧
      ((place.resolve = .error m ∧ s.stream = r.stream ∧ s.pending = r.pending) ∨
        ∃ line column, place.resolve = .ok (line, column) ∧ m = .wrongType ∧
          ((∀ text, opcode ≠ .str text) ∨
            ∃ name, .register name ∈ captured ∧ ∀ text, name ≠ .str text) ∧
          s.stream = r.stream.push ⟨opcode, r.pending, captured, line, column⟩ ∧
          s.pending = []) ∧
      (SameRecording r s ↔ place.resolve = .error m ∧ captured.length = operands.length) := by
  obtain ⟨t, outcome, captured, hcall, hcaptured, hcount, hcases⟩ :=
    r.instruction_cases opcode operands place
  rw [h] at hcall
  obtain ⟨rfl, rfl⟩ := Prod.mk.inj hcall
  have hkept : Kept (Stands r.machine) operands captured := by
    rw [hcaptured]
    exact kept_filterMap (classify_eq_some_iff r.machine) operands
  refine ⟨captured, hkept, hcount, ?_⟩
  rcases hcases with ⟨n, hplace, hm, hstream, hpending, htrace⟩ |
    ⟨line, column, hplace, hstream, hpending, hend⟩
  · obtain rfl := Except.error.inj hm
    refine ⟨htrace, .inl ⟨hplace, hstream, hpending⟩, fun hsame => ⟨hplace, ?_⟩, fun hnone => ?_⟩
    · have hdropped := hsame.dropped
      omega
    · exact ⟨hstream, hpending, by omega, htrace⟩
  · rcases hend with ⟨text, -, hm, -⟩ | ⟨htextless, hm, htrace⟩
    · cases hm
    · obtain rfl := Except.error.inj hm
      refine ⟨htrace, .inr ⟨line, column, hplace, rfl, not_isText_iff.mp htextless, hstream,
        hpending⟩, fun hsame => ?_, fun hnone => ?_⟩
      · have hlength := congrArg Stream.size (hstream.symm.trans hsame.stream)
        simp [Stream.size] at hlength
      · rw [hplace] at hnone
        cases hnone.1

-- The second operand is dropped and counted, and then the place lacks a column.
theorem instruction_failed_unplaced :
    ∃ s, waiting.instruction (.str "ADD")
        [⟨.str "imm", .int 3, .null⟩, ⟨.str "imm", .bool true, .null⟩] (.value (.arr [.int 4])) =
          (s, .error (.tooFewValues 1)) ∧
      s.traceLines = waiting.traceLines ∧ s.stream = waiting.stream ∧
      s.pending = waiting.pending ∧ ¬SameRecording waiting s := by
  rcases hcall : waiting.instruction (.str "ADD")
    [⟨.str "imm", .int 3, .null⟩, ⟨.str "imm", .bool true, .null⟩] (.value (.arr [.int 4]))
    with ⟨s, outcome⟩
  obtain rfl : outcome = .error (.tooFewValues 1) := (congrArg Prod.snd hcall).symm
  obtain ⟨captured, -, hcount, htrace, hcases, hsame⟩ := instruction_failed hcall
  refine ⟨s, rfl, htrace, ?_⟩
  rcases hcases with ⟨-, hstream, hpending⟩ | ⟨line, column, hplace, -⟩
  · refine ⟨hstream, hpending, fun h => ?_⟩
    have hnone : captured.length = 2 := (hsame.mp h).2
    have hdropped : s.dropped = 1 := (congrArg (·.1.dropped) hcall).symm
    have hcount : s.dropped + captured.length = 2 := hcount
    omega
  · cases hplace

-- A dropped operand is counted before its instruction turns out to have no place, and an opcode
-- that is no text is found out after the instruction was recorded.
theorem instruction_failed_marks :
    waiting.Reached ∧
      ((waiting.instruction (.str "ADD") [⟨.str "imm", .bool true, .null⟩]
          (.value (.arr [.int 4]))).2 = .error (.tooFewValues 1) ∧
        (waiting.instruction (.str "ADD") [⟨.str "imm", .bool true, .null⟩]
          (.value (.arr [.int 4]))).1.dropped ≠ waiting.dropped) ∧
      (waiting.instruction (.int 5) [] .unset).2 = .error .wrongType ∧
        (waiting.instruction (.int 5) [] .unset).1.stream ≠ waiting.stream ∧
        (waiting.instruction (.int 5) [] .unset).1.pending ≠ waiting.pending :=
  ⟨reached_waiting, ⟨rfl, by decide⟩, rfl, by decide, by decide⟩

end Recorder

end Listing
