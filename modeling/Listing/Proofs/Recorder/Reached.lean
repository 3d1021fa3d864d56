import Listing.Proofs.Recorder.Acceptance
import Listing.Proofs.Recorder.Dump

namespace Listing.Recorder

theorem traceLines_trace_eq (r : Recorder) (line : String) :
    (r.trace line).traceLines = r.traceLines ++ if r.traced then [line] else [] := by
  by_cases h : r.traced = true
  · rw [traceLines_trace h, if_pos h]
  · rw [trace, if_neg h, if_neg h, List.append_nil]

theorem trace_state (r : Recorder) (line : String) :
    (r.trace line).stream = r.stream ∧ (r.trace line).pending = r.pending ∧
      (r.trace line).dropped = r.dropped := by
  rw [trace]
  split <;> exact ⟨rfl, rfl, rfl⟩

-- All that a call for an instruction can do, whether it fails or not.
theorem instruction_cases (r : Recorder) (opcode : Json) (operands : List RawOperand)
    (place : Place) :
    ∃ s outcome captured, r.instruction opcode operands place = (s, outcome) ∧
      captured = operands.filterMap (classify r.machine) ∧
      s.dropped + captured.length = r.dropped + operands.length ∧
      ((∃ m, place.resolve = .error m ∧ outcome = .error m ∧ s.stream = r.stream ∧
          s.pending = r.pending ∧ s.traceLines = r.traceLines) ∨
        ∃ line column, place.resolve = .ok (line, column) ∧
          s.stream = r.stream.push ⟨opcode, r.pending, captured, line, column⟩ ∧ s.pending = [] ∧
          ((∃ text, Instruction.text ⟨opcode, r.pending, captured, line, column⟩ = .ok text ∧
              outcome = .ok () ∧
              s.traceLines = r.traceLines ++ if r.traced then [text] else []) ∨
            (¬∃ text, Instruction.text ⟨opcode, r.pending, captured, line, column⟩ = .ok text) ∧
              outcome = .error .wrongType ∧ s.traceLines = r.traceLines)) := by
  have hle := List.length_filterMap_le (classify r.machine) operands
  have hcount : r.dropped + (operands.length - (operands.filterMap (classify r.machine)).length) +
      (operands.filterMap (classify r.machine)).length = r.dropped + operands.length := by
    omega
  have hnoticed := traceLines_notices r (operands.flatMap (operandNotices r.machine opcode))
  simp only [instruction]
  cases hplace : place.resolve with
  | error m => exact ⟨_, _, _, rfl, rfl, hcount, .inl ⟨m, rfl, rfl, rfl, rfl, hnoticed⟩⟩
  | ok found =>
      obtain ⟨line, column⟩ := found
      simp only
      split
      · rename_i m hfailed
        have hm : m = .wrongType := Instruction.text_failsOnly _ _ hfailed
        refine ⟨_, _, _, rfl, rfl, hcount, .inr ⟨line, column, rfl, rfl, rfl, .inr ⟨?_, ?_, ?_⟩⟩⟩
        · rintro ⟨text, htext⟩
          rw [hfailed] at htext
          cases htext
        · rw [hm]
        · exact hnoticed
      · rename_i text htext
        refine ⟨_, _, _, rfl, rfl, ?_, .inr ⟨line, column, rfl, ?_, ?_, .inl ⟨text, htext, rfl, ?_⟩⟩⟩
        · rw [(trace_state _ text).2.2]
          exact hcount
        · exact (trace_state _ text).1
        · exact (trace_state _ text).2.1
        · rw [traceLines_trace_eq]
          exact congrArg (· ++ _) hnoticed

-- The call by which an event of a log is delivered.
def Call.ofEvent : Event → Call
  | .label name location => .label name (.ofLocation location)
  | .instruction opcode operands location => .instruction opcode operands (.ofLocation location)
  | .symbolAttribute symbol property => .symbolAttribute symbol property
  | .commonSymbol symbol size alignment => .commonSymbol symbol (.int size) (.int alignment)
  | .zeroFill area symbol size alignment location =>
    .zeroFill area symbol (.int size) (.int alignment) (.ofLocation location)

theorem deliver_eq_call (r : Recorder) (e : Event) : r.deliver e = r.call (.ofEvent e) := by
  cases e <;> rfl

-- The recorders that a program can come to hold. A call or a replay that fails leaves one too.
inductive Reached : Recorder → Prop
  | fresh (machine : Option Machine) (offset : Int) (printLabels traced : Bool) :
      Reached (Recorder.fresh machine offset printLabels traced)
  | call {r : Recorder} (h : Reached r) (c : Call) : Reached (r.call c).1
  | replay {r : Recorder} (h : Reached r) (reading : Event.Reading) : Reached (r.replay reading).1

-- A traced recorder with a label that waits.
def waiting : Recorder := ((fresh none 1 false true).call (.label (.str "loop") .unset)).1

theorem reached_waiting : waiting.Reached := (Reached.fresh none 1 false true).call _

section Induction

variable {P : Recorder → Prop}

theorem replayFrom_keeps (hcall : ∀ r c, P r → P (r.call c).1) (hnote : ∀ r n, P r → P (r.note n))
    {r : Recorder} (hr : P r) (delivered : Nat) (fault : Option Fault)
    (entries : List Event.Entry) : P (r.replayFrom delivered fault entries).1 := by
  induction entries generalizing r delivered with
  | nil =>
      cases fault with
      | none => exact hnote _ _ hr
      | some f => exact hr
  | cons entry rest ih =>
      cases entry with
      | notice n => exact ih (hnote _ _ hr) delivered
      | event e =>
          have hdelivered : P (r.deliver e).1 := by
            rw [deliver_eq_call]
            exact hcall _ _ hr
          simp only [replayFrom]
          split
          · rename_i s m hfailed
            rwa [hfailed] at hdelivered
          · rename_i s hdone
            rw [hdone] at hdelivered
            exact ih hdelivered (delivered + 1)

-- What holds at the start, and is kept by every call and every notice, holds at any time.
theorem Reached.keeps (hfresh : ∀ machine offset printLabels traced,
      P (Recorder.fresh machine offset printLabels traced))
    (hcall : ∀ r c, P r → P (r.call c).1) (hnote : ∀ r n, P r → P (r.note n)) {r : Recorder}
    (h : Reached r) : P r := by
  induction h with
  | fresh machine offset printLabels traced => exact hfresh machine offset printLabels traced
  | call h c ih => exact hcall _ c ih
  | replay h reading ih => exact replayFrom_keeps hcall hnote ih 0 reading.fault reading.entries

end Induction

end Listing.Recorder
