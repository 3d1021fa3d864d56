import Listing.Proofs.Recorder.Attachment

namespace Listing

namespace Event

-- The instructions that events report. Labels wait for the next instruction. What becomes of the
-- name of a label and of an operand is left open.
def instructions (label : Json → Json) (operand : RawOperand → Option Operand) :
    List Json → List Event → List Instruction
  | _, [] => []
  | waiting, .label name _ :: es => instructions label operand (waiting ++ [label name]) es
  | waiting, .instruction opcode operands location :: es =>
    ⟨opcode, waiting, operands.filterMap operand, .int location.line, .int location.column⟩ ::
      instructions label operand [] es
  | waiting, .symbolAttribute .. :: es | waiting, .commonSymbol .. :: es
  | waiting, .zeroFill .. :: es => instructions label operand waiting es

-- Where texts are reported, and labels are made texts of, instructions hold texts.
theorem texts_instructions {label : Json → Json} {operand : RawOperand → Option Operand}
    (hlabel : ∀ text, ∃ made, label (.str text) = .str made) {waiting : List Json}
    {events : List Event} (hwaiting : ∀ l ∈ waiting, ∃ text, l = .str text)
    (hopcodes : ∀ e ∈ events, e.HasTextOpcode) (hlabels : ∀ e ∈ events, e.HasTextLabel) :
    ∀ i ∈ instructions label operand waiting events,
      (∃ opcode, i.opcode = .str opcode) ∧ ∀ l ∈ i.labels, ∃ text, l = .str text := by
  induction events generalizing waiting with
  | nil => simp [instructions]
  | cons e es ih =>
      obtain ⟨hopcode, hlaterOpcodes⟩ := List.forall_mem_cons.mp hopcodes
      obtain ⟨hname, hlaterLabels⟩ := List.forall_mem_cons.mp hlabels
      cases e with
      | label name location =>
          obtain ⟨text, rfl⟩ := hname
          refine ih (fun l hl => ?_) hlaterOpcodes hlaterLabels
          rcases List.mem_append.mp hl with hl | hl
          · exact hwaiting l hl
          · rw [List.mem_singleton.mp hl]
            exact hlabel text
      | instruction opcode operands location =>
          exact List.forall_mem_cons.mpr
            ⟨⟨hopcode, hwaiting⟩, ih (by simp) hlaterOpcodes hlaterLabels⟩
      | symbolAttribute => exact ih hwaiting hlaterOpcodes hlaterLabels
      | commonSymbol => exact ih hwaiting hlaterOpcodes hlaterLabels
      | zeroFill => exact ih hwaiting hlaterOpcodes hlaterLabels

end Event

namespace Recorder

-- An instruction that has no text ends a replay, after it was recorded.
def goesOn (m : Machine) : Event → Bool
  | .instruction opcode operands _ =>
    ({ opcode, operands := operands.filterMap (classify m) } : Instruction).text.isOk
  | _ => true

-- The events that a replay comes to.
def delivered (m : Machine) : List Event → List Event
  | [] => []
  | e :: es => e :: if goesOn m e then delivered m es else []

theorem mem_of_mem_delivered {m : Machine} {events : List Event} {e : Event}
    (h : e ∈ delivered m events) : e ∈ events := by
  induction events with
  | nil => exact h
  | cons first es ih =>
      rcases List.mem_cons.mp h with rfl | h
      · exact List.mem_cons_self
      · split at h
        · exact List.mem_cons_of_mem _ (ih h)
        · cases h

-- What is recorded, and what events to come will add to it.
def foreseen (r : Recorder) (events : List Event) : List Instruction :=
  r.stream.instructions ++
    Event.instructions (attachedName r.printLabels) (classify r.machine) r.pending events

theorem foreseen_nil (r : Recorder) : r.foreseen [] = r.stream.instructions :=
  List.append_nil _

theorem instruction_state (r : Recorder) (opcode : Json) (operands : List RawOperand)
    (location : Location) :
    ∃ s outcome, r.instruction opcode operands (.ofLocation location) = (s, outcome) ∧
      (goesOn r.machine (.instruction opcode operands location) = true ↔ outcome = .ok ()) ∧
      s.machine = r.machine ∧ s.printLabels = r.printLabels ∧ s.pending = [] ∧
      s.stream = r.stream.push ⟨opcode, r.pending, operands.filterMap (classify r.machine),
        .int location.line, .int location.column⟩ := by
  have htext : Instruction.text ⟨opcode, r.pending, operands.filterMap (classify r.machine),
      .int location.line, .int location.column⟩ =
      ({ opcode, operands := operands.filterMap (classify r.machine) } : Instruction).text := rfl
  simp only [instruction, Place.ofLocation, Place.resolve, htext, goesOn]
  split
  · rename_i hfailed
    exact ⟨_, _, rfl, by simp [hfailed, Except.isOk, Except.toBool], rfl, rfl, rfl, rfl⟩
  · rename_i text hmade
    refine ⟨_, _, rfl, by simp [hmade, Except.isOk, Except.toBool], ?_⟩
    rw [trace]
    split
    · exact ⟨rfl, rfl, rfl, rfl⟩
    · exact ⟨rfl, rfl, rfl, rfl⟩

-- An event that is delivered moves from what is to come to what is recorded.
theorem deliver_foreseen {r : Recorder} {e : Event}
    (hlabel : r.printLabels = true → e.HasTextLabel) :
    ∃ s outcome, r.deliver e = (s, outcome) ∧ (goesOn r.machine e = true ↔ outcome = .ok ()) ∧
      s.machine = r.machine ∧ s.printLabels = r.printLabels ∧
      ∀ es, s.foreseen es = r.foreseen (e :: es) := by
  cases e with
  | label name location =>
      obtain ⟨reports, hdeliver⟩ := label_eq hlabel
      exact ⟨_, _, hdeliver, by simp [goesOn], rfl, rfl, fun es => rfl⟩
  | instruction opcode operands location =>
      obtain ⟨s, outcome, hdeliver, hgoes, hmachine, hprinting, hpending, hstream⟩ :=
        r.instruction_state opcode operands location
      refine ⟨s, outcome, hdeliver, hgoes, hmachine, hprinting, fun es => ?_⟩
      simp only [foreseen, hmachine, hprinting, hpending, hstream, Stream.instructions_push,
        Event.instructions, List.append_assoc, List.singleton_append]
  | symbolAttribute => exact ⟨r, _, rfl, by simp [goesOn], rfl, rfl, fun es => rfl⟩
  | commonSymbol => exact ⟨r, _, rfl, by simp [goesOn], rfl, rfl, fun es => rfl⟩
  | zeroFill => exact ⟨r, _, rfl, by simp [goesOn], rfl, rfl, fun es => rfl⟩

-- A run records what was foreseen of the events it comes to, whether it fails or not.
theorem run_foreseen {r : Recorder} {events : List Event}
    (hlabels : r.printLabels = true → ∀ e ∈ events, e.HasTextLabel) :
    ∃ s outcome, r.run events = (s, outcome) ∧
      s.stream.instructions = r.foreseen (delivered r.machine events) ∧
      (outcome = .ok () → delivered r.machine events = events) := by
  induction events generalizing r with
  | nil => exact ⟨r, .ok (), rfl, r.foreseen_nil.symm, fun _ => rfl⟩
  | cons e es ih =>
      obtain ⟨s, outcome, hdeliver, hgoes, hmachine, hprinting, hforeseen⟩ :=
        deliver_foreseen fun hp => hlabels hp e List.mem_cons_self
      simp only [run, hdeliver, delivered, ← hforeseen]
      cases outcome with
      | error m =>
          have hstops : ¬goesOn r.machine e = true := fun h => by cases hgoes.mp h
          rw [if_neg hstops, s.foreseen_nil]
          exact ⟨s, .error m, rfl, rfl, fun h => by cases h⟩
      | ok =>
          obtain ⟨t, final, hrun, hstream, hall⟩ := ih fun hp e he =>
            hlabels (hprinting.symm.trans hp) e (List.mem_cons_of_mem _ he)
          rw [if_pos (hgoes.mpr rfl), ← hmachine]
          exact ⟨t, final, hrun, hstream, fun h => by rw [hall h]⟩

-- A replay of events alone ends where their run ends.
theorem replay_foreseen {r : Recorder} {events : List Event}
    (hlabels : r.printLabels = true → ∀ e ∈ events, e.HasTextLabel) :
    ∃ s outcome, r.replay (.ofEvents events) = (s, outcome) ∧
      s.stream.instructions = r.foreseen (delivered r.machine events) ∧
      (outcome = .ok () → delivered r.machine events = events) := by
  obtain ⟨s, outcome, hrun, hstream, hall⟩ := run_foreseen hlabels
  cases outcome with
  | error m => exact ⟨s, _, replay_ofEvents_of_run_error hrun, hstream, fun h => by cases h⟩
  | ok => exact ⟨_, _, replay_ofEvents_of_run hrun, hstream, fun _ => hall rfl⟩

end Recorder
end Listing
