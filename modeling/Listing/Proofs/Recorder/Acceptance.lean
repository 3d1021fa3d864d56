import Listing.Proofs.Outcome
import Listing.Proofs.Recorder.Delivery

namespace Listing

namespace Instruction

theorem operandTexts_failsOnly (operands : List Operand) :
    FailsOnly (· = .wrongType) (operands.mapM Operand.text) := by
  refine failsOnly_mapM fun o _ => ?_
  cases o with
  | register name =>
      cases name with
      | str text => exact failsOnly_ok _
      | _ => exact failsOnly_error rfl
  | integer value => exact failsOnly_ok _
  | label name => exact failsOnly_ok _

theorem text_failsOnly (i : Instruction) : FailsOnly (· = .wrongType) i.text := by
  refine .bind (operandTexts_failsOnly i.operands) fun operands _ => ?_
  split
  · exact failsOnly_ok _
  · exact failsOnly_error rfl

-- An instruction of which a line of text can be made, at a line that is a number.
structure IsText (i : Instruction) : Prop where
  opcode : ∃ text, i.opcode = .str text
  operands : ∀ o ∈ i.operands, ∃ text, o.text = .ok text
  line : ∃ n, i.line = .int n

end Instruction

-- What a recorder can take up, if its machine names registers by texts.
def Event.IsAcceptable (printLabels : Bool) (e : Event) : Prop :=
  e.HasTextOpcode ∧ (printLabels = true → e.HasTextLabel)

namespace Recorder

def RecordsTexts (r : Recorder) : Prop := ∀ i ∈ r.stream.instructions, i.IsText

-- All labels that a recorder has attached, or has yet to attach, are texts.
def HoldsTextLabels (r : Recorder) : Prop :=
  (∀ i ∈ r.stream.instructions, ∀ l ∈ i.labels, ∃ text, l = .str text) ∧
    ∀ l ∈ r.pending, ∃ text, l = .str text

theorem attachedName_isText {printLabels : Bool} {name : Json} :
    (∃ text, attachedName printLabels name = .str text) ↔ ∃ text, name = .str text := by
  cases name <;> simp [attachedName]

section Deliver

variable {r s : Recorder} {e : Event} {m : Misfit}

theorem label_of_notText {name : Json} (hprint : r.printLabels = true)
    (hname : ¬∃ text, name = .str text) : r.label name = (r, .error .wrongType) := by
  cases name with
  | str text => exact absurd ⟨text, rfl⟩ hname
  | _ => simp [label, hprint, Symbol.printed, Except.map]

theorem deliver_error (h : r.deliver e = (s, .error m)) : m = .wrongType := by
  cases e with
  | label name location =>
      by_cases hname : r.printLabels = true → ∃ text, name = .str text
      · obtain ⟨reports, hlabel⟩ := label_eq hname
        rw [deliver, hlabel] at h
        cases h
      · obtain ⟨hprint, hname⟩ := Classical.not_imp.mp hname
        rw [deliver, label_of_notText hprint hname] at h
        cases h
        rfl
  | instruction opcode operands location =>
      simp only [deliver, instruction, Place.ofLocation, Place.resolve] at h
      split at h
      · rename_i htext
        cases h
        exact Instruction.text_failsOnly _ _ htext
      · cases h
  | _ => cases h

-- What is taken up was acceptable, adds an instruction with a text if any, and keeps all labels
-- texts if it brings no other.
theorem deliver_ok (h : r.deliver e = (s, .ok ())) :
    e.IsAcceptable r.printLabels ∧ s.printLabels = r.printLabels ∧
      (r.RecordsTexts → s.RecordsTexts) ∧
      (s.HoldsTextLabels ↔ r.HoldsTextLabels ∧ e.HasTextLabel) := by
  cases e with
  | label name location =>
      by_cases hname : r.printLabels = true → ∃ text, name = .str text
      · obtain ⟨reports, hlabel⟩ := label_eq hname
        rw [deliver, hlabel] at h
        cases h
        refine ⟨⟨trivial, hname⟩, rfl, id, ?_⟩
        simp only [HoldsTextLabels, List.forall_mem_append, List.forall_mem_singleton,
          attachedName_isText, and_assoc, Event.HasTextLabel]
      · obtain ⟨hprint, hname⟩ := Classical.not_imp.mp hname
        rw [deliver, label_of_notText hprint hname] at h
        cases h
  | instruction opcode operands location =>
      obtain ⟨t, outcome, hinstruction, hgoes, -, hprinting, hpending, hstream⟩ :=
        r.instruction_state opcode operands location
      rw [deliver, hinstruction] at h
      obtain ⟨rfl, rfl⟩ := Prod.mk.inj h
      obtain ⟨hopcode, hoperands⟩ := Instruction.text_isOk.mp (isOk_iff.mp (hgoes.mpr rfl))
      refine ⟨⟨hopcode, fun _ => trivial⟩, hprinting, fun hr i hi => ?_, ?_⟩
      · rw [hstream, Stream.instructions_push] at hi
        rcases List.mem_append.mp hi with hi | hi
        · exact hr i hi
        · rw [List.mem_singleton.mp hi]
          exact ⟨hopcode, hoperands, _, rfl⟩
      · simp only [HoldsTextLabels, hstream, hpending, Stream.instructions_push,
          List.forall_mem_append, List.forall_mem_singleton, Event.HasTextLabel]
        simp
  | symbolAttribute | commonSymbol | zeroFill =>
      cases h
      exact ⟨⟨trivial, fun _ => trivial⟩, rfl, id, (and_iff_left trivial).symm⟩

end Deliver

section Run

variable {r s : Recorder} {events : List Event}

theorem run_error {m : Misfit} (h : r.run events = (s, .error m)) : m = .wrongType := by
  induction events generalizing r with
  | nil => simp [run] at h
  | cons e events ih =>
      simp only [run] at h
      split at h
      · rename_i hdeliver
        cases h
        exact deliver_error hdeliver
      · exact ih h

theorem run_ok (h : r.run events = (s, .ok ())) :
    (∀ e ∈ events, e.IsAcceptable r.printLabels) ∧ (r.RecordsTexts → s.RecordsTexts) ∧
      (s.HoldsTextLabels ↔ r.HoldsTextLabels ∧ ∀ e ∈ events, e.HasTextLabel) := by
  induction events generalizing r with
  | nil =>
      cases h
      simp
  | cons e events ih =>
      simp only [run] at h
      split at h
      · cases h
      · rename_i t hdeliver
        obtain ⟨hacceptable, hprinting, hrecords, hholds⟩ := deliver_ok hdeliver
        obtain ⟨hall, hlater, hlabels⟩ := ih h
        rw [hprinting] at hall
        refine ⟨List.forall_mem_cons.mpr ⟨hacceptable, hall⟩, hlater ∘ hrecords, ?_⟩
        rw [hlabels, hholds, List.forall_mem_cons, and_assoc]

-- A run comes to its end if every event is acceptable, and is refused otherwise.
theorem run_cases {machine : Machine} {printLabels : Bool}
    (h : Attached machine printLabels [] r) (hm : machine.NamesTexts) (events : List Event) :
    (∀ e ∈ events, e.IsAcceptable printLabels) ∧
        (∃ s, r.run events = (s, .ok ()) ∧ s.RecordsTexts ∧
          (s.HoldsTextLabels ↔ ∀ e ∈ events, e.HasTextLabel) ∧
          s.pending = waitingLabels printLabels events) ∨
      (¬∀ e ∈ events, e.IsAcceptable printLabels) ∧ ∃ s, r.run events = (s, .error .wrongType) := by
  have hnone : r.stream.instructions = [] := List.length_eq_zero_iff.mp h.size
  have hrecords : r.RecordsTexts := by simp [RecordsTexts, hnone]
  have hholds : r.HoldsTextLabels := by simp [HoldsTextLabels, hnone, h.pending, waitingLabels]
  by_cases hall : ∀ e ∈ events, e.IsAcceptable printLabels
  · obtain ⟨s, hrun, hs⟩ := h.run hm (fun e he => (hall e he).1) fun hp e he => (hall e he).2 hp
    obtain ⟨-, hlater, hlabels⟩ := run_ok hrun
    rw [iff_true_intro hholds, true_and] at hlabels
    exact .inl ⟨hall, s, hrun, hlater hrecords, hlabels, hs.pending⟩
  · right
    refine ⟨hall, ?_⟩
    rcases hrun : r.run events with ⟨s, m | done⟩
    · exact ⟨s, by rw [run_error hrun]⟩
    · exact absurd (h.printing ▸ (run_ok hrun).1) hall

end Run

end Recorder
end Listing
