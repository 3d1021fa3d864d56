import Listing.Proofs.Recorder.Failure

namespace Listing

-- How the reading of a log ends.
def Event.Reading.outcome (reading : Event.Reading) : Except Fault Unit :=
  match reading.fault with
  | none => .ok ()
  | some f => .error f

namespace Recorder

-- A recorder with its notices forgotten.
def unnoticed (r : Recorder) : Recorder := { r with reports := r.traceLines.map .trace }

theorem unnoticed_note (r : Recorder) (n : Notice) : (r.note n).unnoticed = r.unnoticed := by
  simp [unnoticed, note, traceLines]

theorem traceLines_unnoticed (r : Recorder) : r.unnoticed.traceLines = r.traceLines := by
  simp [unnoticed, traceLines, List.filterMap_map]

section Unnoticed

variable {r s : Recorder}

-- Recorders that differ in their notices alone hold the same recording.
theorem sameRecording_of_unnoticed (h : r.unnoticed = s.unnoticed) : SameRecording r s where
  stream := (congrArg Recorder.stream h).symm
  pending := (congrArg Recorder.pending h).symm
  dropped := (congrArg Recorder.dropped h).symm
  trace := by rw [← traceLines_unnoticed r, h, traceLines_unnoticed]

theorem unnoticed_congr (hlines : r.traceLines = s.traceLines)
    (hrest : { r with reports := [] } = { s with reports := [] }) : r.unnoticed = s.unnoticed := by
  have heq (q : Recorder) : q.unnoticed =
      { ({ q with reports := [] } : Recorder) with reports := q.traceLines.map .trace } := rfl
  rw [heq r, heq s, hlines, hrest]

theorem unnoticed_trace (r : Recorder) (line : String) :
    (r.trace line).unnoticed = r.unnoticed.trace line := by
  have htraced : r.unnoticed.traced = r.traced := rfl
  unfold trace
  rw [htraced]
  split
  · simp [unnoticed, traceLines]
  · rfl

theorem trace_congr (h : r.unnoticed = s.unnoticed) (line : String) :
    (r.trace line).unnoticed = (s.trace line).unnoticed := by
  rw [unnoticed_trace, unnoticed_trace, h]

theorem label_unnoticed (r : Recorder) (name : Json) :
    (r.label name).2 = (r.unnoticed.label name).2 ∧
      (r.label name).1.unnoticed = (r.unnoticed.label name).1.unnoticed := by
  have hprinting : r.unnoticed.printLabels = r.printLabels := rfl
  unfold label
  rw [hprinting]
  split
  · exact ⟨rfl, unnoticed_congr (traceLines_unnoticed r).symm rfl⟩
  · refine ⟨rfl, trace_congr ?_ _⟩
    exact unnoticed_congr (traceLines_unnoticed r).symm rfl

-- An instruction is told about before it is recorded. That leaves no trace.
theorem instruction_unnoticed (r : Recorder) (opcode : Json) (operands : List RawOperand)
    (place : Place) :
    (r.instruction opcode operands place).2 = (r.unnoticed.instruction opcode operands place).2 ∧
      (r.instruction opcode operands place).1.unnoticed =
        (r.unnoticed.instruction opcode operands place).1.unnoticed := by
  have hmachine : r.unnoticed.machine = r.machine := rfl
  have hpending : r.unnoticed.pending = r.pending := rfl
  have hnoticed (q : Recorder) :=
    traceLines_notices q (operands.flatMap (operandNotices r.machine opcode))
  have hlines := (hnoticed r).trans ((hnoticed r.unnoticed).trans (traceLines_unnoticed r)).symm
  unfold instruction
  rw [hmachine, hpending]
  cases place.resolve with
  | error m => exact ⟨rfl, unnoticed_congr hlines rfl⟩
  | ok found =>
      dsimp only
      split
      · exact ⟨rfl, unnoticed_congr hlines rfl⟩
      · refine ⟨rfl, trace_congr ?_ _⟩
        exact unnoticed_congr hlines rfl

theorem deliver_congr (h : r.unnoticed = s.unnoticed) (e : Event) :
    (r.deliver e).2 = (s.deliver e).2 ∧
      (r.deliver e).1.unnoticed = (s.deliver e).1.unnoticed := by
  cases e with
  | label name location =>
      obtain ⟨hr, hr'⟩ := r.label_unnoticed name
      obtain ⟨hs, hs'⟩ := s.label_unnoticed name
      exact ⟨by rw [deliver, deliver, hr, hs, h], by rw [deliver, deliver, hr', hs', h]⟩
  | instruction opcode operands location =>
      obtain ⟨hr, hr'⟩ := r.instruction_unnoticed opcode operands (.ofLocation location)
      obtain ⟨hs, hs'⟩ := s.instruction_unnoticed opcode operands (.ofLocation location)
      exact ⟨by rw [deliver, deliver, hr, hs, h], by rw [deliver, deliver, hr', hs', h]⟩
  | symbolAttribute => exact ⟨rfl, h⟩
  | commonSymbol => exact ⟨rfl, h⟩
  | zeroFill => exact ⟨rfl, h⟩

end Unnoticed

-- How a replay ends after its events were delivered, if they could be.
def ending (delivery : Except Misfit Unit) (reading : Except Fault Unit) : Except Fault Unit :=
  match delivery with
  | .error m => .error (.misfit m)
  | .ok () => reading

-- A replay delivers the events of its entries, one after the other, and only its notices tell it
-- from the run of these events.
theorem replayFrom_eq_run {r s : Recorder} (h : r.unnoticed = s.unnoticed) (delivered : Nat)
    (fault : Option Fault) (entries : List Event.Entry) :
    (r.replayFrom delivered fault entries).1.unnoticed =
        (s.run ({ entries, fault } : Event.Reading).events).1.unnoticed ∧
      (r.replayFrom delivered fault entries).2 =
        ending (s.run ({ entries, fault } : Event.Reading).events).2
          ({ entries, fault } : Event.Reading).outcome := by
  induction entries generalizing r s delivered with
  | nil =>
      cases fault with
      | none => exact ⟨(r.unnoticed_note _).trans h, rfl⟩
      | some f => exact ⟨h, rfl⟩
  | cons entry rest ih =>
      cases entry with
      | notice n => exact ih ((r.unnoticed_note n).trans h) delivered
      | event e =>
          obtain ⟨hsame, hstate⟩ := deliver_congr h e
          simp only [Event.Reading.events, List.filterMap_cons, replayFrom, run] at ih ⊢
          rcases hr : r.deliver e with ⟨q, outcome⟩
          rcases hs : s.deliver e with ⟨t, outcome'⟩
          rw [hr, hs] at hsame hstate
          obtain rfl : outcome = outcome' := hsame
          cases outcome with
          | error m => exact ⟨hstate, rfl⟩
          | ok => exact ih hstate (delivered + 1)

theorem replay_eq_run (r : Recorder) (reading : Event.Reading) :
    (r.replay reading).1.unnoticed = (r.run reading.events).1.unnoticed ∧
      (r.replay reading).2 = ending (r.run reading.events).2 reading.outcome :=
  replayFrom_eq_run rfl 0 reading.fault reading.entries

-- Readings with the same events and the same end are replayed alike, whatever notices they hold.
theorem replay_congr (r : Recorder) {first second : Event.Reading}
    (hevents : first.events = second.events) (hend : first.outcome = second.outcome) :
    (r.replay first).1.unnoticed = (r.replay second).1.unnoticed ∧
      (r.replay first).2 = (r.replay second).2 := by
  obtain ⟨hfirst, hfirst'⟩ := r.replay_eq_run first
  obtain ⟨hsecond, hsecond'⟩ := r.replay_eq_run second
  rw [hfirst, hsecond, hfirst', hsecond', hevents, hend]
  exact ⟨rfl, rfl⟩

theorem run_append_of_ok {r s : Recorder} {events : List Event} (h : r.run events = (s, .ok ()))
    (more : List Event) : r.run (events ++ more) = s.run more := by
  induction events generalizing r with
  | nil =>
      obtain ⟨rfl, -⟩ := Prod.mk.inj h
      rfl
  | cons e events ih =>
      simp only [run] at h
      split at h
      · cases h
      · rename_i hdeliver
        rw [List.cons_append, run_cons_of_ok hdeliver, ih h]

-- A recorder that prints no labels takes up labels of any kind.
theorem acceptable_of_textOpcode {r : Recorder} {e : Event} (hprint : r.printLabels = false)
    (h : e.HasTextOpcode) : e.IsAcceptable r.printLabels := by
  refine ⟨h, fun hp => ?_⟩
  rw [hprint] at hp
  cases hp

section Acceptable

variable {r : Recorder} (hm : r.machine.NamesTexts)

include hm

theorem goesOn_of_text {e : Event} (h : e.HasTextOpcode) : goesOn r.machine e = true := by
  cases e with
  | instruction opcode operands location =>
      obtain ⟨text, rfl⟩ := h
      exact isOk_iff.mpr (recorded_text hm text [] operands (.int 0) (.int 0))
  | _ => rfl

-- Events that are acceptable are all recorded, and what further ones would add stays the same.
theorem run_acceptable {events : List Event}
    (h : ∀ e ∈ events, e.IsAcceptable r.printLabels) :
    ∃ s, r.run events = (s, .ok ()) ∧ s.machine = r.machine ∧ s.printLabels = r.printLabels ∧
      ∀ more, s.foreseen more = r.foreseen (events ++ more) := by
  induction events generalizing r with
  | nil => exact ⟨r, rfl, rfl, rfl, fun more => rfl⟩
  | cons e events ih =>
      obtain ⟨⟨hopcode, hlabel⟩, hrest⟩ := List.forall_mem_cons.mp h
      obtain ⟨s, outcome, hdeliver, hgoes, hmachine, hprinting, hforeseen⟩ :=
        deliver_foreseen hlabel
      obtain rfl := hgoes.mp (goesOn_of_text hm hopcode)
      obtain ⟨t, hrun, htmachine, htprinting, htforeseen⟩ :=
        ih (hmachine ▸ hm) (hprinting ▸ hrest)
      refine ⟨t, (run_cons_of_ok hdeliver).trans hrun, htmachine.trans hmachine,
        htprinting.trans hprinting, fun more => ?_⟩
      rw [htforeseen, hforeseen, List.cons_append]

-- A replay of such events ends as their reading does.
theorem replay_acceptable {reading : Event.Reading}
    (h : ∀ e ∈ reading.events, e.IsAcceptable r.printLabels) :
    ∃ s t, r.replay reading = (s, reading.outcome) ∧ r.run reading.events = (t, .ok ()) ∧
      s.unnoticed = t.unnoticed := by
  obtain ⟨t, hrun, -⟩ := run_acceptable hm h
  obtain ⟨hstate, houtcome⟩ := r.replay_eq_run reading
  rw [hrun] at hstate houtcome
  exact ⟨(r.replay reading).1, t, Prod.ext rfl houtcome, hrun, hstate⟩

end Acceptable

end Recorder
end Listing
