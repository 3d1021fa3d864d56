import Listing.Proofs.Event.Concatenation
import Listing.Proofs.Recorder.Replay

namespace Listing

namespace Event

-- The first instruction takes the labels that waited, and those before it.
theorem instructions_append_instruction {label : Json → Json}
    {operand : RawOperand → Option Operand} {before : List Event}
    (h : ∀ e ∈ before, e.isInstruction = false) (waiting : List Json) (opcode : Json)
    (operands : List RawOperand) (location : Location) (after : List Event) :
    instructions label operand waiting (before ++ .instruction opcode operands location :: after) =
      ⟨opcode, waiting ++ (before.filterMap labelName?).map label, operands.filterMap operand,
          .int location.line, .int location.column⟩ :: instructions label operand [] after := by
  induction before generalizing waiting with
  | nil => simp [instructions]
  | cons e before ih =>
      obtain ⟨he, hbefore⟩ := List.forall_mem_cons.mp h
      cases e with
      | label name place =>
          have hlabel : labelName? (.label name place) = some name := rfl
          rw [List.cons_append, instructions, ih hbefore, List.filterMap_cons_some hlabel,
            List.map_cons, List.append_assoc, List.singleton_append]
      | instruction => cases he
      | symbolAttribute | commonSymbol | zeroFill => exact ih hbefore waiting

end Event

namespace Recorder

theorem attachedName_unprinted : attachedName false = id := by
  funext name
  cases name <;> rfl

-- Labels that wait go to the first instruction of a run, in front of those on the way to it.
theorem run_attaches {r s : Recorder} {before after : List Event} {opcode : Json}
    {operands : List RawOperand} {location : Location} (hm : r.machine.NamesTexts)
    (hprint : r.printLabels = false) (hbefore : ∀ e ∈ before, e.isInstruction = false)
    (h : ∀ e ∈ before ++ .instruction opcode operands location :: after,
      e.IsAcceptable r.printLabels)
    (hrun : r.run (before ++ .instruction opcode operands location :: after) = (s, .ok ())) :
    ∃ i, s.stream.instructions[r.stream.size]? = some i ∧ i.opcode = opcode ∧
      i.labels = r.pending ++ before.filterMap Event.labelName? := by
  obtain ⟨t, ht, -, -, hforeseen⟩ := run_acceptable hm h
  obtain ⟨rfl, -⟩ := Prod.mk.inj (hrun.symm.trans ht)
  have hstream := hforeseen []
  rw [s.foreseen_nil, List.append_nil, foreseen,
    Event.instructions_append_instruction hbefore] at hstream
  rw [hstream, Stream.size, List.getElem?_append_right (le_refl _), Nat.sub_self]
  refine ⟨_, rfl, rfl, ?_⟩
  rw [hprint, attachedName_unprinted, List.map_id]

-- Logs one behind the other are replayed as the first and then, from where it left the recorder,
-- the second. The labels that the first left waiting go to the first instruction of the second.
theorem replay_append {r : Recorder} {first second : String} (hm : r.machine.NamesTexts)
    (hprint : r.printLabels = false) (hsound : (Event.readLog first).fault = none)
    (hopcodes : ∀ e ∈ (Event.readLog first).events ++ (Event.readLog second).events,
      e.HasTextOpcode) :
    Event.readLog (first ++ "\n" ++ second) =
        ((Event.readLog second).later (Text.splitLines (first ++ "\n").toList).length).after
          (Event.readLog first).entries ∧
      ∃ s t u, r.replay (Event.readLog first) = (s, .ok ()) ∧
        s.replay (Event.readLog second) = (t, (Event.readLog second).outcome) ∧
        r.replay (Event.readLog (first ++ "\n" ++ second)) =
          (u, (Event.readLog (first ++ "\n" ++ second)).outcome) ∧
        SameRecording t u ∧
        ∀ before opcode operands location after,
          (Event.readLog second).events =
              before ++ .instruction opcode operands location :: after →
            (∀ e ∈ before, e.isInstruction = false) →
            ∃ i, u.stream.instructions[s.stream.size]? = some i ∧ i.opcode = opcode ∧
              i.labels = s.pending ++ before.filterMap Event.labelName? := by
  have hread := Event.readLog_append hsound second
  refine ⟨hread, ?_⟩
  have hevents : (Event.readLog (first ++ "\n" ++ second)).events =
      (Event.readLog first).events ++ (Event.readLog second).events := by
    rw [hread, Event.Reading.events_after, Event.Reading.events_later]
  have hall := fun e he => acceptable_of_textOpcode hprint (hopcodes e he)
  obtain ⟨hfirst, hsecond⟩ := List.forall_mem_append.mp hall
  have hdone : (Event.readLog first).outcome = .ok () := by rw [Event.Reading.outcome, hsound]
  -- `a` and `b` are where the runs of the events end.
  obtain ⟨a, hrun, hmachine, hprinting, -⟩ := run_acceptable hm hfirst
  obtain ⟨s, a', hreplay, hrun', hs⟩ := replay_acceptable hm hfirst
  obtain ⟨rfl, -⟩ := Prod.mk.inj (hrun.symm.trans hrun')
  rw [← hmachine] at hm
  rw [← hprinting] at hsecond
  obtain ⟨b, hmore, -⟩ := run_acceptable hm hsecond
  obtain ⟨u, b', hjoined, hrunJoined, hu⟩ := replay_acceptable (hmachine ▸ hm) (hevents ▸ hall)
  rw [hevents, run_append_of_ok hrun, hmore] at hrunJoined
  obtain ⟨rfl, -⟩ := Prod.mk.inj hrunJoined
  obtain ⟨ht, htend⟩ := replayFrom_eq_run hs 0 (Event.readLog second).fault
    (Event.readLog second).entries
  rw [hmore] at ht htend
  refine ⟨s, _, u, hdone ▸ hreplay, Prod.ext rfl htend, hjoined,
    sameRecording_of_unnoticed (ht.trans hu.symm), ?_⟩
  intro before opcode operands location after hcut hbefore
  rw [hcut] at hsecond hmore
  have hsa := sameRecording_of_unnoticed hs
  have hub := sameRecording_of_unnoticed hu
  rw [← hub.stream, ← hsa.stream, ← hsa.pending]
  exact run_attaches hm (hprinting.trans hprint) hbefore hsecond hmore

-- A log whose last line is ended by a carriage return, and that leaves a label waiting.
def openLog : String := "# a\n\x7b\"event\": \"label\", \"name\": \"a\"\x7d\r"

-- A log whose second line is cut off.
def cutLog : String := "\x7b\"event\": \"instruction\", \"opcode\": \"RET\"\x7d\n\x7b"

theorem readLog_openLog : Event.readLog openLog = .ofEvents [.label (.str "a") {}] := by
  decide +kernel

theorem readLog_cutLog : Event.readLog cutLog =
    { entries := [.event (.instruction (.str "RET") [] {})],
      fault := some (.line 2 (.notJson .noPropertyName)) } := by
  decide +kernel

theorem replay_append_cut :
    ∃ s u i, (fresh none 0 false true).replay (Event.readLog openLog) = (s, .ok ()) ∧
      (fresh none 0 false true).replay (Event.readLog (openLog ++ "\n" ++ cutLog)) =
        (u, .error (.line 4 (.notJson .noPropertyName))) ∧
      u.stream.instructions[s.stream.size]? = some i ∧ i.labels = [.str "a"] := by
  obtain ⟨hread, s, t, u, hs, -, hu, -, hlabels⟩ :=
    @replay_append (fresh none 0 false true) openLog cutLog
      (by simp [fresh, Machine.orGeneric, Machine.NamesTexts, Machine.generic]) rfl
      (by rw [readLog_openLog]; rfl)
      (by simp [readLog_openLog, readLog_cutLog, Event.Reading.events, Event.Reading.ofEvents,
        Event.HasTextOpcode])
  have hend : (Event.readLog (openLog ++ "\n" ++ cutLog)).outcome =
      .error (.line 4 (.notJson .noPropertyName)) := by
    rw [hread, readLog_cutLog]
    rfl
  have hpending : s.pending = [.str "a"] := by
    rw [readLog_openLog] at hs
    rw [← (Prod.mk.inj hs).1]
    rfl
  obtain ⟨i, hi, -, hattached⟩ := hlabels [] (.str "RET") [] {} [] (by rw [readLog_cutLog]; rfl)
    (by simp)
  exact ⟨s, u, i, hs, hend ▸ hu, hi, by rw [hattached, hpending]; rfl⟩

end Recorder
end Listing
