import Listing.Proofs.Event.Bytes
import Listing.Proofs.Event.Returned
import Listing.Proofs.Recorder.Replay

namespace Listing.Recorder

-- What a recording is written as lies in what it holds, and not in what was told meanwhile.
theorem written_unnoticed {r s : Recorder} (h : r.unnoticed = s.unnoticed) :
    r.tree = s.tree ∧ (∀ room indent, r.render room indent = s.render room indent) ∧
      r.dump = s.dump := by
  have htree : r.unnoticed.tree = s.unnoticed.tree := by rw [h]
  have hrender (room : Nat) (indent : Json.Indent) :
      r.unnoticed.render room indent = s.unnoticed.render room indent := by
    rw [h]
  have hdump : r.unnoticed.dump = s.unnoticed.dump := by rw [h]
  exact ⟨htree, hrender, hdump⟩

variable (machine : Option Machine) (offset : Int) (path text : String)

theorem captureFile_of_fault {f : Fault} (h : (Event.readLog text).fault = some f) :
    (captureFile machine offset path (Text.Utf8.ofString text)).2 = .error f := by
  rw [captureFile, Event.readBytes_ofString, h, Option.elim_some]

-- A file is read to its end first. Where that has no fault, it makes no difference.
theorem captureFile_of_sound (h : (Event.readLog text).fault = none) :
    (∃ f, (capture machine offset (Event.readLog text)).2 = .error f ∧
        (captureFile machine offset path (Text.Utf8.ofString text)).2 = .error f) ∨
      ∃ r s, capture machine offset (Event.readLog text) = (r, .ok ()) ∧
        (captureFile machine offset path (Text.Utf8.ofString text)).2 = .ok s ∧
        r.unnoticed = s.unnoticed := by
  have hevents := Event.events_ofEvents (Event.readLog text).events
  have hend : (Event.Reading.ofEvents (Event.readLog text).events).outcome =
      (Event.readLog text).outcome := by
    rw [Event.Reading.outcome, Event.Reading.outcome, h]
    rfl
  obtain ⟨hstate, houtcome⟩ :=
    replay_congr { machine := .orGeneric machine, offset } hevents hend
  rw [captureFile, Event.readBytes_ofString, h, Option.elim_none]
  simp only [capture] at hstate houtcome ⊢
  rcases hdirect : replay { machine := .orGeneric machine, offset } (Event.readLog text)
    with ⟨r, outcome⟩
  rcases hfile : replay { machine := .orGeneric machine, offset }
    (.ofEvents (Event.readLog text).events) with ⟨s, outcome'⟩
  rw [hdirect, hfile] at hstate houtcome
  obtain rfl : outcome' = outcome := houtcome
  cases outcome' with
  | error f => exact .inl ⟨f, rfl, rfl⟩
  | ok => exact .inr ⟨r, _, rfl, rfl, hstate.symm.trans (s.unnoticed_note _).symm⟩

-- A file that holds a text is read as the text is, and captured as the text is where that can be
-- read to its end.
theorem captureFile_ofString :
    Event.readBytes path (Text.Utf8.ofString text) =
        (.readingLog path :: (Event.readLog text).notices,
          (Event.readLog text).fault.elim (.ok (Event.readLog text).events) .error) ∧
      ((∃ f, (Event.readLog text).fault = some f ∧
          (captureFile machine offset path (Text.Utf8.ofString text)).2 = .error f) ∨
        (Event.readLog text).fault = none ∧
          ((∃ f, (capture machine offset (Event.readLog text)).2 = .error f ∧
              (captureFile machine offset path (Text.Utf8.ofString text)).2 = .error f) ∨
            ∃ r s, capture machine offset (Event.readLog text) = (r, .ok ()) ∧
              (captureFile machine offset path (Text.Utf8.ofString text)).2 = .ok s ∧
              SameRecording r s ∧ s.tree = r.tree ∧
              (∀ room indent, s.render room indent = r.render room indent) ∧ s.dump = r.dump)) := by
  refine ⟨Event.readBytes_ofString path text, ?_⟩
  cases hfault : (Event.readLog text).fault with
  | some f =>
      left
      exact ⟨f, rfl, captureFile_of_fault machine offset path text hfault⟩
  | none =>
      right
      refine ⟨rfl, ?_⟩
      rcases captureFile_of_sound machine offset path text hfault with
        hfailed | ⟨r, s, hr, hs, hsame⟩
      · exact .inl hfailed
      · exact .inr ⟨r, s, hr, hs, sameRecording_of_unnoticed hsame,
          written_unnoticed hsame.symm⟩

end Listing.Recorder
