import Listing.Proofs.Event.Returned
import Listing.Proofs.Recorder.Composition

namespace Listing

namespace Event

-- What is offered in front of the first value that is no event is read, and nothing behind it.
theorem ofOffered_append_value (before : List Event) (v : Json) (after : List Offered) :
    Reading.ofOffered (before.map .event ++ .value v :: after) =
      { Reading.ofEvents before with fault := some (.misfit (.notAnEvent v)) } := by
  induction before with
  | nil => rfl
  | cons e before ih =>
      rw [List.map_cons, List.cons_append, Reading.ofOffered, ih]
      rfl

theorem exists_first_value {offered : List Offered} (h : ∃ v, .value v ∈ offered) :
    ∃ (before : List Event) (v : Json) (after : List Offered),
      offered = before.map .event ++ .value v :: after := by
  obtain ⟨v, hv⟩ := h
  induction offered with
  | nil => cases hv
  | cons o offered ih =>
      cases o with
      | value w => exact ⟨[], w, offered, rfl⟩
      | event e =>
          rcases List.mem_cons.mp hv with heq | hv
          · cases heq
          · obtain ⟨before, w, after, rfl⟩ := ih hv
            exact ⟨e :: before, w, after, rfl⟩

end Event

namespace Recorder

section Truncated

variable {r : Recorder} (hm : r.machine.NamesTexts)

include hm

-- A reading that ends with a fault leaves the recording that its events alone leave.
theorem replay_fault {events : List Event} (h : ∀ e ∈ events, e.IsAcceptable r.printLabels)
    (faulty sound : Event.Reading) {f : Fault} (hfaulty : faulty.events = events)
    (hfault : faulty.fault = some f) (hsound : sound.events = events)
    (hnone : sound.fault = none) :
    ∃ s t, r.replay faulty = (s, .error f) ∧ r.replay sound = (t, .ok ()) ∧
      SameRecording t s := by
  obtain ⟨s, a, hs, hrun, hsa⟩ := replay_acceptable hm (hfaulty ▸ h)
  obtain ⟨t, b, ht, hrun', htb⟩ := replay_acceptable hm (hsound ▸ h)
  rw [hfaulty] at hrun
  rw [hsound, hrun] at hrun'
  obtain ⟨rfl, -⟩ := Prod.mk.inj hrun'
  rw [Event.Reading.outcome, hfault] at hs
  rw [Event.Reading.outcome, hnone] at ht
  exact ⟨s, t, hs, ht, sameRecording_of_unnoticed (htb.trans hsa.symm)⟩

theorem fault_of_replay {reading : Event.Reading} {s : Recorder} {f : Fault}
    (h : ∀ e ∈ reading.events, e.IsAcceptable r.printLabels)
    (hreplay : r.replay reading = (s, .error f)) : reading.fault = some f := by
  obtain ⟨t, -, ht, -⟩ := replay_acceptable hm h
  have hend : reading.outcome = .error f := (Prod.mk.inj (ht.symm.trans hreplay)).2
  unfold Event.Reading.outcome at hend
  split at hend
  · cases hend
  · rename_i g hg
    rw [hg, Except.error.inj hend]

variable (hprint : r.printLabels = false)

include hprint

-- A replay that a line of a log ends has the effect of the lines before that one.
theorem replay_line {text : String} {s : Recorder} {number : Nat} {flaw : LineFlaw}
    (hopcodes : ∀ e ∈ (Event.readLog text).events, e.HasTextOpcode)
    (h : r.replay (Event.readLog text) = (s, .error (.line number flaw))) :
    0 < number ∧ ∀ front : String,
      Text.splitLines front.toList = (Text.splitLines text.toList).take (number - 1) →
      ∃ t, r.replay (Event.readLog front) = (t, .ok ()) ∧ SameRecording t s := by
  have hall := fun e he => acceptable_of_textOpcode hprint (hopcodes e he)
  have hfault := fault_of_replay hm hall h
  obtain ⟨hfirst, htake⟩ := Event.readLines_take 1 hfault
  refine ⟨hfirst, fun front hlines => ?_⟩
  have hread : Event.readLog front = { entries := (Event.readLog text).entries } := by
    rw [Event.readLog, hlines, htake]
    rfl
  have hevents : (Event.readLog front).events = (Event.readLog text).events := by
    rw [hread]
    rfl
  obtain ⟨s', t, hs, ht, hsame⟩ := replay_fault hm hall _ _ rfl hfault hevents (by rw [hread])
  obtain ⟨rfl, -⟩ := Prod.mk.inj (hs.symm.trans h)
  exact ⟨t, ht, hsame⟩

-- A replay that a value ends which is no event has the effect of the events before that one.
theorem replay_value {before : List Event} (hopcodes : ∀ e ∈ before, e.HasTextOpcode) (v : Json)
    (after : List Event.Offered) :
    ∃ s t, r.replay (.ofOffered (before.map .event ++ .value v :: after)) =
        (s, .error (.misfit (.notAnEvent v))) ∧
      r.replay (.ofEvents before) = (t, .ok ()) ∧ SameRecording t s := by
  have hall := fun e he => acceptable_of_textOpcode hprint (hopcodes e he)
  have hevents := Event.events_ofEvents before
  rw [Event.ofOffered_append_value]
  exact replay_fault hm hall _ (.ofEvents before) hevents rfl hevents rfl

-- What ends a replay leaves the recording that all before it makes, and nothing behind it counts.
theorem replay_truncated :
    (∀ text s number flaw, (∀ e ∈ (Event.readLog text).events, e.HasTextOpcode) →
        r.replay (Event.readLog text) = (s, .error (.line number flaw)) →
        0 < number ∧
          (∃ front : String, front.toList <+: text.toList ∧
            Text.splitLines front.toList = (Text.splitLines text.toList).take (number - 1)) ∧
          ∀ front : String,
            Text.splitLines front.toList = (Text.splitLines text.toList).take (number - 1) →
            ∃ t, r.replay (Event.readLog front) = (t, .ok ()) ∧ SameRecording t s) ∧
      ∀ offered : List Event.Offered, (∃ v, .value v ∈ offered) →
        (∀ e, .event e ∈ offered → e.HasTextOpcode) →
        ∃ (before : List Event) (v : Json) (after : List Event.Offered) (s t : Recorder),
          offered = before.map .event ++ .value v :: after ∧
          r.replay (.ofOffered offered) = (s, .error (.misfit (.notAnEvent v))) ∧
          (Misfit.notAnEvent v).breach = .type ∧
          r.replay (.ofEvents before) = (t, .ok ()) ∧ SameRecording t s := by
  refine ⟨fun text s number flaw hopcodes h => ?_, fun offered hvalue hopcodes => ?_⟩
  · obtain ⟨hfirst, hfront⟩ := replay_line hm hprint hopcodes h
    obtain ⟨front, hcut, hlines⟩ := Text.exists_prefix_take text.toList (number - 1)
    exact ⟨hfirst, ⟨String.ofList front, by simpa using hcut, by simpa using hlines⟩, hfront⟩
  · obtain ⟨before, v, after, rfl⟩ := Event.exists_first_value hvalue
    have hbefore : ∀ e ∈ before, e.HasTextOpcode := fun e he => hopcodes e (by simp [he])
    obtain ⟨s, t, hs, ht, hsame⟩ := replay_value hm hprint hbefore v after
    exact ⟨before, v, after, s, t, rfl, hs, rfl, ht, hsame⟩

end Truncated

-- The first line of that log, which another break ends here.
def headLog : String := "\x7b\"event\": \"instruction\", \"opcode\": \"RET\"\x7d\r"

-- What stands behind the line that is cut off, or behind the value, is not looked at.
theorem replay_truncated_cut :
    (∃ s t, (fresh none 0 false true).replay (Event.readLog cutLog) =
          (s, .error (.line 2 (.notJson .noPropertyName))) ∧
        (fresh none 0 false true).replay (Event.readLog headLog) = (t, .ok ()) ∧
        SameRecording t s) ∧
      ∃ before s t, (fresh none 0 false true).replay
            (.ofOffered [.event (.label (.str "a") {}), .value .null,
              .event (.label (.str "b") {})]) = (s, .error (.misfit (.notAnEvent .null))) ∧
        (fresh none 0 false true).replay (.ofEvents before) = (t, .ok ()) ∧
        SameRecording t s ∧ t.pending = [.str "a"] := by
  have hm : (fresh none 0 false true).machine.NamesTexts := by
    simp [fresh, Machine.orGeneric, Machine.NamesTexts, Machine.generic]
  obtain ⟨hlog, hoffered⟩ := replay_truncated (r := fresh none 0 false true) hm rfl
  constructor
  · have hcut : ∃ s, (fresh none 0 false true).replay (Event.readLog cutLog) =
        (s, .error (.line 2 (.notJson .noPropertyName))) := by
      rw [readLog_cutLog]
      exact ⟨_, rfl⟩
    obtain ⟨s, hs⟩ := hcut
    obtain ⟨-, -, hfront⟩ := hlog cutLog s 2 (.notJson .noPropertyName)
      (by simp [readLog_cutLog, Event.Reading.events, Event.HasTextOpcode]) hs
    obtain ⟨t, ht, hsame⟩ := hfront headLog (by decide)
    exact ⟨s, t, hs, ht, hsame⟩
  · obtain ⟨before, v, after, s, t, -, hs, -, ht, hsame⟩ := hoffered
      [.event (.label (.str "a") {}), .value .null, .event (.label (.str "b") {})]
      ⟨.null, by simp⟩ (by simp [Event.HasTextOpcode])
    have hv : Except.error (Fault.misfit (.notAnEvent .null)) =
        (Except.error (.misfit (.notAnEvent v)) : Except Fault Unit) := congrArg Prod.snd hs
    have hpending : [Json.str "a"] = s.pending := congrArg (·.1.pending) hs
    exact ⟨before, s, t, hv ▸ hs, ht, hsame, by rw [hpending, hsame.pending]⟩

end Recorder
end Listing
