import Listing.Recorder

namespace Listing.Recorder

-- A recorder before its first event.
def fresh (machine : Option Machine) (offset : Int) (printLabels traced : Bool) : Recorder :=
  { machine := .orGeneric machine, offset, printLabels, traced }

-- Delivers events one after another, up to the first that fails.
def run (r : Recorder) : List Event → Recorder × Except Misfit Unit
  | [] => (r, .ok ())
  | e :: es =>
    match r.deliver e with
    | (r, .error m) => (r, .error m)
    | (r, .ok ()) => r.run es

theorem run_cons_of_ok {r s : Recorder} {e : Event} {es : List Event}
    (h : r.deliver e = (s, .ok ())) : r.run (e :: es) = s.run es := by
  simp only [run, h]

theorem replayFrom_event_of_ok {r s : Recorder} {e : Event} (h : r.deliver e = (s, .ok ()))
    (delivered : Nat) (fault : Option Fault) (rest : List Event.Entry) :
    r.replayFrom delivered fault (.event e :: rest) = s.replayFrom (delivered + 1) fault rest := by
  simp only [replayFrom, h]

-- A replay of events alone is a run with a notice at its end.
theorem replayFrom_map_event {r s : Recorder} {es : List Event} (delivered : Nat)
    (h : r.run es = (s, .ok ())) :
    r.replayFrom delivered none (es.map .event) =
      (s.note (.replayed (delivered + es.length) s.stream.size s.dropped), .ok ()) := by
  induction es generalizing r delivered with
  | nil =>
      simp only [run, Prod.mk.injEq, and_true] at h
      simp only [List.map_nil, replayFrom, List.length_nil, Nat.add_zero, h]
  | cons e es ih =>
      simp only [run] at h
      split at h
      · simp at h
      · rename_i hd
        rw [List.map_cons, replayFrom_event_of_ok hd, ih (delivered + 1) h, List.length_cons,
          Nat.add_assoc, Nat.add_comm 1]

theorem replay_ofEvents_of_run {r s : Recorder} {es : List Event} (h : r.run es = (s, .ok ())) :
    r.replay (.ofEvents es) = (s.note (.replayed es.length s.stream.size s.dropped), .ok ()) := by
  rw [replay, Event.Reading.ofEvents, replayFrom_map_event 0 h, Nat.zero_add]

-- A run that fails ends the replay where it stands.
theorem replay_ofEvents_of_run_error {r s : Recorder} {es : List Event} {m : Misfit}
    (h : r.run es = (s, .error m)) : r.replay (.ofEvents es) = (s, .error (.misfit m)) := by
  rw [replay, Event.Reading.ofEvents]
  generalize 0 = delivered
  induction es generalizing r delivered with
  | nil => simp [run] at h
  | cons e es ih =>
      simp only [run] at h
      split at h
      · rename_i hd
        obtain ⟨rfl, hm⟩ := Prod.mk.inj h
        cases hm
        simp only [List.map_cons, replayFrom, hd]
      · rename_i hd
        rw [List.map_cons, replayFrom_event_of_ok hd, ih h]

-- What notes and successful deliveries keep, a successful replay keeps.
theorem replayFrom_induction {P : Recorder → Prop} {entries : List Event.Entry}
    (hnote : ∀ r n, P r → P (r.note n))
    (hdeliver : ∀ r s e, Event.Entry.event e ∈ entries → P r → r.deliver e = (s, .ok ()) → P s)
    {r s : Recorder} {delivered : Nat} {fault : Option Fault} (hr : P r)
    (h : r.replayFrom delivered fault entries = (s, .ok ())) : P s := by
  induction entries generalizing r delivered with
  | nil =>
      simp only [replayFrom] at h
      split at h
      · simp at h
      · obtain ⟨rfl, -⟩ := Prod.mk.inj h
        exact hnote _ _ hr
  | cons entry rest ih =>
      have hrest := fun r s e (he : Event.Entry.event e ∈ rest) =>
        hdeliver r s e (List.mem_cons_of_mem _ he)
      cases entry with
      | notice n => exact ih hrest (hnote _ _ hr) h
      | event e =>
          simp only [replayFrom] at h
          split at h
          · simp at h
          · rename_i hd
            exact ih hrest (hdeliver _ _ _ List.mem_cons_self hr hd) h

end Listing.Recorder
