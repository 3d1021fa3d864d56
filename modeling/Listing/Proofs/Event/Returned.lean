import Listing.Event.Log
import Listing.Proofs.Event.Record
import Listing.Proofs.Json.Distinct

namespace Listing.Event

-- What reading a record can return. In a record no key stands twice.
def Returned (e : Event) : Prop :=
  ∃ data : Json, data.hasDistinctKeys = true ∧ ofJson data = .ok (some e)

theorem Returned.ofJson_toJson {e : Event} (h : e.Returned) : ofJson e.toJson = .ok (some e) := by
  obtain ⟨data, -, hread⟩ := h
  exact Event.ofJson_toJson (checked_of_ofJson hread)

theorem Returned.isPlain_toJson {e : Event} (h : e.Returned) (hfree : e.toJson.isFloatFree = true) :
    e.toJson.IsPlain := by
  obtain ⟨data, hdata, hread⟩ := h
  exact ⟨hfree, hasDistinctKeys_toJson hdata hread⟩

theorem events_ofEvents (events : List Event) : (Reading.ofEvents events).events = events := by
  simp only [Reading.ofEvents, Reading.events, List.filterMap_map]
  exact List.filterMap_some

theorem notices_ofEvents (events : List Event) : (Reading.ofEvents events).notices = [] := by
  simp [Reading.ofEvents, Reading.notices]

theorem returned_of_ofLine {number : Nat} {line : List Char} {e : Event}
    (h : ofLine number line = .ok (.event e)) : e.Returned := by
  simp only [ofLine] at h
  split at h
  · cases h
  · rename_i fields hread
    simp only [ofRecord] at h
    split at h
    · rename_i hrecord
      cases h
      exact ⟨_, Json.hasDistinctKeys_readText hread, hrecord⟩
    · cases h
    · split at h <;> cases h
  · cases h

theorem returned_of_mem_readLines {number : Nat} {lines : List (List Char)} {e : Event}
    (h : .event e ∈ (readLines number lines).entries) : e.Returned := by
  induction lines generalizing number with
  | nil => cases h
  | cons line lines ih =>
      simp only [readLines] at h
      split at h
      · exact ih h
      · split at h
        · rename_i hline
          rcases List.mem_cons.mp h with rfl | h
          · exact returned_of_ofLine hline
          · exact ih h
        · cases h

theorem returned_of_mem_readLog {text : String} {e : Event} (h : e ∈ (readLog text).events) :
    e.Returned := by
  obtain ⟨entry, hentry, hsome⟩ := List.mem_filterMap.mp h
  cases entry with
  | event d =>
      cases hsome
      exact returned_of_mem_readLines hentry
  | notice n => cases hsome

theorem returned_of_mem_readBytes {path : String} {bytes : Text.Utf8.Bytes}
    {notices : List Notice} {events : List Event}
    (h : readBytes path bytes = (notices, .ok events)) : ∀ e ∈ events, e.Returned := by
  intro e he
  simp only [readBytes] at h
  split at h
  · cases h
  · split at h
    · cases h
    · cases h
      exact returned_of_mem_readLog he

-- A reading of a log's text, or of a log's file that was sound to its end.
def Reading.FromLog (reading : Reading) : Prop :=
  (∃ text, reading = readLog text) ∨
    ∃ path bytes notices events,
      readBytes path bytes = (notices, .ok events) ∧ reading = .ofEvents events

theorem Reading.FromLog.returned {reading : Reading} (h : reading.FromLog) :
    ∀ e ∈ reading.events, e.Returned := by
  rcases h with ⟨text, rfl⟩ | ⟨path, bytes, notices, events, hbytes, rfl⟩
  · exact fun e he => returned_of_mem_readLog he
  · rw [events_ofEvents]
    exact returned_of_mem_readBytes hbytes

end Listing.Event
