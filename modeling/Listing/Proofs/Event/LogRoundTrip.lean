import Listing.Proofs.Event.Bytes
import Listing.Proofs.Event.Returned
import Listing.Proofs.Json.RoundTrip
import Listing.Proofs.Json.Visible
import Listing.Proofs.Lists

namespace Listing.Event

open Text (IsVisible)

-- The line that an event is written as, without its end.
def written (e : Event) : List Char := e.toJson.writeAt none 0

theorem isVisible_of_mem_written {e : Event} : ∀ c ∈ e.written, IsVisible c :=
  Json.isVisible_of_mem_writeAt

-- A record is written between braces, so nothing is trimmed off its line, and the line is no
-- comment.
theorem written_eq (e : Event) : ∃ body, e.written = '{' :: (body ++ ['}']) := by
  obtain ⟨⟨k, v⟩, fields, hobj⟩ := toJson_eq_obj e
  exact ⟨_, by rw [written, hobj, Json.writeAt, List.cons_append, List.cons_append]; rfl⟩

theorem trim_written (e : Event) : Text.trim e.written = e.written := by
  obtain ⟨body, hbody⟩ := written_eq e
  rw [hbody]
  exact Text.trim_of_ends (by decide) (by decide) body

theorem isIgnored_written (e : Event) : isIgnored e.written = false := by
  obtain ⟨body, hbody⟩ := written_eq e
  rw [hbody]
  rfl

theorem ofLine_written {e : Event} (h : e.Returned) (hfree : e.toJson.isFloatFree = true)
    (number : Nat) : ofLine number e.written = .ok (.event e) := by
  obtain ⟨f, fields, hobj⟩ := toJson_eq_obj e
  have htext : Json.readText e.written = .ok e.toJson :=
    Json.readText_writeAt (h.isPlain_toJson hfree) none
  have hread := h.ofJson_toJson
  rw [hobj] at htext hread
  simp only [ofLine, htext, ofRecord, hread]

theorem readLines_written {events : List Event} (h : ∀ e ∈ events, e.Returned)
    (hfree : ∀ e ∈ events, e.toJson.isFloatFree = true) (number : Nat) :
    readLines number (events.map written) = .ofEvents events := by
  induction events generalizing number with
  | nil => rfl
  | cons e events ih =>
      have hline := ofLine_written (h e List.mem_cons_self) (hfree e List.mem_cons_self) number
      have hrest := ih (fun d hd => h d (List.mem_cons_of_mem _ hd))
        (fun d hd => hfree d (List.mem_cons_of_mem _ hd)) (number + 1)
      simp only [List.map_cons, readLines, trim_written, isIgnored_written, hline, hrest]
      rfl

-- Without events the text is still one line feed, an empty line.
theorem toList_writeLog (events : List Event) :
    (writeLog events).toList =
      if events = [] then ['\n'] else (events.map written).flatMap (· ++ ['\n']) := by
  have htext : (writeLog events).toList = ['\n'].intercalate (events.map written) ++ ['\n'] := by
    simp only [writeLog, Json.write, String.toList_append, String.toList_intercalate, List.map_map,
      Function.comp_def, String.toList_ofList]
    rfl
  rw [htext]
  cases events with
  | nil => rfl
  | cons e es => rw [if_neg (List.cons_ne_nil e es), List.map_cons, intercalate_append_self]

-- What is written for events reads back as the same events, with no fault and no notice.
theorem readLog_writeLog {events : List Event} (h : ∀ e ∈ events, e.Returned)
    (hfree : ∀ e ∈ events, e.toJson.isFloatFree = true) :
    readLog (writeLog events) = .ofEvents events := by
  have hbreak : ∀ line ∈ events.map written, ∀ c ∈ line, Text.isLineBreak c = false := by
    intro line hline
    obtain ⟨e, he, rfl⟩ := List.mem_map.mp hline
    exact Text.isLineBreak_eq_false_of_visible isVisible_of_mem_written
  rw [readLog, toList_writeLog]
  split
  · rename_i hnil
    rw [hnil]
    rfl
  · rw [Text.splitLines_flatMap hbreak, readLines_written h hfree]

theorem readBytes_writeLog {events : List Event} (h : ∀ e ∈ events, e.Returned)
    (hfree : ∀ e ∈ events, e.toJson.isFloatFree = true) (path : String) :
    readBytes path (Text.Utf8.ofString (writeLog events)) = ([.readingLog path], .ok events) := by
  rw [readBytes_ofString, readLog_writeLog h hfree, events_ofEvents, notices_ofEvents]
  rfl

-- What can be read, written and read again comes back the same, whatever the first reading
-- converted.
theorem log_roundTrip {events : List Event}
    (h : (∀ e ∈ events, e.Returned) ∨
      ∃ path bytes notices, readBytes path bytes = (notices, .ok events))
    (hfree : ∀ e ∈ events, e.toJson.isFloatFree = true) :
    readLog (writeLog events) = .ofEvents events ∧
      writeLog (readLog (writeLog events)).events = writeLog events ∧
      ∀ path, readBytes path (Text.Utf8.ofString (writeLog events)) =
        ([.readingLog path], .ok events) := by
  have hreturned : ∀ e ∈ events, e.Returned := by
    rcases h with h | ⟨path, bytes, notices, hbytes⟩
    · exact h
    · exact returned_of_mem_readBytes hbytes
  have hlog := readLog_writeLog hreturned hfree
  refine ⟨hlog, ?_, readBytes_writeLog hreturned hfree⟩
  rw [hlog, events_ofEvents]

-- A name beyond the sixteen-bit plane with a line feed in it, and an opcode that is no name.
def mixedEvents : List Event :=
  [.label (.str "😀\n") ⟨7, 0⟩,
   .instruction (.arr [.str "add", .null]) [⟨.str "imm", .int (-3), .null⟩] ⟨1, 0⟩]

theorem log_roundTrip_mixed :
    readLog (writeLog mixedEvents) = .ofEvents mixedEvents ∧
      writeLog (readLog (writeLog mixedEvents)).events = writeLog mixedEvents ∧
      ∀ path, readBytes path (Text.Utf8.ofString (writeLog mixedEvents)) =
        ([.readingLog path], .ok mixedEvents) := by
  refine log_roundTrip (.inl ?_) (by decide)
  intro e he
  simp only [mixedEvents, List.mem_cons, List.not_mem_nil, or_false] at he
  rcases he with rfl | rfl
  · exact ⟨.obj [("event", .str "label"), ("name", .str "😀\n"), ("line", .str "7")],
      by decide, rfl⟩
  · exact ⟨.obj [("event", .str "instruction"), ("opcode", .arr [.str "add", .null]),
      ("operands", .arr [.obj [("kind", .str "imm"), ("value", .int (-3))]]),
      ("line", .bool true)], by decide, rfl⟩

end Listing.Event
