import Listing.Event.Log
import Listing.Proofs.Text.Breaks
import Listing.Proofs.Text.Utf8

namespace Listing.Event

-- A log breaks into the same lines whichever line ends it has.
theorem readLog_unifyNewlines (text : String) :
    readLog (String.ofList (Text.unifyNewlines text.toList)) = readLog text := by
  rw [readLog, String.toList_ofList, Text.splitLines_unifyNewlines]
  rfl

-- The bytes of a text read as the text does, a fault apart: that leaves nothing of what was read.
theorem readBytes_ofString (path text : String) :
    readBytes path (Text.Utf8.ofString text) =
      (.readingLog path :: (readLog text).notices,
        (readLog text).fault.elim (.ok (readLog text).events) .error) := by
  simp only [readBytes, Text.Utf8.ofString, Text.Utf8.decode_encode, readLog_unifyNewlines]
  cases (readLog text).fault with
  | some fault => rfl
  | none => rfl

end Listing.Event
