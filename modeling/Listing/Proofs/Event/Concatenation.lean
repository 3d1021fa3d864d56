import Listing.Proofs.Event.JsonLines
import Listing.Proofs.Text.Breaks

namespace Listing

-- A fault of a log whose lines stand further down by some lines.
def Fault.later (count : Nat) : Fault → Fault
  | .line number flaw => .line (number + count) flaw
  | f => f

namespace Event

def Entry.later (count : Nat) : Entry → Entry
  | .notice (.unknownEvent type number) => .notice (.unknownEvent type (number + count))
  | e => e

-- What a log reads as where it stands further down by some lines.
def Reading.later (count : Nat) (r : Reading) : Reading where
  entries := r.entries.map (Entry.later count)
  fault := r.fault.map (Fault.later count)

-- Only the numbers in notices and faults tell where a log stands.
theorem Reading.events_later (count : Nat) (r : Reading) : (r.later count).events = r.events := by
  unfold events later
  rw [List.filterMap_map]
  apply List.filterMap_congr
  intro e _
  cases e with
  | event e => rfl
  | notice n => cases n <;> rfl

theorem Reading.events_after (first second : Reading) :
    (second.after first.entries).events = first.events ++ second.events :=
  List.filterMap_append

section Lines

variable (number count : Nat)

theorem ofRecord_add (fields : List (String × Json)) :
    ofRecord (number + count) fields =
      match ofRecord number fields with
      | .ok entry => .ok (entry.later count)
      | .error fault => .error (fault.later count) := by
  simp only [ofRecord]
  cases ofJson (.obj fields) with
  | ok read => cases read <;> rfl
  | error m => cases hbreach : m.breach <;> simp [hbreach, Fault.later]

theorem ofLine_add (line : List Char) :
    ofLine (number + count) line =
      match ofLine number line with
      | .ok entry => .ok (entry.later count)
      | .error fault => .error (fault.later count) := by
  unfold ofLine
  cases Json.readText line with
  | error stop => rfl
  | ok v =>
      cases v with
      | obj fields => exact ofRecord_add number count fields
      | _ => rfl

-- Lines read further down as they read here, their numbers apart.
theorem readLines_add (lines : List (List Char)) :
    readLines (number + count) lines = (readLines number lines).later count := by
  induction lines generalizing number with
  | nil => rfl
  | cons line lines ih =>
      have hnext : number + count + 1 = number + 1 + count := by omega
      simp only [readLines, hnext, ih]
      by_cases hignored : isIgnored (Text.trim line) = true
      · rw [if_pos hignored, if_pos hignored]
      · rw [if_neg hignored, if_neg hignored, ofLine_add]
        cases ofLine number (Text.trim line) with
        | error fault => rfl
        | ok entry => rfl

-- Lines that read without a fault stand in front of any others.
theorem readLines_append_of_sound {lines : List (List Char)}
    (h : (readLines number lines).fault = none) (rest : List (List Char)) :
    readLines number (lines ++ rest) =
      (readLines (number + lines.length) rest).after (readLines number lines).entries := by
  induction lines generalizing number with
  | nil => rfl
  | cons line lines ih =>
      have hnext : number + (lines.length + 1) = number + 1 + lines.length := by omega
      simp only [List.cons_append, readLines, List.length_cons, hnext] at h ⊢
      by_cases hignored : isIgnored (Text.trim line) = true
      · rw [if_pos hignored] at h ⊢
        rw [if_pos hignored]
        exact ih (number + 1) h
      · rw [if_neg hignored] at h ⊢
        rw [if_neg hignored]
        cases hline : ofLine number (Text.trim line) with
        | error fault =>
            rw [hline] at h
            cases h
        | ok entry =>
            rw [hline] at h
            simp only
            rw [ih (number + 1) h]
            rfl

-- A log that ends at a line is sound before that one, and reads there as it reads as a whole.
theorem readLines_take {lines : List (List Char)} {last : Nat} {flaw : LineFlaw}
    (h : (readLines number lines).fault = some (.line last flaw)) :
    number ≤ last ∧ readLines number (lines.take (last - number)) =
      { entries := (readLines number lines).entries } := by
  induction lines generalizing number with
  | nil => cases h
  | cons line lines ih =>
      by_cases hbad : IsBad line
      · rcases readLines_cons_of_isBad hbad number lines with ⟨-, hstop⟩ | ⟨-, other, -, hstop⟩
        · rw [hstop] at h
          cases h
        · rw [hstop] at h ⊢
          cases h
          exact ⟨le_refl _, by rw [Nat.sub_self]; rfl⟩
      · rw [readLines_cons_of_not_isBad hbad] at h ⊢
        obtain ⟨hlater, htake⟩ := ih (number + 1) h
        have hcount : last - number = (last - (number + 1)) + 1 := by omega
        refine ⟨by omega, ?_⟩
        rw [hcount, List.take_succ_cons, readLines_cons_of_not_isBad hbad, htake]
        rfl

end Lines

-- A line feed behind a log's text adds nothing to it.
theorem readLines_feed (cs : List Char) :
    readLines 1 (Text.splitLines (cs ++ ['\n'])) = readLines 1 (Text.splitLines cs) := by
  rcases Text.splitLines_concat_feed cs with heq | heq
  · rw [heq]
  · rw [heq, readLines_concat_nil]

-- A log behind a sound one, on a new line, reads as it reads alone, further down by as many lines
-- as are before it.
theorem readLog_append {first : String} (h : (readLog first).fault = none) (second : String) :
    readLog (first ++ "\n" ++ second) =
      ((readLog second).later (Text.splitLines (first ++ "\n").toList).length).after
        (readLog first).entries := by
  have hfeed : "\n".toList = ['\n'] := rfl
  have hfirst : readLines 1 (Text.splitLines (first.toList ++ ['\n'])) = readLog first :=
    readLines_feed first.toList
  have hcut : (first ++ "\n" ++ second).toList = first.toList ++ '\n' :: second.toList := by
    simp [String.toList_append, hfeed]
  rw [readLog, hcut, Text.splitLines_append_feed,
    readLines_append_of_sound 1 (by rw [hfirst]; exact h), readLines_add, hfirst,
    String.toList_append, hfeed]
  rfl

end Event
end Listing
