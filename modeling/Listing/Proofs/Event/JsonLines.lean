import Mathlib.Data.List.ReduceOption
import Listing.Proofs.Event.LogLines
import Listing.Proofs.Json.Locality
import Listing.Proofs.Text.Lines

namespace Listing.Event

open Text (Unbroken isBlank isLineBreak pieces joined trim trimEnd)

-- What a line of a log stands for: the event whose record it is the text of, or nothing if it is
-- blank or a comment.
inductive Means : List Char → Option Event → Prop
  | record {line : List Char} {fields : List (String × Json)} {e : Event}
    (htext : Json.readText line = .ok (.obj fields))
    (hevent : ofJson (.obj fields) = .ok (some e)) : Means line (some e)
  | skipped {line : List Char} (h : isIgnored (trim line) = true) : Means line none

-- A line that is not cut, or one of which all pieces are passed over.
def Intact (line : List Char) : Prop :=
  Unbroken line ∨ ∀ piece ∈ pieces line, isIgnored (trim piece) = true

section Characters

variable {c : Char}

theorem isBlank_of_isSpace (h : Json.isSpace c = true) : isBlank c = true := by
  simp only [Json.isSpace, Bool.or_eq_true, beq_iff_eq] at h
  rcases h with ((rfl | rfl) | rfl) | rfl <;> rfl

theorem isBlank_of_isLineBreak (h : isLineBreak c = true) : isBlank c = true := by
  simp only [isLineBreak, Bool.or_eq_true, beq_iff_eq] at h
  rcases h with ((((((((rfl | rfl) | rfl) | rfl) | rfl) | rfl) | rfl) | rfl) | rfl) | rfl <;> rfl

-- No blank goes on with a number.
theorem ends_of_isBlank (h : isBlank c = true) :
    Text.isAsciiDigit c = false ∧ c ≠ '.' ∧ c ≠ 'e' ∧ c ≠ 'E' := by
  refine ⟨Bool.eq_false_iff.mpr fun hdigit => ?_, ?_, ?_, ?_⟩
  · simp only [Text.isAsciiDigit, Bool.and_eq_true, decide_eq_true_eq] at hdigit
    have hlow : '0'.toNat ≤ c.toNat := hdigit.1
    have hhigh : c.toNat ≤ '9'.toNat := hdigit.2
    simp only [Char.reduceToNat] at hlow hhigh
    simp only [isBlank, Bool.or_eq_true, Bool.and_eq_true, decide_eq_true_eq, beq_iff_eq] at h
    omega
  all_goals
    rintro rfl
    cases h

-- Of the characters that break lines the reader of values skips two.
theorem isSpace_of_isLineBreak (h : isLineBreak c = true) (hfeed : c ≠ '\n') (hreturn : c ≠ '\r') :
    Json.isSpace c = false := by
  simp only [isLineBreak, Bool.or_eq_true, beq_iff_eq] at h
  rcases h with ((((((((rfl | rfl) | rfl) | rfl) | rfl) | rfl) | rfl) | rfl) | rfl) | rfl
  any_goals rfl
  · exact absurd rfl hfeed
  · exact absurd rfl hreturn

end Characters

section Line

variable {line : List Char} {fields : List (String × Json)}

theorem trim_brace {front : List Char} (hfront : ∀ c ∈ front, Json.isSpace c = true)
    (inner : List Char) : trim (front ++ '{' :: inner) = '{' :: trimEnd inner := by
  rw [Text.trim_append_left fun c hc => isBlank_of_isSpace (hfront c hc), Text.trim_cons rfl,
    Text.trimEnd_cons rfl]

-- A text that is cut at a character which does not come before its first brace, nor is that brace,
-- is cut behind it.
theorem cut_behind_brace {front inner before after : List Char} {c : Char}
    (hfront : ∀ d ∈ front, Json.isSpace d = true) (hspace : Json.isSpace c = false)
    (hbrace : c ≠ '{') (h : front ++ '{' :: inner = before ++ c :: after) :
    ∃ mid, before = front ++ '{' :: mid ∧ '{' :: inner = '{' :: mid ++ c :: after := by
  rcases List.append_eq_append_iff.mp h with ⟨mid, rfl, hmid⟩ | ⟨gap, rfl, hgap⟩
  · cases mid with
    | nil => exact absurd (List.cons.inj hmid).1.symm hbrace
    | cons d mid =>
        obtain ⟨rfl, -⟩ := List.cons.inj hmid
        exact ⟨mid, rfl, hmid⟩
  · cases gap with
    | nil => exact absurd (List.cons.inj hgap).1 hbrace
    | cons d gap =>
        have hd := hfront d (by simp)
        rw [← (List.cons.inj hgap).1, hspace] at hd
        cases hd

-- The blanks that are cut off around a record are not part of it.
theorem holds_of_readText (h : Json.readText line = .ok (.obj fields)) : Holds line fields := by
  obtain ⟨front, core, back, rfl, hfront, hback, ⟨body, rfl⟩, htakes⟩ := Json.braced_of_readText h
  have htrim : trim (front ++ ('{' :: (body ++ ['}']) ++ back)) = '{' :: (body ++ ['}']) := by
    rw [List.cons_append, trim_brace hfront,
      Text.trimEnd_append_right _ fun c hc => isBlank_of_isSpace (hback c hc),
      ← Text.trimEnd_cons rfl, ← Text.trim_cons rfl, Text.trim_of_ends rfl rfl]
  rw [Holds, IsPassedOver, htrim]
  exact ⟨by simp, Json.readText_of_braced ⟨body, rfl⟩ htakes⟩

-- A record that is cut begins with a piece that is no value.
theorem broken_record (h : Json.readText line = .ok (.obj fields))
    (hclean : '\n' ∉ line ∧ '\r' ∉ line) (hbroken : ¬Unbroken line) :
    ∃ first rest stop, pieces line = first :: rest ∧ isIgnored (trim first) = false ∧
      Json.readText (trim first) = .error stop := by
  obtain ⟨before, rest, hcut, hbefore, hrest⟩ :=
    exists_first (P := fun c => isLineBreak c = true) line
  have hunbroken : Unbroken before := fun c hc => Bool.eq_false_iff.mpr (hbefore c hc)
  rcases hrest with rfl | ⟨c, after, rfl, hbreak⟩
  · rw [hcut, List.append_nil] at hbroken
    exact absurd hunbroken hbroken
  have hc : c ∈ line := by simp [hcut]
  have hspace : Json.isSpace c = false :=
    isSpace_of_isLineBreak hbreak (fun heq => hclean.1 (heq ▸ hc)) fun heq => hclean.2 (heq ▸ hc)
  have hbrace : c ≠ '{' := by
    rintro rfl
    cases hbreak
  obtain ⟨front, core, back, hline, hfront, hback, ⟨body, rfl⟩, htakes⟩ :=
    Json.braced_of_readText h
  rw [List.cons_append] at hline
  obtain ⟨mid, rfl, hmid⟩ := cut_behind_brace hfront hspace hbrace (hline.symm.trans hcut)
  obtain ⟨blanks, hblanks, hblank⟩ := Text.trimEnd_append_blanks mid
  have htrim := trim_brace hfront mid
  have hmore : Json.EndsNumber (blanks ++ c :: after) :=
    Json.head?_append (fun d hd => ends_of_isBlank (hblank d (List.mem_of_mem_head? hd)))
      (Json.endsNumber_cons (ends_of_isBlank (isBlank_of_isLineBreak hbreak)))
  have hcore : '{' :: (body ++ ['}']) ++ back = '{' :: trimEnd mid ++ (blanks ++ c :: after) := by
    rw [List.cons_append, hmid, List.cons_append, List.cons_append, ← List.append_assoc, ← hblanks]
  obtain ⟨stop, hstop⟩ := Json.readText_cut htakes hback hcore hmore (c := c) (by simp) hspace
  refine ⟨_, pieces after, stop, ?_, by rw [htrim]; rfl, by rw [htrim, hstop]⟩
  rw [hcut]
  exact List.splitOnP_append_cons_of_forall_mem hunbroken c hbreak after

theorem Means.unbroken {e : Event} (h : Means line (some e)) (hclean : '\n' ∉ line ∧ '\r' ∉ line)
    (hfirst : ∀ piece ∈ pieces line, isIgnored (trim piece) = false →
      ∃ v, Json.readText (trim piece) = .ok v) : Unbroken line := by
  cases h with
  | record htext hevent =>
      by_contra hbroken
      obtain ⟨first, rest, stop, hpieces, hrecord, hstop⟩ := broken_record htext hclean hbroken
      obtain ⟨v, hv⟩ := hfirst first (by rw [hpieces]; exact List.mem_cons_self) hrecord
      rw [hstop] at hv
      cases hv

end Line

-- What is passed over adds nothing to a reading.
theorem readLines_ignored {ignored : List (List Char)}
    (h : ∀ piece ∈ ignored, isIgnored (trim piece) = true) (number : Nat)
    (rest : List (List Char)) :
    readLines number (ignored ++ rest) = readLines (number + ignored.length) rest := by
  induction ignored generalizing number with
  | nil => rfl
  | cons piece ignored ih =>
      obtain ⟨hpiece, hignored⟩ := List.forall_mem_cons.mp h
      rw [List.cons_append, readLines]
      simp only [hpiece, if_true]
      rw [ih hignored, List.length_cons, Nat.add_assoc, Nat.add_comm 1]

theorem readLines_concat_nil (number : Nat) (lines : List (List Char)) :
    readLines number (lines ++ [[]]) = readLines number lines := by
  induction lines generalizing number with
  | nil => rfl
  | cons line lines ih => simp only [List.cons_append, readLines, ih]

-- A reading without a fault has an entry for each line that is not passed over.
theorem readLines_sound {lines : List (List Char)} {number : Nat}
    (h : (readLines number lines).fault = none) :
    (readLines number lines).entries.length =
        lines.countP (fun line => !isIgnored (trim line)) ∧
      ∀ line ∈ lines, isIgnored (trim line) = false → ∃ v, Json.readText (trim line) = .ok v := by
  induction lines generalizing number with
  | nil => exact ⟨rfl, by simp⟩
  | cons line lines ih =>
      simp only [readLines] at h ⊢
      split at h
      · rename_i hignored
        obtain ⟨hlength, hvalues⟩ := ih h
        rw [if_pos hignored]
        refine ⟨by simp [hlength, hignored], ?_⟩
        exact List.forall_mem_cons.mpr ⟨fun hrecord => by simp [hignored] at hrecord, hvalues⟩
      · rename_i hrecord
        rw [if_neg hrecord]
        cases hline : ofLine number (trim line) with
        | error fault =>
            rw [hline] at h
            cases h
        | ok entry =>
            rw [hline] at h
            obtain ⟨hlength, hvalues⟩ := ih h
            refine ⟨by simp [Reading.cons, hlength, hrecord], ?_⟩
            refine List.forall_mem_cons.mpr ⟨fun _ => ?_, hvalues⟩
            cases htext : Json.readText (trim line) with
            | ok v => exact ⟨v, rfl⟩
            | error stop => simp [ofLine, htext] at hline

section Log

variable {lines : List (List Char)} {meant : List (Option Event)}

theorem Means.holds {line : List Char} {e : Event} (h : Means line (some e)) :
    ∃ fields, Holds line fields ∧ ofJson (.obj fields) = .ok (some e) := by
  cases h with
  | record htext hevent => exact ⟨_, holds_of_readText htext, hevent⟩

-- The pieces of a line that is passed over are passed over if it is intact.
theorem Intact.ignored {line : List Char} (h : Intact line) (hline : isIgnored (trim line) = true) :
    ∀ piece ∈ pieces line, isIgnored (trim piece) = true := by
  rcases h with hunbroken | hpieces
  · rw [Text.pieces_of_unbroken hunbroken]
    simpa using hline
  · exact hpieces

theorem Intact.unbroken {line : List Char} {e : Event} (h : Intact line)
    (hline : Means line (some e)) (hclean : '\n' ∉ line ∧ '\r' ∉ line) : Unbroken line := by
  rcases h with hunbroken | hpieces
  · exact hunbroken
  · refine hline.unbroken hclean fun piece hpiece hrecord => ?_
    rw [hpieces piece hpiece] at hrecord
    cases hrecord

-- Lines that are intact add the events that they stand for, whatever comes after them.
theorem readLines_intact (hmeant : List.Forall₂ Means lines meant)
    (hclean : ∀ line ∈ lines, '\n' ∉ line ∧ '\r' ∉ line) (hintact : ∀ line ∈ lines, Intact line)
    (number : Nat) (rest : List (List Char)) :
    readLines number (lines.flatMap pieces ++ rest) =
      (readLines (number + (lines.flatMap pieces).length) rest).after
        (meant.reduceOption.map .event) := by
  induction hmeant generalizing number with
  | nil => rfl
  | @cons line m lines meant hline hmeant ih =>
      obtain ⟨hcleanLine, hclean⟩ := List.forall_mem_cons.mp hclean
      obtain ⟨hintactLine, hintact⟩ := List.forall_mem_cons.mp hintact
      have ih := ih hclean hintact
      rw [List.flatMap_cons, List.append_assoc, List.length_append, ← Nat.add_assoc]
      cases m with
      | none =>
          cases hline with
          | skipped hignored =>
              rw [readLines_ignored (hintactLine.ignored hignored), ih]
              rfl
      | some e =>
          obtain ⟨fields, hfields, hevent⟩ := hline.holds
          have hunbroken := hintactLine.unbroken hline hcleanLine
          rw [Text.pieces_of_unbroken hunbroken, List.singleton_append, readLines]
          simp only [isIgnored_trim_eq_false hfields.1, Bool.false_eq_true, if_false, ofLine,
            hfields.2, ofRecord, hevent, ih]
          rfl

-- No reading has fewer entries than there are records, and one with as many passes over
-- everything else.
theorem intact_of_count (hmeant : List.Forall₂ Means lines meant)
    (hclean : ∀ line ∈ lines, '\n' ∉ line ∧ '\r' ∉ line)
    (hvalues : ∀ piece ∈ lines.flatMap pieces, isIgnored (trim piece) = false →
      ∃ v, Json.readText (trim piece) = .ok v) :
    meant.reduceOption.length ≤
        (lines.flatMap pieces).countP (fun piece => !isIgnored (trim piece)) ∧
      ((lines.flatMap pieces).countP (fun piece => !isIgnored (trim piece)) ≤
        meant.reduceOption.length → ∀ line ∈ lines, Intact line) := by
  induction hmeant with
  | nil => simp
  | @cons line m lines meant hline hmeant ih =>
      obtain ⟨hcleanLine, hclean⟩ := List.forall_mem_cons.mp hclean
      rw [List.flatMap_cons] at hvalues
      obtain ⟨hvaluesLine, hvalues⟩ := List.forall_mem_append.mp hvalues
      obtain ⟨hle, hintact⟩ := ih hclean hvalues
      rw [List.flatMap_cons, List.countP_append]
      cases m with
      | none =>
          rw [List.reduceOption_cons_of_none]
          refine ⟨by omega, fun hcount => ?_⟩
          have hnone : (pieces line).countP (fun piece => !isIgnored (trim piece)) = 0 := by omega
          refine List.forall_mem_cons.mpr ⟨.inr fun piece hpiece => ?_, hintact (by omega)⟩
          simpa using List.countP_eq_zero.mp hnone piece hpiece
      | some e =>
          have hunbroken := hline.unbroken hcleanLine hvaluesLine
          obtain ⟨fields, hfields, -⟩ := hline.holds
          have hone : (pieces line).countP (fun piece => !isIgnored (trim piece)) = 1 := by
            simp [Text.pieces_of_unbroken hunbroken, isIgnored_trim_eq_false hfields.1]
          rw [hone, List.reduceOption_cons_of_some, List.length_cons]
          refine ⟨by omega, fun hcount => ?_⟩
          exact List.forall_mem_cons.mpr ⟨.inl hunbroken, hintact (by omega)⟩

-- A log is read in pieces.
theorem readLog_pieces (h : ∀ line ∈ lines, '\r' ∉ line) :
    readLog (String.ofList (joined lines)) = readLines 1 (lines.flatMap pieces) := by
  rw [readLog, String.toList_ofList]
  cases lines with
  | nil => rfl
  | cons line lines =>
      rw [← Text.pieces_joined (List.cons_ne_nil line lines)]
      rcases Text.pieces_eq_splitLines (Text.notMem_joined (by decide) h) with heq | heq
      · rw [heq]
      · rw [heq, readLines_concat_nil]

end Log

-- The number that the reader gives to the line behind some lines: it counts the breaks before it,
-- those inside the lines as well as their ends.
def numberBehind (lines : List (List Char)) : Nat :=
  (lines.flatMap fun line => line ++ ['\n']).countP isLineBreak + 1

section Joined

variable {lines : List (List Char)} {meant : List (Option Event)}
  (hmeant : List.Forall₂ Means lines meant) (hclean : ∀ line ∈ lines, '\n' ∉ line ∧ '\r' ∉ line)

include hmeant hclean

theorem readLog_joined_iff :
    readLog (String.ofList (joined lines)) = .ofEvents meant.reduceOption ↔
      ∀ line ∈ lines, Intact line := by
  rw [readLog_pieces fun line hline => (hclean line hline).2]
  constructor
  · intro hread
    obtain ⟨hlength, hvalues⟩ := readLines_sound (by rw [hread]; rfl)
    rw [hread, Reading.ofEvents, List.length_map] at hlength
    exact (intact_of_count hmeant hclean hvalues).2 hlength.ge
  · intro hintact
    have hread := readLines_intact hmeant hclean hintact 1 []
    rw [List.append_nil] at hread
    simp [hread, Reading.after, Reading.ofEvents, readLines]

-- The reading ends at a line that begins with what is no value.
theorem readLog_joined_bad {bad first : List Char} {more rest : List (List Char)} {stop : Json.Stop}
    (hintact : ∀ line ∈ lines, Intact line) (hpieces : pieces bad = first :: more)
    (hrecord : isIgnored (trim first) = false) (hstop : Json.readText (trim first) = .error stop)
    (hrest : ∀ line ∈ bad :: rest, '\r' ∉ line) :
    readLog (String.ofList (joined (lines ++ bad :: rest))) =
      { entries := meant.reduceOption.map .event,
        fault := some (.line (numberBehind lines) (.notJson stop.flaw)) } := by
  have hreturn : ∀ line ∈ lines ++ bad :: rest, '\r' ∉ line :=
    List.forall_mem_append.mpr ⟨fun line hline => (hclean line hline).2, hrest⟩
  rw [readLog_pieces hreturn, List.flatMap_append, readLines_intact hmeant hclean hintact,
    Text.length_flatMap_pieces, List.flatMap_cons, hpieces, List.cons_append, readLines]
  simp [hrecord, ofLine, hstop, Reading.after, numberBehind, Nat.add_comm]

end Joined

-- Records, one on each line, with blank lines and comments between them, are read as what they
-- are if and only if each line is intact. Behind such lines a line that is not JSON has its own
-- number if nothing before it was cut, and a record that is cut is not JSON.
theorem readLog_joined {lines : List (List Char)} {meant : List (Option Event)}
    (hmeant : List.Forall₂ Means lines meant)
    (hclean : ∀ line ∈ lines, '\n' ∉ line ∧ '\r' ∉ line) :
    (readLog (String.ofList (joined lines)) = .ofEvents meant.reduceOption ↔
      ∀ line ∈ lines, Intact line) ∧
    ((∀ line ∈ lines, Intact line) → ∀ bad rest, (∀ line ∈ rest, '\r' ∉ line) →
      (∀ stop, isIgnored (trim bad) = false → Json.readText (trim bad) = .error stop →
        Unbroken bad →
        readLog (String.ofList (joined (lines ++ bad :: rest))) =
          { entries := meant.reduceOption.map .event,
            fault := some (.line (numberBehind lines) (.notJson stop.flaw)) }) ∧
      ∀ e, Means bad (some e) → '\n' ∉ bad ∧ '\r' ∉ bad → ¬Unbroken bad →
        ∃ flaw, readLog (String.ofList (joined (lines ++ bad :: rest))) =
          { entries := meant.reduceOption.map .event,
            fault := some (.line (numberBehind lines) (.notJson flaw)) }) := by
  refine ⟨readLog_joined_iff hmeant hclean, fun hintact bad rest hrest => ⟨?_, ?_⟩⟩
  · intro stop hrecord hstop hunbroken
    have hreturn : '\r' ∉ bad := fun hmem => by simpa [isLineBreak] using hunbroken _ hmem
    exact readLog_joined_bad hmeant hclean hintact (Text.pieces_of_unbroken hunbroken) hrecord
      hstop (List.forall_mem_cons.mpr ⟨hreturn, hrest⟩)
  · intro e hmeans hbad hbroken
    cases hmeans with
    | record htext hevent =>
        obtain ⟨first, more, stop, hpieces, hrecord, hstop⟩ := broken_record htext hbad hbroken
        exact ⟨stop.flaw, readLog_joined_bad hmeant hclean hintact hpieces hrecord hstop
          (List.forall_mem_cons.mpr ⟨hbad.2, hrest⟩)⟩

-- A name beyond ASCII, a comment that is cut into comments, and space around a record.
def plainLines : List (List Char) :=
  ["\x7b\"event\": \"label\", \"name\": \"é\"\x7d".toList, "# a\x0b# b".toList, [],
    "\t\x7b\"event\":\"label\",\"name\":\"c\",\"line\":2\x7d ".toList]

def plainMeant : List (Option Event) :=
  [some (.label (.str "é") ⟨0, 0⟩), none, none, some (.label (.str "c") ⟨2, 0⟩)]

theorem readLog_joined_plain :
    List.Forall₂ Means plainLines plainMeant ∧
      (∀ line ∈ plainLines, '\n' ∉ line ∧ '\r' ∉ line) ∧
      readLog (String.ofList (joined plainLines)) =
        .ofEvents [.label (.str "é") ⟨0, 0⟩, .label (.str "c") ⟨2, 0⟩] ∧
      (readLog (String.ofList (joined (plainLines ++ ["\x7b".toList, "d".toList])))).fault =
        some (.line 6 (.notJson .noPropertyName)) := by
  have hfirst : Json.readText "\x7b\"event\": \"label\", \"name\": \"é\"\x7d".toList =
      .ok (.obj [("event", .str "label"), ("name", .str "é")]) := by decide +kernel
  have hlast : Json.readText "\t\x7b\"event\":\"label\",\"name\":\"c\",\"line\":2\x7d ".toList =
      .ok (.obj [("event", .str "label"), ("name", .str "c"), ("line", .int 2)]) := by
    decide +kernel
  have hmeant : List.Forall₂ Means plainLines plainMeant :=
    .cons (.record hfirst rfl) (.cons (.skipped (by decide))
      (.cons (.skipped (by decide)) (.cons (.record hlast rfl) .nil)))
  have hclean : ∀ line ∈ plainLines, '\n' ∉ line ∧ '\r' ∉ line := by decide
  have hintact : ∀ line ∈ plainLines, Intact line := by
    simp only [plainLines, List.forall_mem_cons]
    exact ⟨.inl (by decide), .inr (by decide), .inl (by decide), .inl (by decide), by simp⟩
  obtain ⟨hread, hbad⟩ := readLog_joined hmeant hclean
  refine ⟨hmeant, hclean, hread.mpr hintact, ?_⟩
  rw [(hbad hintact "\x7b".toList ["d".toList] (by decide)).1
    ⟨.noPropertyName, []⟩ (by decide) (by decide +kernel) (by decide)]
  rfl

-- A separator of lines stands in a text as any other character.
def separatorLine : List Char := "\x7b\"event\": \"label\", \"name\": \"a\u2028b\"\x7d".toList

theorem readLog_separator :
    Means separatorLine (some (.label (.str "a\u2028b") ⟨0, 0⟩)) ∧ '\n' ∉ separatorLine ∧
      '\r' ∉ separatorLine ∧
      readLog (String.ofList (joined [separatorLine])) ≠
        .ofEvents [.label (.str "a\u2028b") ⟨0, 0⟩] := by
  have htext : Json.readText separatorLine =
      .ok (.obj [("event", .str "label"), ("name", .str "a\u2028b")]) := by decide +kernel
  exact ⟨.record htext rfl, by decide, by decide, by decide +kernel⟩

end Listing.Event
