import Listing.Event.Log
import Listing.Proofs.Event.Refusal
import Listing.Proofs.Lists

namespace Listing.Event

-- A line that is passed over. Between the blanks around it there is nothing, or a comment.
def IsPassedOver (line : List Char) : Prop :=
  Text.trim line = [] ∨ ∃ comment, Text.trim line = '#' :: comment

theorem isIgnored_trim (line : List Char) :
    isIgnored (Text.trim line) = true ↔ IsPassedOver line := by
  rw [IsPassedOver]
  cases Text.trim line with
  | nil => simp [isIgnored]
  | cons c cs => simp [isIgnored]

instance (line : List Char) : Decidable (IsPassedOver line) :=
  decidable_of_iff _ (isIgnored_trim line)

theorem isIgnored_trim_eq_false {line : List Char} (h : ¬IsPassedOver line) :
    isIgnored (Text.trim line) = false :=
  Bool.eq_false_iff.mpr fun hignored => h ((isIgnored_trim line).mp hignored)

-- A line that is not passed over and holds a record.
def Holds (line : List Char) (fields : List (String × Json)) : Prop :=
  ¬IsPassedOver line ∧ Json.readText (Text.trim line) = .ok (.obj fields)

-- A line that is not passed over and holds nothing that can be read as a record.
def IsBad (line : List Char) : Prop :=
  ¬IsPassedOver line ∧ ∀ fields, Holds line fields → ∃ m, ofJson (.obj fields) = .error m

-- A line with a record whose conversion comes to an infinite number.
def Overflows (line : List Char) : Prop := ∃ fields, Holds line fields ∧ ReachesInfinity fields

-- What is wrong with a line.
inductive HasFlaw (line : List Char) : LineFlaw → Prop
  | notJson {stop : Json.Stop} (h : Json.readText (Text.trim line) = .error stop) :
    HasFlaw line (.notJson stop.flaw)
  | notAnObject {v : Json} (h : Json.readText (Text.trim line) = .ok v)
    (hv : ∀ fields, v ≠ .obj fields) : HasFlaw line .notAnObject
  | malformed {fields : List (String × Json)} {m : Misfit} (h : Holds line fields)
    (hm : ofJson (.obj fields) = .error m) :
    HasFlaw line (.malformed ((Json.lookup "event" fields).getD (.str "?")) m)

-- What a line that is not bad adds to a reading: nothing if it is passed over, and otherwise the
-- event of its record or, if that has no known type, a notice that names the line.
def entryOn (number : Nat) (line : List Char) : Option Entry :=
  if IsPassedOver line then none
  else
    match Json.readText (Text.trim line) with
    | .ok (.obj fields) =>
      if form? (typeOf fields) = none then
        some (.notice (.unknownEvent (typeOf fields) number))
      else (ofJson (.obj fields)).toOption.join.map .event
    | _ => none

-- A reading with entries before it.
def Reading.after (entries : List Entry) (r : Reading) : Reading :=
  { r with entries := entries ++ r.entries }

theorem Reading.after_after (first second : List Entry) (r : Reading) :
    (r.after second).after first = r.after (first ++ second) := by
  simp only [after, List.append_assoc]

section Line

variable {line : List Char}

-- A line that is not bad is passed over, or its record is accepted.
theorem ignored_or_holds_of_not_isBad (h : ¬IsBad line) :
    IsPassedOver line ∨
      ∃ fields read, Holds line fields ∧ ofJson (.obj fields) = .ok read := by
  by_contra hnot
  obtain ⟨hrecord, hnone⟩ := not_or.mp hnot
  refine h ⟨hrecord, fun fields hfields => ?_⟩
  cases hread : ofJson (.obj fields) with
  | error m => exact ⟨m, rfl⟩
  | ok read => exact absurd ⟨fields, read, hfields, hread⟩ hnone

theorem readLines_cons_of_not_isBad (h : ¬IsBad line) (number : Nat) (lines : List (List Char)) :
    readLines number (line :: lines) =
      (readLines (number + 1) lines).after (entryOn number line).toList := by
  rcases ignored_or_holds_of_not_isBad h with hignored | ⟨fields, read, hfields, hread⟩
  · simp only [readLines, entryOn, (isIgnored_trim line).mpr hignored, hignored, if_true]
    rfl
  · have hunknown : ofJson (.obj fields) = .ok none ↔ form? (typeOf fields) = none := ofJson_eq_none
    simp only [readLines, ofLine, ofRecord, entryOn, isIgnored_trim_eq_false hfields.1, hfields.1,
      hfields.2, hread, ← hunknown]
    cases read with
    | none => rfl
    | some e => rfl

-- A record that is refused stops the reading with a fault that names the line, unless its
-- conversion comes to an infinite number.
theorem ofRecord_error {fields : List (String × Json)} {m : Misfit} (number : Nat)
    (h : ofJson (.obj fields) = .error m) :
    ReachesInfinity fields ∧ ofRecord number fields = .error (.misfit .infinityToInteger) ∨
      ¬ReachesInfinity fields ∧ ofRecord number fields =
        .error (.line number (.malformed ((Json.lookup "event" fields).getD (.str "?")) m)) := by
  rw [← ofJson_eq_infinity, h]
  rcases ofJson_failsOnly m h with hflaw | rfl
  · right
    refine ⟨fun heq => Misfit.not_isFlaw_infinity (Except.error.inj heq ▸ hflaw), ?_⟩
    simp only [ofRecord, h]
    rcases hflaw with hb | hb | hb
    · simp only [hb]
    · simp only [hb]
    · simp only [hb]
  · left
    refine ⟨rfl, ?_⟩
    simp only [ofRecord, h]
    rfl

theorem Holds.overflows_iff {fields : List (String × Json)} (h : Holds line fields) :
    Overflows line ↔ ReachesInfinity fields := by
  refine ⟨?_, fun hinfinity => ⟨fields, h, hinfinity⟩⟩
  rintro ⟨others, hothers, hinfinity⟩
  have hsame : Json.obj others = .obj fields := Except.ok.inj (hothers.2.symm.trans h.2)
  exact Json.obj.inj hsame ▸ hinfinity

theorem ofLine_of_isBad (h : IsBad line) (number : Nat) :
    Overflows line ∧ ofLine number (Text.trim line) = .error (.misfit .infinityToInteger) ∨
      ¬Overflows line ∧ ∃ flaw, HasFlaw line flaw ∧
        ofLine number (Text.trim line) = .error (.line number flaw) := by
  have hnot : (∀ fields, Json.readText (Text.trim line) ≠ .ok (.obj fields)) → ¬Overflows line :=
    fun hother ⟨fields, hfields, _⟩ => hother fields hfields.2
  cases htext : Json.readText (Text.trim line) with
  | error stop =>
      refine .inr ⟨hnot (by simp [htext]), _, .notJson htext, ?_⟩
      simp only [ofLine, htext]
  | ok v =>
      cases v with
      | obj fields =>
          have hfields : Holds line fields := ⟨h.1, htext⟩
          obtain ⟨m, hm⟩ := h.2 fields hfields
          simp only [hfields.overflows_iff, ofLine, htext]
          rcases ofRecord_error number hm with hstop | ⟨hfinite, hstop⟩
          · exact .inl hstop
          · exact .inr ⟨hfinite, _, .malformed hfields hm, hstop⟩
      | _ =>
          refine .inr ⟨hnot (by simp [htext]), _, .notAnObject htext (by simp), ?_⟩
          simp only [ofLine, htext]

end Line

section Lines

variable {good : List (List Char)}

-- Lines that are not bad add what each of them adds, by its number, whatever comes after them.
theorem readLines_append (hgood : ∀ line ∈ good, ¬IsBad line) (number : Nat)
    (rest : List (List Char)) :
    readLines number (good ++ rest) =
      (readLines (number + good.length) rest).after
        ((good.zipIdx number).filterMap fun l => entryOn l.2 l.1) := by
  induction good generalizing number with
  | nil => rfl
  | cons line good ih =>
      obtain ⟨hline, hgood⟩ := List.forall_mem_cons.mp hgood
      rw [List.cons_append, readLines_cons_of_not_isBad hline, ih hgood, Reading.after_after,
        List.zipIdx_cons, List.filterMap_cons, List.length_cons, Nat.add_right_comm, Nat.add_assoc]
      cases entryOn number line with
      | none => rfl
      | some entry => rfl

theorem readLines_cons_of_isBad {bad : List Char} (h : IsBad bad) (number : Nat)
    (lines : List (List Char)) :
    Overflows bad ∧
        readLines number (bad :: lines) = { fault := some (.misfit .infinityToInteger) } ∨
      ¬Overflows bad ∧ ∃ flaw, HasFlaw bad flaw ∧
        readLines number (bad :: lines) = { fault := some (.line number flaw) } := by
  simp only [readLines, isIgnored_trim_eq_false h.1, Bool.false_eq_true, if_false]
  rcases ofLine_of_isBad h number with ⟨hover, hline⟩ | ⟨hover, flaw, hflaw, hline⟩
  · exact .inl ⟨hover, by rw [hline]⟩
  · exact .inr ⟨hover, flaw, hflaw, by rw [hline]⟩

-- Whatever stands in a log, what ends its reading is a line or an infinite number.
theorem fault_readLines (number : Nat) (lines : List (List Char)) :
    (readLines number lines).fault = none ∨
      (∃ k flaw, (readLines number lines).fault = some (.line k flaw)) ∨
      (readLines number lines).fault = some (.misfit .infinityToInteger) := by
  induction lines generalizing number with
  | nil => exact .inl rfl
  | cons line lines ih =>
      by_cases h : IsBad line
      · rcases readLines_cons_of_isBad h number lines with ⟨-, hstop⟩ | ⟨-, flaw, -, hstop⟩
        · exact .inr (.inr (by rw [hstop]))
        · exact .inr (.inl ⟨number, flaw, by rw [hstop]⟩)
      · rw [readLines_cons_of_not_isBad h]
        exact ih (number + 1)

end Lines

-- A log is read line by line up to its first bad line, whose number the fault carries. Lines that
-- are passed over count, and a bad line is named unless its record comes to an infinite number.
theorem readLog_stops (text : String) :
    ∃ good rest, Text.splitLines text.toList = good ++ rest ∧ (∀ line ∈ good, ¬IsBad line) ∧
      (readLog text).entries = (good.zipIdx 1).filterMap (fun l => entryOn l.2 l.1) ∧
      (rest = [] ∧ (readLog text).fault = none ∨
        ∃ bad lines, rest = bad :: lines ∧ IsBad bad ∧
          (Overflows bad ∧ (readLog text).fault = some (.misfit .infinityToInteger) ∨
            ¬Overflows bad ∧ ∃ flaw fault, HasFlaw bad flaw ∧ (readLog text).fault = some fault ∧
              fault = .line (good.length + 1) flaw ∧
              fault.message = s!"line {good.length + 1}: {flaw.message}")) := by
  obtain ⟨good, rest, hlines, hgood, hrest⟩ :=
    exists_first (P := IsBad) (Text.splitLines text.toList)
  refine ⟨good, rest, hlines, hgood, ?_⟩
  have hread : readLog text = (readLines (good.length + 1) rest).after
      ((good.zipIdx 1).filterMap fun l => entryOn l.2 l.1) := by
    rw [readLog, hlines, readLines_append hgood, Nat.add_comm]
  rw [hread]
  rcases hrest with rfl | ⟨bad, lines, rfl, hbad⟩
  · exact ⟨List.append_nil _, .inl ⟨rfl, rfl⟩⟩
  · rcases readLines_cons_of_isBad hbad (good.length + 1) lines with
      ⟨hover, hstop⟩ | ⟨hover, flaw, hflaw, hstop⟩
    · rw [hstop]
      exact ⟨List.append_nil _, .inr ⟨bad, lines, rfl, hbad, .inl ⟨hover, rfl⟩⟩⟩
    · rw [hstop]
      exact ⟨List.append_nil _, .inr ⟨bad, lines, rfl, hbad, .inr
        ⟨hover, flaw, _, hflaw, rfl, rfl, rfl⟩⟩⟩

end Listing.Event
