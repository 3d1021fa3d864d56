import Listing.Proofs.External

namespace Listing

-- What a message adds about a complaint: a line of its own, unless the complaint is blank.
def Fault.appended (complaint : String) : String :=
  if trimmed complaint = "" then "" else "\n" ++ trimmed complaint

theorem Fault.message_parser (flaw : ParserFlaw) (complaint : String) :
    (Fault.parser flaw complaint).message = flaw.message ++ appended complaint := by
  have hmessage : (Fault.parser flaw complaint).message =
      if trimmed complaint = "" then flaw.message
      else flaw.message ++ "\n" ++ trimmed complaint := rfl
  rw [hmessage, appended]
  split
  · rw [String.append_empty]
  · rw [String.append_assoc]

theorem Fault.appended_empty : appended "" = "" := rfl

namespace External

-- What a child said on its error channel.
def said (c : Child) : String := String.ofList (Text.Utf8.decodeLenient c.complaint)

-- A child with an output that nobody looks into: it failed, or it printed what is no text.
def IsUnread (c : Child) : Prop := c.status ≠ 0 ∨ ∃ e, Text.Utf8.decode c.output = .error e

-- What is then told about it.
def unreadFlaw (c : Child) : ParserFlaw := if c.status = 0 then .notText else .failed c.status

section Complaint

variable {e : External} {launch : Launcher} {d after : Disk} {input : Text.Utf8.Bytes} {c : Child}
variable {offset : Option Int}

theorem printed_of_isUnread (h : IsUnread c) :
    printed c = .error (.parser (unreadFlaw c) (said c)) := by
  by_cases hstatus : c.status = 0
  · obtain ⟨fault, hfault⟩ := h.resolve_left (not_not_intro hstatus)
    simp [printed, unreadFlaw, said, hstatus, hfault]
  · simp [printed, unreadFlaw, said, hstatus]

theorem printed_of_not_isUnread (h : ¬IsUnread c) : ∃ text, printed c = .ok text := by
  obtain ⟨hstatus, houtput⟩ := not_or.mp h
  cases hdecode : Text.Utf8.decode c.output with
  | error fault => exact absurd ⟨fault, hdecode⟩ houtput
  | ok cs => exact ⟨String.ofList cs, by simp [printed, not_not.mp hstatus, hdecode]⟩

-- What is wrong with a tree is told without the complaint: the child is gone by then.
theorem complaint_of_load {text complaint : String} {flaw : ParserFlaw}
    (h : load offset text = .error (.parser flaw complaint)) : complaint = "" := by
  simp only [load] at h
  split at h
  · cases h; rfl
  · split at h
    · cases h; rfl
    · split at h
      · cases h
      · split at h
        all_goals cases h
        all_goals rfl
  · cases h; rfl

-- A parser that failed, or that printed what is no text, is told about with what it said on its
-- error channel. Where its output was read, what is wrong with the tree is told without it.
theorem parse_complaint (offset : Option Int) (hname : e.executable ≠ "")
    (hwords : ∀ w ∈ e.words, '\x00' ∉ w.toList)
    (hlaunch : launch d { words := e.words, input } = (after, .finished c))
    (hlimit : ∀ limit, e.limit = some limit → c.exceeds limit = .ok false) :
    ∃ result, e.parse launch d offset input = (after, [.runningParser e.words], result) ∧
      (IsUnread c → result = .error (.parser (unreadFlaw c) (said c)) ∧
        (Fault.parser (unreadFlaw c) (said c)).message =
          (unreadFlaw c).message ++ Fault.appended (said c)) ∧
      (¬IsUnread c → ∀ flaw complaint, result = .error (.parser flaw complaint) →
        complaint = "" ∧ (Fault.parser flaw complaint).message = flaw.message) := by
  rw [parse, run_finished hname hwords hlaunch hlimit]
  by_cases hunread : IsUnread c
  · rw [printed_of_isUnread hunread]
    exact ⟨_, rfl, fun _ => ⟨rfl, Fault.message_parser _ _⟩, fun h => absurd hunread h⟩
  · obtain ⟨text, htext⟩ := printed_of_not_isUnread hunread
    rw [htext]
    refine ⟨_, rfl, fun h => absurd h hunread, fun _ flaw complaint hresult => ?_⟩
    obtain rfl := complaint_of_load hresult
    exact ⟨rfl, by rw [Fault.message_parser, Fault.appended_empty, String.append_empty]⟩

end Complaint

-- A program that ends in one way, whatever it is given.
def always (c : Child) : Launcher := fun d _ => (d, .finished c)

-- A child that complains and fails, and one that complains and prints nothing.
def failing : Child := { status := 3, complaint := [98, 111, 111, 109] }

def silent : Child := { complaint := [111, 111, 112, 115] }

theorem parse_complaint_failing :
    "false" ≠ "" ∧ (∀ w ∈ ["false"], '\x00' ∉ w.toList) ∧
      ∃ result, parse { executable := "false" } (always failing) {} (some 1) [] =
        ({}, [.runningParser ["false"]], result) ∧
        (IsUnread failing → result = .error (.parser (unreadFlaw failing) (said failing)) ∧
          (Fault.parser (unreadFlaw failing) (said failing)).message =
            (unreadFlaw failing).message ++ Fault.appended (said failing)) ∧
        (¬IsUnread failing → ∀ flaw complaint, result = .error (.parser flaw complaint) →
          complaint = "" ∧ (Fault.parser flaw complaint).message = flaw.message) :=
  ⟨by decide, by decide, parse_complaint (e := { executable := "false" }) (some 1) (by decide)
    (by decide) rfl (fun _ h => by cases h)⟩

-- The second child said why it printed nothing, but the fault does not tell.
theorem parse_of_silent :
    (parse { executable := "true" } (always silent) {} (some 1) []).2.2 =
        .error (.parser (.notJson .noValue) "") ∧
      said silent = "oops" ∧
      (Fault.parser (.notJson .noValue) "").message =
        "parser output is not valid JSON: Expecting value" :=
  ⟨rfl, rfl, rfl⟩

end External
end Listing
