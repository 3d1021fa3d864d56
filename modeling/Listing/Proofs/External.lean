import Listing.External
import Listing.Proofs.Json.RoundTrip
import Listing.Proofs.Json.Visible
import Listing.Proofs.Stream.Refusal
import Listing.Proofs.Text.Utf8

namespace Listing.External

section Load

variable {offset : Int} {text : String} {m : Misfit}

-- Texts whose tree holds instructions that are refused for a reason that is no flaw.
def Escapes (offset : Int) (m : Misfit) (text : String) : Prop :=
  ∃ fields held, Json.read text.toList = .ok (.obj fields) ∧
    Json.lookup "instructions" fields = some held ∧ Stream.Escapes offset m held

-- A tree that holds instructions is the parser's fault only as far as what is wrong is a flaw.
theorem load_held {fields : List (String × Json)} {held : Json}
    (htext : Json.read text.toList = .ok (.obj fields))
    (hheld : Json.lookup "instructions" fields = some held) :
    load (some offset) text =
      match Stream.ofJson offset (.obj fields) with
      | .ok s => .ok s
      | .error m => .error (if m.IsFlaw then .parser (.malformed m) "" else .misfit m) := by
  simp only [load, htext, hheld, Option.elim]
  cases Stream.ofJson offset (.obj fields) with
  | ok s => rfl
  | error m => cases hb : m.breach <;> simp [Misfit.IsFlaw, hb]

theorem load_of_escapes (h : Escapes offset m text) :
    load (some offset) text = .error (.misfit m) := by
  obtain ⟨fields, held, htext, hheld, hescapes⟩ := h
  have hm := hescapes.not_isFlaw
  have hread : Stream.ofJson offset (.obj fields) = .error m :=
    (Stream.ofJson_eq_error hm).mpr (by rwa [hheld])
  rw [load_held htext hheld, hread]
  simp only [hm, if_false]

theorem load_of_not_escapes (h : ∀ m, ¬Escapes offset m text) :
    (∃ s, load (some offset) text = .ok s) ∨
      ∃ flaw, load (some offset) text = .error (.parser flaw "") := by
  cases htext : Json.read text.toList with
  | error e =>
      right
      simp [load, htext]
  | ok v =>
      cases v with
      | obj fields =>
          cases hheld : Json.lookup "instructions" fields with
          | none =>
              right
              simp [load, htext, hheld]
          | some held =>
              rw [load_held htext hheld]
              cases hread : Stream.ofJson offset (.obj fields) with
              | ok s => exact .inl ⟨s, rfl⟩
              | error m =>
                  have hm : m.IsFlaw := Decidable.byContradiction fun hm =>
                    h m ⟨fields, held, htext, hheld, by
                      simpa [hheld] using (Stream.ofJson_eq_error hm).mp hread⟩
                  exact .inr ⟨.malformed m, by simp only [hm, if_true]⟩
      | _ =>
          right
          simp [load, htext]

end Load

section Parse

variable {e : External} {launch : Launcher} {d after : Disk} {input : Text.Utf8.Bytes} {c : Child}

-- A child whose output is one of those texts.
def Strays (offset : Int) (m : Misfit) (c : Child) : Prop :=
  c.status = 0 ∧ ∃ cs, Text.Utf8.decode c.output = .ok cs ∧ Escapes offset m (String.ofList cs)

theorem printed_cases (c : Child) :
    (∃ flaw complaint, printed c = .error (.parser flaw complaint) ∧
        ∀ offset m, ¬Strays offset m c) ∨
      ∃ cs, c.status = 0 ∧ Text.Utf8.decode c.output = .ok cs ∧
        printed c = .ok (String.ofList cs) := by
  by_cases hstatus : c.status = 0
  · cases houtput : Text.Utf8.decode c.output with
    | error e =>
        refine .inl ⟨.notText, _, by simp only [printed, hstatus, houtput]; rfl, ?_⟩
        rintro offset m ⟨-, cs, hcs, -⟩
        simp [houtput] at hcs
    | ok cs => exact .inr ⟨cs, hstatus, rfl, by simp [printed, hstatus, houtput]⟩
  · exact .inl ⟨_, _, if_pos hstatus, fun _ _ h => hstatus h.1⟩

-- A program that can be started gives what its child printed, if the child ends in time.
theorem run_finished (hname : e.executable ≠ "") (hwords : ∀ w ∈ e.words, '\x00' ∉ w.toList)
    (hlaunch : launch d { words := e.words, input } = (after, .finished c))
    (hlimit : ∀ limit, e.limit = some limit → c.exceeds limit = .ok false) :
    e.run launch d input = (after, [.runningParser e.words], printed c) := by
  have hfinish : e.finish c = printed c := by
    rw [finish]
    split
    · rfl
    · rename_i limit hsome
      rw [hlimit limit hsome]
  have hnull : e.words.any (·.toList.contains '\x00') = false :=
    List.any_eq_false.mpr fun w hw => by simpa using hwords w hw
  simp only [run, hname, hnull, hlaunch, hfinish]
  rfl

-- A child that ends in time gives a stream or a failure of the parser, unless an operand that it
-- prints is no object or one of its integers is infinite. Then the reader's fault passes through.
theorem parse_finished (offset : Int) (hname : e.executable ≠ "")
    (hwords : ∀ w ∈ e.words, '\x00' ∉ w.toList)
    (hlaunch : launch d { words := e.words, input } = (after, .finished c))
    (hlimit : ∀ limit, e.limit = some limit → c.exceeds limit = .ok false) :
    ∃ result, e.parse launch d (some offset) input = (after, [.runningParser e.words], result) ∧
      ((∃ m, (m = .noOperation ∨ m = .infinityToInteger) ∧ Strays offset m c ∧
          result = .error (.misfit m)) ∨
        (∀ m, ¬Strays offset m c) ∧
          ((∃ s, result = .ok s) ∨
            ∃ flaw complaint, result = .error (.parser flaw complaint))) := by
  rw [parse, run_finished hname hwords hlaunch hlimit]
  rcases printed_cases c with
    ⟨flaw, complaint, hprinted, hstrays⟩ | ⟨cs, hstatus, houtput, hprinted⟩
  · rw [hprinted]
    exact ⟨_, rfl, .inr ⟨hstrays offset, .inr ⟨flaw, complaint, rfl⟩⟩⟩
  · rw [hprinted]
    refine ⟨_, rfl, ?_⟩
    have hstrays (m : Misfit) : Strays offset m c ↔ Escapes offset m (String.ofList cs) := by
      simp [Strays, hstatus, houtput]
    simp only [hstrays]
    by_cases h : ∃ m, Escapes offset m (String.ofList cs)
    · obtain ⟨m, hm⟩ := h
      have hmisfit : m = .noOperation ∨ m = .infinityToInteger := by
        obtain ⟨-, held, -, -, hheld⟩ := hm
        exact hheld.misfit
      exact .inl ⟨m, hmisfit, hm, load_of_escapes hm⟩
    · have hnone := not_exists.mp h
      refine .inr ⟨hnone, ?_⟩
      rcases load_of_not_escapes hnone with hs | ⟨flaw, hflaw⟩
      · exact .inl hs
      · exact .inr ⟨flaw, "", hflaw⟩

end Parse

-- A program that prints what it is given.
def echo : Launcher := fun d command => (d, .finished { output := command.input })

-- The tree of a stream whose one instruction has a number where an operand should be.
def numberOperand : Json :=
  .obj [("instructions", .arr [.obj [("opcode", .str "a"), ("operands", .arr [.int 5])]])]

def numberOperandBytes : Text.Utf8.Bytes := Text.Utf8.encode (numberOperand.writeAt none 0)

theorem parse_finished_number :
    "cat" ≠ "" ∧ (∀ w ∈ ["cat"], '\x00' ∉ w.toList) ∧
      ∃ result, parse { executable := "cat" } echo {} (some 1) numberOperandBytes =
        ({}, [.runningParser ["cat"]], result) ∧
        ((∃ m, (m = .noOperation ∨ m = .infinityToInteger) ∧
            Strays 1 m { output := numberOperandBytes } ∧ result = .error (.misfit m)) ∨
          (∀ m, ¬Strays 1 m { output := numberOperandBytes }) ∧
            ((∃ s, result = .ok s) ∨ ∃ flaw complaint, result = .error (.parser flaw complaint))) :=
  ⟨by decide, by decide, parse_finished (e := { executable := "cat" }) 1 (by decide) (by decide)
    rfl (fun _ h => by cases h)⟩

-- What is no object is a flaw where an instruction should be, but not where an operand should be.
theorem parse_of_numberOperand :
    (parse { executable := "cat" } echo {} (some 1) numberOperandBytes).2.2 =
      .error (.misfit .noOperation) := by
  have hfree : numberOperand.isFloatFree = true := by decide
  have hdecode : Text.Utf8.decode numberOperandBytes = .ok (numberOperand.writeAt none 0) :=
    Text.Utf8.decode_encode _
  have hread : Json.readText (numberOperand.writeAt none 0) = .ok numberOperand :=
    Json.readText_writeAt ⟨hfree, by decide⟩ none
  have hload : load (some 1) (String.ofList (numberOperand.writeAt none 0)) =
      .error (.misfit .noOperation) := by
    simp only [load, Json.read, String.toList_ofList, hread]
    rfl
  have hprinted : printed { output := numberOperandBytes } =
      .ok (String.ofList (numberOperand.writeAt none 0)) := by
    simp only [printed, hdecode, ne_eq, not_true, if_false]
  have hrun : run { executable := "cat" } echo {} numberOperandBytes =
      ({}, [.runningParser ["cat"]], printed { output := numberOperandBytes }) := rfl
  simp only [parse, hrun, hprinted, hload]

end Listing.External
