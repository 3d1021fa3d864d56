import Mathlib
import Listing.Proofs.Instruction
import Listing.Proofs.Lists
import Listing.Proofs.Recorder.Run

namespace Listing

namespace Event

def isInstruction : Event → Bool
  | .instruction .. => true
  | _ => false

def labelName? : Event → Option Json
  | .label name _ => some name
  | _ => none

def operandCount : Event → Nat
  | .instruction _ operands _ => operands.length
  | _ => 0

def HasTextOpcode : Event → Prop
  | .instruction opcode .. => ∃ text, opcode = .str text
  | _ => True

def HasTextLabel : Event → Prop
  | .label name _ => ∃ text, name = .str text
  | _ => True

end Event

namespace Machine

-- Every entry of the table is a text or null.
def NamesTexts (m : Machine) : Prop :=
  ∀ entry ∈ m.registers, entry.2 = .null ∨ ∃ text, entry.2 = .str text

theorem NamesTexts.numberedName {m : Machine} (h : m.NamesTexts) (id : Int) :
    ∃ text, m.numberedName id = .str text := by
  unfold Machine.numberedName entry?
  split
  · exact ⟨_, rfl⟩
  · rename_i i name hne hfind
    rcases h _ (List.mem_of_find?_eq_some hfind) with hnull | ⟨text, htext⟩
    · exact absurd hnull hne
    · exact ⟨text, htext⟩
  · exact ⟨_, rfl⟩

-- The generic machine names registers as any machine without entries does.
theorem registerName_orGeneric (machine : Option Machine) (v : Json) :
    (orGeneric machine).registerName v = (machine.getD .generic).registerName v := by
  cases machine with
  | none => rfl
  | some m =>
      simp only [orGeneric, Option.getD_some]
      split
      · rename_i hempty
        have hm : m.registers = [] := List.isEmpty_iff.mp hempty
        cases v <;> simp [registerName, numberedName, entry?, hm, generic]
      · rfl

theorem NamesTexts.orGeneric {machine : Option Machine} (h : (machine.getD .generic).NamesTexts) :
    (Machine.orGeneric machine).NamesTexts := by
  cases machine with
  | none => exact h
  | some m =>
      simp only [Machine.orGeneric]
      split
      · simp [NamesTexts, generic]
      · exact h

end Machine

namespace Recorder

-- Which operand a reported one stands for. Nothing else stands for any.
inductive Stands (m : Machine) : RawOperand → Operand → Prop
  | immediate {n : Int} {k : Json} (hlow : -2 ^ 63 ≤ n) (hhigh : n ≤ 2 ^ 63 - 1) :
      Stands m ⟨.str "imm", .int n, k⟩ (.integer n)
  | numbered {id : Int} {k name : Json} (hname : m.registerName (.int id) = .ok name) :
      Stands m ⟨.str "reg", .int id, k⟩ (.register name)
  | named {text : String} {k name : Json} (hname : m.registerName (.str text) = .ok name) :
      Stands m ⟨.str "reg", .str text, k⟩ (.register name)
  | symbol {text : String} :
      Stands m ⟨.str "expr", .str text, .str "symbol_ref"⟩ (.label (Symbol.print text))

-- Of a machine only the names it gives matter.
theorem Stands.congr {m m' : Machine} (h : ∀ v, m.registerName v = m'.registerName v)
    {raw : RawOperand} {o : Operand} (hs : Stands m raw o) : Stands m' raw o := by
  cases hs with
  | immediate hlow hhigh => exact .immediate hlow hhigh
  | numbered hname => exact .numbered ((h _).symm.trans hname)
  | named hname => exact .named ((h _).symm.trans hname)
  | symbol => exact .symbol

-- The second list holds, in order, what the members of the first stand for, so far as they do.
inductive Kept {α β : Type} (R : α → β → Prop) : List α → List β → Prop
  | nil : Kept R [] []
  | take {a : α} {b : β} {as : List α} {bs : List β} (h : R a b) (rest : Kept R as bs) :
      Kept R (a :: as) (b :: bs)
  | skip {a : α} {as : List α} {bs : List β} (h : ∀ b, ¬R a b) (rest : Kept R as bs) :
      Kept R (a :: as) bs

theorem kept_filterMap {α β : Type} {R : α → β → Prop} {f : α → Option β}
    (h : ∀ a b, f a = some b ↔ R a b) (as : List α) : Kept R as (as.filterMap f) := by
  induction as with
  | nil => exact .nil
  | cons a as ih =>
      cases hf : f a with
      | none =>
          rw [List.filterMap_cons_none hf]
          exact .skip (fun b hb => by simp [(h a b).mpr hb] at hf) ih
      | some b =>
          rw [List.filterMap_cons_some hf]
          exact .take ((h a b).mp hf) ih

theorem classify_eq_some_iff (m : Machine) (raw : RawOperand) (o : Operand) :
    classify m raw = some o ↔ Stands m raw o := by
  constructor
  · intro h
    obtain ⟨kind, value, expressionKind⟩ := raw
    simp only [classify, RawOperand.isImmediate, RawOperand.isRegister,
      RawOperand.isSymbolReference, decide_eq_true_eq, Bool.and_eq_true] at h
    split at h
    · rename_i hkind
      subst hkind
      split at h
      · split at h
        · rename_i hrange
          cases h
          exact .immediate hrange.1 hrange.2
        · cases h
      · cases h
    · split at h
      · rename_i hkind
        subst hkind
        split at h <;> cases h
        · exact .named rfl
        · exact .numbered rfl
      · split at h
        · rename_i hkind
          obtain ⟨rfl, rfl⟩ := hkind
          split at h <;> cases h
          exact .symbol
        · cases h
  · intro h
    cases h with
    | immediate hlow hhigh =>
        have hrange : Operand.minInteger ≤ _ ∧ _ ≤ Operand.maxInteger := ⟨hlow, hhigh⟩
        simp [classify, RawOperand.isImmediate, hrange]
    | numbered hname =>
        cases hname
        simp [classify, RawOperand.isImmediate, RawOperand.isRegister]
    | named hname =>
        cases hname
        simp [classify, RawOperand.isImmediate, RawOperand.isRegister]
    | symbol =>
        simp [classify, RawOperand.isImmediate, RawOperand.isRegister,
          RawOperand.isSymbolReference]

theorem classify_text {m : Machine} (hm : m.NamesTexts) {raw : RawOperand} {o : Operand}
    (h : classify m raw = some o) : ∃ text, o.text = .ok text := by
  cases (classify_eq_some_iff m raw o).mp h with
  | immediate => exact ⟨_, rfl⟩
  | numbered hname =>
      obtain ⟨text, htext⟩ := hm.numberedName ‹Int›
      cases hname
      exact ⟨text, by rw [htext]; rfl⟩
  | named hname =>
      cases hname
      exact ⟨_, rfl⟩
  | symbol => exact ⟨_, rfl⟩

-- An instruction with a text for its opcode is recorded as one that has a text.
theorem recorded_text {m : Machine} (hm : m.NamesTexts) (opcode : String) (labels : List Json)
    (operands : List RawOperand) (line column : Json) :
    ∃ text, Instruction.text ⟨.str opcode, labels, operands.filterMap (classify m), line, column⟩ =
      .ok text := by
  refine Instruction.text_isOk.mpr ⟨⟨opcode, rfl⟩, fun o ho => ?_⟩
  obtain ⟨raw, -, hraw⟩ := List.mem_filterMap.mp ho
  exact classify_text hm hraw

-- The form under which a label is attached.
def attachedName (printLabels : Bool) : Json → Json
  | .str text => .str (if printLabels then Symbol.print text else text)
  | v => v

-- The labels reported since the last instruction, as they wait for the next one.
def waitingLabels (printLabels : Bool) (events : List Event) : List Json :=
  ((events.rtakeWhile (!·.isInstruction)).filterMap Event.labelName?).map (attachedName printLabels)

theorem label_eq {r : Recorder} {name : Json}
    (hname : r.printLabels = true → ∃ text, name = .str text) :
    ∃ reports, r.label name =
      ({ r with pending := r.pending ++ [attachedName r.printLabels name], reports }, .ok ()) := by
  have hprinted : (if r.printLabels then (Symbol.printed name).map .str else .ok name) =
      Except.ok (attachedName r.printLabels name) := by
    by_cases hp : r.printLabels = true
    · obtain ⟨text, rfl⟩ := hname hp
      simp [hp, attachedName, Symbol.printed, Except.map]
    · cases name <;> simp [hp, attachedName]
  unfold label
  rw [hprinted]
  simp only [trace]
  split
  · exact ⟨_, rfl⟩
  · exact ⟨_, rfl⟩

theorem instruction_eq {r : Recorder} (hm : r.machine.NamesTexts) (opcode : String)
    (operands : List RawOperand) (location : Location) :
    ∃ reports, r.instruction (.str opcode) operands (.ofLocation location) =
      ({ r with
        stream := r.stream.push ⟨.str opcode, r.pending, operands.filterMap (classify r.machine),
          .int location.line, .int location.column⟩
        pending := []
        dropped := r.dropped +
          (operands.length - (operands.filterMap (classify r.machine)).length)
        reports }, .ok ()) := by
  obtain ⟨text, htext⟩ :=
    recorded_text hm opcode r.pending operands (.int location.line) (.int location.column)
  simp only [instruction, Place.ofLocation, Place.resolve, htext, trace]
  split
  · exact ⟨_, rfl⟩
  · exact ⟨_, rfl⟩

-- How a recorder stands after some events, by what it was set up with.
structure Attached (m : Machine) (printLabels : Bool) (events : List Event) (r : Recorder) :
    Prop where
  machine : r.machine = m
  printing : r.printLabels = printLabels
  size : r.stream.size = events.countP Event.isInstruction
  record : ∀ before opcode operands location after,
    events = before ++ .instruction opcode operands location :: after →
      r.stream.instructions[before.countP Event.isInstruction]? =
        some ⟨opcode, waitingLabels printLabels before, operands.filterMap (classify m),
          .int location.line, .int location.column⟩
  pending : r.pending = waitingLabels printLabels events
  dropped : r.dropped + (r.stream.instructions.map (·.operands.length)).sum =
    (events.map Event.operandCount).sum

-- A recorder that has recorded nothing yet.
theorem attached_nil {r : Recorder} (hstream : r.stream = {}) (hpending : r.pending = [])
    (hdropped : r.dropped = 0) : Attached r.machine r.printLabels [] r where
  machine := rfl
  printing := rfl
  size := by rw [hstream]; rfl
  record := fun before opcode operands location after h => by simp at h
  pending := hpending
  dropped := by rw [hstream, hdropped]; rfl

theorem attached_fresh (machine : Option Machine) (offset : Int) (printLabels traced : Bool) :
    Attached (.orGeneric machine) printLabels [] (fresh machine offset printLabels traced) :=
  attached_nil (r := fresh machine offset printLabels traced) rfl rfl rfl

-- Of the events that are no instructions only a label changes what waits.
theorem Attached.concat_other {m : Machine} {printLabels : Bool} {events : List Event}
    {r s : Recorder} {e : Event} (h : Attached m printLabels events r)
    (he : e.isInstruction = false) (hmachine : s.machine = r.machine)
    (hprinting : s.printLabels = r.printLabels) (hstream : s.stream = r.stream)
    (hdropped : s.dropped = r.dropped)
    (hpending : s.pending = r.pending ++ (e.labelName?.map (attachedName printLabels)).toList) :
    Attached m printLabels (events ++ [e]) s where
  machine := hmachine.trans h.machine
  printing := hprinting.trans h.printing
  size := by rw [hstream, h.size, List.countP_append]; simp [he]
  record := by
    intro before opcode operands location after hcut
    rcases concat_eq_append_cons hcut with ⟨-, rfl⟩ | ⟨rest, -, hevents⟩
    · exact absurd he (by simp [Event.isInstruction])
    · rw [hstream]
      exact h.record before opcode operands location rest hevents
  pending := by
    rw [hpending, h.pending, waitingLabels, waitingLabels,
      List.rtakeWhile_concat_pos _ _ _ (by simp [he]), List.filterMap_append, List.map_append]
    cases e <;> rfl
  dropped := by
    rw [hstream, hdropped, h.dropped, List.map_append, List.sum_append]
    cases e <;> simp_all [Event.isInstruction, Event.operandCount]

theorem Attached.concat_instruction {m : Machine} {printLabels : Bool} {events : List Event}
    {r s : Recorder} {opcode : Json} {operands : List RawOperand} {location : Location}
    (h : Attached m printLabels events r) (hmachine : s.machine = r.machine)
    (hprinting : s.printLabels = r.printLabels)
    (hstream : s.stream = r.stream.push ⟨opcode, r.pending, operands.filterMap (classify m),
      .int location.line, .int location.column⟩)
    (hdropped : s.dropped =
      r.dropped + (operands.length - (operands.filterMap (classify m)).length))
    (hpending : s.pending = []) :
    Attached m printLabels (events ++ [.instruction opcode operands location]) s where
  machine := hmachine.trans h.machine
  printing := hprinting.trans h.printing
  size := by
    have hsize := h.size
    simp only [Stream.size] at hsize ⊢
    rw [hstream, Stream.instructions_push, List.length_append, hsize, List.countP_append]
    rfl
  record := by
    intro before opcode' operands' location' after hcut
    rw [hstream, Stream.instructions_push]
    rcases concat_eq_append_cons hcut with ⟨rfl, hevent⟩ | ⟨rest, -, hevents⟩
    · cases hevent
      rw [← h.size, Stream.size, List.getElem?_concat_length, h.pending]
    · have hold := h.record before opcode' operands' location' rest hevents
      obtain ⟨hlt, -⟩ := List.getElem?_eq_some_iff.mp hold
      rw [List.getElem?_append_left hlt, hold]
  pending := by
    rw [hpending, waitingLabels, List.rtakeWhile_concat_neg _ _ _ (by simp [Event.isInstruction])]
    rfl
  dropped := by
    have hle := List.length_filterMap_le (classify m) operands
    have hold := h.dropped
    rw [hstream, hdropped, Stream.instructions_push]
    simp only [List.map_append, List.sum_append, List.map_cons, List.map_nil, List.sum_cons,
      List.sum_nil, Event.operandCount]
    omega

theorem Attached.deliver {m : Machine} {printLabels : Bool} {events : List Event} {r : Recorder}
    (h : Attached m printLabels events r) (hm : m.NamesTexts) {e : Event}
    (hopcode : e.HasTextOpcode) (hlabel : printLabels = true → e.HasTextLabel) :
    ∃ s, r.deliver e = (s, .ok ()) ∧ Attached m printLabels (events ++ [e]) s := by
  cases e with
  | label name location =>
      rw [← h.printing] at hlabel
      obtain ⟨reports, hdeliver⟩ := label_eq hlabel
      exact ⟨_, hdeliver, h.concat_other rfl rfl rfl rfl rfl (by rw [h.printing]; rfl)⟩
  | instruction opcode operands location =>
      obtain ⟨text, rfl⟩ := hopcode
      obtain ⟨reports, hdeliver⟩ := instruction_eq (h.machine ▸ hm) text operands location
      rw [h.machine] at hdeliver
      exact ⟨_, hdeliver, h.concat_instruction h.machine.symm rfl rfl rfl rfl⟩
  | symbolAttribute =>
      exact ⟨r, rfl, h.concat_other rfl rfl rfl rfl rfl (by simp [Event.labelName?])⟩
  | commonSymbol => exact ⟨r, rfl, h.concat_other rfl rfl rfl rfl rfl (by simp [Event.labelName?])⟩
  | zeroFill => exact ⟨r, rfl, h.concat_other rfl rfl rfl rfl rfl (by simp [Event.labelName?])⟩

theorem Attached.run {m : Machine} {printLabels : Bool} {before events : List Event} {r : Recorder}
    (h : Attached m printLabels before r) (hm : m.NamesTexts)
    (hopcodes : ∀ e ∈ events, e.HasTextOpcode)
    (hlabels : printLabels = true → ∀ e ∈ events, e.HasTextLabel) :
    ∃ s, r.run events = (s, .ok ()) ∧ Attached m printLabels (before ++ events) s := by
  induction events generalizing before r with
  | nil => exact ⟨r, rfl, by simpa using h⟩
  | cons e es ih =>
      obtain ⟨s, hdeliver, hs⟩ := h.deliver hm (hopcodes e List.mem_cons_self)
        fun hp => hlabels hp e List.mem_cons_self
      obtain ⟨t, hrun, ht⟩ := ih hs (fun e he => hopcodes e (List.mem_cons_of_mem _ he))
        fun hp e he => hlabels hp e (List.mem_cons_of_mem _ he)
      exact ⟨t, by rw [run_cons_of_ok hdeliver, hrun], by simpa using ht⟩

-- A fresh recorder makes one record of every instruction. The record holds the labels reported
-- since the instruction before and what the operands stand for. Labels after the last instruction
-- wait, and the operands that stand for nothing are counted.
theorem replay_attaches (machine : Option Machine) (offset : Int) (printLabels traced : Bool)
    (events : List Event) (hm : (machine.getD .generic).NamesTexts)
    (hopcodes : ∀ e ∈ events, e.HasTextOpcode)
    (hlabels : printLabels = true → ∀ e ∈ events, e.HasTextLabel) :
    ∃ r, (fresh machine offset printLabels traced).replay (.ofEvents events) = (r, .ok ()) ∧
      r.stream.size = events.countP Event.isInstruction ∧
      (∀ before opcode operands location after,
        events = before ++ .instruction opcode operands location :: after →
          ∃ captured, Kept (Stands (machine.getD .generic)) operands captured ∧
            r.stream.instructions[before.countP Event.isInstruction]? =
              some ⟨opcode, waitingLabels printLabels before, captured,
                .int location.line, .int location.column⟩) ∧
      r.pending = waitingLabels printLabels events ∧
      r.dropped + (r.stream.instructions.map (·.operands.length)).sum =
        (events.map Event.operandCount).sum := by
  obtain ⟨s, hrun, hs⟩ := (attached_fresh machine offset printLabels traced).run hm.orGeneric
    hopcodes hlabels
  have hstands : ∀ raw o, classify (.orGeneric machine) raw = some o ↔
      Stands (machine.getD .generic) raw o := by
    intro raw o
    have hnames := Machine.registerName_orGeneric machine
    rw [classify_eq_some_iff]
    exact ⟨.congr hnames, .congr fun v => (hnames v).symm⟩
  refine ⟨_, replay_ofEvents_of_run hrun, hs.size, ?_, hs.pending, hs.dropped⟩
  intro before opcode operands location after hcut
  exact ⟨_, kept_filterMap hstands operands, hs.record before opcode operands location after hcut⟩

theorem replay_attaches_trailing :
    ∃ r, (fresh (some ⟨"two", [(0, .str "a0"), (1, .null)]⟩) 1 true false).replay
        (.ofEvents [.label (.str "in loop") {}, .symbolAttribute .null (.int 3),
          .instruction (.str "ADD") [⟨.str "reg", .int 1, .null⟩, ⟨.str "imm", .bool true, .null⟩,
            ⟨.str "imm", .int 9223372036854775808, .null⟩] ⟨4, 2⟩,
          .label (.str "end") {}]) = (r, .ok ()) ∧
      r.stream.size = 1 ∧ r.pending = [.str "end"] ∧
      r.dropped + (r.stream.instructions.map (·.operands.length)).sum = 3 := by
  obtain ⟨r, hreplay, hsize, -, hpending, hdropped⟩ := replay_attaches
    (some ⟨"two", [(0, .str "a0"), (1, .null)]⟩) 1 true false
    [.label (.str "in loop") {}, .symbolAttribute .null (.int 3),
      .instruction (.str "ADD") [⟨.str "reg", .int 1, .null⟩, ⟨.str "imm", .bool true, .null⟩,
        ⟨.str "imm", .int 9223372036854775808, .null⟩] ⟨4, 2⟩,
      .label (.str "end") {}]
    (by simp [Machine.NamesTexts]) (by simp [Event.HasTextOpcode]) (by simp [Event.HasTextLabel])
  exact ⟨r, hreplay, hsize, hpending, hdropped⟩

end Recorder
end Listing
