import Listing.Proofs.Recorder.Attachment

namespace Listing.Recorder

-- What a decoder calls for, one construct at a time. The place may be any value, but only that of
-- an instruction is looked at.
inductive Call where
  | label (name : Json) (place : Place)
  | instruction (opcode : Json) (operands : List RawOperand) (place : Place)
  | symbolAttribute (symbol property : Json)
  | commonSymbol (symbol size alignment : Json)
  | zeroFill (area symbol size alignment : Json) (place : Place)
deriving DecidableEq, Repr

def Call.HasTextOpcode : Call → Prop
  | .instruction opcode .. => ∃ text, opcode = .str text
  | _ => True

def call (r : Recorder) : Call → Recorder × Except Misfit Unit
  | .label name _ => r.label name
  | .instruction opcode operands place => r.instruction opcode operands place
  | .symbolAttribute .. | .commonSymbol .. | .zeroFill .. => (r, .ok ())

-- The recorder after some calls. A call that fails does not keep the decoder from the next one.
def afterCalls (r : Recorder) (calls : List Call) : Recorder :=
  calls.foldl (fun r c => (r.call c).1) r

theorem traceLines_trace {r : Recorder} (h : r.traced = true) (line : String) :
    (r.trace line).traceLines = r.traceLines ++ [line] := by
  simp [trace, traceLines, h]

-- Notices are no trace.
theorem traceLines_notices (r : Recorder) (notices : List Notice) :
    ({ r with reports := r.reports ++ notices.map .notice } : Recorder).traceLines =
      r.traceLines := by
  simp [traceLines, List.filterMap_map]

theorem dumpLines_concat {is : List Instruction} {lines : List String} {i : Instruction}
    {text : String} (h : dumpLines is = .ok lines) (htext : i.text = .ok text) :
    dumpLines (is ++ [i]) = .ok (lines ++ i.labels.map labelLine ++ [text]) := by
  induction is generalizing lines with
  | nil =>
      cases h
      simp only [List.nil_append, dumpLines, htext]
      rfl
  | cons first is ih =>
      obtain ⟨firstText, hfirst, hrest⟩ := bind_eq_ok.mp h
      obtain ⟨rest, hdump, hlines⟩ := bind_eq_ok.mp hrest
      cases hlines
      rw [List.cons_append, dumpLines, hfirst, ih hdump]
      simp [bind, Except.bind, pure, Except.pure]

-- What was traced is what a dump shows: the recorded instructions with their labels, then the
-- labels that still wait.
structure InStep (r : Recorder) : Prop where
  traced : r.traced = true
  machine : r.machine.NamesTexts
  lines : ∃ lines, dumpLines r.stream.instructions = .ok lines ∧
    r.traceLines = lines ++ r.pending.map labelLine

section InStep

variable {r : Recorder}

theorem InStep.dump (h : r.InStep) : r.dump = .ok ("\n".intercalate r.traceLines) := by
  obtain ⟨lines, hdump, htrace⟩ := h.lines
  rw [Recorder.dump, hdump, htrace]
  rfl

-- A recorder that is one line ahead of its trace catches up by tracing that line.
theorem InStep.trace {line : String} (htraced : r.traced = true) (hm : r.machine.NamesTexts)
    (hlines : ∃ lines, dumpLines r.stream.instructions = .ok lines ∧
      r.traceLines ++ [line] = lines ++ r.pending.map labelLine) : (r.trace line).InStep := by
  have hframe : (r.trace line).traced = r.traced ∧ (r.trace line).machine = r.machine ∧
      (r.trace line).stream = r.stream ∧ (r.trace line).pending = r.pending := by
    rw [Recorder.trace]
    split <;> exact ⟨rfl, rfl, rfl, rfl⟩
  obtain ⟨htraced', hmachine, hstream, hpending⟩ := hframe
  refine ⟨htraced'.trans htraced, hmachine ▸ hm, ?_⟩
  rwa [hstream, hpending, traceLines_trace htraced]

theorem InStep.label (h : r.InStep) (name : Json) : (r.label name).1.InStep := by
  obtain ⟨lines, hdump, htrace⟩ := h.lines
  rw [Recorder.label]
  split
  · exact h
  · rename_i printed _
    refine InStep.trace h.traced h.machine ⟨lines, hdump, ?_⟩
    change r.traceLines ++ _ = lines ++ (r.pending ++ [printed]).map labelLine
    rw [htrace, List.map_append, List.append_assoc, List.map_singleton]

-- The lines of the labels that waited become lines of the instruction.
theorem InStep.instruction (h : r.InStep) (opcode : String) (operands : List RawOperand)
    (place : Place) : (r.instruction (.str opcode) operands place).1.InStep := by
  obtain ⟨lines, hdump, htrace⟩ := h.lines
  have hnoticed := traceLines_notices r (operands.flatMap (operandNotices r.machine (.str opcode)))
  simp only [Recorder.instruction]
  split
  · exact ⟨h.traced, h.machine, lines, hdump, hnoticed.trans htrace⟩
  · rename_i line column _
    obtain ⟨text, htext⟩ := recorded_text h.machine opcode r.pending operands line column
    simp only [htext]
    refine InStep.trace h.traced h.machine ⟨_, dumpLines_concat hdump htext, ?_⟩
    change _ ++ [text] = _ ++ []
    rw [List.append_nil, ← htrace]
    exact congrArg (· ++ [text]) hnoticed

theorem InStep.call (h : r.InStep) {c : Call} (hopcode : c.HasTextOpcode) :
    (r.call c).1.InStep := by
  cases c with
  | label name place => exact h.label name
  | instruction opcode operands place =>
      obtain ⟨text, rfl⟩ := hopcode
      exact h.instruction text operands place
  | symbolAttribute => exact h
  | commonSymbol => exact h
  | zeroFill => exact h

theorem InStep.afterCalls (h : r.InStep) {calls : List Call}
    (hopcodes : ∀ c ∈ calls, c.HasTextOpcode) : (r.afterCalls calls).InStep := by
  induction calls generalizing r with
  | nil => exact h
  | cons c cs ih =>
      obtain ⟨hopcode, hrest⟩ := List.forall_mem_cons.mp hopcodes
      exact ih (h.call hopcode) hrest

end InStep

theorem inStep_fresh {machine : Option Machine} (hm : (machine.getD .generic).NamesTexts)
    (offset : Int) (printLabels : Bool) : (fresh machine offset printLabels true).InStep :=
  ⟨rfl, hm.orGeneric, [], rfl, rfl⟩

-- Whatever is called, and whether it fails or not, at every moment the dump is what was traced.
theorem dump_eq_trace {machine : Option Machine} (hm : (machine.getD .generic).NamesTexts)
    (offset : Int) (printLabels : Bool) {calls : List Call}
    (hopcodes : ∀ c ∈ calls, c.HasTextOpcode) {before : List Call} (hbefore : before <+: calls) :
    ((fresh machine offset printLabels true).afterCalls before).dump =
      .ok ("\n".intercalate
        ((fresh machine offset printLabels true).afterCalls before).traceLines) :=
  ((inStep_fresh hm offset printLabels).afterCalls fun c hc =>
    hopcodes c (hbefore.subset hc)).dump

-- Two of these calls fail: a name that is no text cannot be printed, and a number is no place.
def faultyCalls : List Call :=
  [.label (.str "in loop") .unset, .label (.int 3) .unset,
    .instruction (.str "ADD") [⟨.str "reg", .int 1, .null⟩] (.value (.int 7)),
    .symbolAttribute (.str "a") .null,
    .instruction (.str "ADD") [⟨.str "reg", .int 1, .null⟩] .unset,
    .label (.str "end") .unset]

theorem dump_eq_trace_faulty :
    ((fresh (some ⟨"two", [(0, .str "a0"), (1, .null)]⟩) 1 true true).afterCalls
        (faultyCalls.take 5)).dump = .ok ";; label: \"in loop\"\nADD r1" := by
  have hnames : (some ⟨"two", [(0, .str "a0"), (1, .null)]⟩ : Option Machine).getD .generic
      |>.NamesTexts := by
    simp [Machine.NamesTexts]
  have hopcodes : ∀ c ∈ faultyCalls, c.HasTextOpcode := by simp [faultyCalls, Call.HasTextOpcode]
  rw [dump_eq_trace hnames 1 true hopcodes (List.take_prefix 5 faultyCalls)]
  decide +kernel

end Listing.Recorder
