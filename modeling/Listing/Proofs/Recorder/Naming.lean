import Listing.Proofs.Recorder.Reached

namespace Listing

namespace Text

-- A character that is not quoted as itself is quoted behind a backslash.
theorem quotedChar_cases (mark c : Char) :
    quotedChar mark c = [c] ∨ ∃ rest, quotedChar mark c = '\\' :: rest := by
  unfold quotedChar
  split
  · exact .inr ⟨_, rfl⟩
  split
  · exact .inr ⟨_, rfl⟩
  split
  · exact .inr ⟨_, rfl⟩
  split
  · exact .inr ⟨_, rfl⟩
  split
  · exact .inl rfl
  split
  · exact .inr ⟨_, rfl⟩
  split
  · exact .inr ⟨_, rfl⟩
  · exact .inr ⟨_, rfl⟩

theorem flatMap_quotedChar {mark : Char} {cs : List Char}
    (h : '\\' ∉ cs.flatMap (quotedChar mark)) : cs.flatMap (quotedChar mark) = cs := by
  induction cs with
  | nil => rfl
  | cons c cs ih =>
      rw [List.flatMap_cons, List.mem_append, not_or] at h
      rw [List.flatMap_cons, ih h.2]
      rcases quotedChar_cases mark c with hself | ⟨rest, hslash⟩
      · rw [hself]
        rfl
      · rw [hslash] at h
        exact absurd List.mem_cons_self h.1

-- Where nothing had to be escaped, the text stands as it is between its marks.
theorem quotedChars_of_plain {cs : List Char} (h : '\\' ∉ quotedChars cs) :
    quotedChars cs = quoteMark cs :: (cs ++ [quoteMark cs]) := by
  have hbody : '\\' ∉ cs.flatMap (quotedChar (quoteMark cs)) := fun hmem =>
    h (List.mem_append_left _ (List.mem_cons_of_mem _ hmem))
  rw [quotedChars, flatMap_quotedChar hbody, List.cons_append]

theorem eq_of_quoted_eq {s t : String} (h : quoted s = quoted t)
    (hplain : '\\' ∉ (quoted t).toList) : s = t := by
  have hchars : quotedChars s.toList = quotedChars t.toList := String.ofList_injective h
  rw [quoted, String.toList_ofList] at hplain
  have hs := quotedChars_of_plain (hchars.symm ▸ hplain)
  have ht := quotedChars_of_plain hplain
  rw [hs, ht] at hchars
  exact String.toList_injective (List.append_inj_left' (List.cons.inj hchars).2 rfl)

end Text

namespace Recorder

section Given

-- The recorders that one comes to, each with the calls that it was given on the way, whether they
-- failed or not. A notice is no call.
inductive Given (start : Recorder) : List Call → Recorder → Prop
  | start : Given start [] start
  | call {calls : List Call} {r : Recorder} (h : Given start calls r) (c : Call) :
      Given start (calls ++ [c]) (r.call c).1
  | note {calls : List Call} {r : Recorder} (h : Given start calls r) (n : Notice) :
      Given start calls (r.note n)

variable {start r : Recorder} {calls : List Call}

theorem Given.replayFrom (h : Given start calls r) (delivered : Nat) (fault : Option Fault)
    (entries : List Event.Entry) :
    ∃ events, events <+: (⟨entries, fault⟩ : Event.Reading).events ∧
      Given start (calls ++ events.map .ofEvent) (r.replayFrom delivered fault entries).1 := by
  induction entries generalizing r calls delivered with
  | nil =>
      refine ⟨[], List.nil_prefix, ?_⟩
      rw [List.map_nil, List.append_nil]
      cases fault with
      | none => exact h.note _
      | some f => exact h
  | cons entry rest ih =>
      cases entry with
      | notice n => exact ih (h.note n) delivered
      | event e =>
          have hnext := h.call (.ofEvent e)
          rw [← deliver_eq_call] at hnext
          simp only [Recorder.replayFrom]
          split
          · rename_i s m hfailed
            rw [hfailed] at hnext
            exact ⟨[e], List.prefix_append [e] _, hnext⟩
          · rename_i s hdone
            rw [hdone] at hnext
            obtain ⟨events, hevents, hmore⟩ := ih hnext (delivered + 1)
            refine ⟨e :: events, List.cons_prefix_cons.mpr ⟨rfl, hevents⟩, ?_⟩
            rwa [List.append_assoc] at hmore

-- A replay gives the calls for its events, up to the first that fails.
theorem Given.replay (h : Given start calls r) (reading : Event.Reading) :
    ∃ events, events <+: reading.events ∧
      Given start (calls ++ events.map .ofEvent) (r.replay reading).1 :=
  h.replayFrom 0 reading.fault reading.entries

end Given

-- The operands of an instruction that is recorded. One that has no place is not.
def Call.recorded? : Call → Option (List RawOperand)
  | .instruction _ operands place => if place.resolve.isOk then some operands else none
  | _ => none

-- Which machine a recorder asks for names, and that its instructions hold what it made of the
-- operands.
structure NamedBy (m : Machine) (calls : List Call) (r : Recorder) : Prop where
  machine : r.machine = m
  captured : r.stream.instructions.map (·.operands) =
    (calls.filterMap Call.recorded?).map fun operands => operands.filterMap (classify m)

section NamedBy

variable {m : Machine} {calls : List Call} {r s : Recorder}

theorem namedBy_fresh (machine : Option Machine) (offset : Int) (printLabels traced : Bool) :
    NamedBy (.orGeneric machine) [] (fresh machine offset printLabels traced) where
  machine := rfl
  captured := rfl

theorem machine_trace (r : Recorder) (line : String) : (r.trace line).machine = r.machine := by
  rw [trace]
  split <;> rfl

theorem machine_call (r : Recorder) (c : Call) : (r.call c).1.machine = r.machine := by
  cases c with
  | label name place =>
      simp only [call, label]
      split
      · rfl
      · exact machine_trace _ _
  | instruction opcode operands place =>
      simp only [call, instruction]
      split
      · rfl
      · split
        · rfl
        · exact machine_trace _ _
  | symbolAttribute | commonSymbol | zeroFill => rfl

theorem NamedBy.concat_none {c : Call} (h : NamedBy m calls r) (hc : c.recorded? = none)
    (hmachine : s.machine = r.machine) (hstream : s.stream = r.stream) :
    NamedBy m (calls ++ [c]) s where
  machine := hmachine.trans h.machine
  captured := by
    rw [List.filterMap_append, List.filterMap_cons_none hc, List.filterMap_nil, List.append_nil,
      hstream]
    exact h.captured

theorem NamedBy.call (h : NamedBy m calls r) (c : Call) :
    NamedBy m (calls ++ [c]) (r.call c).1 := by
  have hmachine := machine_call r c
  cases c with
  | label name place =>
      refine h.concat_none rfl hmachine ?_
      simp only [Recorder.call, label]
      split
      · rfl
      · exact (trace_state _ _).1
  | instruction opcode operands place =>
      obtain ⟨s, outcome, captured, hcall, hcaptured, -, hcases⟩ :=
        r.instruction_cases opcode operands place
      rw [Recorder.call, hcall] at hmachine ⊢
      rcases hcases with ⟨m', hplace, -, hstream, -⟩ | ⟨line, column, hplace, hstream, -⟩
      · exact h.concat_none (by rw [Call.recorded?, hplace]; rfl) hmachine hstream
      · have hrecorded : (Call.instruction opcode operands place).recorded? = some operands := by
          rw [Call.recorded?, hplace]
          rfl
        refine ⟨hmachine.trans h.machine, ?_⟩
        rw [List.filterMap_append, List.filterMap_cons_some hrecorded, List.filterMap_nil, hstream,
          Stream.instructions_push, List.map_append, List.map_append, h.captured, hcaptured,
          h.machine]
        rfl
  | symbolAttribute | commonSymbol | zeroFill => exact h.concat_none rfl hmachine rfl

theorem Given.namedBy {start : Recorder} (hstart : NamedBy m [] start) (h : Given start calls r) :
    NamedBy m calls r := by
  induction h with
  | start => exact hstart
  | call h c ih => exact ih.call c
  | note h n ih => exact ⟨ih.machine, ih.captured⟩

end NamedBy

-- A recorder describes itself with the name of a machine.
def ShowsMachine (r : Recorder) (name : String) : Prop :=
  r.summary = s!"CaptureListener(target={Text.quoted name}, instructions={r.stream.size}, " ++
    s!"pending_labels={r.pending.length})"

theorem showsMachine_iff {r : Recorder} {name : String} :
    r.ShowsMachine name ↔ Text.quoted r.machine.name = Text.quoted name := by
  unfold ShowsMachine summary
  simp only [toString, String.append_assoc, String.append_left_inj, String.append_right_inj]

theorem showsMachine_machine (r : Recorder) : r.ShowsMachine r.machine.name := rfl

theorem showsMachine_generic {r : Recorder} (hr : r.machine = .generic) {name : String} :
    r.ShowsMachine name ↔ name = "generic" := by
  have hplain : '\\' ∉ (Text.quoted "generic").toList := by decide +kernel
  rw [showsMachine_iff, hr]
  constructor
  · exact fun h => Text.eq_of_quoted_eq h.symm hplain
  · rintro rfl
    rfl

-- A machine that is replaced by the generic one gave the same names.
theorem classify_orGeneric_eq_some_iff (machine : Option Machine) (raw : RawOperand)
    (o : Operand) :
    classify (.orGeneric machine) raw = some o ↔ Stands (machine.getD .generic) raw o := by
  have hnames := Machine.registerName_orGeneric machine
  rw [classify_eq_some_iff]
  exact ⟨.congr hnames, .congr fun v => (hnames v).symm⟩

-- A recorder that was given a machine names registers and symbols as that machine does, at any
-- time, and what is replayed to it are more calls. But a machine without registers it takes for
-- none: the generic one has its place, and it is that one's name that is shown.
theorem machine_given {m : Machine} {offset : Int} {printLabels traced : Bool} {calls : List Call}
    {r : Recorder} (h : Given (fresh (some m) offset printLabels traced) calls r) :
    List.Forall₂ (Kept (Stands m)) (calls.filterMap Call.recorded?)
        (r.stream.instructions.map (·.operands)) ∧
      (r.ShowsMachine m.name ↔ 0 < m.size ∨ m.name = "generic") ∧
      ∀ reading : Event.Reading, ∃ events, events <+: reading.events ∧
        Given (fresh (some m) offset printLabels traced) (calls ++ events.map .ofEvent)
          (r.replay reading).1 := by
  have hnamed := h.namedBy (namedBy_fresh (some m) offset printLabels traced)
  refine ⟨?_, ?_, h.replay⟩
  · rw [hnamed.captured, List.forall₂_map_right_iff, List.forall₂_same]
    exact fun operands _ => kept_filterMap (classify_orGeneric_eq_some_iff (some m)) operands
  · have hmachine := hnamed.machine
    simp only [Machine.orGeneric] at hmachine
    split at hmachine
    · rename_i hempty
      have hsize : m.size = 0 := List.length_eq_zero_iff.mpr (List.isEmpty_iff.mp hempty)
      rw [showsMachine_generic hmachine, hsize]
      simp
    · rename_i hfilled
      have hsize : 0 < m.size := List.length_pos_iff.mpr fun h => hfilled (List.isEmpty_iff.mpr h)
      refine iff_of_true ?_ (.inl hsize)
      rw [← hmachine]
      exact r.showsMachine_machine

def unplacedCall : Call :=
  .instruction (.str "ADD") [⟨.str "reg", .int 0, .null⟩] (.value (.int 7))

def mixedOperands : List RawOperand :=
  [⟨.str "reg", .int 0, .null⟩, ⟨.str "imm", .bool true, .null⟩, ⟨.str "reg", .int 1, .null⟩]

-- The first call fails, since its place is none, and the second one records what it was given.
theorem machine_given_failing :
    ∃ m r, Machine.fromNames "two" (.arr [.str "a0", .null]) = .ok m ∧
      Given (fresh (some m) 1 false false)
        [unplacedCall, .instruction (.str "ADD") mixedOperands .unset] r ∧
      List.Forall₂ (Kept (Stands m)) [mixedOperands] (r.stream.instructions.map (·.operands)) ∧
      r.ShowsMachine "two" := by
  let m : Machine := ⟨"two", [(0, .str "a0"), (1, .null)]⟩
  have hstart : Given (fresh (some m) 1 false false) [] (fresh (some m) 1 false false) := .start
  have hgiven := (hstart.call unplacedCall).call (.instruction (.str "ADD") mixedOperands .unset)
  obtain ⟨hcaptured, hshows, -⟩ := machine_given hgiven
  exact ⟨m, _, rfl, hgiven, hcaptured, hshows.mpr (.inl (by decide))⟩

-- A recorder that was given a machine without registers does not show its name.
theorem not_showsMachine_given :
    ∃ m, Machine.fromNames "custom" (.arr []) = .ok m ∧
      Given (fresh (some m) 1 false false) [] (fresh (some m) 1 false false) ∧
      ¬(fresh (some m) 1 false false).ShowsMachine m.name := by
  refine ⟨⟨"custom", []⟩, rfl, .start, fun h => ?_⟩
  have hname : "custom" = "generic" := (showsMachine_generic rfl).mp h
  exact absurd hname (by decide)

end Recorder
end Listing
