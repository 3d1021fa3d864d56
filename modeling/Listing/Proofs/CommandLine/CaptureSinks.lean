import Listing.Proofs.CommandLine.CaptureLog
import Listing.Proofs.Disk

namespace Listing

namespace External

variable {e : External} {launch : Launcher}

-- Starting programs that touch no files is all that a parser does to them.
theorem disk_runFile (hlaunch : ∀ d command, (launch d command).1 = d) (d : Disk)
    (path : String) : (e.runFile launch d path).1 = d := by
  have hrun (input : Text.Utf8.Bytes) : (e.run launch d input).1 = d := by
    rw [run]
    split
    · rfl
    · dsimp only
      split
      · rfl
      · have hdisk := hlaunch d { words := e.words, input }
        split
        · rename_i heq
          rwa [heq] at hdisk
        · rename_i heq
          rwa [heq] at hdisk
  rw [runFile]
  dsimp only
  split
  · rfl
  · rename_i input _
    exact hrun input

end External

namespace CommandLine.Capture

-- What a run refuses before it looks at its source.
inductive Violation where
  | tracedProgram
  | printedProgram
  | negativeIndent
  | noMachine (f : Fault)
deriving DecidableEq, Repr

def Violation.message : Violation → String
  | tracedProgram => "--trace cannot be combined with --parser"
  | printedProgram => "--print-labels cannot be combined with --parser"
  | negativeIndent => "--indent must not be negative"
  | noMachine f => f.message

def Violation.Occurs (d : Disk) (s : Settings) : Violation → Prop
  | tracedProgram => s.parser.isSome ∧ s.isTraced
  | printedProgram => s.parser.isSome ∧ s.printLabels
  | negativeIndent => ∃ n, s.indent = some n ∧ n < 0
  | noMachine f => s.parser = none ∧ machineOf d s = .error f

-- Two disks that hold the same registers.
def SameRegisters (s : Settings) (d d' : Disk) : Prop :=
  s.registers ≠ "" → d'.contents (.ofString s.registers) = d.contents (.ofString s.registers)

section Prepare

variable {environment environment' : Environment} {d d' : Disk} {s : Settings}

theorem machineOf_congr (h : SameRegisters s d d') : machineOf d' s = machineOf d s := by
  rw [machineOf, machineOf]
  split
  · rename_i hregisters
    rw [Machine.load, Machine.load, h hregisters]
  · rfl

-- The conflicts of some settings, one by one.
def conflictList (indent : Int) (s : Settings) : List Violation :=
  (if s.parser.isSome ∧ s.isTraced then [.tracedProgram] else []) ++
  (if s.parser.isSome ∧ s.printLabels then [.printedProgram] else []) ++
  if indent < 0 then [.negativeIndent] else []

theorem conflicts_eq_map (indent : Int) (s : Settings) :
    conflicts indent s = (conflictList indent s).map (·.message) := by
  simp only [conflicts, conflictList, List.map_append]
  congr 1
  · congr 1 <;> split <;> rfl
  · split <;> rfl

theorem nodup_conflictList (indent : Int) (s : Settings) : (conflictList indent s).Nodup := by
  rw [conflictList]
  split_ifs <;> decide

theorem mem_conflictList {indent : Int} (hindent : s.indent = some indent) (v : Violation) :
    v ∈ conflictList indent s ↔ v.Occurs d s ∧ ∀ f, v ≠ .noMachine f := by
  cases v with
  | tracedProgram => simp [conflictList, Violation.Occurs]
  | printedProgram => simp [conflictList, Violation.Occurs]
  | negativeIndent => simp [conflictList, Violation.Occurs, hindent]
  | noMachine f => simp [conflictList]

-- Violations, each once, that are all that occur.
structure AreAll (d : Disk) (s : Settings) (vs : List Violation) : Prop where
  nodup : vs.Nodup
  mem : ∀ v, v ∈ vs ↔ v.Occurs d s

theorem areAll_conflictList {indent : Int} (hindent : s.indent = some indent)
    (hmachine : ∀ f, ¬(Violation.noMachine f).Occurs d s) : AreAll d s (conflictList indent s) := by
  refine ⟨nodup_conflictList indent s, fun v => ?_⟩
  rw [mem_conflictList (d := d) hindent, and_iff_left_iff_imp]
  rintro hv f rfl
  exact hmachine f hv

theorem areAll_concat {indent : Int} {f : Fault} (hindent : s.indent = some indent)
    (hmachine : (Violation.noMachine f).Occurs d s) :
    AreAll d s (conflictList indent s ++ [.noMachine f]) := by
  have hother (g : Fault) (hg : (Violation.noMachine g).Occurs d s) : g = f :=
    Except.error.inj (hg.2.symm.trans hmachine.2)
  refine ⟨?_, fun v => ?_⟩
  · rw [List.nodup_append]
    refine ⟨nodup_conflictList indent s, List.nodup_singleton _, ?_⟩
    rintro v hv w hw rfl
    exact ((mem_conflictList (d := d) hindent v).mp hv).2 f (List.mem_singleton.mp hw)
  · rw [List.mem_append, mem_conflictList (d := d) hindent, List.mem_singleton]
    constructor
    · rintro (⟨hv, -⟩ | rfl)
      · exact hv
      · exact hmachine
    · intro hv
      by_cases h : ∃ g, v = .noMachine g
      · obtain ⟨g, rfl⟩ := h
        exact .inr (by rw [hother g hv])
      · exact .inl ⟨hv, not_exists.mp h⟩

-- What is refused is every violation that occurs. A run with other sources, programs and
-- environments is refused for the same.
theorem prepare_told {texts : List String} (h : prepare environment d s = .error (.told texts)) :
    (∃ vs, vs ≠ [] ∧ AreAll d s vs ∧ texts = vs.map (·.message)) ∧
      ∀ environment' d', SameRegisters s d d' →
        prepare environment' d' s = .error (.told texts) := by
  cases hindent : s.indent with
  | none => simp [prepare, hindent] at h
  | some indent =>
      have hmap := conflicts_eq_map indent s
      have hsome (hne : conflicts indent s ≠ []) : conflictList indent s ≠ [] :=
        fun heq => hne (by rw [hmap, heq, List.map_nil])
      cases hparser : s.parser with
      | some executable =>
          simp only [prepare, hindent, hparser] at h ⊢
          split_ifs at h ⊢ with hne
          cases h
          exact ⟨⟨_, hsome hne, areAll_conflictList hindent (by simp [Violation.Occurs, hparser]),
            hmap⟩, fun _ _ _ => rfl⟩
      | none =>
          have hsame (d' : Disk) (hd' : SameRegisters s d d') := machineOf_congr hd'
          simp only [prepare, hindent, hparser] at h ⊢
          cases hmachine : machineOf d s with
          | ok m =>
              simp only [hmachine] at h
              split_ifs at h with hne
              cases h
              refine ⟨⟨_, hsome hne, areAll_conflictList hindent
                (by simp [Violation.Occurs, hmachine]), hmap⟩, fun _ d' hd' => ?_⟩
              rw [hsame d' hd', hmachine]
              exact if_neg hne
          | error f =>
              simp only [hmachine] at h
              split_ifs at h with hflaw
              · cases h
                refine ⟨⟨_, by simp, areAll_concat hindent ⟨hparser, hmachine⟩, ?_⟩,
                  fun _ d' hd' => ?_⟩
                · rw [List.map_append, hmap]
                  rfl
                · rw [hsame d' hd', hmachine]
                  exact if_pos hflaw
              · cases h

end Prepare

section Run

variable {room : Nat} {environment : Environment} {launch : Launcher} {d : Disk} {s : Settings}

theorem disk_build (hlaunch : ∀ d command, (launch d command).1 = d) (d : Disk) (s : Settings)
    (source : Source) : (build launch d s source).1 = d := by
  cases source with
  | log m => rw [build_log]
  | program e =>
      have hdisk := External.disk_runFile (e := e) hlaunch d s.source
      unfold build
      dsimp only
      split
      · rename_i heq
        rwa [heq] at hdisk
      · rename_i heq
        rw [heq] at hdisk
        split
        · exact hdisk
        · exact hdisk

-- A run is refused, or it ends without a text to print, or it prints one. Where the text goes
-- plays no part before.
theorem run_cases (hlaunch : ∀ d command, (launch d command).1 = d) (room : Nat)
    (environment : Environment) (d : Disk) (s : Settings) :
    (∃ texts, prepare environment d s = .error (.told texts)) ∨
      (∃ status fault complaint, status ≠ some 0 ∧ status ≠ some 2 ∧
        run room environment launch d s = { status, fault, complaint, disk := d }) ∨
      ∃ complaint hasHalf text, ∀ sink, run room environment launch d { s with output := sink } =
        emit { s with output := sink } d complaint hasHalf text := by
  cases hprepare : prepare environment d s with
  | error failure =>
      cases failure with
      | told texts => exact .inl ⟨texts, rfl⟩
      | fault f => exact .inr (.inl ⟨none, some f, "", by simp, by simp, by rw [run, hprepare]⟩)
  | ok source =>
      right
      have hdisk := disk_build hlaunch d s source
      rcases hbuild : build launch d s source with ⟨after, reports, built⟩
      rw [hbuild] at hdisk
      obtain rfl : after = d := hdisk
      cases built with
      | error failure =>
          left
          cases failure with
          | told texts =>
              exact ⟨some 1, none, told s.threshold reports ++ errorLines texts, by simp, by simp,
                by simp only [run, hprepare, hbuild]⟩
          | fault f =>
              exact ⟨none, some f, told s.threshold reports, by simp, by simp,
                by simp only [run, hprepare, hbuild]⟩
      | ok built =>
          cases hdraw : draw room s built.stream with
          | error m =>
              left
              exact ⟨none, some (.misfit m), told s.threshold reports, by simp, by simp,
                by simp only [run, hprepare, hbuild, hdraw]⟩
          | ok drawn =>
              right
              refine ⟨told s.threshold reports ++ told s.threshold (drawn.2.map .notice),
                built.hasHalf, drawn.1, fun sink => ?_⟩
              have hprepare' : prepare environment after { s with output := sink } = .ok source :=
                hprepare
              have hbuild' : build launch after { s with output := sink } source =
                (after, reports, .ok built) := hbuild
              have hdraw' : draw room { s with output := sink } built.stream = .ok drawn := hdraw
              simp only [run, hprepare', hbuild', hdraw']
              rfl

-- A text that is printed goes to one place. One that cannot be encoded goes nowhere, but the file
-- for it may be there.
theorem emit_cases (s : Settings) (d : Disk) (complaint : String) (hasHalf : Bool)
    (text : String) :
    (s.output = some "-" ∧ emit s d complaint hasHalf text =
        { status := some 0, output := text ++ "\n", complaint, disk := d }) ∨
      (∃ fault after, (fault ≠ .unencodable → after = d) ∧ emit s d complaint hasHalf text =
        { status := none, fault := some fault, complaint, disk := after }) ∨
      ∃ name after told, s.output = some name ∧ isEncodable hasHalf text = true ∧
        d.store (.ofString name) text = .ok after ∧ emit s d complaint hasHalf text =
          { status := some 0, output := d.passedOn (.ofString name) .output text
            complaint := told, disk := after } := by
  rw [emit]
  cases hencodable : isEncodable hasHalf text with
  | false =>
      refine .inr (.inl ?_)
      split
      · exact ⟨_, _, fun _ => rfl, rfl⟩
      · dsimp only
        split
        · exact ⟨_, _, fun _ => rfl, rfl⟩
        · exact ⟨_, _, fun h => absurd rfl h, rfl⟩
      · exact ⟨_, _, fun _ => rfl, rfl⟩
  | true =>
      split
      · rename_i hdash
        exact .inl ⟨hdash, rfl⟩
      · rename_i name _ hname
        simp only [if_true]
        split
        · exact .inr (.inl ⟨_, _, fun _ => rfl, rfl⟩)
        · rename_i after hstore
          exact .inr (.inr ⟨name, after, _, hname, trivial, hstore, rfl⟩)
      · exact .inr (.inl ⟨_, _, fun _ => rfl, rfl⟩)

-- Only a text that can be encoded ends a run well, and then a file has it.
theorem emit_sinks (s : Settings) (d : Disk) (complaint : String) (hasHalf : Bool)
    (text : String) :
    let o := emit s d complaint hasHalf text
    (o.status ≠ some 0 → o.output = "" ∧ (o.fault ≠ some .unencodable → o.disk = d)) ∧
      o.status ≠ some 2 ∧
      ∀ name, s.output = some name → name ≠ "-" → o.status = some 0 →
        isEncodable hasHalf text = true ∧
          (d.IsForFile (.ofString name) →
            o.output = "" ∧ o.disk.contents (.ofString name) = .ok (Text.Utf8.ofString text)) := by
  rcases emit_cases s d complaint hasHalf text with
    ⟨hdash, hemit⟩ | ⟨fault, after, hafter, hemit⟩ |
      ⟨name, after, told, hname, hencodable, hstore, hemit⟩
  · rw [hemit]
    refine ⟨fun h => absurd rfl h, by simp, fun name hname hne => ?_⟩
    exact absurd (Option.some.inj (hname.symm.trans hdash)) hne
  · rw [hemit]
    refine ⟨fun _ => ⟨rfl, fun h => hafter fun hfault => h ?_⟩, by simp, by simp⟩
    rw [hfault]
  · rw [hemit]
    refine ⟨fun h => absurd rfl h, by simp, fun other hother _ _ => ⟨hencodable, fun hfile => ?_⟩⟩
    obtain rfl : other = name := Option.some.inj (hother.symm.trans hname)
    exact ⟨Disk.passedOn_of_isForFile hfile _ _, Disk.contents_store hfile hstore⟩

theorem run_of_told {texts : List String}
    (h : prepare environment d s = .error (.told texts)) :
    run room environment launch d s =
      { status := some 2, complaint := errorLines texts, disk := d } := by
  rw [run, h]

end Run

-- Only success prints, and what is printed to the output channel is what a file gets. A refusal
-- names each violation once and comes before the source and the program have been looked at.
theorem main_sinks {room : Nat} {environment : Environment} {launch : Launcher} {d : Disk}
    {words : List String} {s : Settings} (hwords : Options.read grammar {} words = .ok s)
    (hlaunch : ∀ d command, (launch d command).1 = d) :
    let o := main room environment launch d words
    (o.status ≠ some 0 → o.output = "" ∧ (o.fault ≠ some .unencodable → o.disk = d)) ∧
      (o.status = some 2 →
        (∃ vs, vs ≠ [] ∧ AreAll d s vs ∧ o.complaint = errorLines (vs.map (·.message))) ∧
          ∀ room' environment' launch' d', SameRegisters s d d' →
            main room' environment' launch' d' words = { o with disk := d' }) ∧
      ∀ name words', s.output = some name → name ≠ "-" → o.status = some 0 →
        Options.read grammar {} words' = .ok { s with output := some "-" } →
        ∃ text, (main room environment launch d words').status = some 0 ∧
          (main room environment launch d words').output = text ++ "\n" ∧
          (d.IsForFile (.ofString name) →
            o.output = "" ∧ o.disk.contents (.ofString name) = .ok (Text.Utf8.ofString text)) := by
  have hmain (room : Nat) (environment : Environment) (launch : Launcher) (d : Disk) :
      main room environment launch d words = run room environment launch d s := by
    rw [main, hwords]
  simp only [hmain]
  rcases run_cases hlaunch room environment d s with
    ⟨texts, htold⟩ | ⟨status, fault, complaint, hzero, htwo, hrun⟩ | ⟨complaint, hasHalf, text, hrun⟩
  · obtain ⟨⟨vs, hne, hall, rfl⟩, hsame⟩ := prepare_told htold
    rw [run_of_told htold]
    refine ⟨fun _ => ⟨rfl, fun _ => rfl⟩, fun _ => ⟨⟨vs, hne, hall, rfl⟩,
      fun room' environment' launch' d' hd' => run_of_told (hsame environment' d' hd')⟩, ?_⟩
    rintro name words' - - ⟨⟩
  · rw [hrun]
    exact ⟨fun _ => ⟨rfl, fun _ => rfl⟩, fun h => absurd h htwo, fun _ _ _ _ h => absurd h hzero⟩
  · have hself : run room environment launch d s = emit s d complaint hasHalf text := hrun s.output
    obtain ⟨hfail, htwo, hstored⟩ := emit_sinks s d complaint hasHalf text
    rw [hself]
    refine ⟨hfail, fun h => absurd h htwo, fun name words' hname hne hzero hwords' => ?_⟩
    obtain ⟨hencodable, hfile⟩ := hstored name hname hne hzero
    have hdashed : main room environment launch d words' =
        { status := some 0, output := text ++ "\n", complaint, disk := d } := by
      rw [main, hwords']
      exact (hrun (some "-")).trans (by simp only [emit, hencodable, if_true])
    rw [hdashed]
    exact ⟨text, rfl, rfl, hfile⟩

-- A disk with one file in the working directory, and a device.
def withDevice (name : String) (kind : Device) (bytes : Text.Utf8.Bytes) : Disk :=
  { entries := (oneFile bytes).entries ++ [(["dev"], .directory), (["dev", name], .device kind)] }

theorem read_sink {name : String}
    (h : name = "out.json" ∨ name = "/dev/null" ∨ name = "/dev/stdout") :
    Options.read grammar {} ["in.jsonl", "-o", name] =
      .ok { source := "in.jsonl", output := some name } := by
  rcases h with rfl | rfl | rfl
  · cbv
  · cbv
  · cbv

-- An empty log whose tree goes into a new file.
theorem main_sinks_file :
    Options.read grammar {} ["in.jsonl", "-o", "out.json"] =
        .ok { source := "in.jsonl", output := some "out.json" } ∧
      (∀ d command, (Launcher.bare d command).1 = d) ∧
      let s : Settings := { source := "in.jsonl", output := some "out.json" }
      let d := oneFile []
      let words := ["in.jsonl", "-o", "out.json"]
      let o := main 64 [] .bare d words
      (o.status ≠ some 0 → o.output = "" ∧ (o.fault ≠ some .unencodable → o.disk = d)) ∧
        (o.status = some 2 →
          (∃ vs, vs ≠ [] ∧ AreAll d s vs ∧ o.complaint = errorLines (vs.map (·.message))) ∧
            ∀ room' environment' launch' d', SameRegisters s d d' →
              main room' environment' launch' d' words = { o with disk := d' }) ∧
        ∀ name words', s.output = some name → name ≠ "-" → o.status = some 0 →
          Options.read grammar {} words' = .ok { s with output := some "-" } →
          ∃ text, (main 64 [] .bare d words').status = some 0 ∧
            (main 64 [] .bare d words').output = text ++ "\n" ∧
            (d.IsForFile (.ofString name) →
              o.output = "" ∧ o.disk.contents (.ofString name) = .ok (Text.Utf8.ofString text)) :=
  ⟨read_sink (.inl rfl), fun _ _ => rfl, main_sinks (read_sink (.inl rfl)) fun _ _ => rfl⟩

-- The null device takes the tree and keeps nothing of it, and another one prints it.
theorem main_of_device :
    let null := withDevice "null" .null []
    let o := main 64 [] .bare null ["in.jsonl", "-o", "/dev/null"]
    let stdout := withDevice "stdout" .output []
    let p := main 64 [] .bare stdout ["in.jsonl", "-o", "/dev/stdout"]
    (o.status = some 0 ∧ o.disk.contents (.ofString "/dev/null") = .ok [] ∧
      (main 64 [] .bare null ["in.jsonl"]).output = "\x7b\n  \"instructions\": []\n\x7d\n") ∧
      p.status = some 0 ∧ p.output = "\x7b\n  \"instructions\": []\n\x7d" := by
  dsimp only
  rw [main, read_sink (.inr (.inl rfl)), main, read_file, main, read_sink (.inr (.inr rfl))]
  exact ⟨⟨rfl, rfl, rfl⟩, rfl, rfl⟩

end CommandLine.Capture
end Listing
