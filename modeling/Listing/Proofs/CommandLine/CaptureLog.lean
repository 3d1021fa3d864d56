import Listing.CommandLine.Capture
import Listing.Proofs.BlockGraph.Drawing
import Listing.Proofs.Event.LogLines
import Listing.Proofs.Json.Access
import Listing.Proofs.Json.Visible
import Listing.Proofs.Machine
import Listing.Proofs.Stream.Printing

namespace Listing

namespace CommandLine.Capture

-- A log is captured with registers that are built in, for the output channel, and every setting
-- that takes a value has one.
structure Settings.IsForLog (s : Settings) : Prop where
  parser : s.parser = none
  registers : s.registers = ""
  machine : ∃ m, Machine.named s.machine = .ok m
  indent : ∃ n : Int, s.indent = some n ∧ 0 ≤ n
  lineOffset : ∃ n, s.lineOffset = some n
  output : s.output = some "-"

def Settings.writesTree (s : Settings) : Bool :=
  match s.graph with
  | some form => form = .tree
  | none => s.form = .tree

-- A stream or its graph, as the settings want it, can be written.
def CanDraw (s : Settings) (stream : Stream) : Prop :=
  (s.graph ≠ none → ∀ i ∈ stream.instructions, ∀ l ∈ i.labels, ∃ text, l = .str text) ∧
    (s.writesTree = true → Json.Indent.fits s.indent = true)

-- What is wrong with values that no step before had to look at.
def IsLate (m : Misfit) : Prop := m = .wrongType ∨ m = .noOperation ∨ m = .indentTooWide

-- What makes one text wherever there is room for it. Only a tree needs room, and only a tree has
-- nothing in it that could not be encoded.
structure Makes (isTree : Bool) (indent : Json.Indent) (make : Nat → Except Misfit String)
    (text : String) : Prop where
  ok : ∀ room, (isTree = true → indent.HasRoom room text) → make room = .ok text
  full : ∀ room, ¬(isTree = true → indent.HasRoom room text) → make room = .error .outOfMemory
  encodable : isTree = true → Json.replacement ∉ text.toList

theorem Makes.tree {indent : Json.Indent} (hfits : indent.fits = true) (v : Json) :
    Makes true indent (fun room => v.render room indent) (v.write indent) where
  ok _ hroom := Json.render_of_hasRoom hfits (hroom rfl)
  full _ hroom := Json.render_of_not_hasRoom hfits fun h => hroom fun _ => h
  encodable _ := Json.replacement_notMem_write indent v

theorem Makes.lines {isTree : Bool} (hlines : isTree = false) (indent : Json.Indent)
    (text : String) : Makes isTree indent (fun _ => .ok text) text where
  ok _ _ := rfl
  full _ hroom := absurd (by simp [hlines]) hroom
  encodable htree := by simp [hlines] at htree

section Draw

variable {s : Settings} {stream : Stream}

theorem drawGraph_cases {g : BlockGraph} (hg : g.HasTextOpcodes) (form : GraphForm) :
    (form = .tree → Json.Indent.fits s.indent = true) ∧
        (∃ text, Makes (form = .tree) s.indent (drawGraph · s g form) text) ∨
      ¬(form = .tree → Json.Indent.fits s.indent = true) ∧
        ∀ room, drawGraph room s g form = .error .indentTooWide := by
  cases form with
  | dot =>
      obtain ⟨text, htext⟩ := BlockGraph.Dot.render_isOk hg BlockGraph.Dot.defaultTitle
      refine .inl ⟨by simp, text, ?_⟩
      simp only [drawGraph, htext]
      exact .lines rfl _ _
  | mermaid =>
      obtain ⟨text, htext⟩ := BlockGraph.Mermaid.render_isOk hg BlockGraph.Mermaid.defaultTitle
      refine .inl ⟨by simp, text, ?_⟩
      simp only [drawGraph, htext]
      exact .lines rfl _ _
  | tree =>
      obtain ⟨tree, htree⟩ := BlockGraph.toJson_isOk hg
      simp only [drawGraph, BlockGraph.render, htree, ok_bind]
      cases hfits : Json.Indent.fits s.indent with
      | true => exact .inl ⟨fun _ => rfl, _, .tree hfits tree⟩
      | false => exact .inr ⟨by simp, fun room => Json.render_of_not_fits hfits⟩

theorem draw_cases (hoffset : ∃ n, s.lineOffset = some n)
    (hstream : ∀ i ∈ stream.instructions, i.IsText) :
    CanDraw s stream ∧ (∃ make text notices, Makes s.writesTree s.indent make text ∧
        ∀ room, draw room s stream = (make room).map fun t => (t, notices)) ∨
      ¬CanDraw s stream ∧ ∃ m, IsLate m ∧ ∀ room, draw room s stream = .error m := by
  obtain ⟨offset, hoffset⟩ := hoffset
  cases hgraph : s.graph with
  | some form =>
      simp only [CanDraw, Settings.writesTree, draw, hgraph]
      rcases BlockGraph.ofStream_cases fun i hi => (hstream i hi).opcode with
        ⟨hlabels, g, hg, htexts⟩ | ⟨hlabels, m, hm, hg⟩
      · rw [hg]
        rcases drawGraph_cases (s := s) htexts form with ⟨hfits, text, hmakes⟩ | ⟨hfits, htext⟩
        · exact .inl ⟨⟨fun _ => hlabels, by simpa using hfits⟩, _, text, _, hmakes, fun room => rfl⟩
        · refine .inr ⟨fun h => hfits (by simpa using h.2), _, .inr (.inr rfl), fun room => ?_⟩
          simp only [ok_bind, htext]
          rfl
      · refine .inr ⟨fun h => hlabels (h.1 (by simp)), m, hm.imp id .inl, fun room => ?_⟩
        rw [hg]
        rfl
  | none =>
      have hplaced : offsetFor s stream = .ok offset := by rw [offsetFor, hoffset]
      simp only [CanDraw, Settings.writesTree, draw, hgraph, hplaced, ok_bind]
      cases hform : s.form with
      | tree =>
          obtain ⟨tree, htree⟩ := Stream.toJson_isOk hstream offset
          simp only [Stream.render, htree, ok_bind]
          cases hfits : Json.Indent.fits s.indent with
          | true => exact .inl ⟨by simp, _, _, [], .tree hfits tree, fun room => rfl⟩
          | false =>
              refine .inr ⟨by simp, _, .inr (.inr rfl), fun room => ?_⟩
              rw [Json.render_of_not_fits hfits]
              rfl
      | listing =>
          obtain ⟨text, htext⟩ := Stream.listing_isOk hstream offset
          refine .inl ⟨by simp, _, text, [], .lines rfl _ _, fun room => ?_⟩
          rw [htext]
          rfl

end Draw

section Capture

variable {s : Settings} {d : Disk} {m : Machine} {events : List Event}

theorem texts_waitingLabels (printLabels : Bool) (events : List Event) :
    (∀ l ∈ Recorder.waitingLabels printLabels events, ∃ text, l = .str text) ↔
      ∀ e ∈ events.rtakeWhile (!·.isInstruction), e.HasTextLabel := by
  have hlabel (e : Event) : e.HasTextLabel ↔
      ∀ name, e.labelName? = some name → ∃ text, name = .str text := by
    cases e <;> simp [Event.HasTextLabel, Event.labelName?]
  simp only [Recorder.waitingLabels, List.forall_mem_map, List.mem_filterMap,
    Recorder.attachedName_isText, hlabel]
  constructor
  · exact fun h e he name hname => h name ⟨e, he, hname⟩
  · rintro h name ⟨e, he, hname⟩
    exact h e he name hname

-- Labels that wait at the end can be told if they are texts.
theorem closing_cases (r : Recorder) :
    (∀ l ∈ r.pending, ∃ text, l = .str text) ∧
        (∃ q, closing r = (q, .ok ()) ∧ q.stream = r.stream) ∨
      (¬∀ l ∈ r.pending, ∃ text, l = .str text) ∧ ∃ q, closing r = (q, .error .wrongType) := by
  obtain ⟨q, hq, hpending, hstream⟩ : ∃ q : Recorder,
      (if 0 < r.dropped then r.note (.operandsDropped r.dropped) else r) = q ∧
        q.pending = r.pending ∧ q.stream = r.stream := by
    split
    · exact ⟨_, rfl, rfl, rfl⟩
    · exact ⟨_, rfl, rfl, rfl⟩
  simp only [closing, hq, hpending]
  split
  · rename_i hnil
    exact .inl ⟨by simp [hnil], q, rfl, hstream⟩
  · split
    · rename_i texts htexts
      refine .inl ⟨?_, _, rfl, hstream⟩
      simp [Json.texts_of_mapM_str? htexts]
    · rename_i hnone
      refine .inr ⟨fun h => ?_, q, rfl⟩
      obtain ⟨texts, htexts⟩ := Json.exists_map_str h
      rw [htexts, Json.mapM_str?] at hnone
      cases hnone

theorem captureLog_of_fault {bytes : Text.Utf8.Bytes} {notices : List Notice} {f : Fault}
    (hsource : d.contents (.ofString s.source) = .ok bytes)
    (hread : Event.readBytes s.source bytes = (notices, .error f)) (m : Machine) :
    captureLog d s m = (notices.map .notice, .error (ofLogFault s f)) := by
  simp only [captureLog, hsource, hread]

-- Events that a recorder takes up, with labels at the end that can be told.
def CanCapture (s : Settings) (events : List Event) : Prop :=
  (∀ e ∈ events, e.IsAcceptable s.printLabels) ∧
    ∀ e ∈ events.rtakeWhile (!·.isInstruction), e.HasTextLabel

theorem captureLog_events {bytes : Text.Utf8.Bytes} {notices : List Notice}
    (hsource : d.contents (.ofString s.source) = .ok bytes)
    (hread : Event.readBytes s.source bytes = (notices, .ok events)) (hm : m.NamesTexts) :
    CanCapture s events ∧
        (∃ reports stream, captureLog d s m = (reports, .ok stream) ∧
          (∀ i ∈ stream.instructions, i.IsText) ∧
          ((∀ i ∈ stream.instructions, ∀ l ∈ i.labels, ∃ text, l = .str text) ↔
            ∀ e ∈ events, e.HasTextLabel)) ∨
      ¬CanCapture s events ∧
        ∃ reports, captureLog d s m = (reports, .error (.fault (.misfit .wrongType))) := by
  have hnil := Recorder.attached_nil (r := { machine := .orGeneric (some m)
                                             printLabels := s.printLabels
                                             traced := s.isTraced
                                             reports := notices.map .notice }) rfl rfl rfl
  have htable : (Machine.orGeneric (some m)).NamesTexts := Machine.NamesTexts.orGeneric hm
  rcases Recorder.run_cases hnil htable events with
    ⟨hall, r, hrun, htexts, hlabels, hpending⟩ | ⟨hnot, r, hrun⟩
  · have hreplay := Recorder.replay_ofEvents_of_run hrun
    simp only [captureLog, hsource, hread, hreplay]
    have hwaiting : (∀ l ∈ (r.note (.replayed events.length r.stream.size r.dropped)).pending,
        ∃ text, l = .str text) ↔ ∀ e ∈ events.rtakeWhile (!·.isInstruction), e.HasTextLabel := by
      rw [← texts_waitingLabels s.printLabels, ← hpending]
      rfl
    rcases closing_cases (r.note (.replayed events.length r.stream.size r.dropped)) with
      ⟨hpending, q, hclosing, hstream⟩ | ⟨hpending, q, hclosing⟩
    · rw [hclosing]
      refine .inl ⟨⟨hall, hwaiting.mp hpending⟩, q.reports, q.stream, rfl, hstream ▸ htexts, ?_⟩
      rw [← hlabels, hstream]
      exact (and_iff_left hpending).symm
    · rw [hclosing]
      exact .inr ⟨fun h => hpending (hwaiting.mpr h.2), q.reports, rfl⟩
  · have hreplay := Recorder.replay_ofEvents_of_run_error hrun
    refine .inr ⟨fun h => hnot h.1, r.reports, ?_⟩
    simp only [captureLog, hsource, hread, hreplay]
    rfl

end Capture

-- What a log's bytes read as, notices included.
def readingOf (bytes : Text.Utf8.Bytes) : Except Text.Utf8.Fault Event.Reading := do
  return Event.readLog (String.ofList (Text.unifyNewlines (← Text.Utf8.decode bytes)))

theorem readBytes_eq (path : String) (bytes : Text.Utf8.Bytes) :
    Event.readBytes path bytes =
      match readingOf bytes with
      | .error e => ([.readingLog path], .error (.undecodable e))
      | .ok reading => (.readingLog path :: reading.notices,
          match reading.fault with
          | some f => .error f
          | none => .ok reading.events) := by
  rw [Event.readBytes, readingOf]
  cases Text.Utf8.decode bytes with
  | error e => rfl
  | ok cs => rfl

theorem fault_of_readingOf {bytes : Text.Utf8.Bytes} {reading : Event.Reading}
    (h : readingOf bytes = .ok reading) :
    reading.fault = none ∨ (∃ number flaw, reading.fault = some (.line number flaw)) ∨
      reading.fault = some (.misfit .infinityToInteger) := by
  obtain ⟨cs, -, hreading⟩ := bind_eq_ok.mp h
  cases hreading
  exact Event.fault_readLines 1 _

-- Events of which a stream can be captured and told as the settings want it.
structure CanTell (s : Settings) (events : List Event) : Prop where
  opcodes : ∀ e ∈ events, e.HasTextOpcode
  closing : ∀ e ∈ events.rtakeWhile (!·.isInstruction), e.HasTextLabel
  labels : s.printLabels = true ∨ s.graph ≠ none → ∀ e ∈ events, e.HasTextLabel
  indent : s.writesTree = true → Json.Indent.fits s.indent = true

def IsTold (s : Settings) (bytes : Text.Utf8.Bytes) : Prop :=
  ∃ reading, readingOf bytes = .ok reading ∧ reading.fault = none ∧ CanTell s reading.events

-- Bytes with a bad line in them, in which no number is infinite.
def IsRefused (bytes : Text.Utf8.Bytes) : Prop :=
  ∃ reading number flaw, readingOf bytes = .ok reading ∧ reading.fault = some (.line number flaw)

section CanTell

variable {s : Settings} {events : List Event}

theorem CanTell.canCapture (h : CanTell s events) : CanCapture s events :=
  ⟨fun e he => ⟨h.opcodes e he, fun hprint => h.labels (.inl hprint) e he⟩, h.closing⟩

theorem canTell_iff {stream : Stream} (hcapture : CanCapture s events)
    (hlabels : (∀ i ∈ stream.instructions, ∀ l ∈ i.labels, ∃ text, l = .str text) ↔
      ∀ e ∈ events, e.HasTextLabel) : CanTell s events ↔ CanDraw s stream := by
  constructor
  · exact fun h => ⟨fun hgraph => hlabels.mpr (h.labels (.inr hgraph)), h.indent⟩
  · intro h
    refine ⟨fun e he => (hcapture.1 e he).1, hcapture.2, ?_, h.2⟩
    rintro (hprint | hgraph)
    · exact fun e he => (hcapture.1 e he).2 hprint
    · exact hlabels.mp (h.1 hgraph)

end CanTell

-- Faults that no part of a capture takes up.
inductive PassesThrough : Fault → Prop
  | undecodable (e : Text.Utf8.Fault) : PassesThrough (.undecodable e)
  | infinite : PassesThrough (.misfit .infinityToInteger)
  | late {m : Misfit} (h : IsLate m) : PassesThrough (.misfit m)

-- Only a tree needs memory that its text does not show.
def HasSpace (room : Nat) (s : Settings) (text : String) : Prop :=
  s.writesTree = true → Json.Indent.HasRoom room s.indent text

-- How a run ends that has come to a text: it prints the text. But where the log names half of a
-- surrogate pair, a text that is no tree may not be encoded, and where the memory is too small for
-- the indentation or the text of a tree, there is no text.
inductive Prints (room : Nat) (s : Settings) (bytes : Text.Utf8.Bytes) (text : String)
    (o : Outcome) : Prop where
  | whole (space : HasSpace room s text) (status : o.status = some 0) (fault : o.fault = none)
      (output : o.output = text ++ "\n")
  | unencodable (space : HasSpace room s text) (half : holdHalf bytes = true)
      (lines : s.writesTree = false) (status : o.status = none)
      (fault : o.fault = some .unencodable)
  | full (space : ¬HasSpace room s text) (status : o.status = none)
      (fault : o.fault = some (.misfit .outOfMemory))

section Main

variable {environment : Environment} {launch : Launcher} {d : Disk} {words : List String}
  {s : Settings} {bytes : Text.Utf8.Bytes}

theorem prepare_log (hs : s.IsForLog) (environment : Environment) (d : Disk) :
    ∃ m, m.NamesTexts ∧ prepare environment d s = .ok (.log m) := by
  obtain ⟨m, hmachine⟩ := hs.machine
  obtain ⟨n, hindent, hn⟩ := hs.indent
  have hconflicts : conflicts n s = [] := by simp [conflicts, hs.parser, hn]
  refine ⟨m, Machine.namesTexts_of_named hmachine, ?_⟩
  simp only [prepare, hindent, hs.parser, machineOf, hs.registers, hmachine, hconflicts]
  rfl

theorem build_log (launch : Launcher) (d : Disk) (s : Settings) (m : Machine) :
    build launch d s (.log m) = (d, (captureLog d s m).1, (captureLog d s m).2.map fun stream =>
      ⟨stream, fileHoldsHalf d s.source || s.registers ≠ "" && fileHoldsHalf d s.registers⟩) := by
  unfold build
  dsimp only
  rcases captureLog d s m with ⟨reports, failure | stream⟩
  · rfl
  · rfl

-- How a run ends, by what becomes of its log.
theorem main_of_told (launch : Launcher) {m : Machine} {reports : List Report} {texts : List String}
    (hwords : Options.read grammar {} words = .ok s)
    (hprepare : prepare environment d s = .ok (.log m))
    (hcapture : captureLog d s m = (reports, .error (.told texts))) (room : Nat) :
    (main room environment launch d words).status = some 1 ∧
      (main room environment launch d words).fault = none := by
  simp only [main, hwords, run, hprepare, build_log, hcapture, Except.map, and_self]

theorem main_of_fault (launch : Launcher) {m : Machine} {reports : List Report} {f : Fault}
    (hwords : Options.read grammar {} words = .ok s)
    (hprepare : prepare environment d s = .ok (.log m))
    (hcapture : captureLog d s m = (reports, .error (.fault f))) (room : Nat) :
    (main room environment launch d words).status = none ∧
      (main room environment launch d words).fault = some f := by
  simp only [main, hwords, run, hprepare, build_log, hcapture, Except.map, and_self]

theorem fileHoldsHalf_of_contents {name : String} (h : d.contents (.ofString name) = .ok bytes) :
    fileHoldsHalf d name = holdHalf bytes := by
  rw [fileHoldsHalf, h]

-- What is printed to the output channel is printed whole or not at all.
theorem emit_prints {room : Nat} {text : String} (hs : s.IsForLog)
    (hspace : HasSpace room s text)
    (hencodable : s.writesTree = true → Json.replacement ∉ text.toList) (complaint : String) :
    Prints room s bytes text (emit s d complaint (holdHalf bytes) text) := by
  rw [emit, hs.output]
  dsimp only
  split_ifs with h
  · exact .whole hspace rfl rfl rfl
  · have hshown : holdHalf bytes = true ∧ Json.replacement ∈ text.toList := by
      simpa [isEncodable] using h
    refine .unencodable hspace hshown.1 ?_ rfl rfl
    exact Bool.eq_false_iff.mpr fun htree => hencodable htree hshown.2

theorem main_of_stream (launch : Launcher) {m : Machine} {reports : List Report}
    {stream : Stream} (hs : s.IsForLog) (hwords : Options.read grammar {} words = .ok s)
    (hsource : d.contents (.ofString s.source) = .ok bytes)
    (hprepare : prepare environment d s = .ok (.log m))
    (hcapture : captureLog d s m = (reports, .ok stream))
    (htexts : ∀ i ∈ stream.instructions, i.IsText) :
    CanDraw s stream ∧
        (∃ text, ∀ room, Prints room s bytes text (main room environment launch d words)) ∨
      ¬CanDraw s stream ∧ ∃ m, IsLate m ∧ ∀ room,
        (main room environment launch d words).status = none ∧
          (main room environment launch d words).fault = some (.misfit m) := by
  have hhalf : (fileHoldsHalf d s.source || s.registers ≠ "" && fileHoldsHalf d s.registers) =
      holdHalf bytes := by
    rw [fileHoldsHalf_of_contents hsource]
    simp [hs.registers]
  simp only [main, hwords, run, hprepare, build_log, hcapture, Except.map, hhalf]
  rcases draw_cases hs.lineOffset htexts with
    ⟨hdraw, make, text, notices, hmakes, hmade⟩ | ⟨hdraw, m, hm, hmade⟩
  · refine .inl ⟨hdraw, text, fun room => ?_⟩
    by_cases hspace : HasSpace room s text
    · simp only [hmade, hmakes.ok room hspace, Except.map]
      exact emit_prints hs hspace hmakes.encodable _
    · simp only [hmade, hmakes.full room hspace, Except.map]
      exact .full hspace rfl rfl
  · refine .inr ⟨hdraw, m, hm, fun room => ?_⟩
    simp only [hmade, and_self]

-- A log whose bytes are a text and whose records are sound comes to a text, one with a bad line
-- ends with a status of one. Else a fault passes through: bytes that are no text, an infinite
-- number, names or opcodes that are no texts where one is needed, or an indentation beyond a
-- machine word.
theorem main_log (hwords : Options.read grammar {} words = .ok s) (hs : s.IsForLog)
    (hsource : d.contents (.ofString s.source) = .ok bytes) :
    let o (room : Nat) := main room environment launch d words
    (IsTold s bytes ∧ ∃ text, ∀ room, Prints room s bytes text (o room)) ∨
      (IsRefused bytes ∧ ∀ room, (o room).status = some 1 ∧ (o room).fault = none) ∨
      ¬IsTold s bytes ∧ ¬IsRefused bytes ∧ ∃ f, PassesThrough f ∧
        ∀ room, (o room).status = none ∧ (o room).fault = some f := by
  obtain ⟨m, hm, hprepare⟩ := prepare_log hs environment d
  have hbytes := readBytes_eq s.source bytes
  cases hread : readingOf bytes with
  | error e =>
      rw [hread] at hbytes
      exact .inr (.inr ⟨by simp [IsTold, hread], by simp [IsRefused, hread], _, .undecodable e,
        main_of_fault launch hwords hprepare (captureLog_of_fault hsource hbytes m)⟩)
  | ok reading =>
      have htold : IsTold s bytes ↔ reading.fault = none ∧ CanTell s reading.events := by
        simp [IsTold, hread]
      have hrefused : IsRefused bytes ↔
          ∃ number flaw, reading.fault = some (.line number flaw) := by
        simp [IsRefused, hread]
      rw [hread] at hbytes
      rcases fault_of_readingOf hread with hfault | ⟨number, flaw, hfault⟩ | hfault
      · simp only [hfault] at hbytes
        simp only [htold, hrefused, hfault, true_and]
        rcases captureLog_events hsource hbytes hm with
          ⟨hcan, reports, stream, hcapture, htexts, hlabels⟩ | ⟨hcan, reports, hcapture⟩
        · rw [canTell_iff hcan hlabels]
          rcases main_of_stream launch hs hwords hsource hprepare hcapture htexts with
            hprinted | ⟨hdraw, m, hm, hend⟩
          · exact .inl hprinted
          · exact .inr (.inr ⟨hdraw, by simp, _, .late hm, hend⟩)
        · exact .inr (.inr ⟨fun h => hcan h.canCapture, by simp, _, .late (.inl rfl),
            main_of_fault launch hwords hprepare hcapture⟩)
      · simp only [hfault] at hbytes
        exact .inr (.inl ⟨hrefused.mpr ⟨number, flaw, hfault⟩,
          main_of_told launch hwords hprepare (captureLog_of_fault hsource hbytes m)⟩)
      · simp only [hfault] at hbytes
        exact .inr (.inr ⟨by simp [htold, hfault], by simp [hrefused, hfault], _, .infinite,
          main_of_fault launch hwords hprepare (captureLog_of_fault hsource hbytes m)⟩)

end Main

-- A disk with one file in the working directory.
def oneFile (bytes : Text.Utf8.Bytes) : Disk :=
  { entries := [([], .directory), (["home"], .directory),
      (["home", "in.jsonl"], .file bytes false)] }

theorem read_file : Options.read grammar {} ["in.jsonl"] = .ok { source := "in.jsonl" } := by
  have hmark : Options.markAll grammar ["in.jsonl"] = .ok [("in.jsonl", .argument)] := rfl
  rw [Options.read, hmark, Options.liftProblem, ok_bind, Options.consume, Options.consume]
  · rfl
  · simp

theorem isForLog_file : ({ source := "in.jsonl" } : Settings).IsForLog where
  parser := rfl
  registers := rfl
  machine := ⟨.generic, rfl⟩
  indent := ⟨2, rfl, by decide⟩
  lineOffset := ⟨1, rfl⟩
  output := rfl

-- One byte that is no text.
theorem main_log_byte :
    Options.read grammar {} ["in.jsonl"] = .ok { source := "in.jsonl" } ∧
      ({ source := "in.jsonl" } : Settings).IsForLog ∧
      (oneFile [0xff]).contents (.ofString "in.jsonl") = .ok [0xff] ∧
      let o (room : Nat) := main room [] .bare (oneFile [0xff]) ["in.jsonl"]
      (IsTold { source := "in.jsonl" } [0xff] ∧
          ∃ text, ∀ room, Prints room { source := "in.jsonl" } [0xff] text (o room)) ∨
        (IsRefused [0xff] ∧ ∀ room, (o room).status = some 1 ∧ (o room).fault = none) ∨
        ¬IsTold { source := "in.jsonl" } [0xff] ∧ ¬IsRefused [0xff] ∧ ∃ f, PassesThrough f ∧
          ∀ room, (o room).status = none ∧ (o room).fault = some f :=
  ⟨read_file, isForLog_file, rfl, main_log read_file isForLog_file rfl⟩

-- Its fault is what is left of the run, which has no status, however large the memory is.
theorem main_of_byte :
    ({ source := "in.jsonl" } : Settings).IsForLog ∧
      Options.read grammar {} ["in.jsonl"] = .ok { source := "in.jsonl" } ∧
      (oneFile [0xff]).contents (.ofString "in.jsonl") = .ok [0xff] ∧
      ∀ room, (main room [] .bare (oneFile [0xff]) ["in.jsonl"]).status = none ∧
        (main room [] .bare (oneFile [0xff]) ["in.jsonl"]).fault =
          some (.undecodable ⟨0xff, 0, 1, .invalidStart⟩) := by
  refine ⟨isForLog_file, read_file, rfl, fun room => ?_⟩
  rw [main, read_file]
  exact ⟨rfl, rfl⟩

end CommandLine.Capture
end Listing
