import Listing.Proofs.BlockGraph.Pieces
import Listing.Proofs.CommandLine.ExportSteps
import Listing.Proofs.Disk
import Listing.Proofs.Event.Foreign

namespace Listing.CommandLine.Export

section Files

variable {machine : Option String} {source : String} {bytes : Text.Utf8.Bytes}
  {files : List (String × String)}

-- Of what is no log nothing is exported.
theorem not_isForeign_of_filesOf (h : filesOf machine source bytes = .ok files) :
    ¬Event.IsForeign bytes := by
  intro hforeign
  obtain ⟨fault, hfault⟩ := hforeign source
  simp only [filesOf, bind_eq_ok] at h
  obtain ⟨m, -, r, hr, -⟩ := h
  rw [Recorder.captureFile] at hr
  split at hr
  · cases hr
  · rename_i heq
    rw [heq] at hfault
    cases hfault

theorem stream_mem_filesOf (h : filesOf machine source bytes = .ok files) :
    ∃ tree, ("stream.json", tree) ∈ files := by
  simp only [filesOf, bind_eq_ok] at h
  obtain ⟨_, -, _, -, _, -, tree, -, _, -, _, -, _, -, hfiles⟩ := h
  cases hfiles
  exact ⟨_, List.mem_cons_self⟩

theorem isForeign_write (field : String × Json) (fields : List (String × Json))
    (indent : Int) :
    Event.IsForeign (Text.Utf8.ofString ((Json.obj (field :: fields)).write (some indent))) := by
  refine Event.isForeign_ofString (Event.readLog_of_brace ?_)
  rw [Json.write, String.toList_ofList, Json.writeAt]
  exact ⟨_, rfl⟩

theorem isForeign_of_lines {line : String} {lines : List String} {c : Char}
    (hline : line.toList.head? = some c) (hblank : Text.isBlank c = false) (hcomment : c ≠ '#')
    (hbrace : c ≠ '{') :
    Event.IsForeign (Text.Utf8.ofString ("\n".intercalate (line :: lines) ++ "\n")) := by
  refine Event.isForeign_ofString (Event.readLog_of_head (c := c) ?_ hblank hcomment hbrace)
  obtain ⟨cs, hcs⟩ := List.head?_eq_some_iff.mp hline
  rw [BlockGraph.toList_lines (List.cons_ne_nil line lines), List.map_cons, List.flatMap_cons, hcs]
  rfl

-- What is exported is itself no log.
theorem isForeign_of_mem_filesOf (h : filesOf machine source bytes = .ok files)
    {name text : String} (hfile : (name, text) ∈ files) :
    Event.IsForeign (Text.Utf8.ofString text) := by
  simp only [filesOf, bind_eq_ok, lift_eq_ok] at h
  obtain ⟨m, -, r, -, g, -, tree, htree, dot, hdot, graph, hgraph, mermaid, hmermaid, hfiles⟩ := h
  cases hfiles
  simp only [List.mem_cons, Prod.mk.injEq, List.not_mem_nil, or_false] at hfile
  rcases hfile with ⟨-, rfl⟩ | ⟨-, rfl⟩ | ⟨-, rfl⟩ | ⟨-, rfl⟩
  · obtain ⟨trees, -, htree⟩ := bind_eq_ok.mp htree
    rw [← pure_eq_ok.mp htree]
    exact isForeign_write _ _ _
  · obtain ⟨edges, -, hdot⟩ := bind_eq_ok.mp hdot
    rw [← pure_eq_ok.mp hdot]
    exact isForeign_of_lines (c := 'd') rfl rfl (by decide) (by decide)
  · obtain ⟨trees, -, hgraph⟩ := bind_eq_ok.mp hgraph
    rw [← pure_eq_ok.mp hgraph]
    exact isForeign_write _ _ _
  · obtain ⟨edges, -, hmermaid⟩ := bind_eq_ok.mp hmermaid
    rw [← pure_eq_ok.mp hmermaid]
    exact isForeign_of_lines (c := '-') rfl rfl (by decide) (by decide)

end Files

def fileNames : List String :=
  ["stream.json", "labels.dot", "labels.svg", "labels.json", "labels.mmd"]

-- No device has the name of a file that is written.
def HasPlainDevices (d : Disk) : Prop :=
  ∀ place kind, d.entry? place = some (.device kind) →
    ∀ name ∈ fileNames, place.getLast? ≠ some name

theorem HasPlainDevices.changes {d d' : Disk} {written : List String → Text.Utf8.Bytes → Prop}
    (h : HasPlainDevices d) (hd : d.Changes d' written) : HasPlainDevices d' :=
  fun place kind hplace => h place kind (hd.device hplace)

-- A directory that files can be put in, whatever happens to others.
structure IsOpen (d : Disk) (p : Path) (place : List String) : Prop where
  found : d.locate p = .ok (place, some .directory)
  devices : HasPlainDevices d

theorem IsOpen.changes {d d' : Disk} {p : Path} {place : List String}
    {written : List String → Text.Utf8.Bytes → Prop} (h : IsOpen d p place)
    (hd : d.Changes d' written) : IsOpen d' p place :=
  ⟨hd.keeps.locate_directory h.found, h.devices.changes hd⟩

-- What is relied on of a drawing program: it leaves alone what is there, but for the image, which
-- is a document that begins with a tag.
def Draws (launch : Launcher) : Prop :=
  ∀ (d : Disk) dot image, d.Changes (launch d (drawing dot image)).1 fun place content =>
    (∃ found, d.locate image = .ok (place, found)) ∧ content.head? = some 60

-- A name that stands for no place of its own below a directory.
def IsDots (name : String) : Prop := name = "" ∨ name = "." ∨ name = ".."

instance (name : String) : Decidable (IsDots name) := inferInstanceAs (Decidable (_ ∨ _ ∨ _))

-- A name that stands for a file of its own in any directory.
def IsFileName (name : String) : Prop := '/' ∉ name.toList ∧ ¬IsDots name

instance (name : String) : Decidable (IsFileName name) := inferInstanceAs (Decidable (_ ∧ _))

-- Files with some names in one directory, none of which is a log.
def WritesIn (place names q : List String) (content : Text.Utf8.Bytes) : Prop :=
  (∃ name ∈ names, q = place ++ [name]) ∧ Event.IsForeign content

section Folder

variable {d d' : Disk} {p : Path} {place : List String} {names : List String} {name text : String}
  {content : Text.Utf8.Bytes}

-- Writing one file and then others is writing all of them.
theorem changes_cons {d'' : Disk} (h : d.Changes d' (WritesIn place [name]))
    (h' : d'.Changes d'' (WritesIn place names)) :
    d.Changes d'' (WritesIn place (name :: names)) := by
  refine (h.mono ?_).trans (h'.mono ?_)
  · rintro q content ⟨⟨other, hother, hat⟩, hforeign⟩
    obtain rfl := List.mem_singleton.mp hother
    exact ⟨⟨other, List.mem_cons_self, hat⟩, hforeign⟩
  · rintro q content ⟨⟨other, hother, hat⟩, hforeign⟩
    exact ⟨⟨other, List.mem_cons_of_mem _ hother, hat⟩, hforeign⟩

-- A name without a slash leads to a place of its own, unless it is one of dots.
theorem locate_inside (hp : p.IsNormal) (hname : '/' ∉ name.toList)
    (hplace : d.locate p = .ok (place, some .directory)) {x : List String × Option Entry}
    (h : d.locate (inside p name) = .ok x) :
    IsDots name ∧ x.1.length ≤ place.length ∨ ¬IsDots name ∧ x.1 = place ++ [name] := by
  rw [inside, Path.append_ofString p hname] at h
  split_ifs at h with hhere
  · obtain rfl := Except.ok.inj (hplace.symm.trans h)
    exact .inl ⟨hhere.imp_right .inl, le_rfl⟩
  · obtain ⟨hempty, hdot⟩ := not_or.mp hhere
    have hthere := Disk.locate_concat hp ⟨hempty, hdot, hname⟩ hplace h
    by_cases hup : name = ".."
    · rw [if_pos hup] at hthere
      exact .inl ⟨.inr (.inr hup), by simp [hthere]⟩
    · rw [if_neg hup] at hthere
      exact .inr ⟨by simp [IsDots, hempty, hdot, hup], hthere⟩

theorem isFileName_of_mem (hname : name ∈ fileNames) : IsFileName name := by
  have hall : ∀ name ∈ fileNames, IsFileName name := by decide
  exact hall name hname

theorem locate_file (hp : p.IsNormal) (hname : name ∈ fileNames)
    (hplace : d.locate p = .ok (place, some .directory)) {x : List String × Option Entry}
    (h : d.locate (inside p name) = .ok x) : x.1 = place ++ [name] := by
  obtain ⟨hslash, hdots⟩ := isFileName_of_mem hname
  rcases locate_inside hp hslash hplace h with ⟨hname, -⟩ | ⟨-, hthere⟩
  · exact absurd hname hdots
  · exact hthere

theorem store_inside (hp : p.IsNormal) (hname : name ∈ fileNames)
    (hopen : IsOpen d p place) (hforeign : Event.IsForeign (Text.Utf8.ofString text))
    (h : d.store (inside p name) text = .ok d') :
    d.Changes d' (WritesIn place [name]) ∧
      d'.Held (inside p name) (place ++ [name]) (Text.Utf8.ofString text) := by
  have hthere {x : List String × Option Entry} (hx : d.locate (inside p name) = .ok x) :
      x.1 = place ++ [name] := locate_file hp hname hopen.found hx
  have hfile : ∀ q kind, d.locate (inside p name) ≠ .ok (q, some (.device kind)) := by
    intro q kind hq
    obtain rfl : q = place ++ [name] := hthere hq
    exact hopen.devices _ kind (Disk.entry?_of_locate hq) name hname (by simp)
  obtain ⟨q, found, hlocate, hheld⟩ := Disk.held_store hfile h
  obtain rfl : q = place ++ [name] := hthere hlocate
  refine ⟨(Disk.changes_store h).mono ?_, hheld⟩
  rintro q content ⟨⟨found', hfound'⟩, rfl⟩
  exact ⟨⟨name, List.mem_singleton_self name, hthere hfound'⟩, hforeign⟩

theorem draw_inside {launch : Launcher} {s : Settings} (hp : p.IsNormal)
    (hlaunch : s.isDrawn = true → Draws launch) (hopen : IsOpen d p place) :
    d.Changes (drawn launch s p d) (WritesIn place ["labels.svg"]) := by
  rw [drawn]
  split_ifs with hdrawn
  · refine (hlaunch hdrawn d _ _).mono ?_
    rintro q content ⟨⟨found, hfound⟩, htag⟩
    exact ⟨⟨_, List.mem_singleton_self _, locate_file hp (by decide) hopen.found hfound⟩,
      Event.isForeign_of_tag htag⟩
  · exact .refl _ _

-- What is written beside a file leaves it alone.
theorem held_beside (h : d.Held p (place ++ [name]) content)
    (hd : d.Changes d' (WritesIn place names)) (hname : name ∉ names) :
    d'.Held p (place ++ [name]) content := by
  refine h.changes hd ?_
  rintro written ⟨⟨other, hother, hat⟩, -⟩
  obtain rfl : name = other := by simpa using hat
  exact hname hother

end Folder

section Run

variable {launch : Launcher} {s : Settings} {directory : Path} {source : String}
  {sources : List String} {c c' : Console} {u : Unit}

theorem isNormal_folder (hdirectory : directory.IsNormal) (source : String) :
    (folder directory source).IsNormal := by
  rw [folder, inside]
  exact hdirectory.append (Path.notMem_stem source)

-- What one log leaves: its files in its directory, and nothing else but what is no log there.
theorem exportOne_changes (hdirectory : directory.IsNormal)
    (hlaunch : s.isDrawn = true → Draws launch) (hdevices : HasPlainDevices c.disk)
    (h : exportOne launch s directory source c = .ok u c') :
    ∃ place read bytes files, c.disk.Changes read (fun _ => Event.IsForeign) ∧
      read.contents (.ofString source) = .ok bytes ∧
      filesOf s.machine source bytes = .ok files ∧
      c'.disk.locate (folder directory source) = .ok (place, some .directory) ∧
      c.disk.Changes c'.disk (WritesIn place fileNames) ∧
      ∀ file ∈ files, c'.disk.Held (inside (folder directory source) file.1) (place ++ [file.1])
        (Text.Utf8.ofString file.2) := by
  have hp := isNormal_folder hdirectory source
  obtain ⟨made, bytes, tree, dot, graph, mermaid, d₁, d₂, d₃, hmake, hbytes, hfiles, htree, hdot,
    hgraph, hmermaid⟩ := exportOne_ok h
  have hforeign (name text : String) (hfile : (name, text) ∈ [("stream.json", tree),
      ("labels.dot", dot), ("labels.json", graph), ("labels.mmd", mermaid)]) :=
    isForeign_of_mem_filesOf hfiles hfile
  obtain ⟨hmade, place, hplace⟩ := Disk.make_ok hmake
  have hopen : IsOpen made (folder directory source) place := ⟨hplace, hdevices.changes hmade⟩
  obtain ⟨hchanges₁, hheld₁⟩ := store_inside hp (by decide) hopen
    (hforeign "stream.json" tree (by simp)) htree
  have hopen₁ := hopen.changes hchanges₁
  obtain ⟨hchanges₂, hheld₂⟩ := store_inside hp (by decide) hopen₁
    (hforeign "labels.dot" dot (by simp)) hdot
  have hopen₂ := hopen₁.changes hchanges₂
  have hchanges := draw_inside hp hlaunch hopen₂
  have hopen₂' := hopen₂.changes hchanges
  obtain ⟨hchanges₃, hheld₃⟩ := store_inside hp (by decide) hopen₂'
    (hforeign "labels.json" graph (by simp)) hgraph
  have hopen₃ := hopen₂'.changes hchanges₃
  obtain ⟨hchanges₄, hheld₄⟩ := store_inside hp (by decide) hopen₃
    (hforeign "labels.mmd" mermaid (by simp)) hmermaid
  -- what is written after each of the files
  have hlast := changes_cons hchanges₃ hchanges₄
  have hdrawn := changes_cons hchanges hlast
  have hdotted := changes_cons hchanges₂ hdrawn
  have hread : c.disk.Changes made fun _ => Event.IsForeign := hmade.mono fun _ _ h => h.elim
  have hall : c.disk.Changes c'.disk (WritesIn place fileNames) :=
    (hmade.mono fun _ _ h => h.elim).trans (changes_cons hchanges₁ hdotted)
  refine ⟨place, made, bytes, _, hread, hbytes, hfiles, (hopen₃.changes hchanges₄).found, hall, ?_⟩
  simp only [List.forall_mem_cons, List.not_mem_nil, false_imp_iff, implies_true, and_true]
  exact ⟨held_beside hheld₁ hdotted (by decide),
    held_beside hheld₂ hdrawn (by decide), held_beside hheld₃ hchanges₄ (by decide), hheld₄⟩

-- Two logs whose files go to the same place.
def Shares (d : Disk) (directory : Path) (a b : String) : Prop :=
  d.locate (folder directory a) = d.locate (folder directory b)

-- What some logs leave: nothing but files that are no logs, in the directories of the logs. The
-- files of a log are there unless those of a later one were written to the same place.
theorem exportAll_changes (hdirectory : directory.IsNormal)
    (hlaunch : s.isDrawn = true → Draws launch) (hdevices : HasPlainDevices c.disk)
    (h : exportAll launch s directory sources c = .ok u c') :
    c.disk.Changes c'.disk (fun q content => ∃ source ∈ sources, ∃ place,
        c'.disk.locate (folder directory source) = .ok (place, some .directory) ∧
          WritesIn place fileNames q content) ∧
      ∀ before source after, sources = before ++ source :: after →
        ∃ read bytes files, c.disk.Changes read (fun _ => Event.IsForeign) ∧
          read.contents (.ofString source) = .ok bytes ∧
          filesOf s.machine source bytes = .ok files ∧
          (∃ x, c'.disk.locate (folder directory source) = .ok x) ∧
          ((∀ later ∈ after, ¬Shares c'.disk directory later source) →
            ∀ file ∈ files, c'.disk.contents (inside (folder directory source) file.1) =
              .ok (Text.Utf8.ofString file.2)) := by
  -- on the logs that are left, from whatever the ones before them made of the disk
  induction sources generalizing c with
  | nil =>
      obtain ⟨-, rfl⟩ := pure_ok.mp h
      exact ⟨.refl _ _, by simp⟩
  | cons first rest ih =>
      simp only [exportAll, bind_ok] at h
      obtain ⟨_, c₁, hsay, _, c₂, hfirst, hrest⟩ := h
      have hsaid := disk_of_say hsay
      obtain ⟨place, read, bytes, files, hread, hbytes, hfiles, hplace, hchanges, hheld⟩ :=
        exportOne_changes hdirectory hlaunch (hsaid ▸ hdevices) hfirst
      rw [hsaid] at hread hchanges
      obtain ⟨hlater, hcuts⟩ := ih (hdevices.changes hchanges) hrest
      have hplace' := hlater.keeps.locate_directory hplace
      refine ⟨(hchanges.mono fun _ _ h => ⟨first, List.mem_cons_self, place, hplace', h⟩).trans
        (hlater.mono fun _ _ ⟨source, hsource, h⟩ => ⟨source, List.mem_cons_of_mem _ hsource, h⟩),
        ?_⟩
      intro before source after hcut
      cases before with
      | nil =>
          -- a file of the first log can only be lost to a later log in the same directory
          obtain ⟨rfl, rfl⟩ := List.cons.inj hcut
          refine ⟨read, bytes, files, hread, hbytes, hfiles, ⟨_, hplace'⟩, ?_⟩
          intro hlast file hfile
          refine ((hheld file hfile).changes hlater ?_).contents
          rintro content ⟨later, hmem, other, hother, ⟨name, -, hat⟩, -⟩
          obtain rfl : place = other := (List.append_inj' hat rfl).1
          exact hlast later hmem (hother.trans hplace'.symm)
      | cons b before =>
          obtain ⟨rfl, rfl⟩ := List.cons.inj hcut
          obtain ⟨read, bytes, files, hread, hrest⟩ := hcuts before source after rfl
          exact ⟨read, bytes, files, (hchanges.mono fun _ _ h => h.2).trans hread, hrest⟩

end Run

-- The directories of two logs are one if the logs have one stem, or both have stems of dots.
theorem stem_of_shares {d : Disk} {directory : Path} {place : List String} {a b : String}
    (hdirectory : directory.IsNormal) (hplace : d.locate directory = .ok (place, some .directory))
    (hthere : ∃ x, d.locate (folder directory a) = .ok x) (h : Shares d directory a b) :
    (Path.ofString a).stem = (Path.ofString b).stem ∨
      IsDots (Path.ofString a).stem ∧ IsDots (Path.ofString b).stem := by
  obtain ⟨x, ha⟩ := hthere
  have hb : d.locate (folder directory b) = .ok x := h.symm.trans ha
  rcases locate_inside hdirectory (Path.notMem_stem a) hplace ha with
    ⟨hdots, hlength⟩ | ⟨hdots, hx⟩
  · rcases locate_inside hdirectory (Path.notMem_stem b) hplace hb with
      ⟨hdots', -⟩ | ⟨-, hx'⟩
    · exact .inr ⟨hdots, hdots'⟩
    · rw [hx', List.length_append, List.length_singleton] at hlength
      omega
  · rcases locate_inside hdirectory (Path.notMem_stem b) hplace hb with
      ⟨-, hlength⟩ | ⟨-, hx'⟩
    · rw [hx, List.length_append, List.length_singleton] at hlength
      omega
    · exact .inl (by simpa using hx.symm.trans hx')

-- What there is of the logs once all are exported: the files of every log whose directory no later
-- log went into. Only logs of one stem go into one directory, or logs with stems of dots.
structure Exported (d after : Disk) (s : Settings) (directory : Path) : Prop where
  files : ∀ before source rest, s.sources = before ++ source :: rest →
    (∀ later ∈ rest, ¬Shares after directory later source) →
    ∃ bytes files, d.contents (.ofString source) = .ok bytes ∧
      filesOf s.machine source bytes = .ok files ∧
      ∀ file ∈ files, after.contents (inside (folder directory source) file.1) =
        .ok (Text.Utf8.ofString file.2)
  stems : ∀ a ∈ s.sources, ∀ b ∈ s.sources, Shares after directory a b →
    (Path.ofString a).stem = (Path.ofString b).stem ∨
      IsDots (Path.ofString a).stem ∧ IsDots (Path.ofString b).stem

section Main

variable {launch : Launcher} {d : Disk} {s : Settings}

theorem run_exported (hlaunch : s.isDrawn = true → Draws launch) (hdevices : HasPlainDevices d)
    (hsources : ∀ source ∈ s.sources, ∃ bytes, d.contents (.ofString source) = .ok bytes)
    (hend : (run launch d s).fault = none) :
    ∃ name, s.directory = some name ∧ Exported d (run launch d s).disk s (.ofString name) := by
  obtain ⟨name, c, c', hname, hmake, hall, hdisk⟩ := run_ok hend
  have hdirectory := Path.isNormal_ofString name
  obtain ⟨hmade, place, hplace⟩ := Disk.make_ok hmake
  obtain ⟨hchanges, hcuts⟩ := exportAll_changes hdirectory hlaunch (hdevices.changes hmade) hall
  rw [hdisk]
  refine ⟨name, hname, fun before source rest hcut hlast => ?_, fun a ha b hb hshares => ?_⟩
  · obtain ⟨read, bytes, files, hread, hbytes, hfiles, -, hheld⟩ := hcuts before source rest hcut
    obtain ⟨first, hfirst⟩ := hsources source (by simp [hcut])
    refine ⟨bytes, files, ?_, hfiles, hheld hlast⟩
    -- what was written over a log is no log, and could not have been exported
    rcases ((hmade.mono fun _ _ h => h.elim).trans hread).contents hfirst with
      hsame | ⟨_, content, hforeign, hover⟩
    · rw [hfirst, Except.ok.inj (hsame.symm.trans hbytes)]
    · obtain rfl : content = bytes := Except.ok.inj (hover.symm.trans hbytes)
      exact absurd hforeign (not_isForeign_of_filesOf hfiles)
  · obtain ⟨before, rest, hcut⟩ := List.append_of_mem ha
    obtain ⟨_, _, _, -, -, -, hthere, -⟩ := hcuts before a rest hcut
    exact stem_of_shares hdirectory (hchanges.keeps.locate_directory hplace) hthere hshares

-- A run that ends well has exported the logs that there were.
theorem main_files {words : List String} (hwords : Options.read grammar {} words = .ok s)
    (hlaunch : s.isDrawn = true → Draws launch) (hdevices : HasPlainDevices d)
    (hsources : ∀ source ∈ s.sources, ∃ bytes, d.contents (.ofString source) = .ok bytes)
    (hend : (main launch d words).fault = none) :
    ∃ name, s.directory = some name ∧ Exported d (main launch d words).disk s (.ofString name) := by
  have hmain : main launch d words = run launch d s := by rw [main, hwords]
  rw [hmain] at hend ⊢
  exact run_exported hlaunch hdevices hsources hend

end Main

-- A drawing program that puts a small image where it is asked to.
def draftsman : Launcher := fun d command =>
  match command.words with
  | [_, _, _, _, image] =>
    match d.store { parts := [image] } "<svg/>" with
    | .ok drawn => (drawn, .finished {})
    | .error _ => (d, .finished { status := 1 })
  | _ => (d, .refused .noSuchFile)

theorem draws_draftsman : Draws draftsman := by
  intro d dot image
  simp only [draftsman, drawing]
  cases hstore : d.store { parts := [image.toString] } "<svg/>" with
  | ok drawn =>
      refine (Disk.changes_store hstore).mono ?_
      rintro q content ⟨hplace, rfl⟩
      exact ⟨hplace, rfl⟩
  | error fault => exact .refl _ _

-- One instruction.
def oneLine : Text.Utf8.Bytes :=
  Text.Utf8.ofString "\x7b\"event\": \"instruction\", \"opcode\": \"q\"\x7d"

-- A disk with two logs of one name. The first is empty, and the second has an instruction.
def twins : Disk :=
  { home := []
    entries := [([], .directory), (["a"], .directory), (["a", "x"], .file [] false),
      (["b"], .directory), (["b", "x"], .file oneLine false)] }

def twinSettings : Settings :=
  { sources := ["a/x", "b/x"], directory := some "o", isDrawn := true }

def twinWords : List String := ["--sources", "a/x", "b/x", "-o", "o", "--render-svg"]

theorem read_twins : Options.read grammar {} twinWords = .ok twinSettings := by
  cbv

theorem fault_twins : (run draftsman twins twinSettings).fault = none := by
  decide +kernel

theorem hasPlainDevices_twins : HasPlainDevices twins := by
  intro place kind hplace
  have hmem := Disk.mem_of_entry? hplace
  simp [twins] at hmem

theorem contents_twins :
    ∀ source ∈ twinSettings.sources, ∃ bytes, twins.contents (.ofString source) = .ok bytes := by
  simp only [twinSettings, List.forall_mem_cons, List.not_mem_nil, false_imp_iff, implies_true,
    and_true]
  exact ⟨⟨_, rfl⟩, ⟨_, rfl⟩⟩

theorem main_files_twins :
    Options.read grammar {} twinWords = .ok twinSettings ∧ Draws draftsman ∧ HasPlainDevices twins ∧
      (∀ source ∈ twinSettings.sources, ∃ bytes, twins.contents (.ofString source) = .ok bytes) ∧
      (main draftsman twins twinWords).fault = none ∧
      ∃ name, twinSettings.directory = some name ∧
        Exported twins (main draftsman twins twinWords).disk twinSettings (.ofString name) := by
  have hend : (main draftsman twins twinWords).fault = none := by
    rw [main, read_twins]
    exact fault_twins
  exact ⟨read_twins, draws_draftsman, hasPlainDevices_twins, contents_twins, hend,
    main_files read_twins (fun _ => draws_draftsman) hasPlainDevices_twins contents_twins hend⟩

-- The tree of a stream without instructions.
def emptyTree : String := "\x7b\n  \"instructions\": []\n\x7d"

theorem emptyTree_notMem_oneLine :
    ("stream.json", emptyTree) ∉ (filesOf (some "generic") "b/x" oneLine).toOption.getD [] := by
  decide +kernel

theorem inside_twins :
    inside (folder (.ofString "o") "b/x") "stream.json" = .ofString "o/x/stream.json" := by
  decide +kernel

-- The files of the second log are there, and its tree is another one.
theorem contents_run_twins :
    (run draftsman twins twinSettings).disk.contents (.ofString "o/x/stream.json") ≠
      .ok (Text.Utf8.ofString emptyTree) := by
  intro hempty
  obtain ⟨name, hname, hexported⟩ := run_exported (fun _ => draws_draftsman) hasPlainDevices_twins
    contents_twins fault_twins
  obtain rfl : "o" = name := Option.some.inj hname
  obtain ⟨bytes, files, hbytes, hfiles, hheld⟩ := hexported.files ["a/x"] "b/x" [] rfl (by simp)
  obtain rfl : oneLine = bytes := Except.ok.inj hbytes
  obtain ⟨tree, hstream⟩ := stream_mem_filesOf hfiles
  have htree := hheld _ hstream
  rw [inside_twins, hempty] at htree
  obtain rfl : emptyTree = tree := Text.Utf8.ofString_injective (Except.ok.inj htree)
  have hgeneric : filesOf (some "generic") "b/x" oneLine = .ok files := hfiles
  refine emptyTree_notMem_oneLine ?_
  rw [hgeneric]
  exact hstream

-- What the first log is exported as is gone, though its export went well.
theorem main_of_twins :
    let o := main draftsman twins twinWords
    o.fault = none ∧ twins.contents (.ofString "a/x") = .ok [] ∧
      (∃ files, filesOf (some "generic") "a/x" [] = .ok (("stream.json", emptyTree) :: files)) ∧
      o.disk.contents (.ofString "o/x/stream.json") ≠ .ok (Text.Utf8.ofString emptyTree) := by
  rw [main, read_twins]
  exact ⟨fault_twins, rfl, ⟨_, rfl⟩, contents_run_twins⟩

end Listing.CommandLine.Export
