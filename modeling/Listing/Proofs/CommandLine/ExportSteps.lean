import Listing.CommandLine.Export
import Listing.Proofs.Outcome

namespace Listing

theorem lift_eq_ok {α : Type} {x : Except Misfit α} {a : α} :
    (liftM x : Except Fault α) = .ok a ↔ x = .ok a := by
  cases x <;> simp [liftM, monadLift, MonadLift.monadLift]

namespace CommandLine.Export

section Work

variable {α β : Type} {x : Work α} {f : α → Work β} {c c' : Console} {a : α} {b : β} {u : Unit}

-- Some work succeeds if each of its steps does, and what it leaves is what the last one leaves.
theorem bind_ok : (x >>= f) c = .ok b c' ↔ ∃ a next, x c = .ok a next ∧ f a next = .ok b c' := by
  simp only [bind, EStateM.bind]
  cases x c <;> simp

theorem pure_ok {a' : α} : (pure a : Work α) c = .ok a' c' ↔ a = a' ∧ c = c' := by
  change EStateM.Result.ok a c = .ok a' c' ↔ _
  rw [EStateM.Result.ok.injEq]

theorem throw_ne_ok {fault : Fault} : (throw fault : Work α) c ≠ .ok a c' :=
  fun h => by cases h

theorem get_ok {d : Console} : (get : Work Console) c = .ok d c' ↔ c = d ∧ c = c' := by
  change EStateM.Result.ok c c = .ok d c' ↔ _
  rw [EStateM.Result.ok.injEq]

theorem set_ok {d : Console} : (set d : Work PUnit) c = .ok u c' ↔ c' = d := by
  change EStateM.Result.ok _ d = .ok u c' ↔ _
  rw [EStateM.Result.ok.injEq]
  exact ⟨fun h => h.2.symm, fun h => ⟨rfl, h.symm⟩⟩

theorem modify_ok {k : Console → Console} : (modify k : Work Unit) c = .ok u c' ↔ c' = k c :=
  set_ok (c := c)

theorem attempt_ok {y : Except Fault α} : attempt y c = .ok a c' ↔ y = .ok a ∧ c = c' := by
  cases y with
  | ok a => simp [attempt, pure_ok]
  | error fault => simp only [attempt, throw_ne_ok, reduceCtorEq, false_and]

theorem attemptFit_ok {y : Except Misfit α} : attemptFit y c = .ok a c' ↔ y = .ok a ∧ c = c' := by
  cases y with
  | ok a => simp [attemptFit, pure_ok]
  | error m => simp only [attemptFit, throw_ne_ok, reduceCtorEq, false_and]

theorem disk_of_say {line : String} (h : say line c = .ok u c') : c'.disk = c.disk := by
  rw [modify_ok.mp h]

theorem makeDirectory_ok {p : Path} (h : makeDirectory p c = .ok u c') :
    c.disk.make p = .ok c'.disk := by
  simp only [makeDirectory, bind_ok, get_ok, attempt_ok, modify_ok] at h
  obtain ⟨_, _, ⟨rfl, rfl⟩, d, _, ⟨hmake, rfl⟩, rfl⟩ := h
  exact hmake

theorem keep_ok {p : Path} {hasHalf : Bool} {text : String}
    (h : keep p hasHalf text c = .ok u c') : c.disk.store p text = .ok c'.disk := by
  simp only [keep, bind_ok, get_ok, attempt_ok, set_ok] at h
  obtain ⟨_, _, ⟨rfl, rfl⟩, d, _, ⟨hstore, rfl⟩, _, _, rfl, h⟩ := h
  cases hencodable : isEncodable hasHalf text with
  | false =>
      rw [hencodable] at h
      exact absurd h throw_ne_ok
  | true =>
      rw [hencodable] at h hstore
      rw [← (pure_ok.mp h).2]
      exact hstore

theorem put_ok {p : Path} {hasHalf : Bool} {text : String} (h : put p hasHalf text c = .ok u c') :
    c.disk.store p text = .ok c'.disk := by
  simp only [put, bind_ok, get_ok, modify_ok] at h
  obtain ⟨_, _, ⟨rfl, rfl⟩, _, kept, hkeep, _, _, rfl, hsay⟩ := h
  have hkept : c.disk.store p text = .ok kept.disk := keep_ok hkeep
  rw [disk_of_say hsay]
  exact hkept

theorem captureSource_ok {m : Machine} {source : String} {r : Recorder} {hasHalf : Bool}
    (h : captureSource m source c = .ok (r, hasHalf) c') :
    c'.disk = c.disk ∧ ∃ bytes, c.disk.contents (.ofString source) = .ok bytes ∧
      (Recorder.captureFile (some m) Instruction.defaultOffset source bytes).2 = .ok r := by
  simp only [captureSource, bind_ok, get_ok] at h
  obtain ⟨_, _, ⟨rfl, rfl⟩, h⟩ := h
  cases hbytes : c.disk.contents (.ofString source) with
  | error fault =>
      rw [hbytes] at h
      exact absurd h throw_ne_ok
  | ok bytes =>
      simp only [hbytes, warn, bind_ok, modify_ok, attempt_ok, pure_ok, Prod.mk.injEq] at h
      obtain ⟨_, _, rfl, _, _, ⟨hresult, rfl⟩, ⟨rfl, -⟩, rfl⟩ := h
      exact ⟨rfl, bytes, rfl, hresult⟩

-- The command that draws an image.
def drawing (dot image : Path) : Command where
  words := ["dot", "-Tsvg", dot.toString, "-o", image.toString]

theorem drawImage_ok {launch : Launcher} {dot image : Path}
    (h : drawImage launch dot image c = .ok u c') :
    c'.disk = (launch c.disk (drawing dot image)).1 := by
  simp only [drawImage, bind_ok, get_ok, set_ok] at h
  obtain ⟨_, _, ⟨rfl, rfl⟩, _, _, rfl, h⟩ := h
  rw [drawing]
  generalize launch c.disk { words := ["dot", "-Tsvg", dot.toString, "-o", image.toString] } =
    result at h ⊢
  obtain ⟨d, launched⟩ := result
  cases launched with
  | refused r =>
      cases r with
      | noSuchFile => rw [← (pure_ok.mp h).2]
      | _ => exact absurd h throw_ne_ok
  | finished child =>
      dsimp only at h
      split_ifs at h
      · rw [disk_of_say h]
      · rw [← (pure_ok.mp h).2]

end Work

-- The files that a log is exported as, by name.
def filesOf (machine : Option String) (source : String) (bytes : Text.Utf8.Bytes) :
    Except Fault (List (String × String)) := do
  let stem := (Path.ofString source).stem
  let m ← Machine.named machine
  let r ← (Recorder.captureFile (some m) Instruction.defaultOffset source bytes).2
  let g ← BlockGraph.ofStream r.stream
  let tree ← r.tree
  let dot ← BlockGraph.Dot.render (stem ++ " – Label references") g
  let graph ← g.toJson
  let mermaid ← BlockGraph.Mermaid.render (stem ++ " label references") g
  return [("stream.json", tree.write (some 2)), ("labels.dot", dot),
    ("labels.json", graph.write (some 2)), ("labels.mmd", mermaid)]

-- The directory that the files of a log go into.
def folder (directory : Path) (source : String) : Path :=
  inside directory (Path.ofString source).stem

-- The disk once the drawing program, if it is asked, has ended.
def drawn (launch : Launcher) (s : Settings) (place : Path) (d : Disk) : Disk :=
  if s.isDrawn then
    (launch d (drawing (inside place "labels.dot") (inside place "labels.svg"))).1
  else d

-- One log after the other goes through the same steps: its directory is made, it is read, and its
-- files are written.
theorem exportOne_ok {launch : Launcher} {s : Settings} {directory : Path} {source : String}
    {c c' : Console} {u : Unit} (h : exportOne launch s directory source c = .ok u c') :
    let place := folder directory source
    ∃ made bytes tree dot graph mermaid d₁ d₂ d₃,
      c.disk.make place = .ok made ∧ made.contents (.ofString source) = .ok bytes ∧
      filesOf s.machine source bytes =
        .ok [("stream.json", tree), ("labels.dot", dot), ("labels.json", graph),
          ("labels.mmd", mermaid)] ∧
      made.store (inside place "stream.json") tree = .ok d₁ ∧
      d₁.store (inside place "labels.dot") dot = .ok d₂ ∧
      (drawn launch s place d₂).store (inside place "labels.json") graph = .ok d₃ ∧
      d₃.store (inside place "labels.mmd") mermaid = .ok c'.disk := by
  simp only [exportOne, bind_ok, attempt_ok, attemptFit_ok] at h
  obtain ⟨_, c₁, hmake, m, _, ⟨hm, rfl⟩, ⟨r, hasHalf⟩, c₂, hcapture, g, _, ⟨hg, rfl⟩, _, c₃, hsizes,
    _, c₄, hblocks, tree, _, ⟨htree, rfl⟩, _, c₅, hputTree, dot, _, ⟨hdot, rfl⟩, _, c₆, hputDot,
    h⟩ := h
  obtain ⟨c₇, hdrawn, h⟩ : ∃ c₇ : Console,
      c₇.disk = drawn launch s (folder directory source) c₆.disk ∧
        (do
          put (inside (folder directory source) "labels.json") hasHalf
            ((← attemptFit g.toJson).write (some 2))
          put (inside (folder directory source) "labels.mmd") hasHalf (← attemptFit
            (BlockGraph.Mermaid.render ((Path.ofString source).stem ++ " label references") g)) :
          Work Unit) c₇ = .ok u c' := by
    rw [drawn]
    split_ifs at h ⊢
    · obtain ⟨_, c₇, hdraw, h⟩ := bind_ok.mp h
      exact ⟨c₇, drawImage_ok hdraw, h⟩
    · exact ⟨c₆, rfl, h⟩
  simp only [bind_ok, attemptFit_ok] at h
  obtain ⟨graph, _, ⟨hgraph, rfl⟩, _, c₈, hputGraph, mermaid, _, ⟨hmermaid, rfl⟩, hputMermaid⟩ := h
  obtain ⟨hread, bytes, hbytes, hr⟩ := captureSource_ok hcapture
  have htold : c₄.disk = c₂.disk := (disk_of_say hblocks).trans (disk_of_say hsizes)
  refine ⟨c₁.disk, bytes, tree.write (some 2), dot, graph.write (some 2), mermaid, c₅.disk, c₆.disk, c₈.disk,
    makeDirectory_ok hmake, hbytes, ?_, ?_, put_ok hputDot, ?_, put_ok hputMermaid⟩
  · simp only [filesOf, bind_eq_ok, lift_eq_ok]
    exact ⟨m, hm, r, hr, g, hg, tree, htree, dot, hdot, graph, hgraph, mermaid, hmermaid, rfl⟩
  · rw [← hread, ← htold]
    exact put_ok hputTree
  · rw [← hdrawn]
    exact put_ok hputGraph

-- A run that ends well has made the output directory and then exported one log after the other.
theorem run_ok {launch : Launcher} {d : Disk} {s : Settings}
    (h : (run launch d s).fault = none) :
    ∃ name c c', s.directory = some name ∧ d.make (.ofString name) = .ok c.disk ∧
      exportAll launch s (.ofString name) s.sources c = .ok () c' ∧
      (run launch d s).disk = c'.disk := by
  rw [run, EStateM.run] at h ⊢
  cases hwork : work launch s { disk := d } with
  | error fault c =>
      rw [hwork] at h
      cases h
  | ok u c' =>
      cases hname : s.directory with
      | none =>
          rw [work, hname] at hwork
          exact absurd hwork throw_ne_ok
      | some name =>
          simp only [work, hname, bind_ok] at hwork
          obtain ⟨_, c, hmake, hall⟩ := hwork
          exact ⟨name, c, c', rfl, makeDirectory_ok hmake, hall, rfl⟩

end CommandLine.Export
end Listing
