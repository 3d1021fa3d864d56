import Listing.Proofs.Event.Returned
import Listing.Proofs.Instruction
import Listing.Proofs.Recorder.Run
import Listing.Proofs.Stream.Reload

namespace Listing

theorem Operand.text_of_ofJson {data : Json} {o : Operand} (h : ofJson data = .ok o) :
    ∃ text, o.text = .ok text := by
  cases ofJson_eq_ok.mp h with
  | register => exact ⟨_, rfl⟩
  | integer => exact ⟨_, rfl⟩
  | label => exact ⟨_, rfl⟩

namespace Instruction

theorem text_of_mem_operands {items : List Json} {os : List Operand}
    (h : items.mapM Operand.ofJson = .ok os) : ∀ o ∈ os, ∃ text, o.text = .ok text := by
  intro o ho
  obtain ⟨item, -, hitem⟩ := mem_of_mapM h ho
  exact Operand.text_of_ofJson hitem

theorem reloadable_of_ofJson {offset : Int} {data : Json} {i : Instruction} (hdata : data.IsPlain)
    (h : ofJson offset data = .ok i) : i.Reloadable := by
  have hread := readFrom_of_ofJson h
  obtain ⟨held, hheld, hlabels⟩ := hread.labels
  obtain ⟨_, items, -, -, hoperands⟩ := hread.operands
  obtain ⟨_, n, -, -, hline⟩ := hread.line
  obtain ⟨_, m, -, -, hcolumn⟩ := hread.column
  have hheld : held.IsPlain := hdata.get (by simp) hheld
  exact {
    opcode := hdata.item hread.opcode
    labels := hheld.elements hlabels
    operands := text_of_mem_operands hoperands
    line := ⟨_, hline⟩
    column := ⟨_, hcolumn⟩ }

end Instruction

namespace Stream

-- Read from a tree without doubles, at whatever offset.
def Loaded (s : Stream) : Prop := ∃ offset data, data.IsPlain ∧ ofJson offset data = .ok s

theorem reloadable_of_mem_instructions {offset : Int} {items : List Json}
    {is : List Instruction} (hitems : ∀ v ∈ items, v.IsPlain)
    (h : items.mapM (Instruction.ofJson offset) = .ok is) : ∀ i ∈ is, i.Reloadable := by
  intro i hi
  obtain ⟨item, hitem, hread⟩ := mem_of_mapM h hi
  exact Instruction.reloadable_of_ofJson (hitems item hitem) hread

theorem Loaded.reloadable {s : Stream} (h : s.Loaded) : s.Reloadable := by
  obtain ⟨offset, data, hdata, h⟩ := h
  rw [ofJson] at h
  obtain ⟨given, hgiven, h⟩ := bind_eq_ok.mp h
  obtain ⟨items, hitems, h⟩ := bind_eq_ok.mp h
  obtain ⟨is, his, h⟩ := bind_eq_ok.mp h
  cases h
  have hgiven : given.IsPlain := hdata.get (by simp) hgiven
  exact reloadable_of_mem_instructions (hgiven.elements hitems) his

end Stream

namespace Recorder

structure Reloadable (r : Recorder) : Prop where
  stream : r.stream.Reloadable
  pending : ∀ l ∈ r.pending, l.IsPlain

theorem reloadable_fresh (machine : Option Machine) (offset : Int) (printLabels traced : Bool) :
    (fresh machine offset printLabels traced).Reloadable := by
  constructor
  · intro i hi
    cases hi
  · intro l hl
    cases hl

theorem Reloadable.note {r : Recorder} (h : r.Reloadable) (n : Notice) : (r.note n).Reloadable :=
  ⟨h.stream, h.pending⟩

theorem Reloadable.trace {r : Recorder} (h : r.Reloadable) (line : String) :
    (r.trace line).Reloadable := by
  rw [Recorder.trace]
  split
  · exact ⟨h.stream, h.pending⟩
  · exact h

theorem Reloadable.label {r s : Recorder} (h : r.Reloadable) {name : Json} (hname : name.IsPlain)
    (hlabel : r.label name = (s, .ok ())) : s.Reloadable := by
  simp only [Recorder.label] at hlabel
  split at hlabel
  · cases hlabel
  · rename_i printed hprinted
    cases hlabel
    have hplain : printed.IsPlain := by
      split at hprinted
      · cases name with
        | str text =>
            cases hprinted
            simp
        | _ => cases hprinted
      · cases hprinted
        exact hname
    have hpending : ∀ l ∈ r.pending ++ [printed], l.IsPlain := by
      intro l hl
      rcases List.mem_append.mp hl with hl | hl
      · exact h.pending l hl
      · rw [List.mem_singleton.mp hl]
        exact hplain
    exact Reloadable.trace (r := { r with pending := r.pending ++ [printed] })
      ⟨h.stream, hpending⟩ _

-- A recorded instruction had a text, so all of its parts are strings.
theorem Reloadable.instruction {r s : Recorder} (h : r.Reloadable) {opcode : Json}
    {operands : List RawOperand} {location : Location}
    (hinstruction : r.instruction opcode operands (.ofLocation location) = (s, .ok ())) :
    s.Reloadable := by
  simp only [Recorder.instruction, Place.ofLocation, Place.resolve] at hinstruction
  split at hinstruction
  · cases hinstruction
  · rename_i text htext
    cases hinstruction
    obtain ⟨⟨name, hname⟩, htexts⟩ := Instruction.text_isOk.mp ⟨text, htext⟩
    refine Reloadable.trace ⟨?_, by simp⟩ _
    intro i hi
    rcases List.mem_append.mp hi with hi | hi
    · exact h.stream i hi
    · rw [List.mem_singleton.mp hi]
      exact {
        opcode := by
          rw [hname]
          simp
        labels := h.pending
        operands := htexts
        line := ⟨_, rfl⟩
        column := ⟨_, rfl⟩ }

theorem Reloadable.deliver {r s : Recorder} {e : Event} (h : r.Reloadable)
    (hname : ∀ name location, e = .label name location → name.IsPlain)
    (hdeliver : r.deliver e = (s, .ok ())) : s.Reloadable := by
  cases e with
  | label name location => exact h.label (hname name location rfl) hdeliver
  | instruction opcode operands location => exact h.instruction hdeliver
  | _ =>
      cases hdeliver
      exact h

end Recorder

namespace Stream

-- Recorded from a log, to its end, with no double in a label's name.
def Captured (s : Stream) : Prop :=
  ∃ machine offset printLabels traced reading r, reading.FromLog ∧
    (∀ name location, .label name location ∈ reading.events → name.isFloatFree = true) ∧
    (Recorder.fresh machine offset printLabels traced).replay reading = (r, .ok ()) ∧ r.stream = s

theorem Captured.reloadable {s : Stream} (h : s.Captured) : s.Reloadable := by
  obtain ⟨machine, offset, printLabels, traced, reading, r, hlog, hfree, hreplay, rfl⟩ := h
  have hplain : ∀ name location, .event (.label name location) ∈ reading.entries →
      name.IsPlain := by
    intro name location he
    have hmem : .label name location ∈ reading.events := List.mem_filterMap.mpr ⟨_, he, rfl⟩
    obtain ⟨data, hdata, hread⟩ := hlog.returned _ hmem
    exact ⟨hfree name location hmem, Json.everywhere_item hdata (Event.keeps_of_ofJson hread)⟩
  have hr : r.Reloadable :=
    Recorder.replayFrom_induction (fun _ n hr => hr.note n)
      (fun _ _ e he hr hdeliver => hr.deliver
        (fun name location heq => hplain name location (heq ▸ he)) hdeliver)
      (Recorder.reloadable_fresh machine offset printLabels traced) hreplay
  exact hr.stream

-- The text of a stream reads as a stream that no output tells from the first one, although its
-- lines may be others. It can be made wherever the memory has room for it and for the blanks of the
-- indentation. An indentation beyond a machine word has no text at all.
theorem reload {s : Stream} (h : s.Captured ∨ s.Loaded) (offset : Int) (indent : Json.Indent) :
    (indent.fits = true → ∃ text tree s',
      (∀ room, indent.HasRoom room text → s.render room indent offset = .ok text) ∧
      (∀ room, ¬indent.HasRoom room text →
        s.render room indent offset = .error .outOfMemory) ∧
      Json.read text.toList = .ok tree ∧ ofJson offset tree = .ok s' ∧
      (∀ room, s'.render room indent offset = s.render room indent offset) ∧
      s'.listing offset = s.listing offset ∧
      s'.instructions.map Instruction.text = s.instructions.map Instruction.text ∧
      BlockGraph.ofStream s' = BlockGraph.ofStream s) ∧
    (indent.fits = false → ∀ room, s.render room indent offset = .error .indentTooWide) := by
  have hs : s.Reloadable := h.elim Captured.reloadable Loaded.reloadable
  obtain ⟨tree, hrender, hread, hload⟩ := hs.read_render offset indent
  simp only [hrender]
  constructor
  · intro hfits
    have hagain (room : Nat) :
        (s.reloaded offset).render room indent offset = tree.render room indent := by
      rw [render_reloaded, hrender]
    exact ⟨tree.write indent, tree, s.reloaded offset, fun _ => Json.render_of_hasRoom hfits,
      fun _ => Json.render_of_not_hasRoom hfits, hread, hload, hagain,
      listing_reloaded offset s, texts_reloaded offset s, blockGraph_reloaded offset s⟩
  · exact fun hfits _ => Json.render_of_not_fits hfits

-- A stream whose first line lies before the offset.
def early : Stream :=
  ⟨[{ opcode := .str "jmp", labels := [.str "a"],
      operands := [.label "b", .integer 3, .register (.str "r0")], line := .int 2 }]⟩

theorem reload_early :
    early.Loaded ∧ ∃ text tree s',
      (∀ room, Json.Indent.HasRoom room (some 2) text → early.render room (some 2) 5 = .ok text) ∧
      (∀ room, ¬Json.Indent.HasRoom room (some 2) text →
        early.render room (some 2) 5 = .error .outOfMemory) ∧
      Json.read text.toList = .ok tree ∧ ofJson 5 tree = .ok s' ∧
      (∀ room, s'.render room (some 2) 5 = early.render room (some 2) 5) ∧
      s'.listing 5 = early.listing 5 ∧
      s'.instructions.map Instruction.text = early.instructions.map Instruction.text ∧
      BlockGraph.ofStream s' = BlockGraph.ofStream early := by
  have hloaded : early.Loaded :=
    ⟨1, .obj [("instructions", .arr [.obj [("opcode", .str "jmp"), ("labels", .arr [.str "a"]),
      ("operands", .arr [.obj [("type", .str "label"), ("value", .str "b")],
        .obj [("type", .str "integer"), ("value", .int 3)],
        .obj [("type", .str "register"), ("value", .str "r0")]]), ("line", .int 1)]])],
      ⟨by decide, by decide⟩, rfl⟩
  exact ⟨hloaded, (reload (.inr hloaded) 5 (some 2)).1 (by decide)⟩

-- One less than a machine word holds is refused even for a stream without instructions.
theorem render_of_wide_indent :
    ({} : Stream).Loaded ∧
      ¬∃ room text, ({} : Stream).render room (some (-9223372036854775809)) 1 = .ok text := by
  refine ⟨⟨1, .obj [], by simp, rfl⟩, ?_⟩
  rintro ⟨room, text, htext⟩
  cases htext

end Stream
end Listing
