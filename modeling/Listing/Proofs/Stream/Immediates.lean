import Listing.Proofs.External
import Listing.Proofs.Recorder.Reached

namespace Listing

-- The integers that a signed word of 64 bits holds.
def FitsWord (n : Int) : Prop := -2 ^ 63 ≤ n ∧ n ≤ 2 ^ 63 - 1

instance (n : Int) : Decidable (FitsWord n) := inferInstanceAs (Decidable (_ ∧ _))

-- Every integer operand fits into a word.
def Instruction.FitsWords (i : Instruction) : Prop :=
  ∀ o ∈ i.operands, ∀ n, o = .integer n → FitsWord n

def Stream.FitsWords (s : Stream) : Prop := ∀ i ∈ s.instructions, i.FitsWords

namespace Recorder

theorem fitsWords_recorded (r : Recorder) (opcode : Json) (operands : List RawOperand)
    (line column : Json) :
    Instruction.FitsWords
      ⟨opcode, r.pending, operands.filterMap (classify r.machine), line, column⟩ := by
  rintro o ho n rfl
  obtain ⟨raw, -, hraw⟩ := List.mem_filterMap.mp ho
  cases (classify_eq_some_iff r.machine raw _).mp hraw with
  | immediate hlow hhigh => exact ⟨hlow, hhigh⟩

theorem fitsWords_call {r : Recorder} (hr : r.stream.FitsWords) (c : Call) :
    (r.call c).1.stream.FitsWords := by
  cases c with
  | label name place =>
      have hstream : (r.label name).1.stream = r.stream := by
        rw [label]
        split
        · rfl
        · exact (trace_state _ _).1
      change (r.label name).1.stream.FitsWords
      rwa [hstream]
  | instruction opcode operands place =>
      obtain ⟨s, outcome, captured, hcall, rfl, -, hcases⟩ :=
        r.instruction_cases opcode operands place
      change (r.instruction opcode operands place).1.stream.FitsWords
      rw [hcall]
      rcases hcases with ⟨m, -, -, hstream, -⟩ | ⟨line, column, -, hstream, -⟩
      · rwa [hstream]
      · intro i hi
        rw [hstream, Stream.instructions_push] at hi
        rcases List.mem_append.mp hi with hi | hi
        · exact hr i hi
        · rw [List.mem_singleton.mp hi]
          exact r.fitsWords_recorded opcode operands line column
  | symbolAttribute | commonSymbol | zeroFill => exact hr

-- Whatever is reported to a recorder, it records no integer that a word does not hold.
theorem Reached.fitsWords {r : Recorder} (h : Reached r) : r.stream.FitsWords := by
  refine h.keeps (P := fun r => r.stream.FitsWords) ?_ (fun r c hr => fitsWords_call hr c) ?_
  · intro machine offset printLabels traced i hi
    cases hi
  · intro r n hr
    exact hr

end Recorder

-- What stands in the list that an object has in one of its fields.
def Json.HasItem (data : Json) (key : String) (item : Json) : Prop :=
  ∃ held items, data.get key (.arr []) = .ok held ∧ held.elements = .ok items ∧ item ∈ items

theorem Json.hasItem_iff {data held : Json} {key : String} {items : List Json}
    (hheld : data.get key (.arr []) = .ok held) (hitems : held.elements = .ok items)
    {item : Json} : data.HasItem key item ↔ item ∈ items := by
  constructor
  · rintro ⟨held', items', hheld', hitems', hitem⟩
    rw [hheld] at hheld'
    cases hheld'
    rw [hitems] at hitems'
    cases hitems'
    exact hitem
  · intro hitem
    exact ⟨held, items, hheld, hitems, hitem⟩

theorem Operand.ofJson_eq_integer {data : Json} {n : Int} :
    ofJson data = .ok (.integer n) ↔
      ∃ fields value, data = .obj fields ∧ Json.lookup "type" fields = some (.str "integer") ∧
        Json.lookup "value" fields = some value ∧ value.toInt = .ok n := by
  rw [ofJson_eq_ok]
  constructor
  · rintro (_ | ⟨htype, hvalue, hn⟩ | _)
    cases data with
    | obj fields =>
        rw [Json.get_obj, Except.ok.injEq] at htype hvalue
        cases hlookup : Json.lookup "value" fields with
        | none =>
            rw [hlookup] at hvalue
            subst hvalue
            cases hn
        | some value =>
            rw [hlookup, Option.getD_some] at hvalue
            exact ⟨fields, value, rfl, Json.getD_eq_str_iff.mp htype, hlookup, hvalue ▸ hn⟩
    | _ => cases htype
  · rintro ⟨fields, value, rfl, htype, hvalue, hn⟩
    refine .integer ?_ ?_ hn
    · rw [Json.get_obj, htype, Option.getD_some]
    · rw [Json.get_obj, hvalue, Option.getD_some]

-- Data of an operand that, if it is to be an integer, convert to one that a word holds.
def Operand.GivesWord (data : Json) : Prop :=
  ∀ fields value n, data = .obj fields → Json.lookup "type" fields = some (.str "integer") →
    Json.lookup "value" fields = some value → value.toInt = .ok n → FitsWord n

-- Data of a stream in which all operands are such.
def Stream.GivesWords (data : Json) : Prop :=
  ∀ i, data.HasItem "instructions" i → ∀ o, i.HasItem "operands" o → Operand.GivesWord o

theorem Operand.fitsWord_ofJson (data : Json) (o : Operand) (h : ofJson data = .ok o) :
    (∀ n, o = .integer n → FitsWord n) ↔ GivesWord data := by
  constructor
  · intro hfits fields value n hdata htype hvalue hn
    have hread : ofJson data = .ok (.integer n) :=
      ofJson_eq_integer.mpr ⟨fields, value, hdata, htype, hvalue, hn⟩
    exact hfits n (Except.ok.inj (h.symm.trans hread))
  · rintro hgives n rfl
    obtain ⟨fields, value, hdata, htype, hvalue, hn⟩ := ofJson_eq_integer.mp h
    exact hgives fields value n hdata htype hvalue hn

theorem Instruction.fitsWords_ofJson {offset : Int} (data : Json) (i : Instruction)
    (h : ofJson offset data = .ok i) :
    i.FitsWords ↔ ∀ o, data.HasItem "operands" o → Operand.GivesWord o := by
  obtain ⟨held, items, hheld, hitems, hoperands⟩ := (readFrom_of_ofJson h).operands
  simp only [Json.hasItem_iff hheld hitems]
  exact forall_of_mapM Operand.fitsWord_ofJson hoperands

namespace Stream

variable {data : Json} {s : Stream}

theorem fitsWords_ofJson {offset : Int} (h : ofJson offset data = .ok s) :
    s.FitsWords ↔ GivesWords data := by
  rw [ofJson] at h
  obtain ⟨held, hheld, h⟩ := bind_eq_ok.mp h
  obtain ⟨items, hitems, h⟩ := bind_eq_ok.mp h
  obtain ⟨is, his, h⟩ := bind_eq_ok.mp h
  cases h
  simp only [GivesWords, Json.hasItem_iff hheld hitems]
  exact forall_of_mapM Instruction.fitsWords_ofJson his

-- Without an offset there are no instructions, and so no operands.
theorem fitsWords_ofJsonUnplaced (h : ofJsonUnplaced data = .ok s) :
    s.FitsWords ↔ GivesWords data := by
  rw [ofJsonUnplaced] at h
  obtain ⟨held, hheld, h⟩ := bind_eq_ok.mp h
  obtain ⟨items, hitems, h⟩ := bind_eq_ok.mp h
  cases items with
  | nil =>
      cases h
      simp [FitsWords, GivesWords, Json.hasItem_iff hheld hitems]
  | cons first rest =>
      obtain ⟨head, -, h⟩ := bind_eq_ok.mp h
      cases h

end Stream

namespace External

-- The tree that a program prints, if it ends well and prints one.
def printedTree (e : External) (launch : Launcher) (d : Disk) (input : Text.Utf8.Bytes) :
    Option Json :=
  match (e.run launch d input).2.2 with
  | .ok text => (Json.read text.toList).toOption
  | .error _ => none

theorem fitsWords_load {offset : Option Int} {text : String} {s : Stream}
    (h : load offset text = .ok s) :
    ∃ data, Json.read text.toList = .ok data ∧ (s.FitsWords ↔ Stream.GivesWords data) := by
  rw [load] at h
  split at h
  · cases h
  · rename_i fields htext
    split at h
    · cases h
    · split at h
      · rename_i read hread
        cases h
        refine ⟨_, htext, ?_⟩
        cases offset with
        | none => exact Stream.fitsWords_ofJsonUnplaced hread
        | some offset => exact Stream.fitsWords_ofJson hread
      · split at h <;> cases h
  · cases h

theorem fitsWords_parse {e : External} {launch : Launcher} {d : Disk} {offset : Option Int}
    {input : Text.Utf8.Bytes} {s : Stream} (h : (e.parse launch d offset input).2.2 = .ok s) :
    ∃ data, e.printedTree launch d input = some data ∧
      (s.FitsWords ↔ Stream.GivesWords data) := by
  rw [parse] at h
  split at h
  · cases h
  · rename_i after notices text hrun
    obtain ⟨data, hdata, hfits⟩ := fitsWords_load h
    refine ⟨data, ?_, hfits⟩
    simp only [printedTree, hrun, hdata, Except.toOption]

end External

-- The ways in which a stream comes about, each with the tree that the stream is read from.
inductive Stream.Built : Option Json → Stream → Prop
  | recorded {r : Recorder} (h : r.Reached) : Built none r.stream
  | read {offset : Int} {data : Json} {s : Stream} (h : ofJson offset data = .ok s) :
      Built (some data) s
  | parsed {e : External} {launch : Launcher} {d : Disk} {offset : Option Int}
      {input : Text.Utf8.Bytes} {s : Stream} (h : (e.parse launch d offset input).2.2 = .ok s) :
      Built (e.printedTree launch d input) s

-- A recorder records no integer beyond a signed word of 64 bits. A stream that is read from a tree,
-- be it handed over or printed by an external program, holds no other if and only if the tree gives
-- no other, since the reader lets all pass.
theorem immediates_fitWord {tree : Option Json} {s : Stream} (h : Stream.Built tree s) :
    s.FitsWords ↔ ∀ data ∈ tree, Stream.GivesWords data := by
  cases h with
  | recorded h =>
      refine iff_of_true h.fitsWords ?_
      intro data hdata
      cases hdata
  | read h =>
      rw [Stream.fitsWords_ofJson h]
      simp
  | parsed h =>
      obtain ⟨data, hprinted, hfits⟩ := External.fitsWords_parse h
      rw [hfits, hprinted]
      simp

-- The tree of a stream with the first integer beyond a word, as it is printed too.
def wideTree : Json :=
  .obj [("instructions", .arr [.obj [("opcode", .str "mov"),
    ("operands", .arr [.obj [("type", .str "integer"), ("value", .int 9223372036854775808)]])]])]

def wideBytes : Text.Utf8.Bytes := Text.Utf8.encode (wideTree.writeAt none 0)

def wideStream : Stream :=
  ⟨[{ opcode := .str "mov", operands := [.integer 9223372036854775808], line := .int 1 }]⟩

theorem immediates_fitWord_wide :
    Stream.Built (External.printedTree { executable := "cat" } External.echo {} wideBytes)
        wideStream ∧
      (wideStream.FitsWords ↔
        ∀ data ∈ External.printedTree { executable := "cat" } External.echo {} wideBytes,
          Stream.GivesWords data) := by
  have hparse : (External.parse { executable := "cat" } External.echo {} (some 1) wideBytes).2.2 =
      .ok wideStream := by
    decide +kernel
  exact ⟨.parsed hparse, immediates_fitWord (.parsed hparse)⟩

-- The reader takes an integer that no recorder would record.
theorem ofJson_wideTree : ∃ s, Stream.ofJson 1 wideTree = .ok s ∧ ¬s.FitsWords := by
  refine ⟨wideStream, rfl, fun h => ?_⟩
  have hword := h _ List.mem_cons_self _ List.mem_cons_self 9223372036854775808 rfl
  exact absurd hword (by decide)

end Listing
