import Listing.Machine.Table
import Listing.Proofs.Disk
import Listing.Proofs.Json.Fields
import Listing.Proofs.Outcome
import Mathlib.Data.Finset.Card
import Mathlib.Data.List.Nodup

namespace Listing.Machine

-- The register that a key means, if it means one.
def registerOf? (key : String) : Option Int := Text.readInteger key.toList

-- What a table lists: a name for the register of its place, or the value of the last key that means
-- the register.
inductive Lists : Json → Int → Json → Prop
  | item {names : List Json} {i : Nat} {value : Json} (h : names[i]? = some value) :
      Lists (.arr names) i value
  | field {before after : List (String × Json)} {key : String} {value : Json} {id : Int}
      (hkey : registerOf? key = some id) (hlast : ∀ f ∈ after, registerOf? f.1 ≠ some id) :
      Lists (.obj (before ++ (key, value) :: after)) id value

-- A machine that names the registers a table lists, and numbers those that have no name there.
structure Tells (data : Json) (m : Machine) : Prop where
  named : ∀ id value, Lists data id value → value ≠ .null → m.registerName (.int id) = .ok value
  unnamed : ∀ id, (∀ value, Lists data id value → value = .null) →
    m.registerName (.int id) = .ok (.str s!"r{id}")
  size : ∃ ids : Finset Int, (∀ id, id ∈ ids ↔ ∃ value, Lists data id value) ∧ m.size = ids.card

section Numbers

-- A name has the number of its place, counted from the first.
theorem mem_numberFrom {names : List Json} {first id : Int} {value : Json} :
    (id, value) ∈ numberFrom first names ↔ ∃ i : Nat, id = first + i ∧ names[i]? = some value := by
  induction names generalizing first with
  | nil => simp [numberFrom]
  | cons n names ih =>
      rw [numberFrom, List.mem_cons, ih]
      constructor
      · rintro (h | ⟨i, rfl, hi⟩)
        · cases h
          exact ⟨0, by simp, rfl⟩
        · exact ⟨i + 1, by omega, by simpa using hi⟩
      · rintro ⟨i, rfl, hi⟩
        cases i with
        | zero => exact .inl (by simp_all)
        | succ i => exact .inr ⟨i, by omega, by simpa using hi⟩

theorem nodup_numberFrom (first : Int) (names : List Json) :
    ((numberFrom first names).map (·.1)).Nodup := by
  induction names generalizing first with
  | nil => exact .nil
  | cons n names ih =>
      rw [numberFrom, List.map_cons, List.nodup_cons]
      refine ⟨fun h => ?_, ih (first + 1)⟩
      obtain ⟨⟨id, value⟩, hp, hid⟩ := List.mem_map.mp h
      obtain ⟨i, hi, -⟩ := mem_numberFrom.mp hp
      dsimp only at hid
      omega

end Numbers

section Keys

variable {fields : List (String × Json)} {pairs : List (Int × Json)}

theorem toInt_key (key : String) :
    (Json.str key).toInt = match registerOf? key with
      | some id => .ok id
      | none => .error (.notInteger key) := rfl

theorem pairOf_eq_ok {f : String × Json} {p : Int × Json} :
    pairOf f = .ok p ↔ (registerOf? f.1, f.2) = (some p.1, p.2) := by
  rw [pairOf, toInt_key]
  cases registerOf? f.1 with
  | none => simp [bind, Except.bind]
  | some id => simp [Prod.ext_iff]

theorem pairOf_isOk {f : String × Json} :
    (∃ p, pairOf f = .ok p) ↔ ∃ id, registerOf? f.1 = some id := by
  simp [pairOf_eq_ok]

theorem pairOf_eq_error {f : String × Json} {e : Misfit} :
    pairOf f = .error e ↔ registerOf? f.1 = none ∧ e = .notInteger f.1 := by
  rw [pairOf, toInt_key]
  cases registerOf? f.1 with
  | none => simp [bind, Except.bind, eq_comm]
  | some id => simp [bind, Except.bind, pure_ne_error]

-- The first key that means no register is refused.
theorem pairs_eq_error {e : Misfit} : fields.mapM pairOf = .error e ↔
    ∃ before f after, fields = before ++ f :: after ∧
      (∀ g ∈ before, ∃ id, registerOf? g.1 = some id) ∧ registerOf? f.1 = none ∧
        e = .notInteger f.1 := by
  simp only [mapM_eq_error, pairOf_eq_error, pairOf_isOk]

theorem ofPairs_registers (name : String) (pairs : List (Int × Json)) :
    (ofPairs name pairs).registers = assigned pairs := by
  have hset : ∀ id value table, setRegister id value table = assignKey id value table := by
    intro id value table
    induction table with
    | nil => rfl
    | cons p rest ih => rw [setRegister, assignKey, ih]
  simp only [ofPairs, assigned, hset]

-- Pairs that say one by one which registers the keys mean.
def Spells (fields : List (String × Json)) (pairs : List (Int × Json)) : Prop :=
  fields.map (fun f => (registerOf? f.1, f.2)) = pairs.map (fun p => (some p.1, p.2))

theorem spells_of_pairs (h : fields.mapM pairOf = .ok pairs) : Spells fields pairs :=
  (map_eq_of_mapM (fun _ _ hp => (pairOf_eq_ok.mp hp).symm) h).symm

theorem Spells.notMem_iff (h : Spells fields pairs) {id : Int} :
    id ∉ pairs.map (·.1) ↔ ∀ f ∈ fields, registerOf? f.1 ≠ some id := by
  have hkeys : fields.map (fun f => registerOf? f.1) = (pairs.map (·.1)).map some := by
    simpa [Function.comp_def] using congrArg (List.map (·.1)) h
  rw [← List.mem_map_of_injective (Option.some_injective Int), ← hkeys]
  simp

-- The last pair of a register is that of the last key that means it.
theorem Spells.mem_assigned (h : Spells fields pairs) {id : Int} {value : Json} :
    (id, value) ∈ assigned pairs ↔ Lists (.obj fields) id value := by
  rw [Listing.mem_assigned]
  constructor
  · rintro ⟨before, after, rfl, hafter⟩
    rw [Spells, List.map_append, List.map_cons, List.map_eq_append_iff] at h
    obtain ⟨first, behind, rfl, -, hbehind⟩ := h
    obtain ⟨⟨key, v⟩, last, rfl, hf, hlast⟩ := List.map_eq_cons_iff.mp hbehind
    obtain ⟨hkey, rfl⟩ := Prod.mk.inj hf
    exact .field hkey (Spells.notMem_iff hlast |>.mp hafter)
  · intro hlists
    cases hlists with
    | field hkey hnone =>
        rw [Spells, List.map_append, List.map_cons, eq_comm, List.map_eq_append_iff] at h
        obtain ⟨first, behind, rfl, -, hbehind⟩ := h
        obtain ⟨⟨i, v⟩, last, rfl, hp, hlast⟩ := List.map_eq_cons_iff.mp hbehind
        simp only [hkey, Prod.mk.injEq, Option.some.injEq] at hp
        obtain ⟨rfl, rfl⟩ := hp
        exact ⟨first, last, rfl, Spells.notMem_iff hlast.symm |>.mpr hnone⟩

end Keys

section Tells

variable {data : Json} {m : Machine}

-- A machine with an entry for each register that is listed, and no register twice.
structure HoldsTable (data : Json) (m : Machine) : Prop where
  nodup : (m.registers.map (·.1)).Nodup
  mem : ∀ id value, (id, value) ∈ m.registers ↔ Lists data id value

theorem holdsTable_ofNames (name : String) (names : List Json) :
    HoldsTable (.arr names) (ofNames name names) where
  nodup := nodup_numberFrom 0 names
  mem id value := by
    rw [ofNames, mem_numberFrom]
    constructor
    · rintro ⟨i, rfl, hi⟩
      rw [zero_add]
      exact .item hi
    · intro h
      cases h with
      | item hi => exact ⟨_, by rw [zero_add], hi⟩

theorem holdsTable_ofPairs {fields : List (String × Json)} {pairs : List (Int × Json)}
    (h : fields.mapM pairOf = .ok pairs) (name : String) :
    HoldsTable (.obj fields) (ofPairs name pairs) where
  nodup := by
    rw [ofPairs_registers]
    exact nodup_assigned pairs
  mem id value := by
    rw [ofPairs_registers]
    exact (spells_of_pairs h).mem_assigned

theorem entry?_of_mem (hnodup : (m.registers.map (·.1)).Nodup) {id : Int} {value : Json}
    (h : (id, value) ∈ m.registers) (hvalue : value ≠ .null) : m.entry? id = some value := by
  unfold entry?
  rw [find?_of_mem hnodup h]
  cases value with
  | null => exact absurd rfl hvalue
  | _ => rfl

theorem entry?_eq_none {id : Int} (h : ∀ value, (id, value) ∈ m.registers → value = .null) :
    m.entry? id = none := by
  unfold entry?
  split
  · rfl
  · rename_i i value hnull hfound
    obtain rfl : i = id := by simpa using List.find?_some hfound
    exact absurd (h value (List.mem_of_find?_eq_some hfound)) hnull
  · rfl

theorem HoldsTable.tells (h : HoldsTable data m) : Tells data m where
  named id value hlists hvalue := by
    rw [registerName, numberedName, entry?_of_mem h.nodup ((h.mem id value).mpr hlists) hvalue]
    rfl
  unnamed id hnull := by
    rw [registerName, numberedName,
      entry?_eq_none fun value hmem => hnull value ((h.mem id value).mp hmem)]
    rfl
  size := by
    refine ⟨(m.registers.map (·.1)).toFinset, fun id => ?_, ?_⟩
    · simp [← h.mem]
    · rw [List.toFinset_card_of_nodup h.nodup, List.length_map, size]

end Tells

section Load

variable {d : Disk} {path name : String} {text : List Char} {data : Json} {m : Machine} {f : Fault}

-- The text of a file, with its lines ended in one way.
def HoldsText (d : Disk) (path : String) (text : List Char) : Prop :=
  ∃ bytes cs, d.contents (.ofString path) = .ok bytes ∧ Text.Utf8.decode bytes = .ok cs ∧
    text = Text.unifyNewlines cs

-- Why no table can be had from a path. Of the keys that mean no register the first is told about.
inductive Refused (d : Disk) (path : String) : Fault → Prop
  | unreadable {f : Fault} (h : d.contents (.ofString path) = .error f) : Refused d path f
  | noText {bytes : Text.Utf8.Bytes} {e : Text.Utf8.Fault}
      (h : d.contents (.ofString path) = .ok bytes) (he : Text.Utf8.decode bytes = .error e) :
      Refused d path (.undecodable e)
  | noJson {text : List Char} {e : Json.Misread} (h : HoldsText d path text)
      (he : Json.read text = .error e) : Refused d path (.misread e)
  | noRegister {text : List Char} {before after : List (String × Json)} {p : String × Json}
      (h : HoldsText d path text) (hdata : Json.read text = .ok (.obj (before ++ p :: after)))
      (hbefore : ∀ q ∈ before, ∃ id, registerOf? q.1 = some id) (hp : registerOf? p.1 = none) :
      Refused d path (.misfit (.notInteger p.1))
  | noTable {text : List Char} {data : Json} (h : HoldsText d path text)
      (hdata : Json.read text = .ok data) (hnames : ∀ names, data ≠ .arr names)
      (hfields : ∀ fields, data ≠ .obj fields) : Refused d path (.notARegisterTable path)

theorem holdsTable_of_ofTable (h : ofTable path name data = .ok m) : HoldsTable data m := by
  cases data with
  | arr names =>
      cases h
      exact holdsTable_ofNames name names
  | obj fields =>
      rw [ofTable] at h
      split at h
      · rename_i hfields
        cases h
        obtain ⟨pairs, hpairs, hm⟩ := bind_eq_ok.mp hfields
        rw [← pure_eq_ok.mp hm]
        exact holdsTable_ofPairs hpairs name
      · cases h
  | _ => cases h

theorem ofFields_eq_error {fields : List (String × Json)} {e : Misfit} :
    ofFields name fields = .error e ↔ fields.mapM pairOf = .error e := by
  simp [ofFields, map_eq_error]

theorem ofTable_eq_error : ofTable path name data = .error f ↔
    (∃ before p after, data = .obj (before ++ p :: after) ∧
      (∀ q ∈ before, ∃ id, registerOf? q.1 = some id) ∧ registerOf? p.1 = none ∧
        f = .misfit (.notInteger p.1)) ∨
    ((∀ names, data ≠ .arr names) ∧ ∀ fields, data ≠ .obj fields) ∧
      f = .notARegisterTable path := by
  cases data with
  | arr names => simp [ofTable]
  | obj fields =>
      rw [ofTable]
      constructor
      · intro h
        split at h
        · cases h
        · rename_i e he
          cases h
          obtain ⟨before, p, after, rfl, hbefore, hp, rfl⟩ :=
            pairs_eq_error.mp (ofFields_eq_error.mp he)
          exact .inl ⟨before, p, after, rfl, hbefore, hp, rfl⟩
      · rintro (⟨before, p, after, hdata, hbefore, hp, rfl⟩ | ⟨⟨-, hfields⟩, -⟩)
        · cases hdata
          rw [ofFields_eq_error.mpr (pairs_eq_error.mpr ⟨before, p, after, rfl, hbefore, hp, rfl⟩)]
        · exact absurd rfl (hfields fields)
  | _ => simp [ofTable, eq_comm]

theorem load_of_holdsText (h : HoldsText d path text) (name : String) :
    load d path name = match Json.read text with
      | .error e => .error (.misread e)
      | .ok data =>
        ofTable path (if name = "" then (Path.ofString path).stem else name) data := by
  obtain ⟨bytes, cs, hbytes, hcs, rfl⟩ := h
  cases hread : Json.read (Text.unifyNewlines cs) with
  | error e => simp only [load, hbytes, ok_bind, readTable, hcs, hread]
  | ok data => simp only [load, hbytes, ok_bind, readTable, hcs, hread]

-- What stands in the way of a text is what is told.
theorem holdsText_or_refused (d : Disk) (path : String) :
    (∃ text, HoldsText d path text) ∨
      ∃ f, Refused d path f ∧ ∀ name, load d path name = .error f := by
  cases hbytes : d.contents (.ofString path) with
  | error e => exact .inr ⟨e, .unreadable hbytes, fun name => by rw [load, hbytes]; rfl⟩
  | ok bytes =>
      cases hcs : Text.Utf8.decode bytes with
      | error e =>
          refine .inr ⟨.undecodable e, .noText hbytes hcs, fun name => ?_⟩
          simp only [load, hbytes, ok_bind, readTable, hcs]
      | ok cs => exact .inl ⟨_, bytes, cs, hbytes, hcs, rfl⟩

theorem refused_of_load (h : load d path name = .error f) : Refused d path f := by
  rcases holdsText_or_refused d path with ⟨text, htext⟩ | ⟨g, hg, hload⟩
  · rw [load_of_holdsText htext] at h
    split at h
    · rename_i e he
      cases h
      exact .noJson htext he
    · rename_i data hdata
      rcases ofTable_eq_error.mp h with
        ⟨before, p, after, rfl, hbefore, hp, rfl⟩ | ⟨⟨hnames, hfields⟩, rfl⟩
      · exact .noRegister htext hdata hbefore hp
      · exact .noTable htext hdata hnames hfields
  · rw [hload] at h
    cases h
    exact hg

theorem Refused.load_eq (h : Refused d path f) (name : String) : load d path name = .error f := by
  cases h with
  | unreadable h =>
      rw [load, h]
      rfl
  | noText h he =>
      simp only [load, h, ok_bind, readTable, he]
  | noJson h he => rw [load_of_holdsText h, he]
  | noRegister h hdata hbefore hp =>
      rw [load_of_holdsText h, hdata]
      exact ofTable_eq_error.mpr (.inl ⟨_, _, _, rfl, hbefore, hp, rfl⟩)
  | noTable h hdata hnames hfields =>
      rw [load_of_holdsText h, hdata]
      exact ofTable_eq_error.mpr (.inr ⟨⟨hnames, hfields⟩, rfl⟩)

theorem holdsTable_of_load (h : load d path name = .ok m) :
    ∃ text data, HoldsText d path text ∧ Json.read text = .ok data ∧ HoldsTable data m := by
  rcases holdsText_or_refused d path with ⟨text, htext⟩ | ⟨g, -, hload⟩
  · rw [load_of_holdsText htext] at h
    split at h
    · cases h
    · rename_i data hdata
      exact ⟨text, data, htext, hdata, holdsTable_of_ofTable h⟩
  · rw [hload] at h
    cases h

theorem Refused.isSystem_or_isValueFlaw (h : Refused d path f) :
    f.isSystem = true ∨ f.isValueFlaw = true := by
  cases h with
  | unreadable h =>
      simp only [Disk.contents, Disk.checked] at h
      split at h
      · cases h
        exact .inr rfl
      · split at h
        · cases h
        · cases h
          exact .inl rfl
  | noText | noJson | noRegister | noTable => exact .inr rfl

end Load

-- The fields of an object are those that its text has written, a repeated key with its first place
-- and its last value.
def MergesWritten (text : List Char) (data : Json) : Prop :=
  ∀ fields, data = .obj fields → ∃ written, Json.WritesObject text written ∧
    Json.Merges written fields

theorem mergesWritten_of_read {text : List Char} {data : Json} (h : Json.read text = .ok data) :
    MergesWritten text data := by
  rintro fields rfl
  rw [Json.read] at h
  split at h
  · rename_i hread
    cases h
    exact Json.writesObject_of_readText hread
  · cases h

-- A file that holds no table is refused, and any other is read as the table that it holds.
theorem load_tells (d : Disk) (path name : String) :
    (∀ f, load d path name = .error f ↔ Refused d path f) ∧
      (∀ f, Refused d path f → f.isSystem = true ∨ f.isValueFlaw = true) ∧
        ∀ m, load d path name = .ok m → ∃ text data, HoldsText d path text ∧
          Json.read text = .ok data ∧ MergesWritten text data ∧ Tells data m := by
  refine ⟨fun f => ⟨refused_of_load, fun h => h.load_eq name⟩,
    fun f h => h.isSystem_or_isValueFlaw, fun m h => ?_⟩
  obtain ⟨text, data, htext, hdata, hlisted⟩ := holdsTable_of_load h
  exact ⟨text, data, htext, hdata, mergesWritten_of_read hdata, hlisted.tells⟩

-- A table with keys that mean one register, a repeated key and a key in other digits.
def repeatedKeys : String :=
  "\x7b\"1\": \"a\", \"+1\": \"b\", \"1\": \"c\", \"-3\": null, \" \u0664 \": 5\x7d"

def tableFile : Disk :=
  { entries := [([], .directory), (["home"], .directory),
      (["home", "regs.json"], .file (Text.Utf8.ofString repeatedKeys) false)] }

def repeatedMachine : Machine := ⟨"regs", [(1, .str "b"), (-3, .null), (4, .int 5)]⟩

theorem load_tells_repeated :
    load tableFile "regs.json" "" = .ok repeatedMachine ∧
      ∃ text data, HoldsText tableFile "regs.json" text ∧ Json.read text = .ok data ∧
        MergesWritten text data ∧ Tells data repeatedMachine := by
  have hload : load tableFile "regs.json" "" = .ok repeatedMachine := by decide +kernel
  exact ⟨hload, (load_tells tableFile "regs.json" "").2.2 repeatedMachine hload⟩

end Listing.Machine
