import Listing.Instruction
import Listing.Proofs.Outcome

namespace Listing

namespace Operand

-- What data say of an operand that is read from them.
inductive ReadFrom (data : Json) : Operand → Prop
  | register {value : Json} (htype : data.get "type" .null = .ok (.str "register"))
      (hvalue : data.get "value" .null = .ok value) : ReadFrom data (.register (.str value.text))
  | integer {value : Json} {n : Int} (htype : data.get "type" .null = .ok (.str "integer"))
      (hvalue : data.get "value" .null = .ok value) (hn : value.toInt = .ok n) :
      ReadFrom data (.integer n)
  | label {value : Json} (htype : data.get "type" .null = .ok (.str "label"))
      (hvalue : data.get "value" .null = .ok value) : ReadFrom data (.label value.text)

theorem ofJson_eq_ok {data : Json} {o : Operand} : ofJson data = .ok o ↔ ReadFrom data o := by
  constructor
  · intro h
    rw [ofJson] at h
    obtain ⟨type, htype, h⟩ := bind_eq_ok.mp h
    obtain ⟨value, hvalue, h⟩ := bind_eq_ok.mp h
    split at h
    · rename_i hregister
      cases h
      exact .register (hregister ▸ htype) hvalue
    · split at h
      · rename_i hinteger
        obtain ⟨n, hn, h⟩ := bind_eq_ok.mp h
        cases h
        exact .integer (hinteger ▸ htype) hvalue hn
      · split at h
        · rename_i hlabel
          cases h
          exact .label (hlabel ▸ htype) hvalue
        · cases h
  · intro h
    cases h with
    | register htype hvalue =>
        rw [ofJson, htype, hvalue]
        rfl
    | integer htype hvalue hn =>
        rw [ofJson, htype, hvalue]
        simp only [ok_bind]
        rw [hn]
        rfl
    | label htype hvalue =>
        rw [ofJson, htype, hvalue]
        rfl

end Operand

namespace Instruction

-- Only what is made of strings has a text.
theorem text_isOk {i : Instruction} :
    (∃ text, i.text = .ok text) ↔
      (∃ opcode, i.opcode = .str opcode) ∧ ∀ o ∈ i.operands, ∃ text, o.text = .ok text := by
  rw [← mapM_isOk]
  simp only [Instruction.text, bind_eq_ok]
  constructor
  · rintro ⟨_, texts, htexts, h⟩
    split at h
    · rename_i opcode hopcode
      exact ⟨⟨opcode, hopcode⟩, texts, htexts⟩
    · cases h
  · rintro ⟨⟨opcode, hopcode⟩, texts, htexts⟩
    exact ⟨" ".intercalate (opcode :: texts), texts, htexts, by rw [hopcode]; rfl⟩

-- What data say of an instruction that is read from them.
structure ReadFrom (offset : Int) (data : Json) (i : Instruction) : Prop where
  opcode : data.item "opcode" = .ok i.opcode
  labels : ∃ held, data.get "labels" (.arr []) = .ok held ∧ held.elements = .ok i.labels
  operands : ∃ held items, data.get "operands" (.arr []) = .ok held ∧
    held.elements = .ok items ∧ items.mapM Operand.ofJson = .ok i.operands
  line : ∃ held n, data.get "line" (.int 0) = .ok held ∧ held.toInt = .ok n ∧
    i.line = .int (n + offset)
  column : ∃ held n, data.get "column" (.int 0) = .ok held ∧ held.toInt = .ok n ∧
    i.column = .int n

theorem readFrom_of_ofJson {offset : Int} {data : Json} {i : Instruction}
    (h : ofJson offset data = .ok i) : ReadFrom offset data i := by
  rw [ofJson] at h
  obtain ⟨⟨head, line⟩, hhead, h⟩ := bind_eq_ok.mp h
  obtain ⟨heldColumn, hheldColumn, h⟩ := bind_eq_ok.mp h
  obtain ⟨column, hcolumn, h⟩ := bind_eq_ok.mp h
  cases h
  rw [readHead] at hhead
  obtain ⟨opcode, hopcode, hhead⟩ := bind_eq_ok.mp hhead
  obtain ⟨heldLabels, hheldLabels, hhead⟩ := bind_eq_ok.mp hhead
  obtain ⟨labels, hlabels, hhead⟩ := bind_eq_ok.mp hhead
  obtain ⟨heldOperands, hheldOperands, hhead⟩ := bind_eq_ok.mp hhead
  obtain ⟨items, hitems, hhead⟩ := bind_eq_ok.mp hhead
  obtain ⟨operands, hoperands, hhead⟩ := bind_eq_ok.mp hhead
  obtain ⟨heldLine, hheldLine, hhead⟩ := bind_eq_ok.mp hhead
  obtain ⟨n, hn, hhead⟩ := bind_eq_ok.mp hhead
  cases hhead
  exact {
    opcode := hopcode
    labels := ⟨heldLabels, hheldLabels, hlabels⟩
    operands := ⟨heldOperands, items, hheldOperands, hitems, hoperands⟩
    line := ⟨heldLine, _, hheldLine, hn, rfl⟩
    column := ⟨heldColumn, column, hheldColumn, hcolumn, rfl⟩ }

end Instruction
end Listing
