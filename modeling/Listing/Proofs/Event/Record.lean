import Listing.Event
import Listing.Proofs.Json.Access

namespace Listing

namespace RawOperand

-- What the checks of a reported operand let pass.
structure Checked (r : RawOperand) : Prop where
  kind : isAmong kinds r.kind = .ok true
  expressionKind : r.expressionKind = .null ∨ isAmong expressionKinds r.expressionKind = .ok true
  immediate : r.kind = .str "imm" → r.value.int? ≠ none

-- What the last check lets pass.
private theorem immediate_of_last {kind value expressionKind : Json} {m : Misfit} {r : RawOperand}
    (h : (if kind = .str "imm" ∧ value.int? = none then
        (do .error m; pure ⟨kind, value, expressionKind⟩)
      else pure ⟨kind, value, expressionKind⟩ : Except Misfit RawOperand) = .ok r) :
    (kind = .str "imm" → value.int? ≠ none) ∧ r = ⟨kind, value, expressionKind⟩ := by
  split at h
  · cases h
  · rename_i himmediate
    exact ⟨fun hk hv => himmediate ⟨hk, hv⟩, (pure_eq_ok.mp h).symm⟩

-- Reading takes the three fields as they are, and checks them.
theorem ofJson_eq_ok {data : Json} {r : RawOperand} :
    ofJson data = .ok r ↔ data.item "kind" = .ok r.kind ∧ data.get "value" .null = .ok r.value ∧
      data.get "expr_kind" .null = .ok r.expressionKind ∧ r.Checked := by
  simp only [ofJson, bind_eq_ok]
  constructor
  · rintro ⟨kind, hkind, value, hvalue, expressionKind, hexpression, known, hknown, h⟩
    split at h
    case isFalse => cases h
    rename_i hok
    rw [hok] at hknown
    split at h
    · rename_i hnull
      obtain ⟨himmediate, rfl⟩ := immediate_of_last h
      exact ⟨hkind, hvalue, hexpression, hknown, .inl hnull, himmediate⟩
    · obtain ⟨among, hamong, h⟩ := bind_eq_ok.mp h
      split at h
      · rename_i hok
        rw [hok] at hamong
        obtain ⟨himmediate, rfl⟩ := immediate_of_last h
        exact ⟨hkind, hvalue, hexpression, hknown, .inr hamong, himmediate⟩
      · cases h
  · rintro ⟨hkind, hvalue, hexpression, hchecked⟩
    refine ⟨_, hkind, _, hvalue, _, hexpression, true, hchecked.kind, ?_⟩
    have himmediate : ¬(r.kind = .str "imm" ∧ r.value.int? = none) :=
      fun h => hchecked.immediate h.1 h.2
    rw [if_pos rfl, if_neg himmediate]
    rcases hchecked.expressionKind with hnull | hamong
    · rw [if_pos hnull]
      rfl
    · split
      · rfl
      · rw [hamong]
        rfl

-- An expression kind that is left out reads as null, which is why it was left out.
theorem ofJson_toJson {r : RawOperand} (h : r.Checked) : ofJson r.toJson = .ok r := by
  refine ofJson_eq_ok.mpr ⟨rfl, rfl, ?_, h⟩
  by_cases hnull : r.expressionKind = .null
  · simp [toJson, Json.get, Json.lookup, hnull]
  · simp [toJson, Json.get, Json.lookup, hnull]

theorem hasDistinctKeys_toJson {data : Json} {r : RawOperand} (hdata : data.hasDistinctKeys = true)
    (h : ofJson data = .ok r) : r.toJson.hasDistinctKeys = true := by
  obtain ⟨hkind, hvalue, hexpression, -⟩ := ofJson_eq_ok.mp h
  have hkind := Json.everywhere_item hdata hkind
  have hvalue := Json.everywhere_get hdata rfl hvalue
  have hexpression := Json.everywhere_get hdata rfl hexpression
  rw [toJson, Json.hasDistinctKeys_obj]
  split
  · simpa using ⟨hkind, hvalue⟩
  · simpa using ⟨hkind, hvalue, hexpression⟩

end RawOperand

namespace Event

def operands : Event → List RawOperand
  | instruction _ operands _ => operands
  | _ => []

-- The record's values that an event keeps as they are. All else in it is converted.
def Keeps (data : Json) : Event → Prop
  | label name _ => data.item "name" = .ok name
  | instruction opcode operands _ =>
    data.item "opcode" = .ok opcode ∧ ∃ reported items,
      data.get "operands" (.arr []) = .ok reported ∧ reported.elements = .ok items ∧
        items.mapM RawOperand.ofJson = .ok operands
  | symbolAttribute symbol property =>
    data.item "symbol" = .ok symbol ∧ data.get "attribute" (.str "") = .ok property
  | commonSymbol symbol _ _ => data.item "symbol" = .ok symbol
  | zeroFill area symbol _ _ _ =>
    data.item "section" = .ok area ∧ data.get "symbol" .null = .ok symbol

theorem keeps_of_ofJson {data : Json} {e : Event} (h : ofJson data = .ok (some e)) :
    e.Keeps data := by
  rw [ofJson] at h
  obtain ⟨type, -, h⟩ := bind_eq_ok.mp h
  split at h
  · obtain ⟨name, hname, h⟩ := bind_eq_ok.mp h
    obtain ⟨location, -, h⟩ := bind_eq_ok.mp h
    cases h
    exact hname
  · obtain ⟨opcode, hopcode, h⟩ := bind_eq_ok.mp h
    obtain ⟨reported, hreported, h⟩ := bind_eq_ok.mp h
    obtain ⟨items, hitems, h⟩ := bind_eq_ok.mp h
    obtain ⟨operands, hoperands, h⟩ := bind_eq_ok.mp h
    obtain ⟨location, -, h⟩ := bind_eq_ok.mp h
    cases h
    exact ⟨hopcode, reported, items, hreported, hitems, hoperands⟩
  · obtain ⟨symbol, hsymbol, h⟩ := bind_eq_ok.mp h
    obtain ⟨property, hproperty, h⟩ := bind_eq_ok.mp h
    cases h
    exact ⟨hsymbol, hproperty⟩
  · obtain ⟨symbol, hsymbol, h⟩ := bind_eq_ok.mp h
    obtain ⟨size, -, h⟩ := bind_eq_ok.mp h
    obtain ⟨alignment, -, h⟩ := bind_eq_ok.mp h
    cases h
    exact hsymbol
  · obtain ⟨area, harea, h⟩ := bind_eq_ok.mp h
    obtain ⟨symbol, hsymbol, h⟩ := bind_eq_ok.mp h
    obtain ⟨size, -, h⟩ := bind_eq_ok.mp h
    obtain ⟨alignment, -, h⟩ := bind_eq_ok.mp h
    obtain ⟨location, -, h⟩ := bind_eq_ok.mp h
    cases h
    exact ⟨harea, hsymbol⟩
  · cases h

theorem checked_of_ofJson {data : Json} {e : Event} (h : ofJson data = .ok (some e)) :
    ∀ r ∈ e.operands, r.Checked := by
  intro r hr
  have hkeeps := keeps_of_ofJson h
  cases e with
  | instruction opcode operands location =>
      obtain ⟨-, reported, items, -, -, hoperands⟩ := hkeeps
      obtain ⟨item, -, hread⟩ := mem_of_mapM hoperands hr
      exact (RawOperand.ofJson_eq_ok.mp hread).2.2.2
  | _ => cases hr

theorem operands_map_toJson {operands : List RawOperand} (h : ∀ r ∈ operands, r.Checked) :
    (operands.map RawOperand.toJson).mapM RawOperand.ofJson = .ok operands := by
  have hread : ∀ r ∈ operands, RawOperand.ofJson r.toJson = .ok r := fun r hr =>
    RawOperand.ofJson_toJson (h r hr)
  rw [mapM_map_of_forall hread, List.map_id']

-- A record holds all that its event does, in the form in which it is read.
theorem ofJson_toJson {e : Event} (h : ∀ r ∈ e.operands, r.Checked) :
    ofJson e.toJson = .ok (some e) := by
  cases e with
  | instruction opcode operands location =>
      have hoperands : (operands.map RawOperand.toJson).mapM RawOperand.ofJson = .ok operands :=
        operands_map_toJson h
      change (do
        let read ← (operands.map RawOperand.toJson).mapM RawOperand.ofJson
        return some (instruction opcode read location)) = Except.ok (some _)
      rw [hoperands]
      rfl
  | _ => rfl

theorem hasDistinctKeys_toJson {data : Json} {e : Event} (hdata : data.hasDistinctKeys = true)
    (h : ofJson data = .ok (some e)) : e.toJson.hasDistinctKeys = true := by
  have hkeeps := keeps_of_ofJson h
  cases e with
  | label name location =>
      have hname : name.hasDistinctKeys = true := Json.everywhere_item hdata hkeeps
      simp [toJson, locationFields, hname]
  | instruction opcode operands location =>
      obtain ⟨hopcode, reported, items, hreported, hitems, hoperands⟩ := hkeeps
      have hopcode : opcode.hasDistinctKeys = true := Json.everywhere_item hdata hopcode
      have hreported : reported.hasDistinctKeys = true := Json.everywhere_get hdata rfl hreported
      have hall : ∀ r ∈ operands, r.toJson.hasDistinctKeys = true := by
        intro r hr
        obtain ⟨item, hitem, hread⟩ := mem_of_mapM hoperands hr
        have hitem := Json.everywhere_elements (fun _ => rfl) hreported hitems item hitem
        exact RawOperand.hasDistinctKeys_toJson hitem hread
      simpa [toJson, locationFields, hopcode] using hall
  | symbolAttribute symbol property =>
      have hsymbol : symbol.hasDistinctKeys = true := Json.everywhere_item hdata hkeeps.1
      have hproperty : property.hasDistinctKeys = true := Json.everywhere_get hdata rfl hkeeps.2
      simp [toJson, hsymbol, hproperty]
  | commonSymbol symbol size alignment =>
      have hsymbol : symbol.hasDistinctKeys = true := Json.everywhere_item hdata hkeeps
      simp [toJson, hsymbol]
  | zeroFill area symbol size alignment location =>
      have harea : area.hasDistinctKeys = true := Json.everywhere_item hdata hkeeps.1
      have hsymbol : symbol.hasDistinctKeys = true := Json.everywhere_get hdata rfl hkeeps.2
      simp [toJson, locationFields, harea, hsymbol]

theorem toJson_eq_obj (e : Event) : ∃ f fs, e.toJson = .obj (f :: fs) := by
  cases e with
  | _ => exact ⟨_, _, rfl⟩

end Event
end Listing
