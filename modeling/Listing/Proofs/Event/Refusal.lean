import Listing.Proofs.Event.Record
import Listing.Proofs.Json.Conversion

namespace Listing

namespace RawOperand

theorem isAmong_failsOnly (names : List String) (v : Json) :
    FailsOnly Misfit.IsFlaw (isAmong names v) := by
  cases v with
  | arr items => exact failsOnly_error (.inr (.inl rfl))
  | obj fields => exact failsOnly_error (.inr (.inl rfl))
  | _ => exact failsOnly_ok _

-- Whatever stands where an operand should, its refusal is a flaw.
theorem ofJson_failsOnly (data : Json) : FailsOnly Misfit.IsFlaw (ofJson data) := by
  rw [ofJson]
  refine .bind (Json.item_failsOnly _ _) fun kind hkind => ?_
  cases data with
  | obj fields =>
      refine .bind (failsOnly_ok _) fun value _ => .bind (failsOnly_ok _) fun expressionKind _ =>
        .bind (isAmong_failsOnly _ _) fun known _ => ?_
      have hlast : FailsOnly Misfit.IsFlaw
          (if kind = .str "imm" ∧ value.int? = none then
            (do .error (.immediateNotInteger value); pure ⟨kind, value, expressionKind⟩)
          else pure ⟨kind, value, expressionKind⟩ : Except Misfit RawOperand) := by
        split
        · exact failsOnly_error (.inr (.inr rfl))
        · exact failsOnly_ok _
      dsimp only
      split
      · split
        · exact hlast
        · refine .bind (isAmong_failsOnly _ _) fun among _ => ?_
          split
          · exact hlast
          · exact failsOnly_error (.inr (.inr rfl))
      · exact failsOnly_error (.inr (.inr rfl))
  | _ => cases hkind

end RawOperand

namespace Event

-- What is asked of the records of one type: a field that has to be there, operands that have to
-- be accepted, and fields that are converted to integers in turn, each with its default.
structure Form where
  required : String
  hasOperands : Bool := false
  integers : List (String × Int) := []
deriving DecidableEq

def placeFields : List (String × Int) := [("line", 0), ("column", 0)]

def sizeFields : List (String × Int) := [("size", 0), ("alignment", 1)]

-- The types of events, and their forms.
def form? : Json → Option Form
  | .str "label" => some { required := "name", integers := placeFields }
  | .str "instruction" =>
    some { required := "opcode", hasOperands := true, integers := placeFields }
  | .str "symbol_attribute" => some { required := "symbol" }
  | .str "common_symbol" => some { required := "symbol", integers := sizeFields }
  | .str "zerofill" => some { required := "section", integers := sizeFields ++ placeFields }
  | _ => none

-- The type that a record states; null if it states none.
def typeOf (fields : List (String × Json)) : Json := (Json.lookup "event" fields).getD .null

-- The operands that a record reports, as they are accepted.
def operandsIn (fields : List (String × Json)) : Except Misfit (List RawOperand) := do
  (← ((Json.lookup "operands" fields).getD (.arr [])).elements).mapM RawOperand.ofJson

theorem operandsIn_failsOnly (fields : List (String × Json)) :
    FailsOnly Misfit.IsFlaw (operandsIn fields) := by
  refine .bind (Json.elements_failsOnly _) fun items _ => ?_
  exact failsOnly_mapM fun item _ => RawOperand.ofJson_failsOnly item

-- A record against a form, in the order in which it is read.
def Form.check (form : Form) (fields : List (String × Json)) : Except Misfit Unit := do
  let _ ← (Json.obj fields).item form.required
  if form.hasOperands then let _ ← operandsIn fields
  let _ ← form.integers.mapM fun key => intField key.1 key.2 (.obj fields)

-- A record is an event if its form accepts it, and is refused as its form refuses it. A record of
-- no known type is passed over.
theorem isSome_ofJson (fields : List (String × Json)) :
    Option.isSome <$> ofJson (.obj fields) =
      match form? (typeOf fields) with
      | some form => (fun _ => true) <$> form.check fields
      | none => .ok false := by
  have htype : (Json.obj fields).get "event" .null = .ok (typeOf fields) := rfl
  simp only [ofJson, htype, ok_bind]
  generalize typeOf fields = type
  split
  · simp [form?, Form.check, locationOf, placeFields]
  · simp [form?, Form.check, locationOf, placeFields, operandsIn, Json.get_obj, ok_bind]
  · simp only [form?, Form.check, Json.get_obj]
    cases (Json.obj fields).item "symbol" with
    | error m => rfl
    | ok symbol => rfl
  · simp [form?, Form.check, sizeFields]
  · simp [form?, Form.check, locationOf, placeFields, sizeFields, Json.get_obj, ok_bind]
  · simp [form?, *]
    rfl

theorem ofJson_eq_error {fields : List (String × Json)} {m : Misfit} :
    ofJson (.obj fields) = .error m ↔
      ∃ form, form? (typeOf fields) = some form ∧ form.check fields = .error m := by
  rw [← map_eq_error (g := Option.isSome), isSome_ofJson]
  split
  · rename_i form hform
    simp [hform, map_eq_error]
  · rename_i hform
    simp [hform]

theorem ofJson_eq_none {fields : List (String × Json)} :
    ofJson (.obj fields) = .ok none ↔ form? (typeOf fields) = none := by
  have hnone : ofJson (.obj fields) = .ok none ↔
      Option.isSome <$> ofJson (.obj fields) = .ok false := by
    simp [map_eq_ok]
  rw [hnone, isSome_ofJson]
  split
  · rename_i form hform
    simp [hform, map_eq_ok]
  · rename_i hform
    simp [hform]

section Infinity

variable {fields : List (String × Json)}

-- The conversion of a record comes to an infinite number: nothing that is read before it is
-- refused.
def ReachesInfinity (fields : List (String × Json)) : Prop :=
  ∃ form, form? (typeOf fields) = some form ∧
    (∃ v, Json.lookup form.required fields = some v) ∧
    (form.hasOperands = true → ∃ operands, operandsIn fields = .ok operands) ∧
    ∃ before key after, form.integers = before ++ key :: after ∧
      (∀ k ∈ before, ∃ n, intField k.1 k.2 (.obj fields) = .ok n) ∧
      ∃ v, Json.lookup key.1 fields = some v ∧ v.IsInfinite

theorem Form.check_eq_infinity {form : Form} :
    form.check fields = .error .infinityToInteger ↔
      (∃ v, Json.lookup form.required fields = some v) ∧
      (form.hasOperands = true → ∃ operands, operandsIn fields = .ok operands) ∧
      form.integers.mapM (fun key => intField key.1 key.2 (.obj fields)) =
        .error .infinityToInteger := by
  have hoperands {f : List RawOperand → Except Misfit Unit} :=
    (operandsIn_failsOnly fields).bind_eq_error (f := f) Misfit.not_isFlaw_infinity
  rw [check, (Json.item_failsOnly _ _).bind_eq_error Misfit.not_isFlaw_infinity]
  simp only [Json.item_obj_eq_ok]
  cases form.hasOperands with
  | false => simp [map_eq_error]
  | true => simp [hoperands, map_eq_error]

theorem ofJson_eq_infinity :
    ofJson (.obj fields) = .error .infinityToInteger ↔ ReachesInfinity fields := by
  simp only [ofJson_eq_error, Form.check_eq_infinity, mapM_eq_error, intField, Json.get_obj,
    ok_bind, Json.toInt_eq_infinity, Json.isInfinite_getD (Json.not_isInfinite_int _),
    ReachesInfinity]

-- Otherwise a refusal is a flaw of the record.
theorem Form.check_failsOnly (form : Form) :
    FailsOnly (fun m => m.IsFlaw ∨ m = .infinityToInteger) (form.check fields) := by
  have hintegers : FailsOnly (fun m => m.IsFlaw ∨ m = .infinityToInteger)
      (form.integers.mapM fun key => intField key.1 key.2 (.obj fields)) :=
    failsOnly_mapM fun key _ => (Json.toInt_failsOnly _).imp fun _ h => h.imp id And.left
  refine .bind ((Json.item_failsOnly _ _).imp fun _ => .inl) fun _ _ => ?_
  split
  · exact .bind ((operandsIn_failsOnly _).imp fun _ => .inl) fun _ _ =>
      .bind hintegers fun _ _ => failsOnly_ok _
  · exact .bind hintegers fun _ _ => failsOnly_ok _

theorem ofJson_failsOnly :
    FailsOnly (fun m => m.IsFlaw ∨ m = .infinityToInteger) (ofJson (.obj fields)) := by
  intro m hm
  obtain ⟨form, -, hcheck⟩ := ofJson_eq_error.mp hm
  exact form.check_failsOnly m hcheck

end Infinity

end Event
end Listing
